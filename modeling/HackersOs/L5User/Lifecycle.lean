import HackersOs.L5User.Shell

/-!
# What a `run` command gives back

A program takes a process slot and four pages of kernel stack; `reap_zombies`
returns both once the slot is a zombie. `sys_exit` and the fault handler mark
`get_current()`, so the slot comes back exactly when `current_process` names it
(`lifecycle_iff`). The marks of the page allocator are all that is needed of
the machine here.
-/
namespace HackersOs.L5
open HackersOs.Core L2 L2.Mmu L2.Pages

variable {n stack : Nat} {p : Process} {read : Option (Mem × Nat)}

/-! ## Marks only grow -/

/-- No page is given back between `s` and `s'`. -/
structure Marks (s s' : Machine) : Prop where
  total : s'.pages.totalPages = s.pages.totalPages
  bits : ∀ i, bitmapTest s.pages.bitmap i = true → bitmapTest s'.pages.bitmap i = true

section
variable {kpgd : Nat} {s s' s'' : Machine} {k k1 : Kernel} {i : Fin 64}

theorem Marks.refl (s : Machine) : Marks s s := ⟨rfl, fun _ h => h⟩

theorem Marks.trans (h : Marks s s') (h' : Marks s' s'') : Marks s s'' :=
  ⟨h'.total.trans h.total, fun i hi => h'.bits i (h.bits i hi)⟩

theorem Marks.count (h : Marks s s') : freeCount s'.pages ≤ freeCount s.pages := by
  unfold freeCount
  rw [h.total]
  apply Finset.card_le_card
  intro i hi
  rw [Finset.mem_filter] at hi ⊢
  refine ⟨hi.1, ?_⟩
  by_contra hset
  rw [h.bits i (Bool.eq_true_of_not_eq_false hset)] at hi
  exact absurd hi.2 (by decide)

theorem marks_allocPage (s : Machine) : Marks s s.allocPage.1 := by
  rcases allocPage_cases s with h | ⟨i, -, h⟩
  · rw [h]
    exact .refl s
  · rw [h]
    refine ⟨take_totalPages _ _ _, fun j hj => ?_⟩
    simp [bitmapTest_take_one, hj]

theorem marks_getOrCreateTable (s : Machine) (t n : Nat) : Marks s (s.getOrCreateTable t n).1 := by
  have ha := marks_allocPage s
  unfold Machine.getOrCreateTable
  split
  · dsimp only
    split
    · exact ha
    · exact ⟨ha.total, ha.bits⟩
  · exact .refl s

theorem marks_mapUserPage (s : Machine) (pgd virt phys flags : Nat) :
    Marks s (s.mapUserPage pgd virt phys flags) := by
  have h2 := marks_getOrCreateTable s pgd (l1Idx virt)
  have h3 := h2.trans (marks_getOrCreateTable _ (s.getOrCreateTable pgd (l1Idx virt)).2 (l2Idx virt))
  have h : Marks s (s.mapPageInTable pgd virt phys flags) := by
    unfold Machine.mapPageInTable
    dsimp only
    split
    · exact h2
    · split
      · exact h3
      · exact ⟨h3.total, h3.bits⟩
  exact ⟨h.total, h.bits⟩

theorem marks_mapFresh (pgd n va : Nat) (s : Machine) : Marks s (mapFresh pgd n va s).1 := by
  induction n generalizing va s with
  | zero => exact .refl s
  | succ n ih =>
    rw [mapFresh]
    have ha := marks_allocPage s
    split
    · exact ha
    · refine Marks.trans ?_ (ih _ _)
      split
      · exact ha
      · exact ha.trans (marks_mapUserPage ..)

theorem marks_premap (s : Machine) (pgd n : Nat) : Marks s (premap s pgd n) := by
  induction n with
  | zero => exact .refl s
  | succ n ih =>
    rw [premap]
    have ha := ih.trans (marks_allocPage _)
    split
    · exact ha
    · exact ha.trans (marks_mapUserPage ..)

theorem marks_mapStack (s : Machine) (pgd phys n : Nat) : Marks s (mapStack s pgd phys n) := by
  induction n with
  | zero => exact .refl s
  | succ n ih =>
    rw [mapStack]
    exact ih.trans (marks_mapUserPage ..)

/-! ## What a program leaves alone -/

/-- `k'` differs from `k` in the memory calls' own data. -/
structure Calls (k k' : Kernel) : Prop where
  procs : k'.procs = k.procs
  current : k'.current = k.current
  marks : Marks k.machine k'.machine

theorem Calls.refl (k : Kernel) : Calls k k := ⟨rfl, rfl, .refl _⟩

theorem calls_brkInit (k : Kernel) : Calls k k.brkInit := by
  unfold Kernel.brkInit
  split
  · refine ⟨rfl, rfl, ?_⟩
    dsimp only
    split
    · exact .refl _
    · exact marks_premap ..
  · exact .refl k

theorem calls_memCall (k : Kernel) (c : MemCall) : Calls k (k.memCall c).1 := by
  cases c with
  | brk addr =>
    obtain ⟨hp, hc, hm⟩ := calls_brkInit k
    rw [Kernel.memCall, Kernel.sysBrk]
    dsimp only
    split
    · exact ⟨hp, hc, hm⟩
    split
    · exact ⟨hp, hc, hm⟩
    split
    · split
      all_goals exact ⟨hp, hc, hm.trans (marks_mapFresh ..)⟩
    · exact ⟨hp, hc, hm⟩
  | mmap addr length flags =>
    rw [Kernel.memCall, Kernel.sysMmap]
    dsimp only [Kernel.mmapAt]
    split
    · exact .refl k
    split
    · exact ⟨rfl, rfl, marks_mapFresh ..⟩
    · split
      · exact ⟨rfl, rfl, .refl _⟩
      · exact ⟨rfl, rfl, marks_mapFresh ..⟩

theorem calls_memCalls (k : Kernel) (cs : List MemCall) : Calls k (k.memCalls cs) := by
  induction cs generalizing k with
  | nil => exact .refl k
  | cons c cs ih =>
    obtain ⟨hp, hc, hm⟩ := calls_memCall k c
    obtain ⟨hp', hc', hm'⟩ := ih (k.memCall c).1
    exact ⟨hp'.trans hp, hc'.trans hc, hm.trans hm'⟩

/-! ## What a program takes -/

/-- Four pages from `stack` on are taken. -/
def StackTaken (s : Machine) (stack : Nat) : Prop :=
  ∃ j, stack = frame j ∧ j + 4 ≤ s.pages.totalPages ∧
    ∀ n, n < 4 → bitmapTest s.pages.bitmap (j + n) = true

theorem StackTaken.marks (h : StackTaken s stack) (M : Marks s s') :
    StackTaken s' stack := by
  obtain ⟨j, e, hj, hb⟩ := h
  exact ⟨j, e, M.total ▸ hj, fun n hn => M.bits _ (hb n hn)⟩

theorem allocPages_taken {r : Machine × Nat} (hr : s.allocPages kernelStackPages = r) (h : r.2 ≠ 0) :
    StackTaken r.1 r.2 := by
  rcases allocPages_cases s kernelStackPages with h0 | ⟨j, hj, -, he⟩
  · rw [← hr, h0] at h
    exact absurd rfl h
  · rw [← hr, he]
    refine ⟨j, rfl, (take_totalPages _ _ _).symm ▸ hj, fun n hn => ?_⟩
    have : j ≤ j + n ∧ j + n < j + kernelStackPages :=
      ⟨by omega, by simp only [kernelStackPages]; omega⟩
    simp [bitmapTest_take, this]

theorem marks_allocPages (s : Machine) (n : Nat) : Marks s (s.allocPages n).1 := by
  rcases allocPages_cases s n with h | ⟨j, -, -, h⟩
  · rw [h]
    exact .refl s
  · rw [h]
    refine ⟨take_totalPages _ _ _, fun m hm => ?_⟩
    simp [bitmapTest_take, hm]

/-- `k1` is `k` with a ready process in the slot `create_user` picks, its kernel
stack taken. -/
structure Entered (k k1 : Kernel) (i : Fin 64) (p : Process) : Prop where
  slot : k.freeSlot = some i
  procs : k1.procs = Function.update k.procs i p
  ready : p.state = .ready
  current : k1.current = k.current
  stack : StackTaken k1.machine p.kernelStack

theorem createUser_entered {entry pageTable : Nat} (h : k.createUser entry pageTable = (k1, some i)) :
    ∃ p, Entered k k1 i p := by
  unfold Kernel.createUser at h
  cases hs : k.freeSlot with
  | none => rw [hs] at h; cases h
  | some n =>
    rw [hs] at h
    dsimp only at h
    split at h
    · cases h
    rename_i h1
    split at h
    · cases h
    · cases h
      exact ⟨_, hs, rfl, rfl, rfl, (allocPages_taken rfl h1).marks
        ((marks_allocPages ..).trans (marks_mapStack ..))⟩

theorem loadAndExec_entered {pid : Nat} (hp : pid ≠ 0) (h : k.loadAndExec kpgd read = (k1, pid)) :
    ∃ i p, Entered k k1 i p := by
  unfold Kernel.loadAndExec at h
  cases read with
  | none => cases h; exact absurd rfl hp
  | some r =>
    dsimp only at h
    split at h
    · cases h; exact absurd rfl hp
    split at h
    · cases h; exact absurd rfl hp
    split at h
    · cases h; exact absurd rfl hp
    split at h
    · cases h; exact absurd rfl hp
    · rename_i i hi
      cases h
      obtain ⟨p, hs, hprocs, hready, hcur, hst⟩ := createUser_entered (Prod.ext rfl hi)
      exact ⟨i, p, hs, hprocs, hready, hcur, hst⟩

theorem startProgram_entered {j : Fin 64} (h : k.startProgram kpgd read = (k1, some j)) :
    ∃ i p, Entered k k1 i p := by
  unfold Kernel.startProgram at h
  dsimp only at h
  split at h
  · cases h
  rename_i hp
  obtain ⟨i, p, E⟩ := loadAndExec_entered hp Prod.mk.eta.symm
  split at h
  · cases h
  · split at h
    · cases h
      exact ⟨i, p, E.slot, E.procs, E.ready, E.current, E.stack⟩
    · cases h

/-! ## What comes back -/

theorem freeStack_bits {j : Nat} (he : stack = frame j) (hj : j + 4 ≤ s.pages.totalPages)
    (hn : n ≤ 4) : (freeStack s stack n).pages.totalPages = s.pages.totalPages ∧
    ∀ m, bitmapTest (freeStack s stack n).pages.bitmap m =
      (bitmapTest s.pages.bitmap m && !decide (j ≤ m ∧ m < j + n)) := by
  induction n with
  | zero =>
    refine ⟨rfl, fun m => ?_⟩
    have : ¬ (j ≤ m ∧ m < j + 0) := by omega
    rw [freeStack, decide_eq_false this, Bool.not_false, Bool.and_true]
  | succ n ih =>
    obtain ⟨ht, hbit⟩ := ih (by omega)
    have haddr : stack + n * 4096 = frame (j + n) := by rw [he, frame_add]
    obtain ⟨-, ht', -, hbit'⟩ := @freePage_frame (freeStack s stack n) (j + n) (by omega)
    rw [freeStack, haddr]
    refine ⟨ht'.trans ht, fun m => ?_⟩
    rw [hbit', hbit, Bool.and_assoc, ← Bool.not_or, ← Bool.decide_or]
    congr 2
    rw [decide_eq_decide]
    omega

theorem StackTaken.freed (h : StackTaken s stack) (hn : n < 4) :
    ∃ j, stack + n * 4096 = frame j ∧ (freeStack s stack 4).Free j := by
  obtain ⟨j, he, hj, -⟩ := h
  obtain ⟨ht, hbit⟩ := freeStack_bits he hj (Nat.le_refl 4)
  refine ⟨j + n, by rw [he, frame_add], by omega, ?_⟩
  rw [hbit, decide_eq_true ⟨by omega, by omega⟩]
  simp

/-- A slot that is no zombie keeps its state. -/
theorem foldl_reap_keep {l : List (Fin 64)} (h : (k.procs i).state ≠ .zombie) :
    ((l.foldl Kernel.reap k).procs i).state = (k.procs i).state := by
  induction l generalizing k with
  | nil => rfl
  | cons j l ih =>
    have hj : ((k.reap j).procs i).state = (k.procs i).state := by
      rw [reap_state]
      refine if_neg fun hc => h ?_
      rw [hc.1]
      exact hc.2
    rw [List.foldl_cons, ih (hj ▸ h), hj]

theorem count_congr {k' : Kernel}
    (h : ∀ j, (k'.procs j).state = .unused ↔ (k.procs j).state = .unused) : k'.count = k.count := by
  unfold Kernel.count
  congr 1
  refine List.filter_congr fun j _ => ?_
  simp only [ne_eq, decide_not, h j]

theorem freeSlot_ne_none (hi : i ≠ 0) (h : (k.procs i).state = .unused) : k.freeSlot ≠ none := by
  intro hnone
  have := List.find?_eq_none.mp hnone i (List.mem_finRange i)
  simp [hi, h] at this

/-- What a command that ran a program should leave: the slot the program got is
UNUSED and its kernel stack free, the idle process is alive, the count is what
it was, so that the table has room for the next program. -/
def Restored (k k1 k' : Kernel) : Prop :=
  ∃ i, k.freeSlot = some i ∧ (k'.procs i).state = .unused ∧
    (∀ n, n < 4 → ∃ j, (k1.procs i).kernelStack + n * 4096 = frame j ∧ k'.machine.Free j) ∧
    (k'.procs 0).state ≠ .zombie ∧ k'.count = k.count ∧ k'.freeSlot ≠ none

def NoZombies (k : Kernel) : Prop := ∀ j, (k.procs j).state ≠ .zombie

/-- The end of the program when `current_process` names its slot. -/
theorem Entered.restored (E : Entered k k1 i p) (hz : NoZombies k) (hc : k.current = some i)
    (cs : List MemCall) :
    Restored k k1 (k1.memCalls cs).sysExit.reapZombies ∧
      NoZombies (k1.memCalls cs).sysExit.reapZombies := by
  obtain ⟨hi0, hiu⟩ := freeSlot_spec E.slot
  obtain ⟨hprocs, hcur, M⟩ := calls_memCalls k1 cs
  have hst := E.stack.marks M
  generalize k1.memCalls cs = k2 at hprocs hcur M hst
  have hexit : k2.sysExit = k2.setProc i { p with state := .zombie } := by
    rw [Kernel.sysExit, hcur, E.current, hc]
    simp [hprocs, E.procs]
  have hothers : ∀ j, j ≠ i → (k2.sysExit.procs j) = k.procs j := by
    intro j hj
    rw [hexit, Kernel.setProc]
    dsimp only
    rw [Function.update_of_ne hj, hprocs, E.procs, Function.update_of_ne hj]
  have hself : k2.sysExit.procs i = { p with state := .zombie } := by
    rw [hexit, Kernel.setProc]
    exact Function.update_self ..
  have hne : p.kernelStack ≠ 0 := by
    obtain ⟨j, e, -⟩ := hst
    rw [e]
    exact frame_ne_zero j
  have hmach : k2.sysExit.machine = k2.machine := by rw [hexit, Kernel.setProc]
  have hreap : k2.sysExit.reapZombies = k2.sysExit.reap i :=
    reapZombies_one hi0 fun j _ hj => by rw [hothers j hj]; exact hz j
  have hstate : ∀ j, ((k2.sysExit.reap i).procs j).state = (k.procs j).state := by
    intro j
    rw [reap_state, hself]
    by_cases hj : j = i
    · rw [if_pos ⟨hj, rfl⟩, hj, hiu]
    · rw [if_neg fun h => hj h.1, hothers j hj]
  have hfree : (k2.sysExit.reap i).machine = freeStack k2.machine p.kernelStack 4 := by
    rw [Kernel.reap, hself, if_pos rfl]
    rw [if_neg hne, hmach]
    rfl
  rw [hreap]
  refine ⟨⟨i, E.slot, (hstate i).trans hiu, fun n hn => ?_, ?_, ?_, ?_⟩, fun j => ?_⟩
  · rw [E.procs, Function.update_self, hfree]
    exact hst.freed hn
  · rw [hstate]
    exact hz 0
  · exact count_congr fun j => by rw [hstate]
  · exact freeSlot_ne_none hi0 ((hstate i).trans hiu)
  · rw [hstate]
    exact hz j

/-- Otherwise its slot stays READY. -/
theorem Entered.not_restored (E : Entered k k1 i p) (hc : k.current ≠ some i) (cs : List MemCall) :
    ¬ Restored k k1 (k1.memCalls cs).sysExit.reapZombies := by
  rintro ⟨j, hj, hu, -⟩
  obtain rfl : i = j := Option.some.inj (E.slot.symm.trans hj)
  obtain ⟨hprocs, hcur, -⟩ := calls_memCalls k1 cs
  have hready : ((k1.memCalls cs).sysExit.procs i).state = .ready := by
    rw [Kernel.sysExit, hcur, E.current]
    cases hk : k.current with
    | none =>
      rw [hprocs, E.procs, Function.update_self, E.ready]
    | some c =>
      have hic : i ≠ c := fun e => hc (by rw [hk, e])
      dsimp only [Kernel.setProc]
      rw [Function.update_of_ne hic, hprocs, E.procs, Function.update_self, E.ready]
  have hnz : ((k1.memCalls cs).sysExit.procs i).state ≠ .zombie := by
    rw [hready]
    decide
  rw [Kernel.reapZombies, foldl_reap_keep hnz, hready] at hu
  cases hu

/-! ## Sequences of commands -/

/-- Every command of the sequence gets its program going. -/
def AllStart (kpgd : Nat) (k : Kernel) : List Program → Prop
  | [] => True
  | p :: ps => (k.startProgram kpgd p.read).2 ≠ none ∧ AllStart kpgd (k.runCommand kpgd p) ps

/-- Every command of the sequence gives back what its program took. -/
def AllRestored (kpgd : Nat) (k : Kernel) : List Program → Prop
  | [] => True
  | p :: ps => Restored k (k.startProgram kpgd p.read).1 (k.runCommand kpgd p) ∧
      AllRestored kpgd (k.runCommand kpgd p) ps

/-- At every command `current_process` names the slot the program will get. -/
def AllCurrent (kpgd : Nat) (k : Kernel) : List Program → Prop
  | [] => True
  | p :: ps => k.current = k.freeSlot ∧ AllCurrent kpgd (k.runCommand kpgd p) ps

theorem runCommand_restored_iff (hz : NoZombies k) {p : Program}
    (hs : (k.startProgram kpgd p.read).2 ≠ none) :
    (Restored k (k.startProgram kpgd p.read).1 (k.runCommand kpgd p) ↔ k.current = k.freeSlot) ∧
      (k.current = k.freeSlot → NoZombies (k.runCommand kpgd p)) := by
  unfold Kernel.runCommand
  generalize hr : k.startProgram kpgd p.read = r at hs
  obtain ⟨k1, _ | j⟩ := r
  · exact absurd rfl hs
  obtain ⟨i, q, E⟩ := startProgram_entered hr
  dsimp only
  rw [endProgram_eq, E.slot]
  by_cases hc : k.current = some i
  · obtain ⟨hR, hN⟩ := E.restored hz hc p.calls
    exact ⟨iff_of_true hR hc, fun _ => hN⟩
  · exact ⟨iff_of_false (E.not_restored hc p.calls) hc, fun h => absurd h hc⟩

/-- Commands give back what their programs took exactly when `current_process`
names the program's slot at each of them. -/
theorem lifecycle_iff {ps : List Program} (hz : NoZombies k) (hs : AllStart kpgd k ps) :
    AllRestored kpgd k ps ↔ AllCurrent kpgd k ps := by
  induction ps generalizing k with
  | nil => exact Iff.rfl
  | cons p ps ih =>
    obtain ⟨hiff, hN⟩ := runCommand_restored_iff hz hs.1
    rw [AllRestored, AllCurrent, hiff]
    exact and_congr_right fun hc => ih (hN hc) hs.2

/-! ## From boot -/

theorem reapZombies_current (k : Kernel) : k.reapZombies.current = k.current := by
  unfold Kernel.reapZombies
  induction (List.finRange 64).filter (· ≠ 0) generalizing k with
  | nil => rfl
  | cons i l ih => exact (ih _).trans (by unfold Kernel.reap; split <;> rfl)

theorem createUser_current (k : Kernel) (entry pageTable : Nat) :
    (k.createUser entry pageTable).1.current = k.current := by
  unfold Kernel.createUser
  cases k.freeSlot with
  | none => rfl
  | some n =>
    dsimp only
    split
    · rfl
    · split <;> rfl

theorem startProgram_current (k : Kernel) (kpgd : Nat) (read : Option (Mem × Nat)) :
    (k.startProgram kpgd read).1.current = k.current := by
  have hload : (k.loadAndExec kpgd read).1.current = k.current := by
    unfold Kernel.loadAndExec
    cases read with
    | none => rfl
    | some r =>
      dsimp only
      repeat' split
      any_goals rfl
      all_goals exact createUser_current ..
  unfold Kernel.startProgram
  generalize k.loadAndExec kpgd read = r at hload
  dsimp only
  repeat' split
  all_goals exact hload

/-- No command sets `current_process`. -/
theorem runCommand_current (k : Kernel) (kpgd : Nat) (p : Program) :
    (k.runCommand kpgd p).current = k.current := by
  have hstart := startProgram_current k kpgd p.read
  unfold Kernel.runCommand
  dsimp only
  split
  · rw [reapZombies_current, hstart]
  · have hcalls := (calls_memCalls (k.startProgram kpgd p.read).1 p.calls).current
    rw [reapZombies_current, endProgram_eq, ← hstart, ← hcalls]
    unfold Kernel.sysExit
    split <;> rfl

/-- So it is the idle process at every command after boot. -/
theorem boot_not_allCurrent (m : Machine) (ttbr0 kpgd : Nat) (before : List Program) (p : Program)
    (ps : List Program) : ¬ AllCurrent kpgd
      (before.foldl (fun k p => k.runCommand kpgd p) (Kernel.init m ttbr0)) (p :: ps) := by
  have hidle : ∀ k : Kernel, (before.foldl (fun k p => k.runCommand kpgd p) k).current =
      k.current := by
    induction before with
    | nil => exact fun _ => rfl
    | cons q qs ih => exact fun k => (ih _).trans (runCommand_current k kpgd q)
  rintro ⟨hcur, -⟩
  rw [hidle] at hcur
  exact (freeSlot_spec hcur.symm).1 rfl

end

/-- A program that asks for a page and exits. -/
def demoProgram : Program where
  read := some (demoElf [0x80000000], 121)
  calls := [.mmap 0 4096 0]
  ending := .exit

theorem demo_noZombies : NoZombies demoKernel := by
  intro j
  by_cases hj : j = 0 <;> simp [demoKernel, Kernel.init, hj]

/-- **Counterexample**: after the first command the program's slot is READY, the
idle process a ZOMBIE and the count one higher. -/
theorem lifecycle_leaks_slot : NoZombies demoKernel ∧ AllStart 0x40001000 demoKernel [demoProgram] ∧
    ((demoKernel.runCommand 0x40001000 demoProgram).procs 1).state = .ready ∧
    ((demoKernel.runCommand 0x40001000 demoProgram).procs 0).state = .zombie ∧
    demoKernel.count = 1 ∧ (demoKernel.runCommand 0x40001000 demoProgram).count = 2 ∧
    ¬ AllRestored 0x40001000 demoKernel [demoProgram] := by
  obtain ⟨hstart, hready, hzombie, hcount⟩ :
      (demoKernel.startProgram 0x40001000 demoProgram.read).2 ≠ none ∧
      ((demoKernel.runCommand 0x40001000 demoProgram).procs 1).state = .ready ∧
      ((demoKernel.runCommand 0x40001000 demoProgram).procs 0).state = .zombie ∧
      (demoKernel.runCommand 0x40001000 demoProgram).count = 2 := by decide +kernel
  refine ⟨demo_noZombies, ⟨hstart, trivial⟩, hready, hzombie, rfl, hcount, fun hall => ?_⟩
  obtain ⟨⟨i, -, -, -, hidle, -⟩, -⟩ := hall
  exact hidle hzombie

/-- With the program's process made current beforehand, two commands use one
slot; after boot not even the first one comes back. -/
theorem lifecycle_two_programs :
    AllRestored 0x40001000 { demoKernel with current := some 1 } [demoProgram, demoProgram] ∧
    ¬ AllRestored 0x40001000 demoKernel [demoProgram] := by
  have hboot : AllStart 0x40001000 demoKernel [demoProgram] := ⟨by decide +kernel, trivial⟩
  have hs : AllStart 0x40001000 { demoKernel with current := some 1 } [demoProgram, demoProgram] :=
    ⟨by decide +kernel, by decide +kernel, trivial⟩
  have hz : NoZombies { demoKernel with current := some 1 } := demo_noZombies
  exact ⟨(lifecycle_iff hz hs).mpr ⟨by decide +kernel, by decide +kernel, trivial⟩,
    (lifecycle_iff demo_noZombies hboot).not.mpr (boot_not_allCurrent demoMachine _ _ [] _ _)⟩

end HackersOs.L5

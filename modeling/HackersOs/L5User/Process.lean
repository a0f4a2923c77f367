import HackersOs.L5User.AddressSpace

/-!
# The process table (`process/process.cpp`)

64 slots; slot 0 is the idle process, the boot context. `current_process` is
set by `Process_::init` and by the scheduler only. The kernel state also holds
`TTBR0_EL1` and the statics of `sys_brk` and `sys_mmap`, which the later
modules use.

Result: `createUser_spec` says what a new user process owns.
-/
namespace HackersOs.L5
open HackersOs.Core L2 L2.Mmu L2.Pages

inductive ProcessState where
  | unused
  | ready
  | running
  | blocked
  | zombie
  deriving DecidableEq, Repr

structure Process where
  pid : Nat
  state : ProcessState
  /-- base of the kernel stack allocation -/
  kernelStack : Nat
  kernelStackTop : Nat
  /-- TTBR0 value -/
  pageTable : Nat
  userEntry : Nat
  userStack : Nat

instance procs_neZero : NeZero 64 := ⟨by decide⟩

structure Kernel where
  machine : Machine
  procs : Fin 64 → Process
  nextPid : Nat
  /-- `current_process`, `none` for `nullptr` -/
  current : Option (Fin 64)
  ttbr0 : Nat
  brkBase : Nat
  currentBrk : Nat
  mmapNext : Nat

def kernelStackPages : Nat := 4
def userStackPages : Nat := 4
def userStackSize : Nat := 4096 * 4
def kernelStackSize : Nat := 4096 * 4
/-- Top of user space. -/
def userStackBase : Nat := 0x7FFFFFF000
def mmapBase : Nat := 0x20000000

/-! ## The code -/

/-- mirrors src/process/process.cpp:30-44; the statics of `linux_syscalls.cpp`
have their initial values. -/
def Kernel.init (s : Machine) (ttbr0 : Nat) : Kernel where
  machine := s
  procs := fun i => ⟨0, if i = 0 then .running else .unused, 0, 0, 0, 0, 0⟩
  nextPid := 1
  current := some 0
  ttbr0 := ttbr0
  brkBase := 0
  currentBrk := 0
  mmapNext := mmapBase

/-- `for (i = 1; i < MAX_PROCESSES; i++) if (process_table[i].state == UNUSED)` -/
def Kernel.freeSlot (k : Kernel) : Option (Fin 64) :=
  (List.finRange 64).find? fun i => decide (i ≠ 0) && decide ((k.procs i).state = .unused)

def Kernel.setProc (k : Kernel) (i : Fin 64) (p : Process) : Kernel :=
  { k with procs := Function.update k.procs i p }

/-- The loop that maps `n` pages of the user stack. -/
def mapStack (s : Machine) (pageTable ustackPhys : Nat) : Nat → Machine
  | 0 => s
  | n + 1 => (mapStack s pageTable ustackPhys n).mapUserPage pageTable
      (userStackBase - userStackSize + n * 4096) (ustackPhys + n * 4096) pteUserRwx

/-- mirrors src/process/process.cpp:46-77; the context that starts the thread in
`kernel_thread_wrapper` is not modelled. -/
def Kernel.create (k : Kernel) : Kernel × Option (Fin 64) :=
  match k.freeSlot with
  | none => (k, none)
  | some i =>
    let r := k.machine.allocPages kernelStackPages
    if r.2 = 0 then ({ k with machine := r.1 }, none)
    else
      ({ k with
          machine := r.1
          nextPid := (k.nextPid + 1) % 2 ^ 32
          procs := Function.update k.procs i
            ⟨k.nextPid, .ready, r.2, r.2 + kernelStackSize, 0, 0, 0⟩ }, some i)

/-- mirrors src/process/process.cpp:79-123 -/
def Kernel.createUser (k : Kernel) (entryPoint pageTable : Nat) : Kernel × Option (Fin 64) :=
  match k.freeSlot with
  | none => (k, none)
  | some i =>
    let r1 := k.machine.allocPages kernelStackPages
    if r1.2 = 0 then ({ k with machine := r1.1 }, none)
    else
      let r2 := r1.1.allocPages userStackPages
      -- only the first of the four kernel stack pages goes back
      if r2.2 = 0 then ({ k with machine := r2.1.freePage r1.2 }, none)
      else
        let s := mapStack r2.1 pageTable r2.2 userStackPages
        ({ k with
            machine := s
            nextPid := (k.nextPid + 1) % 2 ^ 32
            procs := Function.update k.procs i
              ⟨k.nextPid, .ready, r1.2, r1.2 + kernelStackSize, pageTable, entryPoint,
                userStackBase⟩ }, some i)

/-- `for (off = 0; off < KERNEL_STACK_SIZE; off += PAGE_SIZE) free_page(stack + off)` -/
def freeStack (s : Machine) (stack : Nat) : Nat → Machine
  | 0 => s
  | n + 1 => (freeStack s stack n).freePage (stack + n * 4096)

/-- `for (i = 1; i < MAX_PROCESSES; i++) if (process_table[i].pid == pid)`: a slot
that is not in use has pid 0. -/
def Kernel.findPid (k : Kernel) (pid : Nat) : Option (Fin 64) :=
  (List.finRange 64).find? fun i => decide (i ≠ 0) && decide ((k.procs i).pid = pid)

/-- mirrors src/process/process.cpp:125-139; `kernel_stack` keeps its value. -/
def Kernel.destroy (k : Kernel) (pid : Nat) : Kernel :=
  match k.findPid pid with
  | none => k
  | some i =>
    let s := if (k.procs i).kernelStack = 0 then k.machine
      else freeStack k.machine (k.procs i).kernelStack kernelStackPages
    { k with
      machine := s
      procs := Function.update k.procs i { k.procs i with state := .unused, pid := 0 } }

/-- One turn of the loop of `reap_zombies`. -/
def Kernel.reap (k : Kernel) (i : Fin 64) : Kernel :=
  if (k.procs i).state = .zombie then
    let s := if (k.procs i).kernelStack = 0 then k.machine
      else freeStack k.machine (k.procs i).kernelStack kernelStackPages
    { k with
      machine := s
      procs := Function.update k.procs i
        { k.procs i with state := .unused, pid := 0, kernelStack := 0 } }
  else k

/-- mirrors src/process/process.cpp:141-156 -/
def Kernel.reapZombies (k : Kernel) : Kernel :=
  ((List.finRange 64).filter (· ≠ 0)).foldl Kernel.reap k

/-- mirrors src/process/process.cpp:160-168 -/
def Kernel.get (k : Kernel) (pid : Nat) : Option (Fin 64) :=
  (List.finRange 64).find? fun i =>
    decide ((k.procs i).pid = pid) && decide ((k.procs i).state ≠ .unused)

/-- mirrors src/process/process.cpp:170-176 -/
def Kernel.count (k : Kernel) : Nat :=
  ((List.finRange 64).filter fun i => (k.procs i).state ≠ .unused).length

/-! ## Creating a process -/

section
variable {kpgd kl2 : Nat} {s : Machine} {lvl : Nat → Option Level} {k : Kernel}

theorem freeSlot_spec {i : Fin 64} (h : k.freeSlot = some i) :
    i ≠ 0 ∧ (k.procs i).state = .unused := by
  have := List.find?_some h
  simpa using this

/-- The virtual pages of the user stack. -/
def IsStackPage (v : Nat) : Prop :=
  (userStackBase - userStackSize) / 4096 ≤ v ∧ v < userStackBase / 4096

instance (v : Nat) : Decidable (IsStackPage v) := by unfold IsStackPage; infer_instance

theorem isStackPage_iff {v : Nat} : IsStackPage v ↔
    (userStackBase - userStackSize) / 4096 ≤ v ∧ v < (userStackBase - userStackSize) / 4096 + 4 :=
  Iff.rfl

theorem stack_not_window {n : Nat} (hn : n < 4) :
    ¬ InWindow (userStackBase - userStackSize + n * 4096) := by
  unfold InWindow
  rw [l1Idx_eq]
  simp only [userStackBase, userStackSize]
  omega

theorem Ok.mapStack (K : Ok kpgd kl2 s lvl) {pgd : Nat} (hpgd : lvl pgd = some .l1)
    (phys : Nat) {n : Nat} (hn : n ≤ 4) :
    ∃ lvl', Ok kpgd kl2 (mapStack s pgd phys n) lvl' ∧ Grows s (mapStack s pgd phys n) lvl lvl' := by
  induction n with
  | zero => exact ⟨lvl, K, .refl⟩
  | succ n ih =>
    obtain ⟨lvl1, K1, G1⟩ := ih (by omega)
    have hw : ¬ InWindow (userStackBase - userStackSize + n * 4096) := stack_not_window (by omega)
    obtain ⟨lvl2, K2, G2⟩ := K1.mapUserPage (G1.keep _ _ hpgd) hw
      (show pteUserRwx < 2 ^ 64 by decide) (phys + n * 4096)
    rw [L5.mapStack]
    exact ⟨lvl2, K2, G1.trans G2⟩

theorem mapStack_lastMapped (s : Machine) (pgd phys t v n : Nat) :
    (mapStack s pgd phys n).lastMapped t v =
      if t = pgd ∧ (userStackBase - userStackSize) / 4096 ≤ v ∧
          v < (userStackBase - userStackSize) / 4096 + n
      then some (phys + (v - (userStackBase - userStackSize) / 4096) * 4096)
      else s.lastMapped t v := by
  induction n with
  | zero => rw [mapStack, if_neg (by omega)]
  | succ n ih =>
    have hv : (userStackBase - userStackSize + n * 4096) / 4096 =
        (userStackBase - userStackSize) / 4096 + n := by omega
    rw [mapStack, mapUserPage_lastMapped, ih, hv]
    by_cases ht : t = pgd
    · by_cases he : v = (userStackBase - userStackSize) / 4096 + n
      · rw [if_pos ⟨ht, he⟩, if_pos ⟨ht, by omega, by omega⟩, he, Nat.add_sub_cancel_left]
      · rw [if_neg (fun h => he h.2)]
        refine if_congr ?_ rfl rfl
        omega
    · simp [ht]

/-- A page that was free is taken and given back. -/
theorem Grows.freePage {s' : Machine} {lvl' : Nat → Option Level} (G : Grows s s' lvl lvl') {i : Nat}
    (hi : s.Free i) : Grows s (s'.freePage (frame i)) lvl lvl' := by
  obtain ⟨hm, ht, -, hbit⟩ := freePage_frame (G.total ▸ hi.1)
  refine ⟨G.keep, G.fresh, fun a ha => G.bytes a (by rwa [hm] at ha), fun j hj => ?_, ?_⟩
  · rw [hbit, G.bits j hj]
    have : j ≠ i := fun e => by rw [e, hi.2] at hj; cases hj
    simp [this]
  · rw [ht, G.total]

/-- `k'` is `k` with a new process in slot `i`: its kernel stack is four pages
that were free, its user stack four zeroed data pages mapped below the top of
user space. -/
structure NewProcess (k k' : Kernel) (i : Fin 64) (entryPoint pageTable kstack : Nat)
    (lvl' : Nat → Option Level) : Prop where
  slot : k.freeSlot = some i
  frame : k' = { k with
    machine := k'.machine
    nextPid := (k.nextPid + 1) % 2 ^ 32
    procs := Function.update k.procs i
      ⟨k.nextPid, .ready, kstack, kstack + kernelStackSize, pageTable, entryPoint, userStackBase⟩ }
  kstack_data : ∀ n, n < 4 → Data k'.machine lvl' (kstack + n * 4096)
  kstack_free : ∀ n, n < 4 → ∃ j, k.machine.Free j ∧ kstack + n * 4096 = L5.frame j
  ustack : ∀ v, IsStackPage v → ∃ page, k'.machine.lastMapped pageTable v = some page ∧
    Data k'.machine lvl' page ∧ ∀ x, x < 4096 → k'.machine.mem (page + x) = 0
  others : ∀ t v, ¬ (t = pageTable ∧ IsStackPage v) →
    k'.machine.lastMapped t v = k.machine.lastMapped t v

theorem createUser_spec (K : Ok kpgd kl2 k.machine lvl) {entryPoint pageTable : Nat}
    (hpt : lvl pageTable = some .l1) :
    ∃ k' r, k.createUser entryPoint pageTable = (k', r) ∧ ∃ lvl', Ok kpgd kl2 k'.machine lvl' ∧
      Grows k.machine k'.machine lvl lvl' ∧ ((r = none ∧ k' = { k with machine := k'.machine }) ∨
        ∃ i kstack, r = some i ∧ NewProcess k k' i entryPoint pageTable kstack lvl') := by
  unfold Kernel.createUser
  cases hs : k.freeSlot with
  | none => exact ⟨k, none, rfl, lvl, K, .refl, .inl ⟨rfl, rfl⟩⟩
  | some i =>
    obtain ⟨K1, G1⟩ := K.allocPages kernelStackPages
    have D1 := fun h n hn => @Ok.allocPages_data kpgd kl2 _ lvl K kernelStackPages h n hn
    have L1 : (k.machine.allocPages kernelStackPages).1.lastMapped = k.machine.lastMapped := rfl
    dsimp only
    generalize k.machine.allocPages kernelStackPages = r1 at K1 G1 D1 L1
    by_cases h1 : r1.2 = 0
    · rw [if_pos h1]
      exact ⟨_, _, rfl, lvl, K1, G1, .inl ⟨rfl, rfl⟩⟩
    rw [if_neg h1]
    obtain ⟨K2, G2⟩ := K1.allocPages userStackPages
    have D2 := fun h n hn => @Ok.allocPages_data kpgd kl2 _ lvl K1 userStackPages h n hn
    have L2 : (r1.1.allocPages userStackPages).1.lastMapped = r1.1.lastMapped := rfl
    generalize r1.1.allocPages userStackPages = r2 at K2 G2 D2 L2
    by_cases h2 : r2.2 = 0
    · rw [if_pos h2]
      -- the first page of the kernel stack was free before the call
      obtain ⟨-, -, j, hj, e⟩ := D1 h1 0 (by decide)
      rw [Nat.zero_mul, Nat.add_zero] at e
      have G := (G1.trans G2).freePage hj
      rw [← e] at G
      refine ⟨_, _, rfl, lvl, ⟨K2.tables, G.total ▸ K.small, fun m hm hl => ?_⟩, G, .inl ⟨rfl, rfl⟩⟩
      exact G.bits m (K.marked m (G.total ▸ hm) hl)
    · rw [if_neg h2]
      obtain ⟨lvl3, K3, G3⟩ := K2.mapStack hpt r2.2 (Nat.le_refl 4)
      have hmap := fun t v => mapStack_lastMapped r2.1 pageTable r2.2 t v 4
      refine ⟨_, _, rfl, lvl3, K3, (G1.trans G2).trans G3, .inr ⟨i, r1.2, rfl, hs, rfl,
        fun n hn => G3.data (G2.data (D1 h1 n hn).1), fun n hn => (D1 h1 n hn).2.2,
        fun v hv => ?_, fun t v hv => ?_⟩⟩
      · obtain ⟨hv1, hv2⟩ := isStackPage_iff.mp hv
        have hin : v - (userStackBase - userStackSize) / 4096 < 4 := by omega
        obtain ⟨hd, hz, -⟩ := D2 h2 _ hin
        exact ⟨_, (hmap pageTable v).trans (if_pos ⟨rfl, hv1, hv2⟩), G3.data hd,
          fun x hx => (G3.bytes_data K2 hd hx).trans (hz x hx)⟩
      · refine (hmap t v).trans ((if_neg fun h => hv ⟨h.1, isStackPage_iff.mpr h.2⟩).trans ?_)
        rw [L2, L1]

end

end HackersOs.L5

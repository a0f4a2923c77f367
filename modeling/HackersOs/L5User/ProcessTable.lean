import HackersOs.L2Memory.PageOwners
import HackersOs.L5User.Lifecycle

/-!
# Who owns a kernel stack

Runs of `create`, `create_user`, `destroy`, `reap_zombies` and exits, between
the page allocations of other clients. A live process is one whose slot is not
UNUSED.

`destroy` leaves `kernel_stack` as it was and `pid` 0, and looks for the pid
only: `destroy(0)` finds the first slot not in use and frees the stack its last
process had, whoever has those pages now.

Result: `process_table_iff`, with the run that shows the defect after it.
-/
namespace HackersOs.L5
open HackersOs.Core L2 L2.Mmu L2.Pages Function

variable {j : Fin 64} {n pid stack : Nat} {p : Process}

/-! ## The system -/

structure ProcSys where
  kernel : Kernel
  /-- ghost: the number of processes made so far -/
  creations : Nat

inductive ProcOp where
  | create
  | createUser (entryPoint pageTable : Nat)
  | destroy (pid : Nat)
  | reapZombies
  /-- the process in the slot becomes a ZOMBIE -/
  | exit (i : Fin 64)
  -- other clients of the page allocator
  | allocPage
  | allocPages (count : Nat)
  | freePage (physAddr : Nat)
  deriving DecidableEq, Repr

def Process.Live (p : Process) : Prop := p.state ≠ .unused

instance (p : Process) : Decidable p.Live := by unfold Process.Live; infer_instance

/-- Page `n` of RAM lies in the kernel stack of `p`. -/
def OnStack (p : Process) (n : Nat) : Prop :=
  p.kernelStack ≤ frame n ∧ frame n < p.kernelStack + kernelStackSize

instance (p : Process) (n : Nat) : Decidable (OnStack p n) := by unfold OnStack; infer_instance

def ProcSys.made (s : ProcSys) (r : Kernel × Option (Fin 64)) : ProcSys :=
  ⟨r.1, match r.2 with | none => s.creations | some _ => s.creations + 1⟩

def ProcSys.exec (s : ProcSys) : ProcOp → ProcSys
  | .create => s.made s.kernel.create
  | .createUser entryPoint pageTable => s.made (s.kernel.createUser entryPoint pageTable)
  | .destroy pid => { s with kernel := s.kernel.destroy pid }
  | .reapZombies => { s with kernel := s.kernel.reapZombies }
  | .exit i => { s with
      kernel := s.kernel.setProc i { s.kernel.procs i with state := .zombie } }
  | .allocPage => { s with
      kernel := { s.kernel with machine := s.kernel.machine.allocPage.1 } }
  | .allocPages count => { s with
      kernel := { s.kernel with machine := (s.kernel.machine.allocPages count).1 } }
  | .freePage physAddr => { s with
      kernel := { s.kernel with machine := s.kernel.machine.freePage physAddr } }

/-- Only live processes exit, and other clients free no page of a live
process's kernel stack. -/
def ProcOp.Admitted (k : Kernel) : ProcOp → Prop
  | .exit i => (k.procs i).Live
  | .freePage physAddr => memoryBase ≤ physAddr → ∀ i, (k.procs i).Live →
      ¬ OnStack (k.procs i) (pageOf physAddr)
  | _ => True

/-- Any boot, then any operations that meet `G`, with fewer than 2^32 - 1
processes made. -/
def procLTS (G : Kernel → ProcOp → Prop) : LTS ProcSys ProcOp where
  init s := (∃ m ttbr0, s.kernel = Kernel.init m ttbr0) ∧ s.creations = 0
  step s op s' := op.Admitted s.kernel ∧ G s.kernel op ∧ s' = s.exec op ∧ s'.creations < 2 ^ 32 - 1

/-! ## What is kept -/

/-- The pages of the kernel stack `p` has, or had last, are RAM. -/
def StackInside (s : Machine) (p : Process) : Prop :=
  p.kernelStack = 0 ∨ ∃ j, p.kernelStack = frame j ∧ j + 4 ≤ s.pages.totalPages

structure TableOk (s : ProcSys) : Prop where
  next : s.kernel.nextPid = s.creations + 1
  idle : (s.kernel.procs 0).pid = 0 ∧ (s.kernel.procs 0).Live ∧ (s.kernel.procs 0).kernelStack = 0
  unused : ∀ i, i ≠ 0 → ¬ (s.kernel.procs i).Live → (s.kernel.procs i).pid = 0
  pids : ∀ i, i ≠ 0 → (s.kernel.procs i).Live →
    0 < (s.kernel.procs i).pid ∧ (s.kernel.procs i).pid < s.kernel.nextPid
  distinct : ∀ i j, (s.kernel.procs i).Live → (s.kernel.procs j).Live →
    (s.kernel.procs i).pid = (s.kernel.procs j).pid → i = j
  inside : ∀ i, StackInside s.kernel.machine (s.kernel.procs i)
  taken : ∀ i, (s.kernel.procs i).Live → ∀ n, OnStack (s.kernel.procs i) n →
    bitmapTest s.kernel.machine.pages.bitmap n = true
  owned : ∀ i, i ≠ 0 → (s.kernel.procs i).Live → (s.kernel.procs i).kernelStack ≠ 0
  disjoint : ∀ i j, i ≠ j → (s.kernel.procs i).Live → (s.kernel.procs j).Live →
    ∀ n, OnStack (s.kernel.procs i) n → ¬ OnStack (s.kernel.procs j) n

theorem onStack_frame {j : Nat} (h : p.kernelStack = frame j) :
    OnStack p n ↔ j ≤ n ∧ n < j + 4 := by
  unfold OnStack
  rw [h]
  simp only [frame, memoryBase, pageSize, kernelStackSize]
  omega

theorem not_onStack_zero (h : p.kernelStack = 0) : ¬ OnStack p n := by
  unfold OnStack
  rw [h]
  simp only [frame, memoryBase, pageSize, kernelStackSize]
  omega

section
variable {s s' : ProcSys} {k k' : Kernel} {m m' : Machine} {i : Fin 64}

theorem StackInside.congr (h : StackInside m p) (ht : m'.pages.totalPages = m.pages.totalPages) :
    StackInside m' p := by
  rcases h with h | ⟨j, hj, hle⟩
  · exact .inl h
  · exact .inr ⟨j, hj, ht ▸ hle⟩

/-- What the invariant says about the process of one slot other than 0. -/
structure ProcOk (k : Kernel) (p : Process) : Prop where
  unused : ¬ p.Live → p.pid = 0
  pids : p.Live → 0 < p.pid ∧ p.pid < k.nextPid
  inside : StackInside k.machine p
  taken : p.Live → ∀ n, OnStack p n → bitmapTest k.machine.pages.bitmap n = true
  owned : p.Live → p.kernelStack ≠ 0

/-- What it says about two processes. -/
def Process.Apart (p q : Process) : Prop :=
  p.Live → q.Live → p.pid ≠ q.pid ∧ ∀ n, OnStack p n → ¬ OnStack q n

theorem Process.Apart.symm {q : Process} (h : p.Apart q) : q.Apart p := fun hq hp =>
  ⟨(h hp hq).1.symm, fun n hn hn' => (h hp hq).2 n hn' hn⟩

theorem TableOk.proc (h : TableOk s) (hi : i ≠ 0) : ProcOk s.kernel (s.kernel.procs i) :=
  ⟨h.unused i hi, h.pids i hi, h.inside i, h.taken i, h.owned i hi⟩

theorem TableOk.apart (h : TableOk s) (hij : i ≠ j) :
    (s.kernel.procs i).Apart (s.kernel.procs j) := fun hi hj =>
  ⟨fun he => hij (h.distinct i j hi hj he), h.disjoint i j hij hi hj⟩

theorem tableOk_of_slots (hnext : s.kernel.nextPid = s.creations + 1)
    (hidle : (s.kernel.procs 0).pid = 0 ∧ (s.kernel.procs 0).Live ∧
      (s.kernel.procs 0).kernelStack = 0) (hslots : ∀ i, i ≠ 0 → ProcOk s.kernel (s.kernel.procs i))
    (hapart : ∀ i j, i ≠ j → (s.kernel.procs i).Apart (s.kernel.procs j)) : TableOk s where
  next := hnext
  idle := hidle
  unused i hi := (hslots i hi).unused
  pids i hi := (hslots i hi).pids
  distinct i j hi hj he := by
    by_contra hij
    exact (hapart i j hij hi hj).1 he
  inside i := by
    by_cases hi : i = 0
    · rw [hi]
      exact .inl hidle.2.2
    · exact (hslots i hi).inside
  taken i hl n hn := by
    by_cases hi : i = 0
    · rw [hi] at hn
      exact absurd hn (not_onStack_zero hidle.2.2)
    · exact (hslots i hi).taken hl n hn
  owned i hi := (hslots i hi).owned
  disjoint i j hij hi hj := (hapart i j hij hi hj).2

theorem ProcOk.keep (h : ProcOk k p) (hnext : k.nextPid ≤ k'.nextPid)
    (ht : k'.machine.pages.totalPages = k.machine.pages.totalPages)
    (hbits : p.Live → ∀ n, OnStack p n → bitmapTest k.machine.pages.bitmap n = true →
      bitmapTest k'.machine.pages.bitmap n = true) : ProcOk k' p where
  unused := h.unused
  pids hl := ⟨(h.pids hl).1, Nat.lt_of_lt_of_le (h.pids hl).2 hnext⟩
  inside := h.inside.congr ht
  taken hl n hn := hbits hl n hn (h.taken hl n hn)
  owned := h.owned

/-- A new process in slot `i` of a table. -/
theorem apart_update {f : Fin 64 → Process} (h : ∀ a b, a ≠ b → (f a).Apart (f b))
    (hp : ∀ b, b ≠ i → p.Apart (f b)) :
    ∀ a b, a ≠ b → (Function.update f i p a).Apart (Function.update f i p b) := by
  intro a b hab
  by_cases hai : a = i
  · have hbi : b ≠ i := fun hbi => hab (hai.trans hbi.symm)
    rw [hai, update_self, update_of_ne hbi]
    exact hp b hbi
  · rw [update_of_ne hai]
    by_cases hbi : b = i
    · rw [hbi, update_self]
      exact (hp a hai).symm
    · rw [update_of_ne hbi]
      exact h a b hab

theorem tableOk_init {ttbr0 : Nat} : TableOk ⟨Kernel.init m ttbr0, 0⟩ := by
  have hdead : ∀ i, i ≠ 0 → ¬ ((Kernel.init m ttbr0).procs i).Live := by
    intro i hi h
    exact h (by simp [Kernel.init, hi])
  refine tableOk_of_slots rfl ⟨rfl, by simp [Process.Live, Kernel.init], rfl⟩ (fun i hi => ?_)
    fun i j hij hi hj => ?_
  · exact ⟨fun _ => rfl, fun hl => absurd hl (hdead i hi), .inl rfl, fun hl => absurd hl (hdead i hi),
      fun hl => absurd hl (hdead i hi)⟩
  · by_cases hi0 : i = 0
    · exact absurd hj (hdead j fun hj0 => hij (hi0.trans hj0.symm))
    · exact absurd hi (hdead i hi0)

/-- Operations that leave the table alone and the marks of live stacks. -/
theorem TableOk.machine (h : TableOk s) (ht : m.pages.totalPages = s.kernel.machine.pages.totalPages)
    (hbits : ∀ n, (∃ i, (s.kernel.procs i).Live ∧ OnStack (s.kernel.procs i) n) →
      bitmapTest s.kernel.machine.pages.bitmap n = true → bitmapTest m.pages.bitmap n = true) :
    TableOk { s with kernel := { s.kernel with machine := m } } where
  next := h.next
  idle := h.idle
  unused := h.unused
  pids := h.pids
  distinct := h.distinct
  inside i := (h.inside i).congr ht
  taken i hi n hn := hbits n ⟨i, hi, hn⟩ (h.taken i hi n hn)
  owned := h.owned
  disjoint := h.disjoint

theorem TableOk.marks (h : TableOk s) (M : Marks s.kernel.machine m) :
    TableOk { s with kernel := { s.kernel with machine := m } } :=
  h.machine M.total fun n _ hn => M.bits n hn

/-! ## Creation -/

/-- What `create` and `create_user` do: nothing but taking pages, or a ready
process with the next pid in a slot not in use, on four pages that were free. -/
inductive CreateSpec (k : Kernel) : Kernel × Option (Fin 64) → Prop
  | failed {m : Machine} : Marks k.machine m → CreateSpec k ({ k with machine := m }, none)
  | made {k' : Kernel} {i : Fin 64} {p : Process} {j : Nat} : k.freeSlot = some i →
      Marks k.machine k'.machine → k'.procs = Function.update k.procs i p →
      k'.nextPid = (k.nextPid + 1) % 2 ^ 32 → p.pid = k.nextPid → p.state = .ready →
      p.kernelStack = frame j → j + 4 ≤ k.machine.pages.totalPages →
      (∀ n, n < 4 → k.machine.Free (j + n)) →
      (∀ n, n < 4 → bitmapTest k'.machine.pages.bitmap (j + n) = true) →
      CreateSpec k (k', some i)

/-- The stack `alloc_pages` answered, and what stays of it. -/
theorem allocPages_stack {r : Machine × Nat} (hr : m.allocPages kernelStackPages = r) (h : r.2 ≠ 0)
    (M : Marks r.1 m') : ∃ j, r.2 = frame j ∧ j + 4 ≤ m.pages.totalPages ∧
      (∀ n, n < 4 → m.Free (j + n)) ∧ ∀ n, n < 4 → bitmapTest m'.pages.bitmap (j + n) = true := by
  rcases allocPages_cases m kernelStackPages with h0 | ⟨j, hj, hfree, he⟩
  · rw [← hr, h0] at h
    exact absurd rfl h
  rw [hr] at he
  refine ⟨j, by rw [he], hj, hfree, fun n hn => M.bits _ ?_⟩
  have : j ≤ j + n ∧ j + n < j + kernelStackPages :=
    ⟨by omega, by simp only [kernelStackPages]; omega⟩
  rw [he]
  simp [bitmapTest_take, this]

theorem create_spec (k : Kernel) : CreateSpec k k.create := by
  unfold Kernel.create
  cases hs : k.freeSlot with
  | none => exact .failed (.refl _)
  | some i =>
    dsimp only
    have M := marks_allocPages k.machine kernelStackPages
    split
    · exact .failed M
    · rename_i hne
      obtain ⟨j, hj, hle, hfree, htaken⟩ := allocPages_stack rfl hne (.refl _)
      exact .made hs M rfl rfl rfl rfl hj hle hfree htaken

/-- A page that was free is taken and given back. -/
theorem Marks.freePage (M : Marks m m') {i : Nat} (hi : m.Free i) :
    Marks m (m'.freePage (frame i)) := by
  obtain ⟨-, ht, -, hbit⟩ := freePage_frame (M.total ▸ hi.1)
  refine ⟨ht.trans M.total, fun n hn => ?_⟩
  have hne : n ≠ i := fun e => by rw [e, hi.2] at hn; cases hn
  simp [hbit, M.bits n hn, hne]

theorem createUser_table (k : Kernel) (entryPoint pageTable : Nat) :
    CreateSpec k (k.createUser entryPoint pageTable) := by
  unfold Kernel.createUser
  cases hs : k.freeSlot with
  | none => exact .failed (.refl _)
  | some i =>
    dsimp only
    have M1 := marks_allocPages k.machine kernelStackPages
    have hstack := fun m' => @allocPages_stack k.machine m' _ rfl
    generalize k.machine.allocPages kernelStackPages = r1 at M1 hstack
    have M2 := marks_allocPages r1.1 userStackPages
    generalize r1.1.allocPages userStackPages = r2 at M2
    split
    · exact .failed M1
    rename_i h1
    split
    · obtain ⟨j, hj, -, hfree, -⟩ := hstack r2.1 h1 M2
      rw [hj]
      exact .failed ((M1.trans M2).freePage (hfree 0 (by decide)))
    · have M3 := marks_mapStack r2.1 pageTable r2.2 userStackPages
      obtain ⟨j, hj, hle, hfree, htaken⟩ := hstack _ h1 (M2.trans M3)
      exact .made hs ((M1.trans M2).trans M3) rfl rfl rfl rfl hj hle hfree htaken

theorem TableOk.made (h : TableOk s) {r : Kernel × Option (Fin 64)} (hr : CreateSpec s.kernel r)
    (hc : (s.made r).creations < 2 ^ 32 - 1) : TableOk (s.made r) := by
  cases hr with
  | failed M => exact h.marks M
  | @made k' i p j hs M hprocs hnext hpid hready hj hle hfree htaken =>
    obtain ⟨hi0, -⟩ := freeSlot_spec hs
    have hlive : p.Live := by simp [Process.Live, hready]
    have hnext' : k'.nextPid = s.kernel.nextPid + 1 := by
      simp only [ProcSys.made] at hc
      rw [hnext, h.next]
      omega
    -- an old process has a smaller pid and a stack of pages that were taken
    have hold : ∀ n, (s.kernel.procs n).Live → (s.kernel.procs n).pid < s.kernel.nextPid := by
      intro n hn
      by_cases hn0 : n = 0
      · rw [hn0, h.idle.1, h.next]
        omega
      · exact (h.pids n hn0 hn).2
    have hapart : ∀ n, n ≠ i → p.Apart (s.kernel.procs n) := by
      intro n _ _ hn
      refine ⟨fun he => ?_, fun x hpx hx => ?_⟩
      · have hlt := hold n hn
        omega
      rw [onStack_frame hj] at hpx
      have hbit := h.taken n hn x hx
      have hclear := (hfree (x - j) (by omega)).2
      rw [Nat.add_sub_cancel' hpx.1, hbit] at hclear
      cases hclear
    have hnew : ProcOk k' p := by
      refine ⟨fun hd => absurd hlive hd, fun _ => ?_, .inr ⟨j, hj, M.total ▸ hle⟩, fun _ x hx => ?_,
        fun _ => hj ▸ frame_ne_zero j⟩
      · rw [hpid, hnext', h.next]
        omega
      · rw [onStack_frame hj] at hx
        have hbit := htaken (x - j) (by omega)
        rwa [Nat.add_sub_cancel' hx.1] at hbit
    refine tableOk_of_slots ?_ ?_ (fun n hn => ?_) ?_
    all_goals dsimp only [ProcSys.made]
    · rw [hnext', h.next]
    · rw [hprocs, update_of_ne (Ne.symm hi0)]
      exact h.idle
    · rw [hprocs]
      by_cases hni : n = i
      · rw [hni, update_self]
        exact hnew
      · rw [update_of_ne hni]
        exact (h.proc hn).keep (by omega) M.total fun _ x _ => M.bits x
    · rw [hprocs]
      exact apart_update (fun _ _ => h.apart) hapart

/-! ## Removal -/

/-- Slot `i` is given up, with the pages of the stack it names; `stack` is what
stays in `kernel_stack`. -/
structure Removed (k k' : Kernel) (i : Fin 64) (stack : Nat) : Prop where
  nextPid : k'.nextPid = k.nextPid
  procs : k'.procs = Function.update k.procs i
    { k.procs i with state := .unused, pid := 0, kernelStack := stack }
  stack : stack = 0 ∨ stack = (k.procs i).kernelStack
  total : k'.machine.pages.totalPages = k.machine.pages.totalPages
  bits : ∀ n, bitmapTest k'.machine.pages.bitmap n =
    (bitmapTest k.machine.pages.bitmap n && !decide (OnStack (k.procs i) n))

/-- The loop that frees a stack, which both `destroy` and `reap_zombies` skip
for a null `kernel_stack`. -/
theorem freeStack_onStack (h : StackInside m p)
    (hm' : m' = if p.kernelStack = 0 then m else freeStack m p.kernelStack kernelStackPages) :
    m'.pages.totalPages = m.pages.totalPages ∧ ∀ n, bitmapTest m'.pages.bitmap n =
      (bitmapTest m.pages.bitmap n && !decide (OnStack p n)) := by
  rcases h with h | ⟨j, hj, hle⟩
  · rw [if_pos h] at hm'
    subst hm'
    exact ⟨rfl, fun n => by simp [not_onStack_zero h]⟩
  · rw [if_neg (hj ▸ frame_ne_zero j)] at hm'
    subst hm'
    obtain ⟨ht, hbits⟩ := freeStack_bits hj hle (show kernelStackPages ≤ 4 by decide)
    refine ⟨ht, fun n => ?_⟩
    have hiff : decide (OnStack p n) = decide (j ≤ n ∧ n < j + kernelStackPages) :=
      decide_eq_decide.mpr (onStack_frame hj)
    rw [hbits, hiff]

theorem findPid_spec (h : k.findPid pid = some i) : i ≠ 0 ∧ (k.procs i).pid = pid := by
  have := List.find?_some h
  simpa using this

theorem destroy_removed (h : k.findPid pid = some i) (hin : StackInside k.machine (k.procs i)) :
    Removed k (k.destroy pid) i (k.procs i).kernelStack := by
  unfold Kernel.destroy
  rw [h]
  obtain ⟨ht, hbits⟩ := freeStack_onStack hin rfl
  exact ⟨rfl, rfl, .inr rfl, ht, hbits⟩

theorem reap_removed (hz : (k.procs i).state = .zombie) (hin : StackInside k.machine (k.procs i)) :
    Removed k (k.reap i) i 0 := by
  unfold Kernel.reap
  rw [if_pos hz]
  obtain ⟨ht, hbits⟩ := freeStack_onStack hin rfl
  exact ⟨rfl, rfl, .inl rfl, ht, hbits⟩

theorem Removed.other (R : Removed k k' i stack) (hj : j ≠ i) : k'.procs j = k.procs j := by
  rw [R.procs, update_of_ne hj]

theorem Removed.dead (R : Removed k k' i stack) : ¬ (k'.procs i).Live := by
  rw [R.procs, update_self]
  exact fun h => h rfl

theorem Removed.old (R : Removed k k' i stack) (h : (k'.procs j).Live) :
    j ≠ i ∧ k'.procs j = k.procs j := by
  have hj : j ≠ i := fun e => R.dead (e ▸ h)
  exact ⟨hj, R.other hj⟩

theorem TableOk.removed (h : TableOk s) (hi : i ≠ 0) (R : Removed s.kernel k' i stack)
    (hapart : ∀ j, j ≠ i → (s.kernel.procs j).Live → ∀ n, OnStack (s.kernel.procs j) n →
      ¬ OnStack (s.kernel.procs i) n) : TableOk { s with kernel := k' } := by
  have hdead : ¬ ({ s.kernel.procs i with state := .unused, pid := 0, kernelStack := stack } :
      Process).Live :=
    fun hl => hl rfl
  refine tableOk_of_slots (R.nextPid.trans h.next) ?_ (fun n hn => ?_) ?_
  all_goals dsimp only
  · rw [R.other (Ne.symm hi)]
    exact h.idle
  · by_cases hni : n = i
    · rw [hni, R.procs, update_self]
      refine ⟨fun _ => rfl, fun hl => absurd hl hdead, ?_, fun hl => absurd hl hdead,
        fun hl => absurd hl hdead⟩
      rcases R.stack with he | he
      · exact .inl he
      · refine StackInside.congr ?_ R.total
        rw [he]
        exact h.inside i
    · rw [R.other hni]
      refine (h.proc hn).keep R.nextPid.ge R.total fun hl x hx hbit => ?_
      rw [R.bits, hbit, decide_eq_false (hapart n hni hl x hx)]
      rfl
  · rw [R.procs]
    exact apart_update (fun _ _ => h.apart) fun _ _ hl => absurd hl hdead

/-- Every page that becomes free is of the kernel stack of a live process that
is removed. -/
def FreesOwn (k k' : Kernel) : Prop :=
  ∀ n, bitmapTest k.machine.pages.bitmap n = true → bitmapTest k'.machine.pages.bitmap n = false →
    ∃ i, (k.procs i).Live ∧ ¬ (k'.procs i).Live ∧ OnStack (k.procs i) n

theorem Removed.freesOwn (R : Removed k k' i stack) (hl : (k.procs i).Live) : FreesOwn k k' := by
  intro n hn hn'
  rw [R.bits, hn] at hn'
  exact ⟨i, hl, R.dead, by simpa using hn'⟩

/-! ## `destroy` -/

/-- The first slot `destroy(0)` finds has no old stack, or its pages are free. -/
def SafeDestroy (k : Kernel) (pid : Nat) : Prop :=
  pid = 0 → ∀ i, k.findPid 0 = some i → ∀ n, OnStack (k.procs i) n →
    bitmapTest k.machine.pages.bitmap n = false

theorem TableOk.live_of_pid (h : TableOk s) (hf : s.kernel.findPid pid = some i) (hpid : pid ≠ 0) :
    (s.kernel.procs i).Live := by
  obtain ⟨hi, he⟩ := findPid_spec hf
  by_contra hl
  exact hpid (he.symm.trans (h.unused i hi hl))

theorem TableOk.dead_of_zero (h : TableOk s) (hf : s.kernel.findPid 0 = some i) :
    ¬ (s.kernel.procs i).Live := by
  obtain ⟨hi, he⟩ := findPid_spec hf
  intro hl
  have := (h.pids i hi hl).1
  omega

theorem destroy_none (h : k.findPid pid = none) : k.destroy pid = k := by
  unfold Kernel.destroy
  rw [h]

theorem TableOk.destroy (h : TableOk s) (hsafe : SafeDestroy s.kernel pid) :
    TableOk { s with kernel := s.kernel.destroy pid } := by
  cases hf : s.kernel.findPid pid with
  | none =>
    rw [destroy_none hf]
    exact h
  | some i =>
    refine h.removed (findPid_spec hf).1 (destroy_removed hf (h.inside i)) fun j hj hl n hn hn' => ?_
    by_cases hpid : pid = 0
    · subst hpid
      have hclear := hsafe rfl i hf n hn'
      rw [h.taken j hl n hn] at hclear
      cases hclear
    · exact h.disjoint j i hj hl (h.live_of_pid hf hpid) n hn hn'

/-- `destroy` frees only what the process it removes has exactly when it is
safe. -/
theorem TableOk.freesOwn_iff (h : TableOk s) (pid : Nat) :
    FreesOwn s.kernel (s.kernel.destroy pid) ↔ SafeDestroy s.kernel pid := by
  cases hf : s.kernel.findPid pid with
  | none =>
    rw [destroy_none hf]
    refine iff_of_true (fun n hn hn' => ?_) fun h0 i hi => ?_
    · rw [hn] at hn'
      cases hn'
    · rw [h0] at hf
      rw [hf] at hi
      cases hi
  | some i =>
    have R := destroy_removed hf (h.inside i)
    by_cases hpid : pid = 0
    · subst hpid
      have hdead := h.dead_of_zero hf
      constructor
      · intro hown _ i' hf' n hn
        obtain rfl : i = i' := Option.some.inj (hf.symm.trans hf')
        by_contra hset
        rw [Bool.not_eq_false] at hset
        obtain ⟨j, hl, hd, -⟩ := hown n hset (by rw [R.bits, decide_eq_true hn]; simp)
        by_cases hj : j = i
        · exact hdead (hj ▸ hl)
        · rw [R.other hj] at hd
          exact hd hl
      · intro hsafe n hn hn'
        rw [R.bits, hn] at hn'
        have hon : OnStack (s.kernel.procs i) n := by simpa using hn'
        rw [hsafe rfl i hf n hon] at hn
        cases hn
    · exact iff_of_true (R.freesOwn (h.live_of_pid hf hpid)) fun h0 => absurd h0 hpid

/-! ## `reap_zombies` -/

theorem reap_eq_self (h : (k.procs i).state ≠ .zombie) : k.reap i = k := if_neg h

theorem TableOk.reap (h : TableOk s) (hi : i ≠ 0) :
    TableOk { s with kernel := s.kernel.reap i } ∧ FreesOwn s.kernel (s.kernel.reap i) ∧
      ∀ j, ((s.kernel.reap i).procs j).Live → (s.kernel.reap i).procs j = s.kernel.procs j := by
  by_cases hz : (s.kernel.procs i).state = .zombie
  · have R := reap_removed hz (h.inside i)
    have hl : (s.kernel.procs i).Live := by simp [Process.Live, hz]
    exact ⟨h.removed hi R fun j hj hlj n hn => h.disjoint j i hj hlj hl n hn, R.freesOwn hl,
      fun j hj => (R.old hj).2⟩
  · rw [reap_eq_self hz]
    refine ⟨h, fun n hn hn' => ?_, fun _ _ => rfl⟩
    rw [hn] at hn'
    cases hn'

/-- The loop: what it has freed is of processes it has removed, and the
processes left are as they were. -/
theorem TableOk.foldl_reap (h : TableOk s) {l : List (Fin 64)} (hl : ∀ i ∈ l, i ≠ 0) :
    TableOk { s with kernel := l.foldl Kernel.reap s.kernel } ∧
      FreesOwn s.kernel (l.foldl Kernel.reap s.kernel) ∧
      ∀ j, ((l.foldl Kernel.reap s.kernel).procs j).Live →
        (l.foldl Kernel.reap s.kernel).procs j = s.kernel.procs j := by
  induction l generalizing s with
  | nil =>
    refine ⟨h, fun n hn hn' => ?_, fun _ _ => rfl⟩
    rw [List.foldl_nil, hn] at hn'
    cases hn'
  | cons i l ih =>
    obtain ⟨h1, hown1, hkeep1⟩ := h.reap (hl i (List.mem_cons_self ..))
    obtain ⟨h2, hown2, hkeep2⟩ := ih h1 fun j hj => hl j (List.mem_cons_of_mem _ hj)
    rw [List.foldl_cons]
    generalize s.kernel.reap i = k1 at h1 hown1 hkeep1 h2 hown2 hkeep2
    generalize l.foldl Kernel.reap k1 = k2 at h2 hown2 hkeep2
    have hkeep : ∀ j, (k2.procs j).Live → k2.procs j = s.kernel.procs j := by
      intro j hj
      have he := hkeep2 j hj
      exact he.trans (hkeep1 j (he ▸ hj))
    refine ⟨h2, fun n hn hn' => ?_, hkeep⟩
    cases hmid : bitmapTest k1.machine.pages.bitmap n with
    | false =>
      obtain ⟨j, hj, hd, hon⟩ := hown1 n hn hmid
      exact ⟨j, hj, fun hl2 => hd (hkeep2 j hl2 ▸ hl2), hon⟩
    | true =>
      obtain ⟨j, hj, hd, hon⟩ := hown2 n hmid hn'
      have he := hkeep1 j hj
      exact ⟨j, he ▸ hj, hd, he ▸ hon⟩

theorem TableOk.reapZombies (h : TableOk s) :
    TableOk { s with kernel := s.kernel.reapZombies } ∧ FreesOwn s.kernel s.kernel.reapZombies := by
  obtain ⟨h', hown, -⟩ := h.foldl_reap (l := (List.finRange 64).filter (· ≠ 0)) fun i hi => by
    simpa using hi
  exact ⟨h', hown⟩

/-! ## Runs -/

theorem onStack_congr {q : Process} (h : q.kernelStack = p.kernelStack) (n : Nat) :
    OnStack q n ↔ OnStack p n := by
  unfold OnStack
  rw [h]

theorem TableOk.exit (h : TableOk s) (hl : (s.kernel.procs i).Live) :
    TableOk (s.exec (.exit i)) := by
  -- the state is all that changes, and the slot stays live
  have hsame : ∀ j, (((s.exec (.exit i)).kernel.procs j).Live ↔ (s.kernel.procs j).Live) ∧
      ((s.exec (.exit i)).kernel.procs j).pid = (s.kernel.procs j).pid ∧
      ((s.exec (.exit i)).kernel.procs j).kernelStack = (s.kernel.procs j).kernelStack := by
    intro j
    by_cases hj : j = i
    · subst hj
      simp only [ProcSys.exec, Kernel.setProc, update_self, and_self, and_true]
      exact iff_of_true (fun h => by cases h) hl
    · simp only [ProcSys.exec, Kernel.setProc, update_of_ne hj, and_self]
  refine tableOk_of_slots h.next ?_ (fun j hj => ?_) fun a b hab ha hb => ?_
  · obtain ⟨hlive, hpid, hstack⟩ := hsame 0
    rw [hlive, hpid, hstack]
    exact h.idle
  · obtain ⟨hlive, hpid, hstack⟩ := hsame j
    have hslot := h.proc hj
    refine ⟨fun hd => hpid.trans (hslot.unused (mt hlive.mpr hd)), fun hd => ?_, ?_,
      fun hd n hn => ?_,
      fun hd => hstack ▸ hslot.owned (hlive.mp hd)⟩
    · rw [hpid]
      exact hslot.pids (hlive.mp hd)
    · unfold StackInside
      rw [hstack]
      exact hslot.inside
    · exact hslot.taken (hlive.mp hd) n ((onStack_congr hstack n).mp hn)
  · obtain ⟨hne, hdis⟩ := h.apart hab ((hsame a).1.mp ha) ((hsame b).1.mp hb)
    rw [(hsame a).2.1, (hsame b).2.1]
    refine ⟨hne, fun n hn hn' => hdis n ?_ ?_⟩
    · exact (onStack_congr (hsame a).2.2 n).mp hn
    · exact (onStack_congr (hsame b).2.2 n).mp hn'

theorem freePage_keep {physAddr : Nat} (h : memoryBase ≤ physAddr → n ≠ pageOf physAddr) :
    (m.freePage physAddr).pages.totalPages = m.pages.totalPages ∧
    bitmapTest (m.freePage physAddr).pages.bitmap n = bitmapTest m.pages.bitmap n := by
  unfold Machine.freePage Pages.freePage
  split
  · exact ⟨rfl, rfl⟩
  dsimp only
  split
  · have hne : n ≠ (physAddr - memoryBase) / pageSize := h (by omega)
    exact ⟨rfl, by simp [bitmapTest_clear, hne]⟩
  · exact ⟨rfl, rfl⟩

theorem freePage_total (m : Machine) (physAddr : Nat) :
    (m.freePage physAddr).pages.totalPages = m.pages.totalPages :=
  (freePage_keep (n := pageOf physAddr + 1) fun _ => by omega).1

/-- `destroy` is only called where it is safe. -/
def SafeOp (k : Kernel) : ProcOp → Prop
  | .destroy pid => SafeDestroy k pid
  | _ => True

theorem tableOk_inductive : (procLTS SafeOp).Inductive TableOk where
  init := by
    rintro ⟨k, c⟩ ⟨⟨m, ttbr0, rfl⟩, rfl⟩
    exact tableOk_init
  step := by
    rintro s op s' h ⟨hadm, hsafe, rfl, hc⟩
    cases op with
    | create => exact h.made (create_spec _) hc
    | createUser entryPoint pageTable => exact h.made (createUser_table ..) hc
    | destroy pid => exact h.destroy hsafe
    | reapZombies => exact h.reapZombies.1
    | exit i => exact h.exit hadm
    | allocPage => exact h.marks (marks_allocPage _)
    | allocPages count => exact h.marks (marks_allocPages _ _)
    | freePage physAddr =>
      refine h.machine (freePage_total _ _) fun n hn hset => ?_
      obtain ⟨i, hl, hon⟩ := hn
      rw [(freePage_keep fun hge e => hadm hge i hl (e ▸ hon)).2]
      exact hset

theorem TableOk.get_iff (h : TableOk s) (pid : Nat) (i : Fin 64) :
    s.kernel.get pid = some i ↔ (s.kernel.procs i).Live ∧ (s.kernel.procs i).pid = pid := by
  unfold Kernel.get
  constructor
  · intro hg
    have := List.find?_some hg
    simp only [Bool.and_eq_true, decide_eq_true_eq] at this
    exact ⟨this.2, this.1⟩
  · rintro ⟨hl, hp⟩
    cases hg : (List.finRange 64).find? fun i =>
        decide ((s.kernel.procs i).pid = pid) && decide ((s.kernel.procs i).state ≠ .unused) with
    | none =>
      have := List.find?_eq_none.mp hg i (List.mem_finRange i)
      simp only [Bool.and_eq_true, decide_eq_true_eq] at this
      exact absurd ⟨hp, hl⟩ this
    | some j =>
      have := List.find?_some hg
      simp only [Bool.and_eq_true, decide_eq_true_eq] at this
      rw [h.distinct j i this.2 hl (this.1.trans hp.symm)]

/-- Live stacks are runs of taken pages, apart from each other. -/
structure StacksApart (k : Kernel) : Prop where
  taken : ∀ i, i ≠ 0 → (k.procs i).Live → StackTaken k.machine (k.procs i).kernelStack
  disjoint : ∀ i j, i ≠ j → (k.procs i).Live → (k.procs j).Live → ∀ n, OnStack (k.procs i) n →
    ¬ OnStack (k.procs j) n

theorem TableOk.stacks (h : TableOk s) : StacksApart s.kernel := by
  refine ⟨fun i hi hl => ?_, h.disjoint⟩
  rcases h.inside i with h0 | ⟨j, hj, hle⟩
  · exact absurd h0 (h.owned i hi hl)
  · exact ⟨j, hj, hle, fun n hn => h.taken i hl _ ((onStack_frame hj).mpr ⟨by omega, by omega⟩)⟩

/-- In every run whose `destroy` calls are all safe, live processes have
distinct pids, `get` finds exactly them, their stacks are disjoint runs of
taken pages and `reap_zombies` frees what it should; `destroy` does so exactly
when it is safe. -/
theorem process_table_iff (hr : (procLTS SafeOp).Reachable s) :
    (∀ i j, (s.kernel.procs i).Live → (s.kernel.procs j).Live →
      (s.kernel.procs i).pid = (s.kernel.procs j).pid → i = j) ∧
    (∀ pid i, s.kernel.get pid = some i ↔ (s.kernel.procs i).Live ∧ (s.kernel.procs i).pid = pid) ∧
    StacksApart s.kernel ∧ FreesOwn s.kernel s.kernel.reapZombies ∧
    (∀ pid, FreesOwn s.kernel (s.kernel.destroy pid) ↔ SafeDestroy s.kernel pid) := by
  have h := tableOk_inductive.reachable s hr
  exact ⟨h.distinct, h.get_iff, h.stacks, h.reapZombies.2, h.freesOwn_iff⟩

end

/-- 16 pages of RAM, two of them kernel image, and the idle process. -/
def demoProcs : ProcSys :=
  ⟨Kernel.init ⟨fun _ => 0, Pages.init 0x10000 0x40002000, fun _ _ => none⟩ 0, 0⟩

/-- Two processes are made and the first is destroyed; a third takes its place. -/
def demoReplaced : ProcSys := (((demoProcs.exec .create).exec .create).exec (.destroy 1)).exec .create

theorem process_table_replaced : demoReplaced.kernel.get 3 = some 1 ∧
    demoReplaced.kernel.get 1 = none ∧
    demoReplaced.kernel.get 2 = some 2 ∧ StacksApart demoReplaced.kernel := by
  have hr : (procLTS SafeOp).Reachable demoReplaced := by
    refine ⟨demoProcs, [.create, .create, .destroy 1, .create], ⟨⟨_, _, rfl⟩, rfl⟩,
      .cons ⟨trivial, trivial, rfl, ?_⟩ (.cons ⟨trivial, trivial, rfl, ?_⟩
        (.cons ⟨trivial, nofun, rfl, ?_⟩ (.cons ⟨trivial, trivial, rfl, ?_⟩ (.nil _))))⟩
    all_goals decide +kernel
  obtain ⟨-, hget, hstacks, -⟩ := process_table_iff hr
  have hlive : (demoReplaced.kernel.procs 1).Live ∧ (demoReplaced.kernel.procs 1).pid = 3 ∧
      (demoReplaced.kernel.procs 2).Live ∧ (demoReplaced.kernel.procs 2).pid = 2 ∧
      ∀ i, ¬ ((demoReplaced.kernel.procs i).Live ∧ (demoReplaced.kernel.procs i).pid = 1) := by
    decide +kernel
  obtain ⟨h1, hp1, h2, hp2, hnone⟩ := hlive
  refine ⟨(hget 3 1).mpr ⟨h1, hp1⟩, ?_, (hget 2 2).mpr ⟨h2, hp2⟩, hstacks⟩
  exact Option.eq_none_iff_forall_ne_some.mpr fun i hi => hnone i ((hget 1 i).mp hi)

/-- Process 1 is made and destroyed, and another client takes four pages. -/
def demoReused : ProcSys := ((demoProcs.exec .create).exec (.destroy 1)).exec (.allocPages 4)

/-- **Counterexample**: `destroy(0)` frees the four pages of the other client;
no process is removed. -/
theorem destroy_zero_frees_others : (procLTS fun _ _ => True).Reachable demoReused ∧
    (demoProcs.exec .create).kernel.procs 1 = ⟨1, .ready, frame 2, frame 6, 0, 0, 0⟩ ∧
    (((demoProcs.exec .create).exec (.destroy 1)).kernel.machine.allocPages 4).2 = frame 2 ∧
    bitmapTest demoReused.kernel.machine.pages.bitmap 2 = true ∧
    bitmapTest (demoReused.kernel.destroy 0).machine.pages.bitmap 2 = false ∧
    ¬ FreesOwn demoReused.kernel (demoReused.kernel.destroy 0) := by
  have hbefore : bitmapTest demoReused.kernel.machine.pages.bitmap 2 = true := by decide +kernel
  have hafter : bitmapTest (demoReused.kernel.destroy 0).machine.pages.bitmap 2 = false := by
    decide +kernel
  have hkept : ∀ i, (demoReused.kernel.procs i).Live →
      ((demoReused.kernel.destroy 0).procs i).Live := by decide +kernel
  refine ⟨⟨demoProcs, [.create, .destroy 1, .allocPages 4], ⟨⟨_, _, rfl⟩, rfl⟩,
    .cons ⟨trivial, trivial, rfl, by decide +kernel⟩ (.cons ⟨trivial, trivial, rfl, by decide +kernel⟩
      (.cons ⟨trivial, trivial, rfl, by decide +kernel⟩ (.nil _)))⟩, rfl, by decide +kernel, hbefore,
    hafter, ?_⟩
  intro hown
  obtain ⟨i, hl, hd, -⟩ := hown 2 hbefore hafter
  exact hd (hkept i hl)

end HackersOs.L5

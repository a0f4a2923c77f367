import HackersOs.L5User.Scheduler
import Mathlib.Data.Fintype.Basic
import Mathlib.Tactic.FinCases

/-!
# Saved contexts (`process/context.S`, `process/process.cpp`)

`context_switch` is transcribed instruction by instruction; the two contexts
are named by their slots, and a context is the words of `struct
ProcessContext` by byte offset, so the offsets of the assembly are checked
against the struct's layout. `create` leaves a context that lands in
`kernel_thread_wrapper`. `create_user` leaves one with a stack pointer only:
"the scheduler will set up SPSR/ELR for EL0 entry", but the scheduler has no
such code, and `ret` goes to address 0.

Processes are numbered as they are made, and the ghost fields of `Threads`
remember, for each number, how the process starts and what its registers were
when it was last switched away from.

Results: `contexts_restored` says that a call of `schedule` resumes its process
where it was suspended, or at its start, exactly when it does not select a
user process that never ran. The runs leave out a `reap_zombies` while a
zombie is current: the slot is then given to the next process, and the
next switch saves the dead process's registers over its context.
-/
namespace HackersOs.L5
open HackersOs.Core HackersOs.Core.Cyclic L2 Function

/-! ## `context_switch` -/

instance contextRegs_neZero : NeZero 31 := ⟨by decide⟩

structure Regs where
  x : Fin 31 → Nat
  sp : Nat

/-- `struct ProcessContext` (`process/process.h:17-22`): the word at each byte
offset. -/
abbrev ProcessContext := Nat → Nat

/-- The state the assembly works on; `x0` and `x1` point to the contexts of two
slots. -/
structure CtxState where
  regs : Regs
  contexts : Fin 64 → ProcessContext

inductive CtxInstr where
  | stp (a b : Fin 31) (off : Nat)
  | str (a : Fin 31) (off : Nat)
  | ldp (a b : Fin 31) (off : Nat)
  | ldr (a : Fin 31) (off : Nat)
  | movFromSp (d : Fin 31)
  | movToSp (a : Fin 31)
  deriving DecidableEq, Repr

def Regs.set (r : Regs) (d : Fin 31) (v : Nat) : Regs :=
  { r with x := fun i => if i = d then v else r.x i }

def CtxState.store (t : CtxState) (i : Fin 64) (off v : Nat) : CtxState :=
  { t with contexts := fun j o => if j = i ∧ o = off then v else t.contexts j o }

/-- Every store goes to `[x0, #off]` and every load comes from `[x1, #off]`. -/
def CtxState.exec (old new : Fin 64) (t : CtxState) : CtxInstr → CtxState
  | .stp a b off => (t.store old off (t.regs.x a)).store old (off + 8) (t.regs.x b)
  | .str a off => t.store old off (t.regs.x a)
  | .ldp a b off =>
    { t with regs := (t.regs.set a (t.contexts new off)).set b (t.contexts new (off + 8)) }
  | .ldr a off => { t with regs := t.regs.set a (t.contexts new off) }
  | .movFromSp d => { t with regs := t.regs.set d t.regs.sp }
  | .movToSp a => { t with regs := { t.regs with sp := t.regs.x a } }

/-- mirrors src/process/context.S:22-44, up to the `ret`, which goes to `x30` -/
def contextSwitch : List CtxInstr :=
  [.stp 19 20 0, .stp 21 22 16, .stp 23 24 32, .stp 25 26 48, .stp 27 28 64, .stp 29 30 80,
   .movFromSp 9, .str 9 96,
   .ldp 19 20 0, .ldp 21 22 16, .ldp 23 24 32, .ldp 25 26 48, .ldp 27 28 64, .ldp 29 30 80,
   .ldr 9 96, .movToSp 9]

def CtxState.switch (t : CtxState) (old new : Fin 64) : CtxState :=
  contextSwitch.foldl (CtxState.exec old new) t

/-- What a switch saves and restores: `x19`..`x30` and `sp`. -/
@[ext] structure Callee where
  x : Fin 12 → Nat
  sp : Nat

def Regs.callee (r : Regs) : Callee := ⟨fun k => r.x (k.natAdd 19), r.sp⟩

/-- The struct's layout: `x19`..`x28`, `x29`, `x30` from offset 0 on, then `sp`. -/
def ProcessContext.callee (c : ProcessContext) : Callee := ⟨fun k => c (8 * k), c 96⟩

/-- The words of the old context, as the stores leave them. -/
theorem switch_old (t : CtxState) (old new : Fin 64) (o : Nat) : (t.switch old new).contexts old o =
    if o = 96 then t.regs.sp else if o = 80 + 8 then t.regs.x 30 else if o = 80 then t.regs.x 29
    else if o = 64 + 8 then t.regs.x 28 else if o = 64 then t.regs.x 27
    else if o = 48 + 8 then t.regs.x 26 else if o = 48 then t.regs.x 25
    else if o = 32 + 8 then t.regs.x 24 else if o = 32 then t.regs.x 23
    else if o = 16 + 8 then t.regs.x 22 else if o = 16 then t.regs.x 21
    else if o = 0 + 8 then t.regs.x 20 else if o = 0 then t.regs.x 19 else t.contexts old o := by
  simp only [CtxState.switch, contextSwitch, List.foldl_cons, List.foldl_nil, CtxState.exec,
    CtxState.store, Regs.set, true_and, if_true]

theorem switch_saves (t : CtxState) (old new : Fin 64) :
    ProcessContext.callee ((t.switch old new).contexts old) = t.regs.callee := by
  refine Callee.ext (funext fun k => ?_) (switch_old t old new 96)
  refine (switch_old t old new (8 * k)).trans ?_
  fin_cases k <;> rfl

theorem switch_other (t : CtxState) {old new i : Fin 64} (h : i ≠ old) :
    (t.switch old new).contexts i = t.contexts i := by
  funext o
  simp only [CtxState.switch, contextSwitch, List.foldl_cons, List.foldl_nil, CtxState.exec,
    CtxState.store, h, false_and, if_false]

theorem switch_restores (t : CtxState) (old new : Fin 64) :
    (t.switch old new).regs.callee = ProcessContext.callee ((t.switch old new).contexts new) := by
  refine Callee.ext (funext fun k => ?_) ?_
  · fin_cases k <;> rfl
  · rfl

/-! ## The system -/

/-- Code addresses the contexts need. The kernel is linked at `0x40000000`
(`linker.ld`), so no code is at address 0. -/
structure Code where
  /-- `kernel_thread_wrapper` -/
  wrapper : Nat
  /-- code that enters EL0 with `user_entry` and `user_stack` -/
  el0Entry : Nat → Prop
  linked : ∀ a, el0Entry a → 0x40000000 ≤ a

/-- How a process came to be. -/
inductive Start where
  | boot
  | thread (entry : Nat)
  | user
  deriving DecidableEq, Repr

/-- The context a process is made with. mirrors src/process/process.cpp:70-74
and 117-120: `memset` to zero, then `x30`, `sp` and `x19`, or `sp` alone. -/
def Start.context (C : Code) (kernelStackTop : Nat) : Start → ProcessContext
  | .boot => fun _ => 0
  | .thread entry => fun off =>
    if off = 88 then C.wrapper else if off = 96 then kernelStackTop else if off = 0 then entry else 0
  | .user => fun off => if off = 96 then kernelStackTop else 0

structure Threads where
  sched : Sched
  regs : Regs
  contexts : Fin 64 → ProcessContext
  /-- ghost: the processes made so far, which are numbered from 1; 0 is the idle
  process -/
  count : Nat
  /-- ghost: the number of the process in a slot -/
  owner : Fin 64 → Nat
  /-- ghost: the number of the process whose code runs -/
  self : Nat
  /-- ghost: how a process starts -/
  start : Nat → Start
  /-- ghost: the registers of a process when it was last switched away from -/
  last : Nat → Option Callee

inductive ThreadOp where
  | schedule
  | create (entry : Nat)
  | createUser (entryPoint pageTable : Nat)
  | exit
  | reapZombies
  /-- the running process computes -/
  | work (regs : Regs)

def Threads.withKernel (s : Threads) (k : Kernel) : Threads :=
  { s with sched := { s.sched with kernel := k } }

/-- The end of `create` and `create_user`. -/
def Threads.made (C : Code) (s : Threads) (start : Start) (r : Kernel × Option (Fin 64)) : Threads :=
  match r.2 with
  | none => s.withKernel r.1
  | some i =>
    { s.withKernel r.1 with
      contexts := Function.update s.contexts i (start.context C (r.1.procs i).kernelStackTop)
      count := s.count + 1
      owner := Function.update s.owner i (s.count + 1)
      start := Function.update s.start (s.count + 1) start }

/-- The call of `context_switch` that ends `schedule`. -/
def Threads.switch (s : Threads) (sched : Sched) (old next : Fin 64) : Threads :=
  let t := CtxState.switch ⟨s.regs, s.contexts⟩ old next
  { s with
    sched := sched
    regs := t.regs
    contexts := t.contexts
    self := s.owner next
    last := Function.update s.last s.self (some s.regs.callee) }

def Threads.exec (C : Code) (s : Threads) : ThreadOp → Threads
  | .schedule =>
    match s.sched.schedule with
    | (sched, none) => { s with sched := sched }
    | (sched, some (old, next)) => s.switch sched old next
  | .create entry => s.made C (.thread entry) s.sched.kernel.create
  | .createUser entryPoint pageTable =>
    s.made C .user (s.sched.kernel.createUser entryPoint pageTable)
  | .exit => s.withKernel s.sched.kernel.exit
  | .reapZombies => s.withKernel s.sched.kernel.reapZombies
  | .work regs => { s with regs := regs }

/-- The registers start a process of this kind on its own kernel stack. -/
def Start.Begins (C : Code) (kernelStackTop : Nat) (c : Callee) : Start → Prop
  | .boot => False
  | .thread entry => c.x 11 = C.wrapper ∧ c.x 0 = entry ∧ c.sp = kernelStackTop
  | .user => C.el0Entry (c.x 11) ∧ c.sp = kernelStackTop

/-- If `schedule` switches, the process it switches to has the registers it had
when it was last switched away from, or those that start it. -/
def Threads.Restores (C : Code) (s : Threads) : Prop :=
  ∀ old next, s.sched.schedule.2 = some (old, next) →
    match (s.exec C .schedule).last (s.owner next) with
    | some c => (s.exec C .schedule).regs.callee = c
    | none => (s.start (s.owner next)).Begins C (s.sched.kernel.procs next).kernelStackTop
        (s.exec C .schedule).regs.callee

/-- A user process that was never switched away from, in a slot that is not the
current one. -/
def Threads.NeverRan (s : Threads) (i : Fin 64) : Prop :=
  i ≠ s.sched.currentIndex ∧ s.last (s.owner i) = none ∧ s.start (s.owner i) = .user

/-- The next process in turn is no user process that never ran. -/
def Threads.SafePick (s : Threads) : Prop := ∀ i, s.sched.Nearest i → ¬ s.NeverRan i

def ThreadOp.Safe (s : Threads) : ThreadOp → Prop
  | .schedule => s.SafePick
  | .reapZombies => s.sched.currentIndex = 0 ∨
      (s.sched.kernel.procs s.sched.currentIndex).state ≠ .zombie
  | _ => True

/-- Any boot, then any operations that meet `G`. -/
def threadLTS (C : Code) (G : Threads → ThreadOp → Prop) : LTS Threads ThreadOp where
  init s := ∃ m ttbr0 regs,
    s = ⟨⟨Kernel.init m ttbr0, 0⟩, regs, fun _ _ => 0, 0, fun _ => 0, 0, fun _ => .boot,
      fun _ => none⟩
  step s op s' := G s op ∧ s' = s.exec C op

/-! ## The invariant -/

/-- The context in slot `i` is the one its process left, or the one it was made
with. -/
def Threads.Sound (C : Code) (s : Threads) (i : Fin 64) : Prop :=
  match s.last (s.owner i) with
  | some c => ProcessContext.callee (s.contexts i) = c
  | none => s.start (s.owner i) ≠ .boot ∧
      s.contexts i = (s.start (s.owner i)).context C (s.sched.kernel.procs i).kernelStackTop

structure Threads.Inv (C : Code) (s : Threads) : Prop where
  current : s.sched.kernel.current = some s.sched.currentIndex
  live : (s.sched.kernel.procs s.sched.currentIndex).state ≠ .unused
  self : s.self = s.owner s.sched.currentIndex
  bound : ∀ i, s.owner i ≤ s.count
  fresh : ∀ n, s.count < n → s.last n = none
  distinct : ∀ i j, (s.sched.kernel.procs i).state ≠ .unused →
    (s.sched.kernel.procs j).state ≠ .unused → s.owner i = s.owner j → i = j
  sound : ∀ i, (s.sched.kernel.procs i).state ≠ .unused → i ≠ s.sched.currentIndex → s.Sound C i

section
variable {C : Code} {s : Threads}

/-- A change of the table that leaves the current process, uses no new slot and
keeps the stacks. -/
theorem Threads.Inv.withKernel (h : s.Inv C) {k : Kernel} (hc : k.current = s.sched.kernel.current)
    (hlive : (k.procs s.sched.currentIndex).state ≠ .unused)
    (hused : ∀ i, (k.procs i).state ≠ .unused → (s.sched.kernel.procs i).state ≠ .unused ∧
      (k.procs i).kernelStackTop = (s.sched.kernel.procs i).kernelStackTop) :
    (s.withKernel k).Inv C where
  current := hc.trans h.current
  live := hlive
  self := h.self
  bound := h.bound
  fresh := h.fresh
  distinct i j hi hj := h.distinct i j (hused i hi).1 (hused j hj).1
  sound i hi hne := by
    have hs := h.sound i (hused i hi).1 hne
    unfold Threads.Sound at hs ⊢
    dsimp only [Threads.withKernel] at *
    rw [(hused i hi).2]
    exact hs

theorem Threads.Inv.made (h : s.Inv C) {start : Start} (hb : start ≠ .boot)
    {r : Kernel × Option (Fin 64)} (hr : Created s.sched.kernel r) : (s.made C start r).Inv C := by
  cases hr with
  | failed => exact h.withKernel rfl h.live fun i hi => ⟨hi, rfl⟩
  | @made m pid i p hs hp =>
    obtain ⟨hi0, hiu⟩ := freeSlot_spec hs
    have hcur : s.sched.currentIndex ≠ i := fun e => h.live (e ▸ hiu)
    have hproc : ∀ j, j ≠ i → Function.update s.sched.kernel.procs i p j = s.sched.kernel.procs j :=
      fun j hj => by rw [update_of_ne hj]
    have howner : ∀ j, j ≠ i → Function.update s.owner i (s.count + 1) j = s.owner j :=
      fun j hj => by rw [update_of_ne hj]
    have hnew : ∀ j, s.owner j ≠ s.count + 1 := fun j e => by
      have := h.bound j
      omega
    refine ⟨h.current, ?_, ?_, fun j => ?_, fun n hn => h.fresh n ?_, fun a b ha hb' hab => ?_,
      fun j hj hne => ?_⟩
    all_goals dsimp only [Threads.made, Threads.withKernel] at *
    · rw [hproc _ hcur]
      exact h.live
    · rw [howner _ hcur]
      exact h.self
    · by_cases hji : j = i
      · rw [hji, update_self]
      · rw [howner j hji]
        exact Nat.le_succ_of_le (h.bound j)
    · omega
    · by_cases hai : a = i <;> by_cases hbi : b = i
      · rw [hai, hbi]
      · rw [hai, update_self, howner b hbi] at hab
        exact absurd hab.symm (hnew b)
      · rw [hbi, update_self, howner a hai] at hab
        exact absurd hab (hnew a)
      · rw [howner a hai, howner b hbi] at hab
        rw [hproc a hai] at ha
        rw [hproc b hbi] at hb'
        exact h.distinct a b ha hb' hab
    · unfold Threads.Sound
      by_cases hji : j = i
      · -- the new process: nothing was saved under its number
        rw [hji]
        simp only [update_self]
        rw [h.fresh (s.count + 1) (Nat.lt_succ_self _)]
        exact ⟨hb, trivial⟩
      · have hs := h.sound j (by rwa [hproc j hji] at hj) hne
        simp only [howner j hji, hproc j hji, update_of_ne (hnew j), update_of_ne hji]
        exact hs

/-- A switch: the process left has its registers in its slot, and every other
slot is as it was. -/
theorem Threads.Inv.switch (h : s.Inv C) {next : Fin 64} (hn : s.sched.Nearest next) :
    (s.switch (s.sched.switched next) s.sched.currentIndex next).Inv C := by
  have hused : ∀ i, ((s.sched.switched next).kernel.procs i).state ≠ .unused →
      (s.sched.kernel.procs i).state ≠ .unused := by
    intro i hi
    rw [switched_state] at hi
    split at hi
    · rename_i he
      rw [he]
      exact hn.inUse
    · split at hi
      · rename_i hr
        rw [hr.2]
        decide
      · exact hi
  refine ⟨rfl, ?_, rfl, h.bound, fun n hn => ?_,
    fun i j hi hj => h.distinct i j (hused i hi) (hused j hj),
    fun i hi hne => ?_⟩
  · exact (switched_state s.sched next next).trans_ne ((if_pos rfl).trans_ne (by decide))
  · have : n ≠ s.self := fun e => by
      rw [e, h.self] at hn
      exact absurd (h.bound s.sched.currentIndex) (Nat.not_le.mpr hn)
    exact (update_of_ne this _ _).trans (h.fresh n hn)
  · unfold Threads.Sound
    dsimp only [Threads.switch] at *
    by_cases hold : i = s.sched.currentIndex
    · rw [hold, ← h.self, update_self]
      exact switch_saves _ _ _
    have hself : s.owner i ≠ s.self := fun e =>
      hold (h.distinct i _ (hused i hi) h.live (e.trans h.self))
    have hs := h.sound i (hused i hi) hold
    rw [update_of_ne hself, switch_other _ hold, (switched_sameBut s.sched next i).kernelStackTop]
    exact hs

theorem inv_exit (h : s.Inv C) : (s.withKernel s.sched.kernel.exit).Inv C := by
  have he : s.sched.kernel.exit = s.sched.kernel.setState s.sched.currentIndex .zombie := by
    unfold Kernel.exit
    rw [h.current]
  rw [he]
  refine h.withKernel rfl ?_ fun i hi => ⟨?_, (setState_sameBut _ _ i _).kernelStackTop⟩
  · rw [setState_state, if_pos rfl]
    decide
  rw [setState_state] at hi
  split at hi
  · rename_i hic
    rw [hic]
    exact h.live
  · exact hi

theorem inv_reapZombies (h : s.Inv C) (hsafe : ThreadOp.Safe s .reapZombies) :
    (s.withKernel s.sched.kernel.reapZombies).Inv C := by
  have R := reapZombies_reaped s.sched.kernel
  have hkeep : s.sched.kernel.reapZombies.procs s.sched.currentIndex =
      s.sched.kernel.procs s.sched.currentIndex := by
    rcases hsafe with h0 | hz
    · rw [h0]
      exact R.idle
    · exact (R.slot _).resolve_right fun hr => hz hr.1
  have hlive := h.live
  rw [← hkeep] at hlive
  refine h.withKernel R.current hlive fun i hi => ?_
  rcases R.slot i with he | ⟨-, hu⟩
  · rw [he] at hi ⊢
    exact ⟨hi, rfl⟩
  · exact absurd hu hi

theorem schedule_exec (h : s.Inv C) :
    ((s.exec C .schedule = s ∧ ∀ i, ¬ s.sched.Runnable i) ∧ s.sched.schedule.2 = none) ∨
    ∃ next, s.sched.Nearest next ∧ s.sched.schedule.2 = some (s.sched.currentIndex, next) ∧
      s.exec C .schedule = s.switch (s.sched.switched next) s.sched.currentIndex next := by
  have ht := schedule_turn h.current
  unfold Threads.exec
  generalize s.sched.schedule = r at ht ⊢
  cases ht with
  | idle hno => exact .inl ⟨⟨rfl, hno⟩, rfl⟩
  | switch hn => exact .inr ⟨_, hn, rfl, rfl⟩

theorem threads_inductive : (threadLTS C ThreadOp.Safe).Inductive (Threads.Inv C) where
  init := by
    rintro s ⟨m, ttbr0, regs, rfl⟩
    have hzero : ∀ i, ((Kernel.init m ttbr0).procs i).state ≠ .unused → i = 0 := by
      intro i hi
      by_contra hne
      simp [Kernel.init, hne] at hi
    exact ⟨rfl, by simp [Kernel.init], rfl, fun _ => Nat.le_refl 0, fun _ _ => rfl,
      fun i j hi hj _ => (hzero i hi).trans (hzero j hj).symm,
        fun i hi hne => absurd (hzero i hi) hne⟩
  step := by
    rintro s op _ h ⟨hsafe, rfl⟩
    cases op with
    | schedule =>
      rcases schedule_exec h with ⟨⟨he, -⟩, -⟩ | ⟨next, hn, -, he⟩
      · rw [he]
        exact h
      · rw [he]
        exact h.switch hn
    | create entry => exact h.made Start.noConfusion (create_created _)
    | createUser entryPoint pageTable => exact h.made Start.noConfusion (createUser_created _ _ _)
    | exit => exact inv_exit h
    | reapZombies => exact inv_reapZombies h hsafe
    | work regs => exact ⟨h.current, h.live, h.self, h.bound, h.fresh, h.distinct, h.sound⟩

theorem begins_iff {start : Start} (hb : start ≠ .boot) (kernelStackTop : Nat) :
    start.Begins C kernelStackTop (ProcessContext.callee (start.context C kernelStackTop)) ↔
      start ≠ .user := by
  cases start with
  | boot => exact absurd rfl hb
  | thread entry => exact iff_of_true ⟨rfl, rfl, rfl⟩ Start.noConfusion
  | user =>
    refine iff_of_false (fun h => ?_) fun h => h rfl
    have := C.linked _ h.1
    simp [ProcessContext.callee, Start.context] at this

/-- The registers the process in slot `next` gets, and what was saved for it. -/
theorem switch_resumes (h : s.Inv C) {next : Fin 64} (hn : s.sched.Nearest next)
    (hne : next ≠ s.sched.currentIndex) :
    (s.switch (s.sched.switched next) s.sched.currentIndex next).last (s.owner next) =
        s.last (s.owner next) ∧
      (s.switch (s.sched.switched next) s.sched.currentIndex next).regs.callee =
        ProcessContext.callee (s.contexts next) := by
  have hself : s.owner next ≠ s.self := fun e =>
    hne (h.distinct next _ hn.inUse h.live (e.trans h.self))
  refine ⟨update_of_ne hself _ _, ?_⟩
  exact (switch_restores _ _ next).trans (congrArg _ (switch_other _ hne))

/-- In every state of every run whose `schedule` calls never select a user
process that did not run yet, and in which nobody reaps the current process: the
next call resumes its process where it was last suspended, or at its start,
exactly when that process is no user process that never ran. -/
theorem contexts_restored (hr : (threadLTS C ThreadOp.Safe).Reachable s) :
    s.Restores C ↔ s.SafePick := by
  have h := threads_inductive.reachable s hr
  unfold Threads.Restores Threads.SafePick
  rcases schedule_exec h with ⟨hno, hnone⟩ | ⟨next, hn, hsome, he⟩
  · refine iff_of_true (fun old next e => ?_) fun i hi => absurd hi.1 (hno.2 i)
    rw [hnone] at e
    cases e
  · rw [he]
    have hsound := h.sound next hn.inUse
    unfold Threads.Sound at hsound
    constructor
    · intro hres i hi hnever
      obtain rfl := hi.unique hn
      obtain ⟨hlast, hregs⟩ := switch_resumes h hn hnever.1
      have hbegins := hres _ _ hsome
      rw [hlast, hregs, hnever.2.1] at hbegins
      have hs := hsound hnever.1
      rw [hnever.2.1] at hs
      rw [hs.2] at hbegins
      exact (begins_iff hs.1 _).mp hbegins hnever.2.2
    · intro hsafe old next' e
      obtain ⟨rfl, rfl⟩ : s.sched.currentIndex = old ∧ next = next' := by
        rw [hsome] at e
        cases e
        exact ⟨rfl, rfl⟩
      by_cases hne : next = s.sched.currentIndex
      · -- a switch to itself saves and restores the same registers
        have hself : (s.switch (s.sched.switched next) s.sched.currentIndex next).last
            (s.owner next) =
            some s.regs.callee := by
          rw [hne, ← h.self]
          exact update_self ..
        rw [hself]
        rw [hne]
        exact (switch_restores _ _ _).trans (switch_saves _ _ _)
      · obtain ⟨hlast, hregs⟩ := switch_resumes h hn hne
        have hs := hsound hne
        rw [hlast, hregs]
        cases hl : s.last (s.owner next) with
        | some c =>
          rw [hl] at hs
          exact hs
        | none =>
          rw [hl] at hs
          have huser : s.start (s.owner next) ≠ .user := fun hu => hsafe next hn ⟨hne, hl, hu⟩
          rw [hs.2]
          exact (begins_iff hs.1 _).mpr huser

end

/-- The wrapper somewhere in the image, and any address of the image taken for
code that enters EL0. -/
def demoCode : Code := ⟨0x40001000, fun a => 0x40000000 ≤ a, fun _ h => h⟩

def demoThreads : Threads :=
  ⟨demoSched, ⟨fun _ => 7, 0x40002000⟩, fun _ _ => 0, 0, fun _ => 0, 0, fun _ => .boot, fun _ => none⟩

def threadRun (ops : List ThreadOp) : Threads := ops.foldl (Threads.exec demoCode) demoThreads

theorem threadRun_reachable (ops : List ThreadOp) :
    (threadLTS demoCode fun _ _ => True).Reachable (threadRun ops) := by
  refine ⟨demoThreads, ops, ⟨_, _, _, rfl⟩, ?_⟩
  unfold threadRun
  generalize demoThreads = s
  induction ops generalizing s with
  | nil => exact .nil _
  | cons op ops ih => exact .cons ⟨trivial, rfl⟩ (ih _)

/-- A kernel thread that was just made starts in the wrapper. -/
theorem contexts_restored_thread : (threadRun [.create 0x40003000]).sched.schedule.2 = some (0, 1) ∧
    (threadRun [.create 0x40003000]).Restores demoCode := by
  have hr : (threadLTS demoCode ThreadOp.Safe).Reachable (threadRun [.create 0x40003000]) :=
    ⟨demoThreads, [.create 0x40003000], ⟨_, _, _, rfl⟩, .cons ⟨trivial, rfl⟩ (.nil _)⟩
  have hstart : ∀ n, (demoThreads.made demoCode (.thread 0x40003000)
      demoThreads.sched.kernel.create).start n ≠ .user := by
    intro n
    unfold Threads.made
    split
    · exact Start.noConfusion
    · dsimp only
      rw [update_apply]
      split <;> exact Start.noConfusion
  exact ⟨by decide +kernel, (contexts_restored hr).mpr fun i _ hnever => hstart _ hnever.2.2⟩

/-- A process resumed for the first time with `x30` outside the image. -/
theorem not_restores {s : Threads} {i : Fin 64} (hs : s.sched.schedule.2 = some (0, i))
    (hlast : ((s.exec demoCode .schedule).last (s.owner i)).isSome = false)
    (hx : (s.exec demoCode .schedule).regs.x 30 < 0x40000000) : ¬ s.Restores demoCode := by
  intro h
  have hb := h 0 i hs
  rw [Option.isSome_eq_false_iff, Option.isNone_iff_eq_none] at hlast
  rw [hlast] at hb
  generalize s.start (s.owner i) = start at hb
  cases start with
  | boot => exact hb
  | thread entry =>
    have hw : (s.exec demoCode .schedule).regs.x 30 = 0x40001000 := hb.1
    rw [hw] at hx
    exact absurd hx (by decide)
  | user => exact absurd hx (Nat.not_lt.mpr hb.1)

/-- **Counterexample**: the first `schedule` after `create_user` selects the new
process and returns to address 0. And a thread that exits and is reaped while
it is current has its slot reused: the next switch saves its registers there,
and the new thread in that slot is resumed with them. -/
theorem schedule_returns_to_zero :
    (threadLTS demoCode fun _ _ => True).Reachable (threadRun [.createUser 0x10000 0x4000F000]) ∧
    (threadRun [.createUser 0x10000 0x4000F000]).sched.schedule.2 = some (0, 1) ∧
    (threadRun [.createUser 0x10000 0x4000F000, .schedule]).regs.x 30 = 0 ∧
    ¬ (threadRun [.createUser 0x10000 0x4000F000]).Restores demoCode ∧
    (threadLTS demoCode fun _ _ => True).Reachable (threadRun [.create 0x40003000, .schedule,
      .work ⟨fun _ => 9, 0x40005000⟩, .exit, .reapZombies, .create 0x40004000, .schedule]) ∧
    ¬ (threadRun [.create 0x40003000, .schedule, .work ⟨fun _ => 9, 0x40005000⟩, .exit, .reapZombies,
      .create 0x40004000, .schedule]).Restores demoCode := by
  refine ⟨threadRun_reachable _, by decide +kernel, by decide +kernel, ?_, threadRun_reachable _, ?_⟩
  all_goals exact not_restores (i := 1) (by decide +kernel) (by decide +kernel) (by decide +kernel)

end HackersOs.L5

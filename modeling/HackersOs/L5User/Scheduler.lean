import HackersOs.Core.Cyclic
import HackersOs.Core.LTS
import HackersOs.L5User.Process

/-!
# The scheduler (`process/scheduler.cpp`)

`schedule` marks the current process READY, looks for the next READY slot
after `current_index`, round the table and back to the slot it came from, and
switches to it. The table register is loaded only for a process that has a
page table other than the old one's, so a kernel thread runs on whatever
table was there. A current process that is no longer RUNNING (it exited) stays
current until somebody is READY.

`Turn` says what one call does: nothing if no process is runnable, or a
switch to the nearest runnable slot.

Results:

* `scheduler_invariant`: the current process, its index, the RUNNING marks and
  `TTBR0_EL1` agree in every run from `Process_::init`.
* `round_robin`: whatever the other processes do between two calls, a call
  selects a READY process or comes strictly nearer to it, so it waits for
  fewer than 64 calls and nobody is selected twice while it waits.
-/
namespace HackersOs.L5
open HackersOs.Core HackersOs.Core.Cyclic L2

structure Sched where
  kernel : Kernel
  /-- `static u32 current_index`, always below `MAX_PROCESSES` -/
  currentIndex : Fin 64

/-! ## The code -/

def Kernel.setState (k : Kernel) (i : Fin 64) (state : ProcessState) : Kernel :=
  k.setProc i { k.procs i with state := state }

/-- "Mark current as ready if it was running." -/
def Kernel.demote (k : Kernel) (cur : Fin 64) : Kernel :=
  if (k.procs cur).state = .running then k.setState cur .ready else k

/-- The switch, up to the call of `context_switch`. -/
def Kernel.switchTo (k : Kernel) (old next : Fin 64) : Kernel :=
  { k.setState next .running with
    current := some next
    ttbr0 := if (k.procs next).pageTable ≠ 0 ∧ (k.procs next).pageTable ≠ (k.procs old).pageTable
      then (k.procs next).pageTable else k.ttbr0 }

/-- mirrors src/process/scheduler.cpp:19-62; the second component holds the
slots of the two arguments of `context_switch`, if the call gets there. -/
def Sched.schedule (s : Sched) : Sched × Option (Fin 64 × Fin 64) :=
  match s.kernel.current with
  | none => (s, none)
  | some cur =>
    let k := s.kernel.demote cur
    let next := search (fun i => (k.procs i).state = .ready) s.currentIndex
    if (k.procs next).state ≠ .ready then
      ({ s with kernel := if (k.procs cur).state = .ready then k.setState cur .running else k }, none)
    else (⟨k.switchTo cur next, next⟩, some (cur, next))

/-! ## One call -/

section
variable {k : Kernel} {s : Sched} {i cur next : Fin 64}

theorem setState_procs (k : Kernel) (i j : Fin 64) (state : ProcessState) :
    (k.setState i state).procs j =
    if j = i then { k.procs j with state := state } else k.procs j := by
  refine (Function.update_apply k.procs i _ j).trans ?_
  split
  · rename_i h
    rw [h]
  · rfl

theorem setState_state (k : Kernel) (i j : Fin 64) (state : ProcessState) :
    ((k.setState i state).procs j).state = if j = i then state else (k.procs j).state := by
  rw [setState_procs]
  split <;> rfl

/-- `p` is `q` but for its state. -/
def Process.SameBut (p q : Process) : Prop := ∃ state, p = { q with state := state }

theorem Process.SameBut.trans {p q r : Process} (h : p.SameBut q) (h' : q.SameBut r) :
    p.SameBut r := by
  obtain ⟨a, rfl⟩ := h
  obtain ⟨b, rfl⟩ := h'
  exact ⟨a, rfl⟩

theorem Process.SameBut.pageTable {p q : Process} (h : p.SameBut q) : p.pageTable = q.pageTable := by
  obtain ⟨a, rfl⟩ := h
  rfl

theorem Process.SameBut.kernelStackTop {p q : Process} (h : p.SameBut q) :
    p.kernelStackTop = q.kernelStackTop := by
  obtain ⟨a, rfl⟩ := h
  rfl

theorem setState_sameBut (k : Kernel) (i j : Fin 64) (state : ProcessState) :
    ((k.setState i state).procs j).SameBut (k.procs j) := by
  rw [setState_procs]
  split <;> exact ⟨_, rfl⟩

theorem demote_state (k : Kernel) (cur j : Fin 64) : ((k.demote cur).procs j).state =
    if j = cur ∧ (k.procs j).state = .running then .ready else (k.procs j).state := by
  unfold Kernel.demote
  by_cases hr : (k.procs cur).state = .running
  · rw [if_pos hr, setState_state]
    by_cases h : j = cur
    · rw [if_pos h, if_pos ⟨h, h ▸ hr⟩]
    · rw [if_neg h, if_neg fun h' => h h'.1]
  · rw [if_neg hr, if_neg]
    rintro ⟨rfl, h⟩
    exact hr h

theorem demote_sameBut (k : Kernel) (cur j : Fin 64) :
    ((k.demote cur).procs j).SameBut (k.procs j) := by
  unfold Kernel.demote
  split
  · exact setState_sameBut k cur j .ready
  · exact ⟨_, rfl⟩

theorem demote_of_not_running (h : (k.procs cur).state ≠ .running) : k.demote cur = k := if_neg h

theorem demote_ttbr0 (k : Kernel) (cur : Fin 64) : (k.demote cur).ttbr0 = k.ttbr0 := by
  unfold Kernel.demote
  split <;> rfl

/-- The processes a call can select: the READY ones, and the current one if it
is RUNNING. -/
def Sched.Runnable (s : Sched) (i : Fin 64) : Prop :=
  (s.kernel.procs i).state = .ready ∨ i = s.currentIndex ∧ (s.kernel.procs i).state = .running

instance (s : Sched) (i : Fin 64) : Decidable (s.Runnable i) :=
  inferInstanceAs (Decidable (_ ∨ _))

theorem demote_ready (s : Sched) (i : Fin 64) :
    ((s.kernel.demote s.currentIndex).procs i).state = .ready ↔ s.Runnable i := by
  rw [demote_state]
  split
  · rename_i h
    exact iff_of_true rfl (.inr h)
  · rename_i h
    exact ⟨.inl, fun hr => hr.resolve_right h⟩

/-- The state after a switch to `next`. -/
def Sched.switched (s : Sched) (next : Fin 64) : Sched :=
  ⟨(s.kernel.demote s.currentIndex).switchTo s.currentIndex next, next⟩

/-- `next` is the first runnable slot after `current_index`. -/
def Sched.Nearest (s : Sched) (next : Fin 64) : Prop :=
  s.Runnable next ∧ ∀ i, s.Runnable i → ahead s.currentIndex next ≤ ahead s.currentIndex i

theorem Sched.Nearest.unique (h : s.Nearest next) (h' : s.Nearest i) : next = i :=
  ahead_inj (le_antisymm (h.2 i h'.1) (h'.2 next h.1))

theorem Sched.Nearest.inUse (h : s.Nearest next) : (s.kernel.procs next).state ≠ .unused := by
  rcases h.1 with hr | ⟨-, hr⟩ <;> rw [hr] <;> decide

/-- What one call does. -/
inductive Sched.Turn (s : Sched) : Sched × Option (Fin 64 × Fin 64) → Prop
  | idle : (∀ i, ¬ s.Runnable i) → Turn s (s, none)
  | switch {next : Fin 64} : s.Nearest next → Turn s (s.switched next, some (s.currentIndex, next))

theorem schedule_turn (h : s.kernel.current = some s.currentIndex) : s.Turn s.schedule := by
  unfold Sched.schedule
  rw [h]
  dsimp only
  by_cases hex : ∃ i, s.Runnable i
  · obtain ⟨i, hi⟩ := hex
    have hle := fun j hj => @search_le 64 _
      (fun i => ((s.kernel.demote s.currentIndex).procs i).state = .ready) _ s.currentIndex j
      ((demote_ready s j).mpr hj)
    have hready := (hle i hi).1
    rw [if_neg (not_not.mpr hready)]
    exact .switch ⟨(demote_ready s _).mp hready, fun j hj => (hle j hj).2⟩
  · have hno : ∀ i, ¬ s.Runnable i := fun i hi => hex ⟨i, hi⟩
    have hcur : (s.kernel.procs s.currentIndex).state ≠ .running := fun hr =>
      hno _ (.inr ⟨rfl, hr⟩)
    have hcur' : (s.kernel.procs s.currentIndex).state ≠ .ready := fun hr => hno _ (.inl hr)
    rw [search_of_none fun j hj => hno j ((demote_ready s j).mp hj), demote_of_not_running hcur,
      if_pos hcur', if_neg hcur']
    exact .idle hno

theorem switched_state (s : Sched) (next j : Fin 64) :
    ((s.switched next).kernel.procs j).state = if j = next then .running
      else if j = s.currentIndex ∧ (s.kernel.procs j).state = .running then .ready
      else (s.kernel.procs j).state := by
  refine (setState_state _ next j .running).trans ?_
  rw [demote_state]

theorem switched_sameBut (s : Sched) (next j : Fin 64) :
    ((s.switched next).kernel.procs j).SameBut (s.kernel.procs j) :=
  (setState_sameBut _ next j .running).trans (demote_sameBut _ _ j)

theorem switched_ttbr0 (s : Sched) (next : Fin 64) : (s.switched next).kernel.ttbr0 =
    if (s.kernel.procs next).pageTable ≠ 0 ∧
        (s.kernel.procs next).pageTable ≠ (s.kernel.procs s.currentIndex).pageTable
    then (s.kernel.procs next).pageTable else s.kernel.ttbr0 := by
  unfold Sched.switched Kernel.switchTo
  rw [(demote_sameBut _ _ _).pageTable, (demote_sameBut _ _ _).pageTable, demote_ttbr0]

/-! ## The other operations -/

/-- What `create` and `create_user` do to the table: nothing, or a READY
process in the free slot. -/
inductive Created (k : Kernel) : Kernel × Option (Fin 64) → Prop
  | failed {m : Machine} : Created k ({ k with machine := m }, none)
  | made {m : Machine} {pid : Nat} {i : Fin 64} {p : Process} :
      k.freeSlot = some i → p.state = .ready →
      Created k ({ k with machine := m, nextPid := pid, procs := Function.update k.procs i p },
        some i)

theorem create_created (k : Kernel) : Created k k.create := by
  unfold Kernel.create
  cases hs : k.freeSlot with
  | none => exact .failed
  | some i =>
    dsimp only
    split
    · exact .failed
    · exact .made hs rfl

theorem createUser_created (k : Kernel) (entryPoint pageTable : Nat) :
    Created k (k.createUser entryPoint pageTable) := by
  unfold Kernel.createUser
  cases hs : k.freeSlot with
  | none => exact .failed
  | some i =>
    dsimp only
    split
    · exact .failed
    · split
      · exact .failed
      · exact .made hs rfl

/-- What `reap_zombies` does to one slot. -/
def ReapedSlot (p p' : Process) : Prop := p' = p ∨ p.state = .zombie ∧ p'.state = .unused

theorem reap_slot (k : Kernel) (i j : Fin 64) : ReapedSlot (k.procs j) ((k.reap i).procs j) := by
  unfold Kernel.reap
  split
  · rename_i hz
    by_cases h : j = i
    · rw [h]
      exact .inr ⟨hz, congrArg Process.state (Function.update_self i _ k.procs)⟩
    · exact .inl (Function.update_of_ne h _ _)
  · exact .inl rfl

theorem reap_other (k : Kernel) {i j : Fin 64} (h : j ≠ i) : (k.reap i).procs j = k.procs j := by
  unfold Kernel.reap
  split
  · exact Function.update_of_ne h _ _
  · rfl

theorem reap_current (k : Kernel) (i : Fin 64) :
    (k.reap i).current = k.current ∧ (k.reap i).ttbr0 = k.ttbr0 := by
  unfold Kernel.reap
  split <;> exact ⟨rfl, rfl⟩

theorem ReapedSlot.trans {p q r : Process} (h : ReapedSlot p q) (h' : ReapedSlot q r) :
    ReapedSlot p r := by
  rcases h with rfl | ⟨hz, hu⟩
  · exact h'
  · rcases h' with rfl | ⟨hz', -⟩
    · exact .inr ⟨hz, hu⟩
    · rw [hu] at hz'
      cases hz'

/-- `reap_zombies` gives up zombies only, never slot 0, and leaves the rest. -/
structure Reaped (k k' : Kernel) : Prop where
  current : k'.current = k.current
  ttbr0 : k'.ttbr0 = k.ttbr0
  slot : ∀ j, ReapedSlot (k.procs j) (k'.procs j)
  idle : k'.procs 0 = k.procs 0

theorem foldl_reap_reaped (k : Kernel) {l : List (Fin 64)} (hl : ∀ i ∈ l, i ≠ 0) :
    Reaped k (l.foldl Kernel.reap k) := by
  induction l generalizing k with
  | nil => exact ⟨rfl, rfl, fun _ => .inl rfl, rfl⟩
  | cons i l ih =>
    have R := ih (k.reap i) fun j hj => hl j (List.mem_cons_of_mem i hj)
    obtain ⟨hc, ht⟩ := reap_current k i
    exact ⟨R.current.trans hc, R.ttbr0.trans ht, fun j => (reap_slot k i j).trans (R.slot j),
      R.idle.trans (reap_other k (Ne.symm (hl i List.mem_cons_self)))⟩

theorem reapZombies_reaped (k : Kernel) : Reaped k k.reapZombies :=
  foldl_reap_reaped k fun i hi => by simpa using (List.mem_filter.mp hi).2

/-! ## The invariant -/

inductive SchedOp where
  | schedule
  | create
  | createUser (entryPoint pageTable : Nat)
  /-- the current process becomes a ZOMBIE -/
  | exit
  /-- `enter_usermode(entry, user_stack, page_table)`, of which the table
  register is the only part of this state -/
  | enterUsermode (pageTable : Nat)
  | reapZombies
  deriving DecidableEq, Repr

/-- The process in the current slot becomes a ZOMBIE. -/
def Kernel.exit (k : Kernel) : Kernel :=
  match k.current with
  | none => k
  | some i => k.setState i .zombie

def Sched.exec (s : Sched) : SchedOp → Sched
  | .schedule => s.schedule.1
  | .create => { s with kernel := s.kernel.create.1 }
  | .createUser entryPoint pageTable =>
    { s with kernel := (s.kernel.createUser entryPoint pageTable).1 }
  | .exit => { s with kernel := s.kernel.exit }
  | .enterUsermode pageTable => { s with kernel := { s.kernel with ttbr0 := pageTable } }
  | .reapZombies => { s with kernel := s.kernel.reapZombies }

/-- The shell, which is process 0, is the only caller of `enter_usermode` and
`reap_zombies`. -/
def SchedOp.ByShell (s : Sched) : SchedOp → Prop
  | .enterUsermode _ | .reapZombies => s.kernel.current = some 0
  | _ => True

/-- Any boot, then any operations. -/
def schedLTS : LTS Sched SchedOp where
  init s := ∃ m ttbr0, s = ⟨Kernel.init m ttbr0, 0⟩
  step s op s' := op.ByShell s ∧ s' = s.exec op

structure Sched.Ok (s : Sched) : Prop where
  /-- `current_process == &table[current_index]` -/
  current : s.kernel.current = some s.currentIndex
  live : (s.kernel.procs s.currentIndex).state ≠ .unused
  running : ∀ i, (s.kernel.procs i).state = .running → i = s.currentIndex
  table : (s.kernel.procs s.currentIndex).pageTable ≠ 0 →
    s.kernel.ttbr0 = (s.kernel.procs s.currentIndex).pageTable

/-- The invariant, and that process 0 has no page table of its own. -/
def Sched.Inv (s : Sched) : Prop := s.Ok ∧ (s.kernel.procs 0).pageTable = 0

theorem Sched.Inv.schedule (h : s.Inv) : s.schedule.1.Inv := by
  have ht := schedule_turn h.1.current
  generalize s.schedule = r at ht
  cases ht with
  | idle _ => exact h
  | @switch next _ =>
    refine ⟨⟨rfl, ?_, fun i hi => ?_, fun hpt => ?_⟩, ?_⟩
    · rw [switched_state]
      exact (if_pos rfl).trans_ne (by decide)
    · rw [switched_state] at hi
      split at hi
      · assumption
      · split at hi
        · cases hi
        · rename_i hni hnr
          exact absurd ⟨h.1.running i hi, hi⟩ hnr
    · rw [switched_ttbr0, (switched_sameBut s next _).pageTable]
      have hpt' : (s.kernel.procs next).pageTable ≠ 0 :=
        by rwa [(switched_sameBut s next _).pageTable] at hpt
      split
      · rfl
      -- the old process has the same table, so it is loaded
      rename_i hsame
      have he : (s.kernel.procs next).pageTable = (s.kernel.procs s.currentIndex).pageTable :=
        not_not.mp fun hne => hsame ⟨hpt', hne⟩
      exact (h.1.table (he ▸ hpt')).trans he.symm
    · exact (switched_sameBut s next 0).pageTable.trans h.2

theorem Sched.Inv.created (h : s.Inv) {r : Kernel × Option (Fin 64)} (hr : Created s.kernel r) :
    Sched.Inv { s with kernel := r.1 } := by
  cases hr with
  | failed => exact ⟨⟨h.1.current, h.1.live, h.1.running, h.1.table⟩, h.2⟩
  | @made m pid i p hs hp =>
    obtain ⟨hi0, hiu⟩ := freeSlot_spec hs
    have hcur : s.currentIndex ≠ i := fun e => h.1.live (e ▸ hiu)
    have hold : ∀ j, j ≠ i → Function.update s.kernel.procs i p j = s.kernel.procs j := fun j hj => by
      rw [Function.update_of_ne hj]
    refine ⟨⟨h.1.current, ?_, fun j hj => ?_, ?_⟩, ?_⟩
    · dsimp only
      rw [hold _ hcur]
      exact h.1.live
    · dsimp only at hj
      by_cases hji : j = i
      · rw [hji, Function.update_self, hp] at hj
        cases hj
      · rw [hold j hji] at hj
        exact h.1.running j hj
    · dsimp only
      rw [hold _ hcur]
      exact h.1.table
    · dsimp only
      rw [hold 0 (Ne.symm hi0)]
      exact h.2

theorem Sched.Inv.exit (h : s.Inv) : Sched.Inv { s with kernel := s.kernel.exit } := by
  have he : s.kernel.exit = s.kernel.setState s.currentIndex .zombie := by
    unfold Kernel.exit
    rw [h.1.current]
  rw [he]
  refine ⟨⟨h.1.current, ?_, fun i hi => ?_, ?_⟩, ?_⟩
  · rw [setState_state, if_pos rfl]
    decide
  · rw [setState_state] at hi
    split at hi
    · assumption
    · exact h.1.running i hi
  · rw [(setState_sameBut _ _ _ _).pageTable]
    exact h.1.table
  · exact (setState_sameBut _ _ 0 _).pageTable.trans h.2

theorem Sched.Inv.enterUsermode (h : s.Inv) (h0 : s.kernel.current = some 0) (pageTable : Nat) :
    Sched.Inv { s with kernel := { s.kernel with ttbr0 := pageTable } } := by
  have hidx : s.currentIndex = 0 := Option.some.inj (h.1.current.symm.trans h0)
  refine ⟨⟨h.1.current, h.1.live, h.1.running, fun hpt => absurd ?_ hpt⟩, h.2⟩
  rw [hidx]
  exact h.2

theorem Sched.Inv.reapZombies (h : s.Inv) (h0 : s.kernel.current = some 0) :
    Sched.Inv { s with kernel := s.kernel.reapZombies } := by
  have R := reapZombies_reaped s.kernel
  have hidx : s.currentIndex = 0 := Option.some.inj (h.1.current.symm.trans h0)
  refine ⟨⟨R.current.trans h.1.current, ?_, fun i hi => ?_, ?_⟩, ?_⟩
  · rw [hidx, R.idle, ← hidx]
    exact h.1.live
  · dsimp only at hi
    rcases R.slot i with he | ⟨-, hu⟩
    · rw [he] at hi
      exact h.1.running i hi
    · rw [hu] at hi
      cases hi
  · rw [hidx, R.idle, R.ttbr0, ← hidx]
    exact h.1.table
  · rw [R.idle]
    exact h.2

theorem inv_inductive : schedLTS.Inductive Sched.Inv where
  init := by
    rintro s ⟨m, ttbr0, rfl⟩
    refine ⟨⟨rfl, by simp [Kernel.init], fun i hi => ?_, fun hpt => absurd rfl hpt⟩, rfl⟩
    by_contra hne
    simp [Kernel.init, hne] at hi
  step := by
    rintro s op _ h ⟨hshell, rfl⟩
    cases op with
    | schedule => exact h.schedule
    | create => exact h.created (create_created s.kernel)
    | createUser entryPoint pageTable =>
      exact h.created (createUser_created s.kernel entryPoint pageTable)
    | exit => exact h.exit
    | enterUsermode pageTable => exact h.enterUsermode hshell pageTable
    | reapZombies => exact h.reapZombies hshell

/-- In every run from `Process_::init`, `current_process` is
`table[current_index]`, its slot is in use, no other slot is RUNNING, and a
current process with a page table has it in `TTBR0_EL1`. -/
theorem scheduler_invariant (hr : schedLTS.Reachable s) : s.Ok := (inv_inductive.reachable s hr).1

end

/-- 16 pages of RAM, two of them kernel image, and the idle process. -/
def demoSched : Sched :=
  ⟨Kernel.init ⟨fun _ => 0, L2.Pages.init 0x10000 0x40002000, fun _ _ => none⟩ 0x40001000, 0⟩

/-- A user process is made and selected: its table is loaded. -/
theorem scheduler_invariant_user :
    ((demoSched.exec (.createUser 0x10000 0x4000F000)).exec .schedule).kernel.current = some 1 ∧
    ((demoSched.exec (.createUser 0x10000 0x4000F000)).exec .schedule).kernel.ttbr0 = 0x4000F000 := by
  have hr : schedLTS.Reachable ((demoSched.exec (.createUser 0x10000 0x4000F000)).exec .schedule) :=
    ⟨demoSched, [.createUser 0x10000 0x4000F000, .schedule], ⟨_, _, rfl⟩,
      .cons ⟨trivial, rfl⟩ (.cons ⟨trivial, rfl⟩ (.nil _))⟩
  have h := scheduler_invariant hr
  have hidx : ((demoSched.exec (.createUser 0x10000 0x4000F000)).exec .schedule).currentIndex =
      1 := by
    decide +kernel
  refine ⟨h.current.trans (congrArg some hidx), ?_⟩
  have ht := h.table
  rw [hidx] at ht
  exact (ht (by decide +kernel)).trans (by decide +kernel)

/-! ## Waiting for a turn -/

section
variable {s s' : Sched} {p : Fin 64}

/-- The other processes do something: the table is any table, with the same
process current and `p` READY. -/
def Sched.Between (p : Fin 64) (s s₁ : Sched) : Prop :=
  s₁.currentIndex = s.currentIndex ∧ s₁.kernel.current = s.kernel.current ∧
    (s₁.kernel.procs p).state = .ready

/-- Calls during which `p` stays READY and is not selected, with the slots they
select. -/
inductive Sched.Stretch (p : Fin 64) : Sched → List (Fin 64) → Sched → Prop
  | nil (s : Sched) : Stretch p s [] s
  | call {s s₁ s' : Sched} {sel : List (Fin 64)} : Between p s s₁ → s₁.schedule.1.currentIndex ≠ p →
      Stretch p s₁.schedule.1 sel s' → Stretch p s (s₁.schedule.1.currentIndex :: sel) s'

/-- A call with `p` READY selects it, or the new index lies strictly between
the old one and `p` in cyclic order. -/
theorem schedule_nearer (h : s.kernel.current = some s.currentIndex)
    (hp : (s.kernel.procs p).state = .ready) :
    s.schedule.1.kernel.current = some s.schedule.1.currentIndex ∧ (s.schedule.1.currentIndex = p ∨
      ahead s.schedule.1.currentIndex p < ahead s.currentIndex p ∧
      ahead s.currentIndex s.schedule.1.currentIndex + ahead s.schedule.1.currentIndex p =
        ahead s.currentIndex p) := by
  have ht := schedule_turn h
  generalize s.schedule = r at ht
  cases ht with
  | idle hno => exact absurd (.inl hp) (hno p)
  | @switch next hn =>
    refine ⟨rfl, ?_⟩
    dsimp only [Sched.switched]
    by_cases he : next = p
    · exact .inl he
    right
    have hle := hn.2 p (.inl hp)
    have hlt : ahead s.currentIndex next < ahead s.currentIndex p :=
      lt_of_le_of_ne hle fun e => he (ahead_inj e)
    have hadd := ahead_add hlt
    have hpos := ahead_pos s.currentIndex next
    exact ⟨by omega, hadd⟩

/-- The selected slots come nearer and nearer to `p`. -/
theorem Sched.Stretch.nearer {sel : List (Fin 64)} (h : Sched.Stretch p s sel s')
    (hc : s.kernel.current = some s.currentIndex) :
    sel.length < ahead s.currentIndex p ∧ (∀ q ∈ sel, ahead q p < ahead s.currentIndex p) ∧
      sel.Nodup := by
  induction h with
  | nil s => exact ⟨ahead_pos _ _, fun q hq => absurd hq List.not_mem_nil, .nil⟩
  | @call s s₁ s' sel hb hne _ ih =>
    obtain ⟨hidx, hcur, hready⟩ := hb
    have hc₁ : s₁.kernel.current = some s₁.currentIndex := by rw [hcur, hc, hidx]
    obtain ⟨hc', hnear⟩ := schedule_nearer hc₁ hready
    obtain ⟨hlt, -⟩ := hnear.resolve_left hne
    rw [hidx] at hlt
    obtain ⟨hlen, hsel, hnd⟩ := ih hc'
    refine ⟨by rw [List.length_cons]; omega, fun q hq => ?_, ?_⟩
    · rcases List.mem_cons.mp hq with rfl | hq
      · exact hlt
      · exact (hsel q hq).trans hlt
    · -- a slot selected later is nearer than this one
      exact List.nodup_cons.mpr ⟨fun hmem => lt_irrefl _ (hsel _ hmem), hnd⟩

end

/-- From every state whose current process is `table[current_index]`: with `p`
READY a call makes `p` current or moves the index strictly nearer to it without
passing it; fewer than 64 calls in a row leave `p` waiting, and they select
pairwise different slots. -/
theorem round_robin (s : Sched) (p : Fin 64) (h : s.kernel.current = some s.currentIndex) :
    (∀ s₁, Sched.Between p s s₁ → s₁.schedule.1.kernel.current = some s₁.schedule.1.currentIndex ∧
      (s₁.schedule.1.kernel.current = some p ∨
        ahead s₁.schedule.1.currentIndex p < ahead s.currentIndex p ∧
        ahead s.currentIndex s₁.schedule.1.currentIndex + ahead s₁.schedule.1.currentIndex p =
          ahead s.currentIndex p)) ∧
    ∀ sel s', Sched.Stretch p s sel s' → sel.length < 64 ∧ sel.Nodup := by
  refine ⟨fun s₁ hb => ?_, fun sel s' hs => ?_⟩
  · obtain ⟨hidx, hcur, hready⟩ := hb
    have hc₁ : s₁.kernel.current = some s₁.currentIndex := by rw [hcur, h, hidx]
    obtain ⟨hc', hnear⟩ := schedule_nearer hc₁ hready
    rw [hidx] at hnear
    exact ⟨hc', hnear.imp_left fun he => hc'.trans (congrArg some he)⟩
  · obtain ⟨hlen, -, hnd⟩ := hs.nearer h
    exact ⟨lt_of_lt_of_le hlen (ahead_le _ _), hnd⟩

/-- Slots 1 and 2 are READY threads and slot 0 is current: slot 1 is selected
first, and slot 2 waits for that one call only. -/
theorem round_robin_two : ((demoSched.exec .create).exec .create).schedule.1.currentIndex = 1 ∧
    ∀ sel s', Sched.Stretch 2 ((demoSched.exec .create).exec .create) sel s' →
      sel.length < 64 ∧ sel.Nodup :=
  ⟨by decide +kernel, (round_robin ((demoSched.exec .create).exec .create) 2 (by decide +kernel)).2⟩

end HackersOs.L5

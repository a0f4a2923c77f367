import HackersOs.L5User.Elf
import HackersOs.L5User.Syscalls

/-!
# The shell's `run` command (`shell/shell.cpp`, `process/enter_user.S`)

`cmd_run` loads a program, enters it on its own page table and comes back when
it has ended; `process_command` then reaps zombies. Nothing on this path sets
`current_process`: the idle process is what the system calls of the program
find there, and what its end turns into a zombie.

Result: `user_memory_iff` for the memory calls of a program.
-/
namespace HackersOs.L5
open HackersOs.Core L2 L2.Mmu L2.Pages

variable {l : List (Fin 64)} {read : Option (Mem × Nat)} {s : Machine}

/-! ## The code -/

/-- mirrors src/shell/shell.cpp:157-186 up to the `eret`: the slot whose program
was entered, if one was. -/
def Kernel.startProgram (k : Kernel) (kernelPgd : Nat) (read : Option (Mem × Nat)) :
    Kernel × Option (Fin 64) :=
  let r := k.loadAndExec kernelPgd read
  if r.2 = 0 then (r.1, none)
  else
    match r.1.get r.2 with
    | none => (r.1, none)
    | some i =>
      if (r.1.procs i).pageTable ≠ 0 ∧ (r.1.procs i).userEntry ≠ 0 then
        ({ r.1 with ttbr0 := (r.1.procs i).pageTable }, some i)
      else (r.1, none)

inductive Ending where
  | exit
  | exitGroup
  | fault

def Kernel.endProgram (k : Kernel) : Ending → Kernel
  | .exit => k.sysExit
  | .exitGroup => k.sysExitGroup
  | .fault => k.userFault

/-- What the loader reads of a program, its memory calls and how it ends. -/
structure Program where
  read : Option (Mem × Nat)
  calls : List MemCall
  ending : Ending

def Kernel.memCalls (k : Kernel) (calls : List MemCall) : Kernel :=
  calls.foldl (fun k c => (k.memCall c).1) k

/-- mirrors src/shell/shell.cpp:151-191, 336, 345 -/
def Kernel.runCommand (k : Kernel) (kernelPgd : Nat) (p : Program) : Kernel :=
  let r := k.startProgram kernelPgd p.read
  match r.2 with
  | none => r.1.reapZombies
  | some _ => ((r.1.memCalls p.calls).endProgram p.ending).reapZombies

/-! ## Zombies -/

section
variable {kpgd kl2 : Nat} {lvl : Nat → Option Level} {k k' : Kernel} {i : Fin 64}

theorem foldl_reap_of_none (h : ∀ j ∈ l, (k.procs j).state ≠ .zombie) :
    l.foldl Kernel.reap k = k := by
  induction l with
  | nil => rfl
  | cons j l ih =>
    have hj : k.reap j = k := if_neg (h j (List.mem_cons_self ..))
    rw [List.foldl_cons, hj]
    exact ih fun n hn => h n (List.mem_cons_of_mem _ hn)

theorem reap_state (k : Kernel) (i j : Fin 64) : ((k.reap i).procs j).state =
    if j = i ∧ (k.procs i).state = .zombie then .unused else (k.procs j).state := by
  unfold Kernel.reap
  by_cases hz : (k.procs i).state = .zombie
  · by_cases hj : j = i
    all_goals simp [hz, hj]
  · simp [hz]

theorem foldl_reap_one (hi : i ∈ l) (h : ∀ j ∈ l, j ≠ i → (k.procs j).state ≠ .zombie) :
    l.foldl Kernel.reap k = k.reap i := by
  induction l with
  | nil => cases hi
  | cons j l ih =>
    rw [List.foldl_cons]
    by_cases hj : j = i
    · rw [hj]
      refine foldl_reap_of_none fun n hn => ?_
      rw [reap_state]
      by_cases hni : n = i
      · by_cases hz : (k.procs i).state = .zombie
        all_goals simp [hni, hz]
      · simpa [hni] using h n (List.mem_cons_of_mem _ hn) hni
    · have hjz : k.reap j = k := if_neg (h j (List.mem_cons_self ..) hj)
      rw [hjz]
      exact ih ((List.mem_cons.mp hi).resolve_left (Ne.symm hj))
        fun n hn => h n (List.mem_cons_of_mem _ hn)

/-- With one zombie above slot 0, `reap_zombies` is one turn of its loop. -/
theorem reapZombies_one (hi : i ≠ 0) (h : ∀ j, j ≠ 0 → j ≠ i → (k.procs j).state ≠ .zombie) :
    k.reapZombies = k.reap i :=
  foldl_reap_one (by simpa using hi) fun j hj => h j (by simpa using hj)

/-- Without zombies above slot 0 it does nothing. -/
theorem reapZombies_none (h : ∀ j, j ≠ 0 → (k.procs j).state ≠ .zombie) : k.reapZombies = k :=
  foldl_reap_of_none fun j hj => h j (by simpa using hj)

/-! ## Between two commands -/

structure ShellState (kpgd kl2 : Nat) (k : Kernel) (lvl : Nat → Option Level) : Prop
    extends CallState kpgd kl2 k lvl where
  roots : ∀ i, (k.procs i).pageTable ≠ 0 → lvl (k.procs i).pageTable = some .l1
  reaped : ∀ i, i ≠ 0 → (k.procs i).state ≠ .zombie

theorem ShellState.init (h : Booted kpgd kl2 s) :
    ShellState kpgd kl2 (Kernel.init s kpgd) (bootLevels kpgd kl2) where
  ok := h.ok
  ttbr0 := h.ok.tables.root
  current := rfl
  idle := rfl
  brk := .inl ⟨rfl, rfl⟩
  mmap_aligned := show mmapBase % 4096 = 0 by decide
  mmap_u64 := show mmapBase < 2 ^ 64 by decide
  roots := fun _ hi => absurd rfl hi
  reaped := fun i hi => by simp [Kernel.init, hi]

/-- The machine of a shell state changes. -/
theorem ShellState.grows (S : ShellState kpgd kl2 k lvl) {lvl' : Nat → Option Level}
    (K : Ok kpgd kl2 s lvl') (G : Grows k.machine s lvl lvl') :
    ShellState kpgd kl2 { k with machine := s } lvl' :=
  { S with
    ok := K
    ttbr0 := G.keep _ _ S.ttbr0
    roots := fun i hi => G.keep _ _ (S.roots i hi) }

theorem ShellState.loadAndExec (S : ShellState kpgd kl2 k lvl) {pid : Nat}
    (hw : ∀ file size, read = some (file, size) → OffWindow (headers file))
    (h : k.loadAndExec kpgd read = (k', pid)) : ∃ lvl', ShellState kpgd kl2 k' lvl' := by
  cases read with
  | none =>
    cases h
    exact ⟨lvl, S⟩
  | some r =>
    obtain ⟨lvl', hok, hgrows, ⟨-, hk'⟩ | ⟨i, kstack, -, L⟩⟩ := S.ok.loadAndExec (hw r.1 r.2 rfl) h
    · rw [hk']
      exact ⟨lvl', S.grows hok hgrows⟩
    obtain ⟨s, lvl1, -, N⟩ := L.process
    obtain ⟨hi, -⟩ := freeSlot_spec N.slot
    have hS := S.grows hok hgrows
    refine ⟨lvl', ?_⟩
    rw [N.frame]
    exact
      { hS with
        idle := by
          dsimp only
          rw [Function.update_of_ne hi.symm]
          exact S.idle
        roots := fun j hj => by
          dsimp only at hj ⊢
          by_cases hji : j = i
          · subst hji
            rw [Function.update_self]
            exact L.root
          · rw [Function.update_of_ne hji] at hj ⊢
            exact hS.roots j hj
        reaped := fun j hj => by
          dsimp only
          by_cases hji : j = i
          · subst hji
            simp
          · rw [Function.update_of_ne hji]
            exact S.reaped j hj }

theorem ShellState.startProgram (S : ShellState kpgd kl2 k lvl) {r : Option (Fin 64)}
    (hw : ∀ file size, read = some (file, size) → OffWindow (headers file))
    (h : k.startProgram kpgd read = (k', r)) : ∃ lvl', ShellState kpgd kl2 k' lvl' := by
  obtain ⟨lvl', hS⟩ := S.loadAndExec hw Prod.mk.eta.symm
  refine ⟨lvl', ?_⟩
  unfold Kernel.startProgram at h
  dsimp only at h
  split at h
  · cases h
    exact hS
  split at h
  · cases h
    exact hS
  split at h
  · rename_i hp
    cases h
    exact { hS with ttbr0 := hS.roots _ hp.1 }
  · cases h
    exact hS

theorem ShellState.memCalls (S : ShellState kpgd kl2 k lvl) (calls : List MemCall) :
    ShellState kpgd kl2 (k.memCalls calls) lvl := by
  induction calls generalizing k with
  | nil => exact S
  | cons c calls ih =>
    obtain ⟨C, hp, -, -⟩ := S.memCall c
    exact ih { C with
      roots := fun i => by rw [hp]; exact S.roots i
      reaped := fun i => by rw [hp]; exact S.reaped i }

theorem ShellState.sysExit (S : ShellState kpgd kl2 k lvl) : ShellState kpgd kl2 k.sysExit lvl := by
  unfold Kernel.sysExit
  rw [S.current]
  exact
    { S with
      idle := by
        exact S.idle
      roots := fun i hi => by
        by_cases h0 : i = 0
        · subst h0
          exact absurd S.idle hi
        · simp only [Kernel.setProc, Function.update_of_ne h0] at hi ⊢
          exact S.roots i hi
      reaped := fun i hi => by
        simp only [Kernel.setProc, Function.update_of_ne hi]
        exact S.reaped i hi }

theorem endProgram_eq (k : Kernel) (e : Ending) : k.endProgram e = k.sysExit := by
  cases e <;> rfl

theorem ShellState.runCommand (S : ShellState kpgd kl2 k lvl) {p : Program}
    (hw : ∀ file size, p.read = some (file, size) → OffWindow (headers file)) :
    ∃ lvl', ShellState kpgd kl2 (k.runCommand kpgd p) lvl' := by
  obtain ⟨lvl', hS⟩ := S.startProgram hw Prod.mk.eta.symm
  refine ⟨lvl', ?_⟩
  unfold Kernel.runCommand
  dsimp only
  split
  · rwa [reapZombies_none hS.reaped]
  · have hend := (hS.memCalls p.calls).sysExit
    rw [endProgram_eq, reapZombies_none hend.reaped]
    exact hend

/-- The kernel between the commands of the shell: a `run` command for each
step. No program asks for pages in the RAM window. -/
def shellLTS (kpgd kl2 : Nat) : LTS Kernel Program where
  init := fun k => ∃ s, Booted kpgd kl2 s ∧ k = Kernel.init s kpgd
  step := fun k p k' => (∀ file size, p.read = some (file, size) → OffWindow (headers file)) ∧
    k' = k.runCommand kpgd p

theorem shellState_inductive :
    (shellLTS kpgd kl2).Inductive fun k => ∃ lvl, ShellState kpgd kl2 k lvl where
  init := by
    rintro k ⟨s, hs, rfl⟩
    exact ⟨_, .init hs⟩
  step := by
    rintro k p k' ⟨lvl, S⟩ ⟨hw, rfl⟩
    exact S.runCommand hw

/-! ## Memory of a program -/

/-- Every call of a program keeps its promise. -/
def AllDelivered (k : Kernel) : List MemCall → Prop
  | [] => True
  | c :: cs => Delivered (k.memCall c).1 (k.memCall c).2 c ∧ AllDelivered (k.memCall c).1 cs

/-- No call of a program succeeds. -/
def NoneServed (k : Kernel) : List MemCall → Prop
  | [] => True
  | c :: cs => ¬ Served k c ∧ NoneServed (k.memCall c).1 cs

theorem CallState.allDelivered_iff (C : CallState kpgd kl2 k lvl) {calls : List MemCall}
    (h : ∀ c ∈ calls, c.NotFixed) : AllDelivered k calls ↔ NoneServed k calls := by
  induction calls generalizing k with
  | nil => exact Iff.rfl
  | cons c calls ih =>
    rw [AllDelivered, NoneServed, C.delivered_iff (h c (List.mem_cons_self ..)),
      ih (C.memCall c).1 fun d hd => h d (List.mem_cons_of_mem _ hd)]

/-- A program the shell started gets what `brk` and `mmap` promise exactly
when none of its calls succeeds. -/
theorem user_memory_iff {k1 : Kernel} {file : Mem} {size : Nat} {calls : List MemCall}
    (hr : (shellLTS kpgd kl2).Reachable k) (hw : OffWindow (headers file))
    (hs : k.startProgram kpgd (some (file, size)) = (k1, some i)) (hc : ∀ c ∈ calls, c.NotFixed) :
    AllDelivered k1 calls ↔ NoneServed k1 calls := by
  obtain ⟨lvl, S⟩ := shellState_inductive.reachable k hr
  obtain ⟨lvl1, hS⟩ := S.startProgram (fun f n e => by cases e; exact hw) hs
  exact hS.allDelivered_iff hc

end

/-- A kernel that has just started a small program. -/
def demoStarted : Kernel := (demoKernel.startProgram 0x40001000 (some (demoElf [0x80000000], 121))).1

theorem demo_started : demoKernel.startProgram 0x40001000 (some (demoElf [0x80000000], 121)) =
    (demoStarted, some 1) := by
  have h : (demoKernel.startProgram 0x40001000 (some (demoElf [0x80000000], 121))).2 = some 1 := by
    decide +kernel
  rw [demoStarted, ← h]

theorem demo_offWindow : OffWindow (headers (demoElf [0x80000000])) := by
  have hh : headers (demoElf [0x80000000]) = [⟨1, 120, 0x80000000, 1, 1⟩] := by decide +kernel
  rw [hh]
  rintro ph hph v ⟨-, h1, h2⟩
  rw [List.mem_singleton.mp hph] at h1 h2
  have hv : v = 0x80000 := by
    simp only [Phdr.start, Phdr.stop] at h1 h2
    omega
  rw [hv]
  decide

theorem demo_reachable : (shellLTS 0x40001000 0x40002000).Reachable demoKernel :=
  ⟨demoKernel, [], ⟨demoMachine, demo_booted, rfl⟩, .nil _⟩

theorem demo_callState : ∃ lvl, CallState 0x40001000 0x40002000 demoStarted lvl := by
  obtain ⟨lvl, S⟩ := (ShellState.init demo_booted).startProgram
    (fun f n e => by cases e; exact demo_offWindow) demo_started
  exact ⟨lvl, S.toCallState⟩

/-- **Counterexample**: the first `mmap` of one page returns 0x20000000, the first
`brk` to 0x10001000 that break; neither page is backed. -/
theorem user_memory_unmapped : (demoStarted.sysMmap 0 4096 0).2 = 0x20000000 ∧
      ¬ Delivered (demoStarted.sysMmap 0 4096 0).1 0x20000000 (.mmap 0 4096 0) ∧
    (demoStarted.sysBrk 0x10001000).2 = 0x10001000 ∧
      ¬ Delivered (demoStarted.sysBrk 0x10001000).1 0x10001000 (.brk 0x10001000) := by
  obtain ⟨lvl, C⟩ := demo_callState
  have hm := (C.memCall (.mmap 0 4096 0)).1
  have hb := (C.memCall (.brk 0x10001000)).1
  refine ⟨by decide +kernel, fun h => ?_, by decide +kernel, fun h => ?_⟩
  · exact hm.not_backed (by decide) (by decide) (.inl (by decide)) (h (by decide) (by decide))
  · exact hb.not_backed (by decide) (by decide) (.inl (by decide)) (h (by decide))

/-- Calls that fail, and a `brk` that asks for the break. -/
theorem user_memory_failing :
    AllDelivered demoStarted [.mmap 0 0 0, .brk 0, .mmap 0 0x20000000 0] :=
  (user_memory_iff demo_reachable demo_offWindow demo_started
    (by simp [MemCall.NotFixed])).mpr
    ⟨fun h => h.1 rfl, by rw [Served]; decide +kernel, fun h => absurd h.2.1 (by decide +kernel),
      trivial⟩

end HackersOs.L5

import HackersOs.Core.Words
import Mathlib.Algebra.GroupWithZero.Nat
import Mathlib.Data.Fintype.Basic
import Mathlib.Tactic.FinCases

/-!
# Exception entry and exit (`boot/vectors.S`, `syscall/syscall.cpp`)

The vector table, the `SAVE_ALL` / `RESTORE_ALL` macros and the three stubs
are transcribed instruction by instruction and run by `exec`. The machine
state `Cpu` is the state the stubs see: the general registers, both stack
pointers (`sp` is SP_EL1, which every vector entry runs on), `ELR_EL1` and
`SPSR_EL1` as the hardware left them when it took the exception, `ESR_EL1`
and memory. The C handlers are a parameter (`Kernel`); `handle_sync_lower` is
transcribed too and only `LinuxSyscall::dispatch` below it is a parameter.

Every entry of the table executes `mov x0, #type` before its stub saves
anything, so the frame holds the entry's number in place of the interrupted
`x0`. Everything else survives:

* `irq_resumes`: for every handler that leaves the frame alone, every general
  register but `x0`, both stack pointers, `ELR` and `SPSR` are back at `eret`.
* `svc_resumes`: `dispatch` gets the saved registers, its result is in `x0`
  and `x1`..`x30` are back.
* `trap_transparent_iff`: an IRQ is transparent exactly when the interrupted
  `x0` already is the entry's number, and `dispatch` gets the user's
  arguments exactly when the user's `x0` is 8.
-/
namespace HackersOs.L1.Vectors
open HackersOs.Core

instance regs_neZero : NeZero 31 := ⟨by decide⟩

inductive Reg where
  | x (n : Fin 31)
  | xzr
  deriving DecidableEq, Repr

/-- The arguments of one `LinuxSyscall::dispatch` call. -/
structure Call where
  nr : UInt64
  a0 : UInt64
  a1 : UInt64
  a2 : UInt64
  a3 : UInt64
  a4 : UInt64
  a5 : UInt64
  deriving DecidableEq, Repr

/-- `calls` is a history variable: the calls of `dispatch` made so far, each
with the value it returned. -/
structure Cpu where
  x : Fin 31 → UInt64
  spEl0 : UInt64
  sp : UInt64
  elr : UInt64
  spsr : UInt64
  esr : UInt64
  mem : Mem
  calls : List (Call × UInt64)

def Cpu.get (s : Cpu) : Reg → UInt64
  | .x n => s.x n
  | .xzr => 0

def Cpu.set (s : Cpu) (d : Fin 31) (v : UInt64) : Cpu :=
  { s with x := fun i => if i = d then v else s.x i }

inductive CFn where
  | handleException | handleIrq | handleSyncLower
  deriving DecidableEq, Repr

/-- The C side below the stubs: two handlers whose bodies are left open, what
`handle_sync_lower` calls (`dispatch`; `crash` is the report and the zombie
mark of its fault path), the variable `kernel_return_addr`, and the return
address `bl` leaves in `x30`. -/
structure Kernel where
  handleException : Cpu → Cpu
  handleIrq : Cpu → Cpu
  dispatch : Call → Cpu → Cpu × UInt64
  crash : Cpu → Cpu
  kernelReturnAddr : Cpu → UInt64
  link : CFn → UInt64

/-- mirrors src/syscall/syscall.cpp:24-55; words 31 and 32 of the frame are
`frame->elr` and `frame->spsr`. -/
def handleSyncLower (K : Kernel) (s : Cpu) : Cpu :=
  let frame := s.x 1
  let ec := (s.esr >>> 26) &&& 0x3F
  if ec = 0x15 then
    let c : Call :=
      ⟨loadWord s.mem frame 8, loadWord s.mem frame 0, loadWord s.mem frame 1,
       loadWord s.mem frame 2, loadWord s.mem frame 3, loadWord s.mem frame 4,
       loadWord s.mem frame 5⟩
    let r := K.dispatch c s
    { r.1 with mem := storeWord r.1.mem frame 0 r.2, calls := s.calls ++ [(c, r.2)] }
  else
    let s' := K.crash s
    if K.kernelReturnAddr s' ≠ 0 then
      { s' with mem := storeWord (storeWord s'.mem frame 31 (K.kernelReturnAddr s')) frame 32 0x3c5 }
    else s'

def Kernel.call (K : Kernel) : CFn → Cpu → Cpu
  | .handleException => K.handleException
  | .handleIrq => K.handleIrq
  | .handleSyncLower => handleSyncLower K

inductive Instr where
  | movImm (d : Fin 31) (imm : UInt64)
  | subSp (imm : UInt64)
  | addSp (imm : UInt64)
  | stp (a b : Reg) (off : Nat)
  | ldp (a b : Fin 31) (off : Nat)
  | mrsElr (d : Fin 31)
  | mrsSpsr (d : Fin 31)
  | msrElr (a : Fin 31)
  | msrSpsr (a : Fin 31)
  | movSp (d : Fin 31)
  | bl (f : CFn)
  deriving DecidableEq, Repr

/-- The words a pair access at `[sp, #off]` touches are `off / 8` and the
next one; every offset of the stubs is a multiple of 16. -/
def exec (K : Kernel) (s : Cpu) : Instr → Cpu
  | .movImm d imm => s.set d imm
  | .subSp imm => { s with sp := s.sp - imm }
  | .addSp imm => { s with sp := s.sp + imm }
  | .stp a b off =>
    { s with
      mem := storeWord (storeWord s.mem s.sp (off / 8) (s.get a)) s.sp (off / 8 + 1) (s.get b) }
  | .ldp a b off =>
    (s.set a (loadWord s.mem s.sp (off / 8))).set b (loadWord s.mem s.sp (off / 8 + 1))
  | .mrsElr d => s.set d s.elr
  | .mrsSpsr d => s.set d s.spsr
  | .msrElr a => { s with elr := s.x a }
  | .msrSpsr a => { s with spsr := s.x a }
  | .movSp d => s.set d s.sp
  | .bl f => K.call f (s.set 30 (K.link f))

def run (K : Kernel) (s : Cpu) : List Instr → Cpu
  | [] => s
  | i :: is => run K (exec K s i) is

theorem run_append (K : Kernel) (is js : List Instr) (s : Cpu) :
    run K s (is ++ js) = run K (run K s is) js := by
  induction is generalizing s with
  | nil => rfl
  | cons i is ih => exact ih _

/-- mirrors src/boot/vectors.S:14-35 -/
def saveAll : List Instr :=
  [.subSp 272,
   .stp (.x 0) (.x 1) 0, .stp (.x 2) (.x 3) 16, .stp (.x 4) (.x 5) 32, .stp (.x 6) (.x 7) 48,
   .stp (.x 8) (.x 9) 64, .stp (.x 10) (.x 11) 80, .stp (.x 12) (.x 13) 96,
   .stp (.x 14) (.x 15) 112, .stp (.x 16) (.x 17) 128, .stp (.x 18) (.x 19) 144,
   .stp (.x 20) (.x 21) 160, .stp (.x 22) (.x 23) 176, .stp (.x 24) (.x 25) 192,
   .stp (.x 26) (.x 27) 208, .stp (.x 28) (.x 29) 224,
   .mrsElr 21, .mrsSpsr 22,
   .stp (.x 30) (.x 21) 240, .stp (.x 22) .xzr 256]

/-- mirrors src/boot/vectors.S:37-59; the closing `eret` resumes at `elr` with
the processor state in `spsr`. -/
def restoreAll : List Instr :=
  [.ldp 30 21 240, .ldp 22 23 256, .msrElr 21, .msrSpsr 22,
   .ldp 0 1 0, .ldp 2 3 16, .ldp 4 5 32, .ldp 6 7 48, .ldp 8 9 64, .ldp 10 11 80,
   .ldp 12 13 96, .ldp 14 15 112, .ldp 16 17 128, .ldp 18 19 144, .ldp 20 21 160,
   .ldp 22 23 176, .ldp 24 25 192, .ldp 26 27 208, .ldp 28 29 224,
   .addSp 272]

/-- mirrors src/boot/vectors.S:61-78 -/
def stub (f : CFn) : List Instr := saveAll ++ [.movSp 1, .bl f] ++ restoreAll

/-- mirrors src/boot/vectors.S:89-143: the number each entry puts in `x0` and
the stub it branches to. -/
def exceptionVectorTable : List (UInt64 × CFn) :=
  [(0, .handleException), (1, .handleIrq), (2, .handleException), (3, .handleException),
   (4, .handleException), (5, .handleIrq), (6, .handleException), (7, .handleException),
   (8, .handleSyncLower), (9, .handleIrq), (10, .handleException), (11, .handleException),
   (12, .handleException), (13, .handleException), (14, .handleException),
   (15, .handleException)]

/-- An exception taken through the entry `(type, f)`, up to its `eret`. -/
def trap (K : Kernel) (e : UInt64 × CFn) (s : Cpu) : Cpu :=
  run K s (.movImm 0 e.1 :: stub e.2)

/-! ## The frame -/

/-- The words of `struct ExceptionFrame` (`interrupts/exception.h:5-11`):
`regs[30]`, `lr`, `elr`, `spsr`, `esr`. -/
def frameWords (s : Cpu) : List UInt64 :=
  (List.ofFn s.x) ++ [s.elr, s.spsr, 0]

/-- The state the C handler is entered in. -/
def atHandler (K : Kernel) (f : CFn) (s : Cpu) : Cpu :=
  (run K s (saveAll ++ [.movSp 1])).set 30 (K.link f)

/-- What `SAVE_ALL` and `mov x1, sp` leave behind. -/
theorem saveAll_run (K : Kernel) (f : CFn) (s : Cpu) :
    (atHandler K f s).sp = s.sp - 272 ∧ (atHandler K f s).x 1 = s.sp - 272 ∧
    (atHandler K f s).spEl0 = s.spEl0 ∧ (atHandler K f s).esr = s.esr ∧
    (atHandler K f s).calls = s.calls ∧
    (atHandler K f s).mem = storeWords s.mem (s.sp - 272) 0 (frameWords s) := by
  simp only [atHandler, saveAll, List.cons_append, List.nil_append, run, exec, Cpu.set, Cpu.get]
  refine ⟨trivial, rfl, trivial, trivial, trivial, ?_⟩
  simp only [frameWords, List.ofFn_succ, List.ofFn_zero, List.cons_append, List.nil_append,
    storeWords]
  rfl

/-- `RESTORE_ALL` loads every general register from its own frame word. -/
theorem restoreAll_run (K : Kernel) (s : Cpu) :
    (∀ k : Fin 31, (run K s restoreAll).x k = loadWord s.mem s.sp k) ∧
    (run K s restoreAll).sp = s.sp + 272 ∧ (run K s restoreAll).spEl0 = s.spEl0 ∧
    (run K s restoreAll).elr = loadWord s.mem s.sp 31 ∧
    (run K s restoreAll).spsr = loadWord s.mem s.sp 32 ∧ (run K s restoreAll).calls = s.calls := by
  simp only [restoreAll, run, exec, Cpu.set]
  refine ⟨fun k => ?_, trivial, trivial, rfl, rfl, trivial⟩
  fin_cases k <;> rfl

theorem frameWords_length (s : Cpu) : (frameWords s).length = 34 := by
  rw [frameWords, List.length_append, List.length_ofFn]; rfl

theorem frameWords_x (s : Cpu) (k : Fin 31) : (frameWords s)[k.val]? = some (s.x k) := by
  unfold frameWords
  rw [List.getElem?_append_left (by rw [List.length_ofFn]; exact k.isLt), List.getElem?_ofFn,
    dif_pos k.isLt]

/-- A saved frame reads back word by word. -/
theorem atHandler_word (K : Kernel) (f : CFn) (s : Cpu) (k : Nat) (v : UInt64)
    (h : (frameWords s)[k]? = some v) :
    loadWord (atHandler K f s).mem (atHandler K f s).sp k = v := by
  obtain ⟨hsp, -, -, -, -, hmem⟩ := saveAll_run K f s
  have := loadWord_storeWords (s.sp - 272) (frameWords s) s.mem 0 k v h
    (by rw [frameWords_length]; decide)
  rw [hsp, hmem]; simpa using this

theorem trap_eq (K : Kernel) (e : UInt64 × CFn) (s : Cpu) :
    trap K e s = run K (K.call e.2 (atHandler K e.2 (s.set 0 e.1))) restoreAll := by
  have hs : stub e.2 = (saveAll ++ [.movSp 1]) ++ (.bl e.2 :: restoreAll) := by
    simp only [stub, List.append_assoc, List.cons_append, List.nil_append]
  simp only [trap, run, exec]
  rw [hs, run_append]
  simp only [run, exec, atHandler]

/-! ## Transparency -/

/-- A handler that returns on its own stack and changes no saved field. -/
def KeepsFrame (h : Cpu → Cpu) (s : Cpu) : Prop :=
  (h s).sp = s.sp ∧ (h s).spEl0 = s.spEl0 ∧
    ∀ k, k < 34 → loadWord (h s).mem s.sp k = loadWord s.mem s.sp k

/-- A system call that returns on its own stack and changes no saved register
`x1`..`x30`; the saved `elr` and `spsr` are its to change (`sys_exit` does). -/
def KeepsRegs (K : Kernel) (c : Call) (s : Cpu) : Prop :=
  (K.dispatch c s).1.sp = s.sp ∧
    ∀ k, 1 ≤ k → k ≤ 30 → loadWord (K.dispatch c s).1.mem s.sp k = loadWord s.mem s.sp k

def IrqTransparent (K : Kernel) (e : UInt64 × CFn) (s : Cpu) : Prop :=
  (trap K e s).x = s.x ∧ (trap K e s).sp = s.sp ∧ (trap K e s).spEl0 = s.spEl0 ∧
    (trap K e s).elr = s.elr ∧ (trap K e s).spsr = s.spsr

/-- `dispatch` is called once, with the user's number and arguments, and the
user resumes with its result in `x0` and `x1`..`x30` unchanged. -/
def SvcTransparent (K : Kernel) (e : UInt64 × CFn) (s : Cpu) : Prop :=
  ∃ r, (trap K e s).calls =
      s.calls ++ [(⟨s.x 8, s.x 0, s.x 1, s.x 2, s.x 3, s.x 4, s.x 5⟩, r)] ∧
    (trap K e s).x 0 = r ∧ ∀ k : Fin 31, k ≠ 0 → (trap K e s).x k = s.x k

theorem set_get_ne {s : Cpu} {d k : Fin 31} {v : UInt64} (h : k ≠ d) : (s.set d v).x k = s.x k :=
  if_neg h

theorem set_get (s : Cpu) (d : Fin 31) (v : UInt64) : (s.set d v).x d = v := if_pos rfl

theorem set_self (s : Cpu) (d : Fin 31) : s.set d (s.x d) = s := by
  have : (fun i => if i = d then s.x d else s.x i) = s.x := by
    funext i; split
    · rename_i h; rw [h]
    · rfl
  simp only [Cpu.set, this]

/-- An IRQ resumes with the registers, stack pointers and exception state that
reached the save macro: the interrupted ones, with the entry's number in `x0`. -/
theorem irq_resumes (K : Kernel) (e : UInt64 × CFn) (s : Cpu) (he : e.2 = .handleIrq)
    (hk : KeepsFrame K.handleIrq (atHandler K .handleIrq (s.set 0 e.1))) :
    (trap K e s).x = (s.set 0 e.1).x ∧ (trap K e s).sp = s.sp ∧ (trap K e s).spEl0 = s.spEl0 ∧
      (trap K e s).elr = s.elr ∧ (trap K e s).spsr = s.spsr := by
  obtain ⟨h1, h2, h3⟩ := hk
  obtain ⟨hsp, -, hsp0, -, -, -⟩ := saveAll_run K .handleIrq (s.set 0 e.1)
  rw [trap_eq, he]
  obtain ⟨rx, rsp, rsp0, relr, rspsr, -⟩ :=
    restoreAll_run K (K.call .handleIrq (atHandler K .handleIrq (s.set 0 e.1)))
  simp only [Kernel.call] at *
  -- every word the restore loads is the word the save stored
  have word : ∀ k v, k < 34 → (frameWords (s.set 0 e.1))[k]? = some v →
      loadWord (K.handleIrq (atHandler K .handleIrq (s.set 0 e.1))).mem
        (K.handleIrq (atHandler K .handleIrq (s.set 0 e.1))).sp k = v := by
    intro k v hk hv
    rw [h1, h3 k hk, atHandler_word K _ _ k v hv]
  refine ⟨funext fun k => ?_, ?_, ?_, ?_, ?_⟩
  · rw [rx]; exact word k _ (by omega) (frameWords_x _ k)
  · rw [rsp, h1, hsp]; exact UInt64.sub_add_cancel _ _
  · rw [rsp0, h2, hsp0]; rfl
  · rw [relr]; exact word 31 _ (by decide) rfl
  · rw [rspsr]; exact word 32 _ (by decide) rfl

/-- The exception is an `SVC` from AArch64 state. -/
def IsSvc (s : Cpu) : Prop := (s.esr >>> 26) &&& 0x3F = 0x15

instance (s : Cpu) : Decidable (IsSvc s) := inferInstanceAs (Decidable (_ = _))

/-- The call of an `SVC` in `s` with `a0` in the saved `x0`. -/
def svcCall (s : Cpu) (a0 : UInt64) : Call := ⟨s.x 8, a0, s.x 1, s.x 2, s.x 3, s.x 4, s.x 5⟩

/-- A system call gets the saved registers as its arguments: the user's, with
the entry's number as the first argument. -/
theorem svc_resumes (K : Kernel) (e : UInt64 × CFn) (s : Cpu) (he : e.2 = .handleSyncLower)
    (hsvc : IsSvc s) (hk : KeepsRegs K (svcCall s e.1) (atHandler K .handleSyncLower (s.set 0 e.1))) :
    ∃ r, (trap K e s).calls = s.calls ++ [(svcCall s e.1, r)] ∧
      (trap K e s).x 0 = r ∧ ∀ k : Fin 31, k ≠ 0 → (trap K e s).x k = s.x k := by
  obtain ⟨hsp, hx1, -, hesr, hcalls, -⟩ := saveAll_run K .handleSyncLower (s.set 0 e.1)
  have word := atHandler_word K .handleSyncLower (s.set 0 e.1)
  rw [trap_eq, he]
  simp only [Kernel.call]
  generalize atHandler K .handleSyncLower (s.set 0 e.1) = h at *
  have hframe : h.x 1 = h.sp := by rw [hsp, hx1]
  have hec : (h.esr >>> 26) &&& 0x3F = 0x15 := by rw [hesr]; exact hsvc
  have w0 : loadWord h.mem h.sp 0 = e.1 := word 0 _ (frameWords_x _ 0)
  have w : ∀ k : Fin 31, k ≠ 0 → loadWord h.mem h.sp k = s.x k := fun k hk0 =>
    (word k _ (frameWords_x _ k)).trans (set_get_ne hk0)
  have w8 := w 8 (by decide)
  have w1 := w 1 (by decide)
  have w2 := w 2 (by decide)
  have w3 := w 3 (by decide)
  have w4 := w 4 (by decide)
  have w5 := w 5 (by decide)
  obtain ⟨h1, h2⟩ := hk
  obtain ⟨rx, -, -, -, -, rcalls⟩ := restoreAll_run K (handleSyncLower K h)
  have hh : handleSyncLower K h = { (K.dispatch (svcCall s e.1) h).1 with
      mem := storeWord (K.dispatch (svcCall s e.1) h).1.mem h.sp 0 (K.dispatch (svcCall s e.1) h).2,
      calls := h.calls ++ [(svcCall s e.1, (K.dispatch (svcCall s e.1) h).2)] } := by
    unfold handleSyncLower
    rw [svcCall, hframe, if_pos hec, w0, ← w8, ← w1, ← w2, ← w3, ← w4, ← w5]
    rfl
  rw [hh] at rx rcalls ⊢
  generalize K.dispatch (svcCall s e.1) h = r at *
  refine ⟨r.2, ?_, ?_, fun k hk0 => ?_⟩
  · rw [rcalls, hcalls]; rfl
  · rw [rx]; simp only [h1]; exact loadWord_storeWord _ _ _ _
  have hpos : 1 ≤ k.val := Nat.pos_of_ne_zero fun h0 => hk0 (Fin.ext h0)
  rw [rx]
  simp only [h1]
  rw [loadWord_storeWord_ne _ _ (by omega) (by decide) (by omega), h2 k hpos (by omega)]
  exact w k hk0

theorem irq_transparent_iff (K : Kernel) (e : UInt64 × CFn) (s : Cpu) (he : e.2 = .handleIrq)
    (hk : KeepsFrame K.handleIrq (atHandler K .handleIrq (s.set 0 e.1))) :
    IrqTransparent K e s ↔ s.x 0 = e.1 := by
  obtain ⟨hx, hsp, hsp0, helr, hspsr⟩ := irq_resumes K e s he hk
  constructor
  · rintro ⟨h, -⟩
    rw [hx] at h
    exact (congrFun h 0).symm.trans (set_get s 0 e.1)
  · intro h
    exact ⟨by rw [hx, ← h, set_self], hsp, hsp0, helr, hspsr⟩

theorem svc_transparent_iff (K : Kernel) (e : UInt64 × CFn) (s : Cpu)
    (he : e.2 = .handleSyncLower) (hsvc : IsSvc s)
    (hk : KeepsRegs K (svcCall s e.1) (atHandler K .handleSyncLower (s.set 0 e.1))) :
    SvcTransparent K e s ↔ s.x 0 = e.1 := by
  obtain ⟨r, hc, h0, hx⟩ := svc_resumes K e s he hsvc hk
  constructor
  · rintro ⟨r', hc', -⟩
    have hcall := congrArg (fun l => l.getLast?.map fun p => p.1.a0) (hc.symm.trans hc')
    simp only [List.getLast?_append, List.getLast?_singleton, Option.some_or, Option.map_some,
      Option.some.injEq] at hcall
    exact hcall.symm
  · intro h
    exact ⟨r, by rw [hc, ← h]; rfl, h0, hx⟩

/-- `mov x0, #type` at the head of a vector entry runs before `SAVE_ALL`, so
an IRQ (entries 1, 5 and 9) or a system call (entry 8) is transparent exactly
when the interrupted `x0` already is the entry's number. -/
theorem trap_transparent_iff (K : Kernel) (e : UInt64 × CFn) (s : Cpu)
    (he : e ∈ exceptionVectorTable) :
    (e.2 = .handleIrq → KeepsFrame K.handleIrq (atHandler K .handleIrq (s.set 0 e.1)) →
      (e.1 = 1 ∨ e.1 = 5 ∨ e.1 = 9) ∧ (IrqTransparent K e s ↔ s.x 0 = e.1)) ∧
    (e.2 = .handleSyncLower → IsSvc s →
      KeepsRegs K (svcCall s e.1) (atHandler K .handleSyncLower (s.set 0 e.1)) →
      e.1 = 8 ∧ (SvcTransparent K e s ↔ s.x 0 = e.1)) := by
  have hnum : (e.2 = .handleIrq → e.1 = 1 ∨ e.1 = 5 ∨ e.1 = 9) ∧
      (e.2 = .handleSyncLower → e.1 = 8) := by
    revert e; decide
  exact ⟨fun h2 hk => ⟨hnum.1 h2, irq_transparent_iff K e s h2 hk⟩,
    fun h2 hsvc hk => ⟨hnum.2 h2, svc_transparent_iff K e s h2 hsvc hk⟩⟩

/-- A kernel whose handlers do nothing, so that they keep every frame. -/
def idleKernel : Kernel := ⟨id, id, fun _ s => (s, 0), id, fun _ => 0, fun _ => 0⟩

/-- A state with `42` in `x0`, about to take an IRQ or an `SVC`. -/
def busyCpu (x0 : UInt64) : Cpu :=
  ⟨fun k => if k = 0 then x0 else 7, 0x7FFFFFF000, 0x40100000, 0x10000, 0, 0x56000000,
    fun _ => 0, []⟩

theorem idle_keepsFrame (s : Cpu) : KeepsFrame idleKernel.handleIrq s :=
  ⟨rfl, rfl, fun _ _ => rfl⟩

theorem idle_keepsRegs (c : Call) (s : Cpu) : KeepsRegs idleKernel c s := ⟨rfl, fun _ _ _ => rfl⟩

/-- With `x0 = 5` at a kernel-mode IRQ and `x0 = 8` at an `SVC` both traps
are transparent. -/
theorem trap_transparent_at_number : IrqTransparent idleKernel (5, .handleIrq) (busyCpu 5) ∧
    SvcTransparent idleKernel (8, .handleSyncLower) (busyCpu 8) :=
  ⟨(((trap_transparent_iff idleKernel (5, .handleIrq) (busyCpu 5) (by decide)).1 rfl
      (idle_keepsFrame _)).2).mpr rfl,
   (((trap_transparent_iff idleKernel (8, .handleSyncLower) (busyCpu 8) (by decide)).2 rfl
      (by decide) (idle_keepsRegs _ _)).2).mpr rfl⟩

/-- A tick that hits the kernel with `x0 = 42` resumes it with `x0 = 5`, and
`write(42, ..)` from user mode reaches `dispatch` as `write(8, ..)`. -/
theorem trap_clobbers_x0 : ((5, .handleIrq) ∈ exceptionVectorTable ∧
      KeepsFrame idleKernel.handleIrq (atHandler idleKernel .handleIrq ((busyCpu 42).set 0 5)) ∧
      (busyCpu 42).x 0 = 42 ∧ (trap idleKernel (5, .handleIrq) (busyCpu 42)).x 0 = 5 ∧
      ¬ IrqTransparent idleKernel (5, .handleIrq) (busyCpu 42)) ∧
    ((8, .handleSyncLower) ∈ exceptionVectorTable ∧ IsSvc (busyCpu 42) ∧
      KeepsRegs idleKernel (svcCall (busyCpu 42) 8)
        (atHandler idleKernel .handleSyncLower ((busyCpu 42).set 0 8)) ∧
      ¬ SvcTransparent idleKernel (8, .handleSyncLower) (busyCpu 42)) := by
  refine ⟨⟨by decide, idle_keepsFrame _, rfl, ?_, ?_⟩, by decide, by decide, idle_keepsRegs _ _, ?_⟩
  · rw [(irq_resumes idleKernel (5, .handleIrq) (busyCpu 42) rfl (idle_keepsFrame _)).1]; rfl
  · rw [irq_transparent_iff idleKernel _ _ rfl (idle_keepsFrame _)]; decide
  · rw [svc_transparent_iff idleKernel _ _ rfl (by decide) (idle_keepsRegs _ _)]; decide

end HackersOs.L1.Vectors

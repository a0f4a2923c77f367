import HackersOs.L1Machine.Vectors
import Mathlib.Tactic.IntervalCases

/-!
# Into user mode and back (`process/enter_user.S`)

`enter_usermode` pushes `x19`..`x30`, notes the stack pointer in
`kernel_return_sp`, loads the user's page table and `eret`s to EL0. The way
back starts in `sys_exit` or the fault path of `handle_sync_lower`, which put
`kernel_return_addr` and the processor state `0x3c5` into the exception frame;
`RESTORE_ALL` and `eret` then land in `kernel_return_from_user`, which pops the
registers and returns to the caller. Both pieces of `enter_user.S` are
transcribed and run, between them go any number of traps of `Vectors`.

Nothing on the way back loads `TTBR0_EL1`, and `0x3c5` masks all of DAIF.

Result: `usermode_return_iff`. The runs are those in which neither the user
program nor a C function writes the words the way back reads (system calls do
not check the pointers they are given).
-/
namespace HackersOs.L1.UserMode
open HackersOs.Core Vectors

variable {a esr : UInt64} {k : Nat}

/-- The addresses of the two variables and of the label in `enter_user.S`. -/
structure Symbols where
  kernelReturnSp : UInt64
  kernelReturnAddr : UInt64
  kernelReturnFromUser : UInt64

/-- The processor: `pstate` has DAIF and the mode where `SPSR_EL1` has them. -/
structure Core where
  cpu : Cpu
  ttbr0 : UInt64
  pstate : UInt64
  pc : UInt64

def daif (pstate : UInt64) : UInt64 := (pstate >>> 6) &&& 0xF

/-! ## The code -/

inductive UInstr where
  | adr (d : Fin 31) (a : UInt64)
  | str (a base : Fin 31)
  | ldr (d base : Fin 31)
  | movFromSp (d : Fin 31)
  | movToSp (a : Fin 31)
  /-- `stp a, b, [sp, #-16]!` -/
  | push (a b : Fin 31)
  /-- `ldp a, b, [sp], #16` -/
  | pop (a b : Fin 31)
  | msrTtbr0 (a : Fin 31)
  | msrSpEl0 (a : Fin 31)
  | msrElr (a : Fin 31)
  | msrSpsr (a : Fin 31)
  | movZero (d : Fin 31)
  | eret
  | ret
  deriving DecidableEq, Repr

def Core.set (c : Core) (d : Fin 31) (v : UInt64) : Core := { c with cpu := c.cpu.set d v }

/-- The two words a pair store at `[sp]` writes. -/
def pushPair (m : Mem) (sp a b : UInt64) : Mem := storeWord (storeWord m sp 0 a) sp 1 b

def Core.exec (c : Core) : UInstr → Core
  | .adr d a => c.set d a
  | .str a base => { c with cpu :=
      { c.cpu with mem := storeWord c.cpu.mem (c.cpu.x base) 0 (c.cpu.x a) } }
  | .ldr d base => c.set d (loadWord c.cpu.mem (c.cpu.x base) 0)
  | .movFromSp d => c.set d c.cpu.sp
  | .movToSp a => { c with cpu := { c.cpu with sp := c.cpu.x a } }
  | .push a b =>
    { c with cpu := { c.cpu with
        sp := c.cpu.sp - 16
        mem := pushPair c.cpu.mem (c.cpu.sp - 16) (c.cpu.x a) (c.cpu.x b) } }
  | .pop a b =>
    let c' := (c.set a (loadWord c.cpu.mem c.cpu.sp 0)).set b (loadWord c.cpu.mem c.cpu.sp 1)
    { c' with cpu := { c'.cpu with sp := c.cpu.sp + 16 } }
  | .msrTtbr0 a => { c with ttbr0 := c.cpu.x a }
  | .msrSpEl0 a => { c with cpu := { c.cpu with spEl0 := c.cpu.x a } }
  | .msrElr a => { c with cpu := { c.cpu with elr := c.cpu.x a } }
  | .msrSpsr a => { c with cpu := { c.cpu with spsr := c.cpu.x a } }
  | .movZero d => c.set d 0
  | .eret => { c with pc := c.cpu.elr, pstate := c.cpu.spsr }
  | .ret => { c with pc := c.cpu.x 30 }

def Core.run (c : Core) (is : List UInstr) : Core := is.foldl Core.exec c

/-- mirrors src/process/enter_user.S:26-97; the TLB and barrier instructions
have no effect here. -/
def enterUsermode (S : Symbols) : List UInstr :=
  ([.adr 3 S.kernelReturnFromUser, .adr 4 S.kernelReturnAddr, .str 3 4,
   .adr 4 S.kernelReturnSp, .movFromSp 3, .str 3 4,
   .push 19 20, .push 21 22, .push 23 24, .push 25 26, .push 27 28, .push 29 30,
   .adr 4 S.kernelReturnSp, .movFromSp 3, .str 3 4,
   .msrTtbr0 2, .msrSpEl0 1, .msrElr 0, .movZero 0, .msrSpsr 0] : List UInstr) ++
  ((List.finRange 31).map .movZero ++ [.eret])

/-- mirrors src/process/enter_user.S:104-121 -/
def kernelReturnFromUser (S : Symbols) : List UInstr :=
  [.adr 4 S.kernelReturnSp, .ldr 3 4, .movToSp 3,
   .pop 29 30, .pop 27 28, .pop 25 26, .pop 23 24, .pop 21 22, .pop 19 20, .ret]

/-- The C functions below the stubs: `mark` is the report and the zombie mark of
`sys_exit` and of the fault path, `others` every other system call. -/
structure CCode where
  handleException : Cpu → Cpu
  handleIrq : Cpu → Cpu
  mark : Cpu → Cpu
  others : Call → Cpu → Cpu × UInt64
  link : CFn → UInt64

def sysExitNr : UInt64 := 93
def sysExitGroupNr : UInt64 := 94

/-- mirrors src/compat/linux_syscalls.cpp:257-273; `get_current_syscall_frame()` is the frame
`handle_sync_lower` got in `x1`. `Arch::halt()` does not return; after
`enter_usermode` the variable is not null. -/
def sysExit (S : Symbols) (C : CCode) (s : Cpu) : Cpu :=
  let s' := C.mark s
  let ra := loadWord s'.mem S.kernelReturnAddr 0
  if ra ≠ 0 then { s' with mem := storeWord (storeWord s'.mem (s.x 1) 31 ra) (s.x 1) 32 0x3c5 }
    else s'

/-- The C side of `Vectors`, with `sys_exit` in place. -/
def kernel (S : Symbols) (C : CCode) : Kernel where
  handleException := C.handleException
  handleIrq := C.handleIrq
  dispatch c s :=
    if c.nr = sysExitNr ∨ c.nr = sysExitGroupNr then (sysExit S C s, c.a0) else C.others c s
  crash := C.mark
  kernelReturnAddr s := loadWord s.mem S.kernelReturnAddr 0
  link := C.link

/-- What the hardware notes when it takes an exception from EL0. -/
def Core.taken (u : Core) (esr : UInt64) : Cpu :=
  { u.cpu with elr := u.pc, spsr := u.pstate, esr := esr }

/-- An exception from EL0 through entry `e`, and the `eret` at its end. -/
def Core.trapped (K : Kernel) (u : Core) (e : UInt64 × CFn) (esr : UInt64) : Core :=
  { u with
    cpu := trap K e (u.taken esr)
    pc := (trap K e (u.taken esr)).elr
    pstate := (trap K e (u.taken esr)).spsr }

/-! ## What the way back reads -/

/-- The stack below the caller: the twelve words pushed at `base`, and the frame
of a trap right below them, do not overlap the two variables. -/
structure Layout (S : Symbols) (base : UInt64) : Prop where
  vars : WordsApart S.kernelReturnSp 0 S.kernelReturnAddr 0
  sp_stack : ∀ k, k < 46 → WordsApart S.kernelReturnSp 0 (base - 272) k
  addr_stack : ∀ k, k < 46 → WordsApart S.kernelReturnAddr 0 (base - 272) k

/-- The two variables and the twelve pushed words are the same in both memories. -/
structure Kept (S : Symbols) (base : UInt64) (m m' : Mem) : Prop where
  sp : loadWord m' S.kernelReturnSp 0 = loadWord m S.kernelReturnSp 0
  addr : loadWord m' S.kernelReturnAddr 0 = loadWord m S.kernelReturnAddr 0
  words : ∀ k, k < 12 → loadWord m' base k = loadWord m base k

section
variable {S : Symbols} {C : CCode} {base : UInt64} {m m' m'' : Mem} {c u f : Core}

theorem Kept.refl (S : Symbols) (base : UInt64) (m : Mem) : Kept S base m m :=
  ⟨rfl, rfl, fun _ _ => rfl⟩

theorem Kept.trans (h : Kept S base m m') (h' : Kept S base m' m'') : Kept S base m m'' :=
  ⟨h'.sp.trans h.sp, h'.addr.trans h.addr, fun k hk => (h'.words k hk).trans (h.words k hk)⟩

theorem wordAddr_base (base : UInt64) (k : Nat) :
    wordAddr base k = wordAddr (base - 272) (34 + k) := by
  rw [← wordAddr_add]
  congr 1
  exact (UInt64.sub_add_cancel base 272).symm

theorem loadWord_base (m : Mem) (base : UInt64) (k : Nat) :
    loadWord m base k = loadWord m (base - 272) (34 + k) := by
  unfold loadWord
  rw [wordAddr_base]

theorem Layout.sp_base (L : Layout S base) (hk : k < 12) :
    WordsApart S.kernelReturnSp 0 base k := by
  unfold WordsApart
  rw [wordAddr_base base k]
  exact L.sp_stack (34 + k) (by omega)

theorem Layout.addr_base (L : Layout S base) (hk : k < 12) :
    WordsApart S.kernelReturnAddr 0 base k := by
  unfold WordsApart
  rw [wordAddr_base base k]
  exact L.addr_stack (34 + k) (by omega)

/-- A word of a trap's frame is none of them. -/
theorem Layout.keptWord (L : Layout S base) (m : Mem) (hk : k < 34) (v : UInt64) :
    Kept S base m (storeWord m (base - 272) k v) where
  sp := loadWord_storeWord_apart (L.sp_stack k (by omega)) m v
  addr := loadWord_storeWord_apart (L.addr_stack k (by omega)) m v
  words j hj := by
    rw [loadWord_base _ base j, loadWord_base m base j,
      loadWord_storeWord_ne m _ (by omega) (by omega) (by omega)]

theorem Layout.keptWords (L : Layout S base) (vs : List UInt64) (m : Mem) (hk : k + vs.length ≤ 34) :
    Kept S base m (storeWords m (base - 272) k vs) := by
  induction vs generalizing m k with
  | nil => exact .refl S base m
  | cons v vs ih =>
    rw [List.length_cons] at hk
    exact (L.keptWord m (by omega) v).trans (ih _ (by omega))

/-! ## Entering -/

/-- The pushed words, from the last pushed up. -/
def pushedWords (c : Core) : List UInt64 :=
  [c.cpu.x 29, c.cpu.x 30, c.cpu.x 27, c.cpu.x 28, c.cpu.x 25, c.cpu.x 26, c.cpu.x 23, c.cpu.x 24,
   c.cpu.x 21, c.cpu.x 22, c.cpu.x 19, c.cpu.x 20]

/-- The memory the way back reads, for a call made in state `c`. -/
structure Saved (S : Symbols) (c : Core) (m : Mem) : Prop where
  sp : loadWord m S.kernelReturnSp 0 = c.cpu.sp - 96
  addr : loadWord m S.kernelReturnAddr 0 = S.kernelReturnFromUser
  words : ∀ k v, (pushedWords c)[k]? = some v → loadWord m (c.cpu.sp - 96) k = v

theorem Saved.kept (h : Saved S c m) (hk : Kept S (c.cpu.sp - 96) m m') : Saved S c m' where
  sp := hk.sp.trans h.sp
  addr := hk.addr.trans h.addr
  words k v hv := by
    have hlt : k < 12 := (List.getElem?_eq_some_iff.mp hv).1
    rw [hk.words k hlt]
    exact h.words k v hv

/-- A pair stored `8 * j` bytes above `base`. -/
theorem pushPair_eq (m : Mem) {sp : UInt64} (a b : UInt64) (j : Nat)
    (h : sp = base + UInt64.ofNat (8 * j)) :
    pushPair m sp a b = storeWord (storeWord m base j a) base (j + 1) b := by
  unfold pushPair Core.storeWord
  rw [h, wordAddr_add, wordAddr_add, Nat.add_zero]

/-- The memory after the six pushes. -/
def pushedMem (c : Core) (m : Mem) : Mem :=
  pushPair (pushPair (pushPair (pushPair (pushPair (pushPair m
    (c.cpu.sp - 16) (c.cpu.x 19) (c.cpu.x 20))
    (c.cpu.sp - 16 - 16) (c.cpu.x 21) (c.cpu.x 22))
    (c.cpu.sp - 16 - 16 - 16) (c.cpu.x 23) (c.cpu.x 24))
    (c.cpu.sp - 16 - 16 - 16 - 16) (c.cpu.x 25) (c.cpu.x 26))
    (c.cpu.sp - 16 - 16 - 16 - 16 - 16) (c.cpu.x 27) (c.cpu.x 28))
    (c.cpu.sp - 16 - 16 - 16 - 16 - 16 - 16) (c.cpu.x 29) (c.cpu.x 30)

theorem pushedMem_eq (c : Core) (m : Mem) : pushedMem c m =
    [(10, c.cpu.x 19), (11, c.cpu.x 20), (8, c.cpu.x 21), (9, c.cpu.x 22), (6, c.cpu.x 23),
     (7, c.cpu.x 24), (4, c.cpu.x 25), (5, c.cpu.x 26), (2, c.cpu.x 27), (3, c.cpu.x 28),
     (0, c.cpu.x 29), (1, c.cpu.x 30)].foldl
      (fun m p => storeWord m (c.cpu.sp - 96) p.1 p.2) m := by
  have h10 : c.cpu.sp - 16 = c.cpu.sp - 96 + UInt64.ofNat (8 * 10) := by grind
  have h8 : c.cpu.sp - 16 - 16 = c.cpu.sp - 96 + UInt64.ofNat (8 * 8) := by grind
  have h6 : c.cpu.sp - 16 - 16 - 16 = c.cpu.sp - 96 + UInt64.ofNat (8 * 6) := by grind
  have h4 : c.cpu.sp - 16 - 16 - 16 - 16 = c.cpu.sp - 96 + UInt64.ofNat (8 * 4) := by grind
  have h2 : c.cpu.sp - 16 - 16 - 16 - 16 - 16 = c.cpu.sp - 96 + UInt64.ofNat (8 * 2) := by grind
  have h0 : c.cpu.sp - 16 - 16 - 16 - 16 - 16 - 16 = c.cpu.sp - 96 + UInt64.ofNat (8 * 0) := by grind
  unfold pushedMem
  rw [pushPair_eq _ _ _ 0 h0, pushPair_eq _ _ _ 2 h2, pushPair_eq _ _ _ 4 h4, pushPair_eq _ _ _ 6 h6,
    pushPair_eq _ _ _ 8 h8, pushPair_eq _ _ _ 10 h10]
  rfl

/-- A word no store of the list touches. -/
theorem loadWord_foldl_apart {b : UInt64} {j : Nat} {l : List (Nat × UInt64)}
    (h : ∀ p ∈ l, WordsApart a j b p.1) (m : Mem) :
    loadWord (l.foldl (fun m p => storeWord m b p.1 p.2) m) a j = loadWord m a j := by
  induction l generalizing m with
  | nil => rfl
  | cons p l ih =>
    rw [List.foldl_cons, ih fun q hq => h q (List.mem_cons_of_mem p hq),
      loadWord_storeWord_apart (h p List.mem_cons_self)]

theorem pushedMem_word (c : Core) (m : Mem) {v : UInt64} (h : (pushedWords c)[k]? = some v) :
    loadWord (pushedMem c m) (c.cpu.sp - 96) k = v := by
  have hk : k < 12 := (List.getElem?_eq_some_iff.mp h).1
  rw [pushedMem_eq]
  interval_cases k <;> obtain rfl := Option.some.inj h <;>
    simp [loadWord_storeWord, loadWord_storeWord_ne]

theorem pushedMem_apart (h : ∀ k, k < 12 → WordsApart a 0 (c.cpu.sp - 96) k) (m : Mem) :
    loadWord (pushedMem c m) a 0 = loadWord m a 0 := by
  rw [pushedMem_eq]
  refine loadWord_foldl_apart (fun p hp => h p.1 ?_) m
  have hidx := List.mem_map_of_mem (f := Prod.fst) hp
  simp only [List.map_cons, List.map_nil, List.mem_cons, List.not_mem_nil, or_false] at hidx
  omega

/-- Clearing registers leaves the rest of the state. -/
theorem Core.run_movZero (c : Core) (l : List (Fin 31)) :
    c.run (l.map .movZero) =
      { c with cpu := { c.cpu with x := (c.run (l.map .movZero)).cpu.x } } := by
  induction l generalizing c with
  | nil => rfl
  | cons d l ih =>
    refine (ih (c.set d 0)).trans ?_
    rfl

theorem Core.run_storeAddr (c : Core) (a v : UInt64) : c.run [.adr 3 v, .adr 4 a, .str 3 4] =
    { c with cpu := { c.cpu with
      x := ((c.cpu.set 3 v).set 4 a).x, mem := storeWord c.cpu.mem a 0 v } } := rfl

theorem Core.run_storeSp (c : Core) (a : UInt64) : c.run [.adr 4 a, .movFromSp 3, .str 3 4] =
    { c with cpu := { c.cpu with
      x := ((c.cpu.set 4 a).set 3 c.cpu.sp).x, mem := storeWord c.cpu.mem a 0 c.cpu.sp } } := rfl

theorem Core.run_pushes (c : Core) :
    c.run [.push 19 20, .push 21 22, .push 23 24, .push 25 26, .push 27 28, .push 29 30] =
    { c with cpu := { c.cpu with
      sp := c.cpu.sp - 16 - 16 - 16 - 16 - 16 - 16, mem := pushedMem c c.cpu.mem } } := by
  simp only [Core.run, List.foldl_cons, List.foldl_nil, Core.exec, pushedMem]

theorem Core.run_toUser (c : Core) :
    c.run [.msrTtbr0 2, .msrSpEl0 1, .msrElr 0, .movZero 0, .msrSpsr 0] = { c with
      cpu := { c.cpu with
        x := (c.cpu.set 0 0).x, spEl0 := c.cpu.x 1, elr := c.cpu.x 0, spsr := 0 }
      ttbr0 := c.cpu.x 2 } := rfl

/-- `enter_usermode` in stages. -/
theorem enterUsermode_stages (S : Symbols) (c : Core) : c.run (enterUsermode S) =
    ((((((c.run [.adr 3 S.kernelReturnFromUser, .adr 4 S.kernelReturnAddr, .str 3 4]).run
      [.adr 4 S.kernelReturnSp, .movFromSp 3, .str 3 4]).run
      [.push 19 20, .push 21 22, .push 23 24, .push 25 26, .push 27 28, .push 29 30]).run
      [.adr 4 S.kernelReturnSp, .movFromSp 3, .str 3 4]).run
      [.msrTtbr0 2, .msrSpEl0 1, .msrElr 0, .movZero 0, .msrSpsr 0]).run
      ((List.finRange 31).map .movZero)).run [.eret] := by
  simp only [enterUsermode, Core.run, List.foldl_append, List.foldl_cons, List.foldl_nil]

/-- The state at the `eret`, but for the cleared registers. -/
theorem enterUsermode_eq (S : Symbols) (c : Core) : ∃ x, c.run (enterUsermode S) = { c with
      cpu := { c.cpu with
        x := x
        spEl0 := c.cpu.x 1
        sp := c.cpu.sp - 16 - 16 - 16 - 16 - 16 - 16
        elr := c.cpu.x 0
        spsr := 0
        mem := storeWord (pushedMem c
          (storeWord (storeWord c.cpu.mem S.kernelReturnAddr 0 S.kernelReturnFromUser)
            S.kernelReturnSp 0 c.cpu.sp)) S.kernelReturnSp 0
              (c.cpu.sp - 16 - 16 - 16 - 16 - 16 - 16) }
      ttbr0 := c.cpu.x 2
      pc := c.cpu.x 0
      pstate := 0 } := by
  rw [enterUsermode_stages, Core.run_storeAddr, Core.run_storeSp, Core.run_pushes, Core.run_storeSp,
    Core.run_toUser, Core.run_movZero]
  exact ⟨_, rfl⟩

theorem enterUsermode_run (L : Layout S (c.cpu.sp - 96)) :
    (c.run (enterUsermode S)).cpu.sp = c.cpu.sp - 96 ∧ (c.run (enterUsermode S)).ttbr0 = c.cpu.x 2 ∧
    (c.run (enterUsermode S)).pstate = 0 ∧ (c.run (enterUsermode S)).pc = c.cpu.x 0 ∧
    Saved S c (c.run (enterUsermode S)).cpu.mem := by
  have hbase : c.cpu.sp - 16 - 16 - 16 - 16 - 16 - 16 = c.cpu.sp - 96 := by grind
  obtain ⟨x, he⟩ := enterUsermode_eq S c
  rw [he, hbase]
  refine ⟨rfl, rfl, rfl, rfl, loadWord_storeWord _ _ _ _, ?_, fun k v hv => ?_⟩
  · rw [loadWord_storeWord_apart L.vars.symm, pushedMem_apart fun k hk => L.addr_base hk,
      loadWord_storeWord_apart L.vars.symm, loadWord_storeWord]
  · have hk : k < 12 := (List.getElem?_eq_some_iff.mp hv).1
    rw [loadWord_storeWord_apart (L.sp_base hk).symm]
    exact pushedMem_word c _ hv

/-! ## Returning -/

/-- A word popped `8 * j` bytes above the pushed ones. -/
theorem Saved.popped (h : Saved S c m) {v : UInt64} (j k : Nat)
    (ha : a = c.cpu.sp - 96 + UInt64.ofNat (8 * j)) (hv : (pushedWords c)[j + k]? = some v) :
    loadWord m a k = v := by
  rw [← h.words (j + k) v hv, ha]
  unfold loadWord
  rw [wordAddr_add]

theorem kernelReturnFromUser_run (h : Saved S c f.cpu.mem) :
    (f.run (kernelReturnFromUser S)).pc = c.cpu.x 30 ∧
    (∀ k : Fin 31, 19 ≤ k → (f.run (kernelReturnFromUser S)).cpu.x k = c.cpu.x k) ∧
    (f.run (kernelReturnFromUser S)).cpu.sp = c.cpu.sp ∧
    (f.run (kernelReturnFromUser S)).ttbr0 = f.ttbr0 ∧
    (f.run (kernelReturnFromUser S)).pstate = f.pstate := by
  have hb := h.sp
  have h0 : loadWord f.cpu.mem S.kernelReturnSp 0 = c.cpu.sp - 96 + UInt64.ofNat (8 * 0) := by grind
  have h2 : loadWord f.cpu.mem S.kernelReturnSp 0 + 16 = c.cpu.sp - 96 + UInt64.ofNat (8 * 2) :=
    by grind
  have h4 : loadWord f.cpu.mem S.kernelReturnSp 0 + 16 + 16 =
      c.cpu.sp - 96 + UInt64.ofNat (8 * 4) := by
    grind
  have h6 : loadWord f.cpu.mem S.kernelReturnSp 0 + 16 + 16 + 16 =
      c.cpu.sp - 96 + UInt64.ofNat (8 * 6) := by grind
  have h8 : loadWord f.cpu.mem S.kernelReturnSp 0 + 16 + 16 + 16 + 16 =
      c.cpu.sp - 96 + UInt64.ofNat (8 * 8) := by grind
  have h10 : loadWord f.cpu.mem S.kernelReturnSp 0 + 16 + 16 + 16 + 16 + 16 =
      c.cpu.sp - 96 + UInt64.ofNat (8 * 10) := by grind
  refine ⟨h.popped 0 1 h0 rfl, fun k hk => ?_, ?_, rfl, rfl⟩
  · have hcases : k = 19 ∨ k = 20 ∨ k = 21 ∨ k = 22 ∨ k = 23 ∨ k = 24 ∨ k = 25 ∨ k = 26 ∨ k = 27 ∨
        k = 28 ∨ k = 29 ∨ k = 30 := by
      revert k
      decide
    rcases hcases with rfl | rfl | rfl | rfl | rfl | rfl | rfl | rfl | rfl | rfl | rfl | rfl
    · exact h.popped 10 0 h10 rfl
    · exact h.popped 10 1 h10 rfl
    · exact h.popped 8 0 h8 rfl
    · exact h.popped 8 1 h8 rfl
    · exact h.popped 6 0 h6 rfl
    · exact h.popped 6 1 h6 rfl
    · exact h.popped 4 0 h4 rfl
    · exact h.popped 4 1 h4 rfl
    · exact h.popped 2 0 h2 rfl
    · exact h.popped 2 1 h2 rfl
    · exact h.popped 0 0 h0 rfl
    · exact h.popped 0 1 h0 rfl
  · have hsp : (f.run (kernelReturnFromUser S)).cpu.sp =
        loadWord f.cpu.mem S.kernelReturnSp 0 + 16 + 16 + 16 + 16 + 16 + 16 := rfl
    grind

/-! ## Traps -/

/-- A C function that returns on its own stack and leaves the words alone. -/
def Harmless (S : Symbols) (base : UInt64) (h : Cpu → Cpu) (s : Cpu) : Prop :=
  (h s).sp = s.sp ∧ Kept S base s.mem (h s).mem

/-- The state the C function of a trap from EL0 is entered in. -/
def Core.atC (u : Core) (K : Kernel) (e : UInt64 × CFn) (esr : UInt64) : Cpu :=
  atHandler K e.2 ((u.taken esr).set 0 e.1)

theorem restoreAll_mem (K : Kernel) (s : Cpu) : (run K s restoreAll).mem = s.mem := rfl

theorem Layout.atC (L : Layout S u.cpu.sp) (K : Kernel) (e : UInt64 × CFn) (esr : UInt64) :
    (u.atC K e esr).sp = u.cpu.sp - 272 ∧ (u.atC K e esr).x 1 = u.cpu.sp - 272 ∧
      (u.atC K e esr).esr = esr ∧ Kept S u.cpu.sp u.cpu.mem (u.atC K e esr).mem := by
  obtain ⟨hsp, hx1, -, hesr, -, hmem⟩ := saveAll_run K e.2 ((u.taken esr).set 0 e.1)
  refine ⟨hsp, hx1, hesr, ?_⟩
  unfold Core.atC
  rw [hmem]
  exact L.keptWords _ _ (Nat.le_of_eq ((Nat.zero_add _).trans (frameWords_length _)))

/-- A trap whose C function is harmless leaves the stack and the words. -/
theorem Layout.trapped (L : Layout S u.cpu.sp) {K : Kernel} {e : UInt64 × CFn}
    (hh : Harmless S u.cpu.sp (K.call e.2) (u.atC K e esr)) :
    (u.trapped K e esr).cpu.sp = u.cpu.sp ∧
      Kept S u.cpu.sp u.cpu.mem (u.trapped K e esr).cpu.mem := by
  obtain ⟨hsp, -, -, hkept⟩ := L.atC K e esr
  have he : (u.trapped K e esr).cpu = run K (K.call e.2 (u.atC K e esr)) restoreAll :=
    trap_eq K e (u.taken esr)
  obtain ⟨-, rsp, -, -, -, -⟩ := restoreAll_run K (K.call e.2 (u.atC K e esr))
  rw [he, rsp, hh.1, hsp, restoreAll_mem]
  exact ⟨UInt64.sub_add_cancel _ _, hkept.trans hh.2⟩

/-- The trap ends the program: `exit` or `exit_group`, or an exception that is no
system call. -/
def Core.Ends (u : Core) (esr : UInt64) : Prop :=
  ((esr >>> 26) &&& 0x3F = 0x15 ∧ (u.cpu.x 8 = sysExitNr ∨ u.cpu.x 8 = sysExitGroupNr)) ∨
    (esr >>> 26) &&& 0x3F ≠ 0x15

/-- The vector entry of synchronous exceptions from EL0. -/
def syncLower : UInt64 × CFn := (8, .handleSyncLower)

/-- The frame of a trap, rewritten to come back to the kernel. -/
structure ToKernel (S : Symbols) (base ra : UInt64) (m m' : Mem) : Prop where
  elr : loadWord m' (base - 272) 31 = ra
  spsr : loadWord m' (base - 272) 32 = 0x3c5
  kept : Kept S base m m'

theorem Layout.toKernel (L : Layout S base) (m : Mem) (ra : UInt64) :
    ToKernel S base ra m (storeWord (storeWord m (base - 272) 31 ra) (base - 272) 32 0x3c5) where
  elr := by
    rw [loadWord_storeWord_ne _ _ (by decide) (by decide) (by decide), loadWord_storeWord]
  spsr := loadWord_storeWord _ _ _ _
  kept := (L.keptWord m (by decide) ra).trans (L.keptWord _ (by decide) _)

/-- The result of the system call goes to word 0. -/
theorem ToKernel.result {ra : UInt64} (h : ToKernel S base ra m m') (L : Layout S base) (v : UInt64) :
    ToKernel S base ra m (storeWord m' (base - 272) 0 v) where
  elr := by
    rw [loadWord_storeWord_ne _ _ (by decide) (by decide) (by decide)]
    exact h.elr
  spsr := by
    rw [loadWord_storeWord_ne _ _ (by decide) (by decide) (by decide)]
    exact h.spsr
  kept := h.kept.trans (L.keptWord m' (by decide) v)

/-- What `handle_sync_lower` makes of the frame when the program ends. -/
theorem handleSyncLower_ends (L : Layout S u.cpu.sp) (he : u.Ends esr)
    (hm : Harmless S u.cpu.sp C.mark (u.atC (kernel S C) syncLower esr))
    (hra : loadWord u.cpu.mem S.kernelReturnAddr 0 ≠ 0) :
    (handleSyncLower (kernel S C) (u.atC (kernel S C) syncLower esr)).sp = u.cpu.sp - 272 ∧
    ToKernel S u.cpu.sp (loadWord u.cpu.mem S.kernelReturnAddr 0) u.cpu.mem
      (handleSyncLower (kernel S C) (u.atC (kernel S C) syncLower esr)).mem := by
  obtain ⟨hsp, hx1, hesr, hkept⟩ := L.atC (kernel S C) syncLower esr
  have hnr : loadWord (u.atC (kernel S C) syncLower esr).mem (u.cpu.sp - 272) 8 = u.cpu.x 8 := by
    rw [← hsp]
    exact atHandler_word (kernel S C) .handleSyncLower _ 8 _ (frameWords_x _ 8)
  generalize u.atC (kernel S C) syncLower esr = h at *
  have hkept' := hkept.trans hm.2
  -- both paths store into the frame over the memory `mark` leaves
  have hto := (L.toKernel (C.mark h).mem (loadWord u.cpu.mem S.kernelReturnAddr 0))
  have hto' : ToKernel S u.cpu.sp (loadWord u.cpu.mem S.kernelReturnAddr 0) u.cpu.mem
      (storeWord (storeWord (C.mark h).mem (u.cpu.sp - 272) 31
        (loadWord u.cpu.mem S.kernelReturnAddr 0))
        (u.cpu.sp - 272) 32 0x3c5) := ⟨hto.elr, hto.spsr, hkept'.trans hto.kept⟩
  unfold handleSyncLower
  rw [hesr, hx1]
  rcases he with ⟨hec, hexit⟩ | hec
  · rw [if_pos hec]
    dsimp only [kernel]
    rw [hnr, if_pos hexit]
    dsimp only [sysExit]
    rw [hkept'.addr, if_pos hra, hx1]
    exact ⟨hm.1.trans hsp, hto'.result L _⟩
  · have hk : (kernel S C).kernelReturnAddr ((kernel S C).crash h) =
        loadWord u.cpu.mem S.kernelReturnAddr 0 := hkept'.addr
    rw [if_neg hec]
    rw [if_pos (hk.trans_ne hra)]
    rw [hk]
    exact ⟨hm.1.trans hsp, hto'⟩

/-- The last trap: `eret` goes to `kernel_return_addr` in EL1 with DAIF masked. -/
theorem trapped_ends (L : Layout S u.cpu.sp) (he : u.Ends esr)
    (hm : Harmless S u.cpu.sp C.mark (u.atC (kernel S C) syncLower esr))
    (hra : loadWord u.cpu.mem S.kernelReturnAddr 0 ≠ 0) :
    (u.trapped (kernel S C) syncLower esr).pc = loadWord u.cpu.mem S.kernelReturnAddr 0 ∧
    (u.trapped (kernel S C) syncLower esr).pstate = 0x3c5 ∧
    Kept S u.cpu.sp u.cpu.mem (u.trapped (kernel S C) syncLower esr).cpu.mem := by
  obtain ⟨hsp, hto⟩ := handleSyncLower_ends L he hm hra
  have hcpu : trap (kernel S C) syncLower (u.taken esr) =
      run (kernel S C) (handleSyncLower (kernel S C) (u.atC (kernel S C) syncLower esr)) restoreAll :=
    trap_eq (kernel S C) syncLower (u.taken esr)
  obtain ⟨-, -, -, relr, rspsr, -⟩ :=
    restoreAll_run (kernel S C) (handleSyncLower (kernel S C) (u.atC (kernel S C) syncLower esr))
  unfold Core.trapped
  rw [hcpu, relr, rspsr, hsp, restoreAll_mem]
  exact ⟨hto.elr, hto.spsr, hto.kept⟩

/-! ## From the call to the return -/

/-- What happens between `enter_usermode`'s `eret` and the `eret` of the trap that
ends the program, with the page tables loaded on the way. -/
inductive Behaviour (S : Symbols) (C : CCode) (base : UInt64) : Core → List UInt64 → Core → Prop
  /-- user instructions: any registers, program counter and memory -/
  | user {u u' f : Core} {loads : List UInt64} : u'.cpu.sp = u.cpu.sp → u'.ttbr0 = u.ttbr0 →
      Kept S base u.cpu.mem u'.cpu.mem → Behaviour S C base u' loads f → Behaviour S C base u loads f
  /-- an interrupt or a system call that comes back to EL0; `sched_yield` may come
  back on another page table -/
  | trap {u f : Core} {loads : List UInt64} (e : UInt64 × CFn) (esr : UInt64)
      (table : Option UInt64) :
      e = syncLower ∨ e = (9, .handleIrq) →
      Harmless S base ((kernel S C).call e.2) (u.atC (kernel S C) e esr) →
      (u.trapped (kernel S C) e esr).pstate &&& 0xF = 0 →
      Behaviour S C base { u.trapped (kernel S C) e esr with ttbr0 := table.getD u.ttbr0 } loads f →
      Behaviour S C base u (table.toList ++ loads) f
  /-- `exit`, `exit_group` or a fault -/
  | last {u : Core} (esr : UInt64) : u.Ends esr →
      Harmless S base C.mark (u.atC (kernel S C) syncLower esr) →
      Behaviour S C base u [] (u.trapped (kernel S C) syncLower esr)

/-- Along a behaviour the words stay; at its end the kernel is entered at
`kernel_return_from_user` with DAIF masked and the table loaded last. -/
theorem Behaviour.ends {loads : List UInt64} (hb : Behaviour S C base u loads f) (L : Layout S base)
    (hsp : u.cpu.sp = base) (hs : Saved S c u.cpu.mem) (hbase : c.cpu.sp - 96 = base)
    (h0 : S.kernelReturnFromUser ≠ 0) :
    f.pc = S.kernelReturnFromUser ∧ f.pstate = 0x3c5 ∧ f.ttbr0 = loads.getLast?.getD u.ttbr0 ∧
      Saved S c f.cpu.mem := by
  induction hb with
  | user hsp' htt hkept _ ih =>
    rw [← hbase] at hkept
    obtain ⟨h1, h2, h3, h4⟩ := ih (hsp'.trans hsp) (hs.kept hkept)
    exact ⟨h1, h2, htt ▸ h3, h4⟩
  | @trap u f loads e esr table _ hh _ _ ih =>
    subst hsp
    obtain ⟨htsp, htk⟩ := L.trapped hh
    rw [← hbase] at htk
    obtain ⟨h1, h2, h3, h4⟩ := ih htsp (hs.kept htk)
    refine ⟨h1, h2, h3.trans ?_, h4⟩
    -- the last load of the rest, or the one of this trap, or none
    rw [List.getLast?_append]
    cases loads.getLast? with
    | some t => rfl
    | none => cases table <;> rfl
  | @last u esr he hm =>
    subst hsp
    have hra : loadWord u.cpu.mem S.kernelReturnAddr 0 ≠ 0 := by rw [hs.addr]; exact h0
    obtain ⟨hpc, hps, hk⟩ := trapped_ends L he hm hra
    rw [← hbase] at hk
    exact ⟨hpc.trans hs.addr, hps, rfl, hs.kept hk⟩

/-- The caller of `enter_usermode` in state `c` goes on in state `r` as after any
C function that changes neither the page table nor the interrupt mask. -/
structure Restored (c r : Core) : Prop where
  pc : r.pc = c.cpu.x 30
  regs : ∀ k : Fin 31, 19 ≤ k → r.cpu.x k = c.cpu.x k
  sp : r.cpu.sp = c.cpu.sp
  ttbr0 : r.ttbr0 = c.ttbr0
  daif : daif r.pstate = daif c.pstate

/-- The state in which the caller goes on, whatever the program did. -/
theorem Behaviour.returns {loads : List UInt64} (L : Layout S (c.cpu.sp - 96))
    (h0 : S.kernelReturnFromUser ≠ 0)
    (hb : Behaviour S C (c.cpu.sp - 96) (c.run (enterUsermode S)) loads f) :
    f.pc = S.kernelReturnFromUser ∧ (f.run (kernelReturnFromUser S)).pc = c.cpu.x 30 ∧
    (∀ k : Fin 31, 19 ≤ k → (f.run (kernelReturnFromUser S)).cpu.x k = c.cpu.x k) ∧
    (f.run (kernelReturnFromUser S)).cpu.sp = c.cpu.sp ∧
    (f.run (kernelReturnFromUser S)).ttbr0 = loads.getLast?.getD (c.cpu.x 2) ∧
    (f.run (kernelReturnFromUser S)).pstate = 0x3c5 := by
  obtain ⟨hsp, htt, -, -, hs⟩ := enterUsermode_run L
  obtain ⟨hpc, hps, htab, hs'⟩ := hb.ends L hsp hs rfl h0
  obtain ⟨h1, h2, h3, h4, h5⟩ := kernelReturnFromUser_run hs'
  exact ⟨hpc, h1, h2, h3, h4.trans (htt ▸ htab), h5.trans hps⟩

end

/-- For every call of `enter_usermode` and every behaviour of the program that
ends in `exit`, `exit_group` or a fault and leaves the saved words alone: control
comes back with `x19`..`x30` and `SP` as at the call, and the caller's state is
restored exactly when the table loaded last (the user's, unless a `sched_yield`
loaded another) is the one at the call and DAIF was masked altogether. -/
theorem usermode_return_iff {S : Symbols} {C : CCode} {c f : Core} {loads : List UInt64}
    (L : Layout S (c.cpu.sp - 96)) (h0 : S.kernelReturnFromUser ≠ 0)
    (hb : Behaviour S C (c.cpu.sp - 96) (c.run (enterUsermode S)) loads f) :
    f.pc = S.kernelReturnFromUser ∧ (Restored c (f.run (kernelReturnFromUser S)) ↔
      loads.getLast?.getD (c.cpu.x 2) = c.ttbr0 ∧ daif c.pstate = 0xF) := by
  obtain ⟨hpc, h1, h2, h3, h4, h5⟩ := hb.returns L h0
  have hdaif : daif (f.run (kernelReturnFromUser S)).pstate = 0xF := by
    rw [h5]
    decide
  refine ⟨hpc, fun h => ⟨h4.symm.trans h.ttbr0, h.daif.symm.trans hdaif⟩, fun h => ?_⟩
  exact ⟨h1, h2, h3, h4.trans h.1, hdaif.trans h.2.symm⟩

/-- Variables and code of the kernel image, above it the stack. -/
def demoSymbols : Symbols := ⟨0x40020000, 0x40020008, 0x40001000⟩

/-- C functions that do nothing. -/
def demoC : CCode := ⟨id, id, id, fun _ s => (s, 0), fun _ => 0⟩

/-- The shell calls `enter_usermode(0x10000, 0x7FFFFFF000, table)`. -/
def demoCall (table pstate : UInt64) : Core where
  cpu :=
    { x := fun k => if k = 0 then 0x10000 else if k = 1 then 0x7FFFFFF000
        else if k = 2 then table else 7
      spEl0 := 0
      sp := 0x40031000
      elr := 0
      spsr := 0
      esr := 0
      mem := fun _ => 0
      calls := [] }
  ttbr0 := 0x40041000
  pstate := pstate
  pc := 0x40002000

theorem demo_layout (table pstate : UInt64) :
    Layout demoSymbols ((demoCall table pstate).cpu.sp - 96) := by
  refine ⟨by decide +kernel, ?_, ?_⟩
  · show ∀ k, k < 46 → WordsApart 0x40020000 0 (0x40031000 - 96 - 272) k
    decide +kernel
  · show ∀ k, k < 46 → WordsApart 0x40020008 0 (0x40031000 - 96 - 272) k
    decide +kernel

/-- The program sets `x8` to the number of `exit` and makes the system call. -/
def Core.callsExit (u : Core) : Core := { u with cpu := { u.cpu with x := fun _ => sysExitNr } }

theorem exits_at_once (S : Symbols) (base : UInt64) (u : Core) :
    Behaviour S demoC base u [] (u.callsExit.trapped (kernel S demoC) syncLower 0x56000000) := by
  have hlast : Behaviour S demoC base u.callsExit []
      (u.callsExit.trapped (kernel S demoC) syncLower 0x56000000) :=
    .last 0x56000000 (.inl ⟨by decide, .inl rfl⟩) ⟨rfl, .refl _ _ _⟩
  exact @Behaviour.user S demoC base u u.callsExit _ [] rfl rfl (.refl S base u.cpu.mem) hlast

/-- The state right after the `eret` of the trap that ends the program. -/
def demoEnd (table pstate : UInt64) : Core :=
  ((demoCall table pstate).run (enterUsermode demoSymbols)).callsExit.trapped
    (kernel demoSymbols demoC) syncLower 0x56000000

/-- With the table already loaded and interrupts masked, everything is restored. -/
theorem usermode_return_masked : Restored (demoCall 0x40041000 0x3c5)
      ((demoEnd 0x40041000 0x3c5).run (kernelReturnFromUser demoSymbols)) :=
  (usermode_return_iff (demo_layout _ _) (by decide) (exits_at_once demoSymbols _ _)).2.mpr
    ⟨rfl, by decide⟩

/-- **Counterexample**: the shell runs with IRQs enabled on the kernel table; after
the program's `exit` it goes on with IRQs masked on the program's table. -/
theorem exit_keeps_user_table :
    (demoCall 0x40051000 0x345).ttbr0 = 0x40041000 ∧ daif (demoCall 0x40051000 0x345).pstate = 0xD ∧
    Behaviour demoSymbols demoC ((demoCall 0x40051000 0x345).cpu.sp - 96)
      ((demoCall 0x40051000 0x345).run (enterUsermode demoSymbols)) [] (demoEnd 0x40051000 0x345) ∧
    ((demoEnd 0x40051000 0x345).run (kernelReturnFromUser demoSymbols)).ttbr0 = 0x40051000 ∧
    daif ((demoEnd 0x40051000 0x345).run (kernelReturnFromUser demoSymbols)).pstate = 0xF := by
  have hb := exits_at_once demoSymbols ((demoCall 0x40051000 0x345).cpu.sp - 96)
    ((demoCall 0x40051000 0x345).run (enterUsermode demoSymbols))
  obtain ⟨-, -, -, -, htt, hps⟩ := hb.returns (demo_layout _ _) (by decide)
  refine ⟨rfl, by decide, hb, htt, ?_⟩
  exact (congrArg daif hps).trans (by decide)

end HackersOs.L1.UserMode

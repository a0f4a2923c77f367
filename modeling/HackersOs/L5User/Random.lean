import Mathlib.Algebra.Module.Equiv.Basic
import HackersOs.Core.XorWord
import HackersOs.L5User.Clock
import HackersOs.L5User.Dispatch

/-!
# The random generator (`sys_getrandom`)

`sys_getrandom` keeps 64 bits in a static and makes one xorshift step for each byte
it stores. A step is a product of three units of the ring of linear maps over words
under exclusive or, so it is injective and only 0 goes to 0: no sequence of calls
from the seed comes to the state 0, where the generator would stick, and different
states stay different (`random_never_sticks`).

The same holds beside all other system calls (`syscalls_random_state`). `buf` is not
checked: `getrandomMem` has the static in memory too, which makes no difference for a
buffer apart from it (`getrandomMem_apart`).
-/
namespace HackersOs.L5
open HackersOs.Core

/-- mirrors src/compat/linux_syscalls.cpp:375-377 -/
def xorshift (state : UInt64) : UInt64 :=
  let state := state ^^^ (state <<< 13)
  let state := state ^^^ (state >>> 7)
  state ^^^ (state <<< 17)

/-- mirrors src/compat/linux_syscalls.cpp:372 -/
def randomSeed : UInt64 := 0x12345678DEADBEEF

/-- The static `state` and the memory. -/
structure Random where
  state : UInt64
  mem : Mem

/-- The loop at `i`, with `n` bytes to go. mirrors src/compat/linux_syscalls.cpp:374-379 -/
def getrandomLoop (buf : UInt64) : Nat → UInt64 → Random → Random
  | 0, _, r => r
  | n + 1, i, r =>
    let state := xorshift r.state
    getrandomLoop buf n (i + 1) ⟨state, Function.update r.mem (buf + i).toNat state.toUInt8⟩

/-- mirrors src/compat/linux_syscalls.cpp:369-381 -/
def sysGetrandom (r : Random) (buf buflen _flags : UInt64) : Random × Int64 :=
  (getrandomLoop buf buflen.toNat 0 r, buflen.toInt64)

structure RandomCall where
  buf : UInt64
  buflen : UInt64
  flags : UInt64

/-- Any calls from the seed. -/
def randomLTS : LTS Random RandomCall where
  init r := r.state = randomSeed
  step r c r' := r' = (sysGetrandom r c.buf c.buflen c.flags).1

/-- The bytes that a sequence of calls asks for. -/
def bytesOf (calls : List RandomCall) : Nat := (calls.map fun c => c.buflen.toNat).sum

/-- The address of `p[j]`. -/
def byteAddr (p : UInt64) (j : Nat) : Nat := (p + UInt64.ofNat j).toNat

/-! ## The step -/

/-- `xorshift` as a linear map. -/
def xorshiftMap : Module.End (ZMod 2) (XorWord 64) :=
  (1 + XorWord.shl 64 17) * ((1 + XorWord.shr 64 7) * (1 + XorWord.shl 64 13))

theorem xorshift_toBitVec (s : UInt64) : (xorshiftMap ⟨s.toBitVec⟩).bits = (xorshift s).toBitVec :=
  rfl

theorem isUnit_xorshiftMap : IsUnit xorshiftMap :=
  (XorWord.isUnit_one_add_shl (by decide)).mul
    ((XorWord.isUnit_one_add_shr (by decide)).mul (XorWord.isUnit_one_add_shl (by decide)))

theorem xorshift_injective : Function.Injective xorshift := by
  intro s s' h
  have hmap : xorshiftMap ⟨s.toBitVec⟩ = xorshiftMap ⟨s'.toBitVec⟩ := by
    refine XorWord.ext ?_
    rw [xorshift_toBitVec, xorshift_toBitVec, h]
  have hword := ((Module.End.isUnit_iff _).mp isUnit_xorshiftMap).1 hmap
  exact UInt64.toBitVec_inj.mp (congrArg XorWord.bits hword)

theorem xorshift_zero : xorshift 0 = 0 := rfl

theorem xorshift_eq_zero_iff (s : UInt64) : xorshift s = 0 ↔ s = 0 := by
  constructor
  · intro h
    exact xorshift_injective (h.trans xorshift_zero.symm)
  · rintro rfl
    exact xorshift_zero

/-! ## Calls -/

theorem byteAddr_zero (p : UInt64) : byteAddr p 0 = p.toNat :=
  congrArg UInt64.toNat (UInt64.add_zero p)

theorem byteAddr_succ (buf i : UInt64) (j : Nat) :
    byteAddr (buf + (i + 1)) j = byteAddr (buf + i) (j + 1) := by
  unfold byteAddr
  rw [UInt64.ofNat_add, UInt64.add_comm (UInt64.ofNat j), ← UInt64.add_assoc, ← UInt64.add_assoc]
  rfl

theorem byteAddr_ne {p : UInt64} {j k : Nat} (hj : j < 2 ^ 64) (hk : k < 2 ^ 64) (h : j ≠ k) :
    byteAddr p j ≠ byteAddr p k := by
  unfold byteAddr
  rw [UInt64.toNat_add, UInt64.toNat_add, UInt64.toNat_ofNat', UInt64.toNat_ofNat']
  omega

section
variable {buf i s s' : UInt64} {n : Nat} {r r' : Random} {calls : List RandomCall}

theorem getrandomLoop_state : (getrandomLoop buf n i r).state = xorshift^[n] r.state := by
  induction n generalizing i r with
  | zero => rfl
  | succ n ih => rw [getrandomLoop, ih, Function.iterate_succ_apply]

/-- Bytes that are not of the buffer are as they were. -/
theorem getrandomLoop_outside {a : Nat} (h : ∀ j, j < n → byteAddr (buf + i) j ≠ a) :
    (getrandomLoop buf n i r).mem a = r.mem a := by
  induction n generalizing i r with
  | zero => rfl
  | succ n ih =>
    have h0 := h 0 (by omega)
    rw [byteAddr_zero] at h0
    rw [getrandomLoop, ih]
    · exact Function.update_of_ne h0.symm _ _
    · intro j hj
      rw [byteAddr_succ]
      exact h (j + 1) (by omega)

/-- Byte `j` of the buffer is the low byte of the state after its step. -/
theorem getrandomLoop_byte {j : Nat} (hn : n ≤ 2 ^ 64) (hj : j < n) :
    (getrandomLoop buf n i r).mem (byteAddr (buf + i) j) = (xorshift^[j + 1] r.state).toUInt8 := by
  induction n generalizing i r j with
  | zero => cases hj
  | succ n ih =>
    rw [getrandomLoop]
    cases j with
    | zero =>
      -- the later bytes have other addresses
      rw [getrandomLoop_outside fun j hj => byteAddr_succ buf i j ▸ byteAddr_ne (by omega)
        (by omega) (by omega),
        byteAddr_zero]
      exact Function.update_self (buf + i).toNat (xorshift r.state).toUInt8 r.mem
    | succ j =>
      rw [← byteAddr_succ, ih (by omega) (by omega), Function.iterate_succ_apply xorshift (j + 1)]

/-- A call makes a step for each byte, stores the low byte of the state after it, and leaves
the other bytes. -/
theorem sysGetrandom_spec (r : Random) (buf buflen flags : UInt64) :
    (sysGetrandom r buf buflen flags).1.state = xorshift^[buflen.toNat] r.state ∧
      (∀ j, j < buflen.toNat →
        (sysGetrandom r buf buflen flags).1.mem (byteAddr buf j) =
          (xorshift^[j + 1] r.state).toUInt8) ∧ ∀ a, (∀ j, j < buflen.toNat → byteAddr buf j ≠ a) →
        (sysGetrandom r buf buflen flags).1.mem a = r.mem a := by
  have hlt := buflen.toNat_lt
  refine ⟨getrandomLoop_state, fun j hj => ?_, fun a ha => ?_⟩
  · have hbyte := @getrandomLoop_byte buf 0 buflen.toNat r j (by omega) hj
    rwa [UInt64.add_zero] at hbyte
  · refine getrandomLoop_outside fun j hj => ?_
    rw [UInt64.add_zero]
    exact ha j hj

/-- What a run does to the state depends on the number of bytes only. -/
theorem random_run_state (h : randomLTS.Run r calls r') :
    r'.state = xorshift^[bytesOf calls] r.state := by
  induction h with
  | nil => rfl
  | @cons r r₁ r' c calls hstep _ ih =>
    have hstep' : r₁.state = xorshift^[c.buflen.toNat] r.state := by
      rw [hstep]
      exact (sysGetrandom_spec r c.buf c.buflen c.flags).1
    rw [ih, hstep', ← Function.iterate_add_apply, Nat.add_comm]
    rfl

theorem xorshift_iterate_ne_zero (n : Nat) (h : s ≠ 0) : xorshift^[n] s ≠ 0 := by
  induction n generalizing s with
  | zero => exact h
  | succ n ih =>
    rw [Function.iterate_succ_apply]
    exact ih fun h0 => h ((xorshift_eq_zero_iff s).mp h0)

theorem random_state_inductive : randomLTS.Inductive fun r => r.state ≠ 0 where
  init r h := by
    rw [show r.state = randomSeed from h]
    decide
  step r c r' h hstep := by
    rw [hstep, (sysGetrandom_spec r c.buf c.buflen c.flags).1]
    exact xorshift_iterate_ne_zero _ h

end

/-- The step is injective, and only 0 goes to 0. So after any calls from the seed the state is
not 0, and calls for the same number of bytes take different states to different ones. -/
theorem random_never_sticks : Function.Injective xorshift ∧ (∀ s, xorshift s = 0 ↔ s = 0) ∧
      (∀ r, randomLTS.Reachable r → r.state ≠ 0) ∧
      ∀ r₁ r₂ r₁' r₂' calls₁ calls₂, randomLTS.Run r₁ calls₁ r₁' → randomLTS.Run r₂ calls₂ r₂' →
        bytesOf calls₁ = bytesOf calls₂ → r₁.state ≠ r₂.state → r₁'.state ≠ r₂'.state := by
  refine ⟨xorshift_injective, xorshift_eq_zero_iff, random_state_inductive.reachable, ?_⟩
  intro r₁ r₂ r₁' r₂' calls₁ calls₂ h₁ h₂ hbytes hne heq
  rw [random_run_state h₁, random_run_state h₂, hbytes] at heq
  exact hne (xorshift_injective.iterate _ heq)

/-- A call for 32 bytes. -/
theorem random_never_sticks_call :
    (sysGetrandom ⟨randomSeed, fun _ => 0⟩ 0x400000 32 0).1.state ≠ 0 :=
  random_never_sticks.2.2.1 _ ⟨⟨randomSeed, fun _ => 0⟩, [⟨0x400000, 32, 0⟩], rfl, .cons rfl (.nil _)⟩

/-! ## Among the system calls -/

/-- The generator beside `dispatch`: other calls may write to memory, and leave the static. -/
def sysRandomLTS (G : SysState → SysCall → Prop) : LTS (SysState × Random) SysCall where
  init p := (sysLTS G).init p.1 ∧ p.2.state = randomSeed
  step p c p' := (sysLTS G).step p.1 c p'.1 ∧
    if Sys.ofNumber c.nr = some .getrandom then
      p'.2 = (sysGetrandom p.2 (.ofNat c.a0) (.ofNat c.a1) (.ofNat c.a2)).1
    else p'.2.state = p.2.state

theorem dispatch_getrandom {c : SysCall} (h : Sys.ofNumber c.nr = some .getrandom)
    (ha1 : c.a1 < 2 ^ 64) (s : SysState) (r : Random) :
    s.dispatch c = (s, (sysGetrandom r (.ofNat c.a0) (.ofNat c.a1) (.ofNat c.a2)).2.toInt) := by
  unfold SysState.dispatch
  rw [h]
  dsimp only [sysGetrandom]
  rw [toInt_toInt64, UInt64.toNat_ofNat_of_lt' ha1]
  rfl

theorem syscalls_random_state {G : SysState → SysCall → Prop} (p : SysState × Random)
    (h : (sysRandomLTS G).Reachable p) : p.2.state ≠ 0 := by
  refine LTS.Inductive.reachable (I := fun p => p.2.state ≠ 0)
    ⟨fun p hp => ?_, fun p c p' hp hstep => ?_⟩ p h
  · exact random_state_inductive.init p.2 hp.2
  · have hrandom := hstep.2
    split at hrandom
    · exact random_state_inductive.step p.2 ⟨.ofNat c.a0, .ofNat c.a1, .ofNat c.a2⟩ p'.2 hp hrandom
    · rwa [hrandom]

/-! ## The static in memory -/

/-- The loop with the static in the eight bytes at `a`. -/
def getrandomMem (a : Nat) (buf : UInt64) : Nat → UInt64 → Mem → Mem
  | 0, _, m => m
  | n + 1, i, m =>
    let state := xorshift (.ofNat (read64 m a))
    getrandomMem a buf n (i + 1)
      (Function.update (write64 m a state.toNat) (buf + i).toNat state.toUInt8)

/-- No byte of the buffer is one of the static: the memory is that of the loop with a static of its own. -/
theorem getrandomMem_apart {a n : Nat} {buf i : UInt64} (r : Random)
    (h : ∀ j, j < n → byteAddr (buf + i) j < a ∨ a + 8 ≤ byteAddr (buf + i) j) :
    getrandomMem a buf n i (write64 r.mem a r.state.toNat) =
      write64 (getrandomLoop buf n i r).mem a (getrandomLoop buf n i r).state.toNat := by
  induction n generalizing i r with
  | zero => rfl
  | succ n ih =>
    have h0 := h 0 (by omega)
    rw [byteAddr_zero] at h0
    rw [getrandomMem, read64_write64 r.state.toNat_lt, UInt64.ofNat_toNat, write64_write64,
      update_write64 h0]
    refine ih ⟨xorshift r.state, _⟩ fun j hj => ?_
    rw [byteAddr_succ]
    exact h (j + 1) (by omega)

end HackersOs.L5

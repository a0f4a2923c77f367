import Mathlib.Algebra.Field.ZMod
import Mathlib.Algebra.Module.LinearMap.End
import Mathlib.Algebra.Module.ZMod
import Mathlib.RingTheory.Nilpotent.Basic
import Mathlib.Tactic.Common

/-!
# Words under exclusive or

With exclusive or as addition the words of `w` bits are a vector space over the
field of two elements, and a shift is a linear map. A shift by at least one bit is
nilpotent, since `w` of them leave nothing, so `x ↦ x ^^^ (x <<< k)` is one plus a
nilpotent map: a unit of the ring of linear maps, and a bijection
(`isUnit_one_add_shl`, `isUnit_one_add_shr`).
-/
namespace HackersOs.Core

/-- A word, with exclusive or as its addition. -/
@[ext] structure XorWord (w : Nat) where
  bits : BitVec w
  deriving DecidableEq

namespace XorWord

variable {w k : Nat}

instance : Zero (XorWord w) := ⟨⟨0#w⟩⟩

instance : Add (XorWord w) := ⟨fun x y => ⟨x.bits ^^^ y.bits⟩⟩

instance : Neg (XorWord w) := ⟨id⟩

@[simp] theorem bits_zero : (0 : XorWord w).bits = 0#w := rfl

theorem add_self (x : XorWord w) : x + x = 0 := XorWord.ext BitVec.xor_self

instance : AddCommGroup (XorWord w) where
  add_assoc _ _ _ := XorWord.ext (BitVec.xor_assoc _ _ _)
  zero_add _ := XorWord.ext BitVec.zero_xor
  add_zero _ := XorWord.ext BitVec.xor_zero
  neg_add_cancel := add_self
  add_comm _ _ := XorWord.ext (BitVec.xor_comm _ _)
  nsmul := nsmulRec
  zsmul := zsmulRec

instance : Module (ZMod 2) (XorWord w) :=
  AddCommGroup.zmodModule fun x => by rw [two_nsmul, add_self]

/-- A map that goes through exclusive or. -/
def linear (f : BitVec w → BitVec w) (h : ∀ x y, f (x ^^^ y) = f x ^^^ f y) :
    Module.End (ZMod 2) (XorWord w) :=
  (AddMonoidHom.mk' (fun x : XorWord w => ⟨f x.bits⟩) fun x y =>
    XorWord.ext (h x.bits y.bits)).toZModLinearMap 2

def shl (w k : Nat) : Module.End (ZMod 2) (XorWord w) :=
  linear (· <<< k) (BitVec.shiftLeft_xor_distrib · · k)

def shr (w k : Nat) : Module.End (ZMod 2) (XorWord w) :=
  linear (· >>> k) (BitVec.ushiftRight_xor_distrib · · k)

@[simp] theorem bits_shl (x : XorWord w) : (shl w k x).bits = x.bits <<< k := rfl

@[simp] theorem bits_shr (x : XorWord w) : (shr w k x).bits = x.bits >>> k := rfl

theorem bits_shl_pow (n : Nat) (x : XorWord w) : ((shl w k ^ n) x).bits = x.bits <<< (n * k) := by
  induction n with
  | zero => rw [pow_zero, Nat.zero_mul, BitVec.shiftLeft_zero, Module.End.one_apply]
  | succ n ih => rw [pow_succ', Module.End.mul_apply, bits_shl, ih, Nat.succ_mul,
      BitVec.shiftLeft_add]

theorem bits_shr_pow (n : Nat) (x : XorWord w) : ((shr w k ^ n) x).bits = x.bits >>> (n * k) := by
  induction n with
  | zero => rw [pow_zero, Nat.zero_mul, BitVec.ushiftRight_zero, Module.End.one_apply]
  | succ n ih => rw [pow_succ', Module.End.mul_apply, bits_shr, ih, Nat.succ_mul,
      BitVec.shiftRight_add]

theorem isUnit_one_add_shl (hk : 0 < k) : IsUnit (1 + shl w k) := by
  refine IsNilpotent.isUnit_one_add ⟨w, LinearMap.ext fun x => XorWord.ext ?_⟩
  rw [bits_shl_pow, BitVec.shiftLeft_eq_zero (Nat.le_mul_of_pos_right w hk), LinearMap.zero_apply,
    bits_zero]

theorem isUnit_one_add_shr (hk : 0 < k) : IsUnit (1 + shr w k) := by
  refine IsNilpotent.isUnit_one_add ⟨w, LinearMap.ext fun x => XorWord.ext ?_⟩
  rw [bits_shr_pow, BitVec.ushiftRight_eq_zero (Nat.le_mul_of_pos_right w hk), LinearMap.zero_apply,
    bits_zero]

end XorWord

end HackersOs.Core

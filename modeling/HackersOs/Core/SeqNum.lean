import Mathlib.Algebra.Group.Nat.Defs
import Mathlib.Tactic.Common

/-!
# Sequence numbers modulo 2^32

`offset isn x` is how far `x` is behind an initial number `isn`. As long as
fewer than 2^32 numbers are in use, offsets add up (`offset_add`) and order
sequence numbers. `Covers seq len x`: `x` is one of the `len` numbers from `seq`
on.
-/
namespace HackersOs.Core

def offset (isn x : UInt32) : Nat := (x - isn).toNat

theorem offset_self (isn : UInt32) : offset isn isn = 0 := by
  simp [offset]

theorem offset_add {isn x k : UInt32} (h : offset isn x + k.toNat < 2 ^ 32) :
    offset isn (x + k) = offset isn x + k.toNat := by
  have e : x + k - isn = (x - isn) + k := by grind
  unfold offset at *
  rw [e, UInt32.toNat_add, Nat.mod_eq_of_lt h]

def Covers (seq : UInt32) (len : Nat) (x : UInt32) : Prop := ∃ j, j < len ∧ seq + UInt32.ofNat j = x

theorem ofNat_pred {d : UInt32} (h : 0 < d.toNat) : UInt32.ofNat (d.toNat - 1) = d - 1 := by
  have hle : (1 : UInt32) ≤ d := UInt32.le_iff_toNat_le.mpr h
  have hlt := d.toNat_lt
  apply UInt32.toNat_inj.mp
  rw [UInt32.toNat_ofNat', UInt32.toNat_sub_of_le _ _ hle, UInt32.toNat_one]
  omega

/-- The last number before `x`. -/
theorem add_offset_pred {isn x : UInt32} (h : 0 < offset isn x) :
    isn + UInt32.ofNat (offset isn x - 1) = x - 1 := by
  unfold offset at *
  rw [ofNat_pred h]
  grind

end HackersOs.Core

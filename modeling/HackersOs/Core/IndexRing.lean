import Mathlib.Data.Nat.ModEq
import Mathlib.Tactic.Common

/-!
# Rings with free-running 16-bit indices

A ring shared by a producer and a consumer: each has an index that only counts
up and wraps at 2^16, and the entry of index `i` is in slot `i % size`. The
entries between the consumer's index and the producer's are the pending ones.

For a size that divides 2^16, `pending` is a queue for all index values, across
the wrap: `pending_push` adds at the back while fewer than `size` entries are
pending, `pending_pop` takes from the front.
-/
namespace HackersOs.Core.IndexRing

variable {α : Type} {size : Nat}

/-- The entries from index `i` up to index `j`. -/
def pending (size : Nat) (ring : Nat → α) (i j : UInt16) : List α :=
  (List.range (j - i).toNat).map fun k => ring ((i + UInt16.ofNat k).toNat % size)

/-- `ring[slot] = v` -/
def put (ring : Nat → α) (slot : Nat) (v : α) : Nat → α := fun k => if k = slot then v else ring k

theorem pending_length (ring : Nat → α) (i j : UInt16) :
    (pending size ring i j).length = (j - i).toNat := by
  unfold pending
  rw [List.length_map, List.length_range]

theorem toNat_sub_pos {i j : UInt16} (h : i ≠ j) : (j - i).toNat = (j - (i + 1)).toNat + 1 := by
  have hi := i.toNat_lt
  have hj := j.toNat_lt
  have hne : i.toNat ≠ j.toNat := fun e => h (UInt16.toNat_inj.mp e)
  simp only [UInt16.toNat_sub, UInt16.toNat_add, UInt16.toNat_one]
  omega

theorem pending_pop (ring : Nat → α) {i j : UInt16} (h : i ≠ j) :
    pending size ring i j = ring (i.toNat % size) :: pending size ring (i + 1) j := by
  unfold pending
  rw [toNat_sub_pos h, List.range_succ_eq_map, List.map_cons, List.map_map]
  refine congrArg₂ _ (by simp) (List.map_congr_left fun k _ => ?_)
  have hk : i + UInt16.ofNat (k + 1) = i + 1 + UInt16.ofNat k := by
    rw [UInt16.ofNat_add, UInt16.add_comm (UInt16.ofNat k), ← UInt16.add_assoc]
    rfl
  exact congrArg (fun t : UInt16 => ring (t.toNat % size)) hk

/-- The slot of an index, whatever the wrap. -/
theorem slot_add (hd : size ∣ 2 ^ 16) (i : UInt16) (k : Nat) :
    (i + UInt16.ofNat k).toNat % size = (i.toNat + k) % size := by
  rw [UInt16.toNat_add, UInt16.toNat_ofNat', Nat.add_mod_mod, Nat.mod_mod_of_dvd _ hd]

theorem slot_ne {a k n : Nat} (hk : k < n) (hn : n < size) : (a + k) % size ≠ (a + n) % size := by
  intro h
  have hmod : k % size = n % size := Nat.ModEq.add_left_cancel' a h
  rw [Nat.mod_eq_of_lt (by omega), Nat.mod_eq_of_lt hn] at hmod
  omega

theorem pending_push (hd : size ∣ 2 ^ 16) (hs : size < 2 ^ 16) (ring : Nat → α) {i j : UInt16}
    (h : (pending size ring i j).length < size) (v : α) :
    pending size (put ring (j.toNat % size) v) i (j + 1) = pending size ring i j ++ [v] := by
  rw [pending_length] at h
  have hj : j = i + UInt16.ofNat (j - i).toNat := by
    rw [UInt16.ofNat_toNat, UInt16.add_comm, UInt16.sub_add_cancel]
  have hslot : j.toNat % size = (i.toNat + (j - i).toNat) % size := by
    rw [← slot_add hd, ← hj]
  have hlen : (j + 1 - i).toNat = (j - i).toNat + 1 := by
    simp only [UInt16.toNat_sub, UInt16.toNat_add, UInt16.toNat_one] at *
    omega
  unfold pending
  rw [hlen, List.range_succ, List.map_append, List.map_singleton]
  refine congrArg₂ _ (List.map_congr_left fun k hk => ?_) ?_
  · -- an entry that was pending is in another slot
    have hne := @slot_ne size i.toNat k _ (List.mem_range.mp hk) h
    rw [slot_add hd, put, if_neg (hslot ▸ hne)]
  · rw [← hj, put, if_pos rfl]

end HackersOs.Core.IndexRing

import Mathlib.Data.List.FinRange
import Mathlib.Logic.Function.Basic

/-!
# Tables of slots as bounded maps

`n` slots, each empty or with a key and a value. While no key stands in two slots
the table is a partial map with at most `n` keys (`get`, `length_keys_le`). Writing
one slot changes this map at the new key and at the key the slot had
(`get_update`); it may stand in no other slot.
-/
namespace HackersOs.Core

abbrev SlotTable (K V : Type) (n : Nat) : Type := Fin n → Option (K × V)

namespace SlotTable

variable {K V : Type} {n : Nat} {t : SlotTable K V n} {k k' : K} {v w : V} {i j : Fin n}

/-- No key stands in two slots. -/
def Unique (t : SlotTable K V n) : Prop := ∀ i j k v w, t i = some (k, v) → t j = some (k, w) → i = j

theorem Unique.update (h : t.Unique) (hk : ∀ j, j ≠ i → ∀ w, t j ≠ some (k, w)) :
    Unique (Function.update t i (some (k, v))) := by
  intro a b c x y ha hb
  rw [Function.update_apply] at ha hb
  split at ha <;> split at hb
  · rename_i hai hbi
    rw [hai, hbi]
  · rename_i hbi
    cases ha
    exact absurd hb (hk b hbi y)
  · rename_i hai _
    cases hb
    exact absurd ha (hk a hai x)
  · exact h a b c x y ha hb

variable [DecidableEq K]

/-- The value of the first slot with the key. -/
def get (t : SlotTable K V n) (k : K) : Option V :=
  (List.finRange n).findSome? fun i => (t i).bind fun e => if e.1 = k then some e.2 else none

theorem slot_eq_some : ((t i).bind fun e => if e.1 = k then some e.2 else none) = some v ↔
    t i = some (k, v) := by
  cases t i with
  | none => simp
  | some e =>
    rw [Option.bind_some, Option.ite_none_right_eq_some, Option.some.injEq, Option.some.injEq,
      Prod.ext_iff]

theorem get_eq_some (h : t.Unique) : t.get k = some v ↔ ∃ i, t i = some (k, v) := by
  constructor
  · intro hget
    obtain ⟨i, -, hi⟩ := List.exists_of_findSome?_eq_some hget
    exact ⟨i, slot_eq_some.mp hi⟩
  · rintro ⟨i, hi⟩
    have hsome : (t.get k).isSome := by
      rw [get, List.findSome?_isSome_iff]
      exact ⟨i, List.mem_finRange i, by rw [slot_eq_some.mpr hi]; rfl⟩
    obtain ⟨w, hw⟩ := Option.isSome_iff_exists.mp hsome
    obtain ⟨j, -, hj⟩ := List.exists_of_findSome?_eq_some hw
    have hj := slot_eq_some.mp hj
    obtain rfl := h i j k v w hi hj
    obtain rfl : v = w := congrArg Prod.snd (Option.some.inj (hi.symm.trans hj))
    exact hw

theorem get_eq_none (h : t.Unique) : t.get k = none ↔ ∀ i v, t i ≠ some (k, v) := by
  rw [Option.eq_none_iff_forall_ne_some]
  constructor
  · intro hnone i v hi
    exact hnone v ((get_eq_some h).mpr ⟨i, hi⟩)
  · intro hnone v hv
    obtain ⟨i, hi⟩ := (get_eq_some h).mp hv
    exact hnone i v hi

/-- Writing a slot sets the new key and drops the one the slot had. -/
theorem get_update (h : t.Unique) (hk : ∀ j, j ≠ i → ∀ w, t j ≠ some (k, w)) :
    get (Function.update t i (some (k, v))) k' =
      if k' = k then some v else if (t i).map Prod.fst = some k' then none else t.get k' := by
  have h' := h.update (v := v) hk
  split
  · rename_i heq
    rw [heq, get_eq_some h']
    exact ⟨i, Function.update_self ..⟩
  · rename_i hne
    split
    · rename_i hold
      obtain ⟨⟨_, w⟩, hi, rfl⟩ := Option.map_eq_some_iff.mp hold
      rw [get_eq_none h']
      intro j x hj
      by_cases hji : j = i
      · subst hji
        rw [Function.update_self] at hj
        exact hne (congrArg Prod.fst (Option.some.inj hj)).symm
      · rw [Function.update_of_ne hji] at hj
        exact hji (h j i _ x w hj hi)
    · rename_i hold
      ext x
      rw [get_eq_some h', get_eq_some h]
      constructor
      · rintro ⟨j, hj⟩
        by_cases hji : j = i
        · subst hji
          rw [Function.update_self] at hj
          exact absurd (congrArg Prod.fst (Option.some.inj hj)).symm hne
        · rw [Function.update_of_ne hji] at hj
          exact ⟨j, hj⟩
      · rintro ⟨j, hj⟩
        have hji : j ≠ i := by
          rintro rfl
          exact hold (by rw [hj]; rfl)
        exact ⟨j, by rw [Function.update_of_ne hji, hj]⟩

/-- There are at most `n` keys. -/
theorem length_keys_le (h : t.Unique) {ks : List K} (hks : ks.Nodup)
    (hget : ∀ k ∈ ks, (t.get k).isSome) : ks.length ≤ n := by
  -- the keys in the order of their slots
  have hsub : ks ⊆ (List.finRange n).filterMap fun i => (t i).map Prod.fst := by
    intro k hk
    obtain ⟨v, hv⟩ := Option.isSome_iff_exists.mp (hget k hk)
    obtain ⟨i, hi⟩ := (get_eq_some h).mp hv
    rw [List.mem_filterMap]
    exact ⟨i, List.mem_finRange i, by rw [hi]; rfl⟩
  calc ks.length ≤ _ := (List.subperm_of_subset hks hsub).length_le
    _ ≤ (List.finRange n).length := List.length_filterMap_le _ _
    _ = n := List.length_finRange

end SlotTable

end HackersOs.Core

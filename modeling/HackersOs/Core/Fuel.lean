import Mathlib.Tactic.Common

/-!
# Loops with fuel

A loop that need not end is a function of its fuel with `none` for "ran out".
`Persists`: more fuel does not change a result. It passes through sequencing,
so a program made of such loops has one result, whatever the fuel
(`Persists.agree`). `Returns`: some fuel is enough; in a sequence every part
has to return (`Persists.returns_bind_iff`).
-/
namespace HackersOs.Core

def Persists {α : Type} (f : Nat → Option α) : Prop := ∀ n r, f n = some r → f (n + 1) = some r

namespace Persists

variable {α β : Type} {f : Nat → Option α}

theorem const (o : Option α) : Persists fun _ => o := fun _ _ h => h

theorem bind {k : α → Nat → Option β} (hf : Persists f) (hk : ∀ a, Persists (k a)) :
    Persists fun n => (f n).bind fun a => k a n := by
  intro n r h
  obtain ⟨a, ha, hka⟩ := Option.bind_eq_some_iff.mp h
  exact Option.bind_eq_some_iff.mpr ⟨a, hf n a ha, hk a n r hka⟩

theorem map (hf : Persists f) (g : α → β) : Persists fun n => (f n).map g := by
  intro n r h
  obtain ⟨a, ha, hr⟩ := Option.map_eq_some_iff.mp h
  exact Option.map_eq_some_iff.mpr ⟨a, hf n a ha, hr⟩

theorem le (hf : Persists f) {n m : Nat} {r : α} (hle : n ≤ m) (h : f n = some r) : f m = some r := by
  induction hle with
  | refl => exact h
  | step _ ih => exact hf _ r ih

theorem agree (hf : Persists f) {n m : Nat} {r r' : α} (h : f n = some r) (h' : f m = some r') :
    r = r' := by
  have h₁ := hf.le (Nat.le_max_left n m) h
  have h₂ := hf.le (Nat.le_max_right n m) h'
  exact Option.some.inj (h₁.symm.trans h₂)

end Persists

/-- Some fuel is enough. -/
def Returns {α : Type} (f : Nat → Option α) : Prop := ∃ n r, f n = some r

section
variable {α β : Type} {f : Nat → Option α}

theorem returns_const (a : α) : Returns fun _ => some a := ⟨0, a, rfl⟩

theorem not_returns_iff : ¬ Returns f ↔ ∀ n, f n = none := by
  simp only [Returns, not_exists]
  exact forall_congr' fun n => Option.eq_none_iff_forall_ne_some.symm

theorem returns_map_iff (g : α → β) : (Returns fun n => (f n).map g) ↔ Returns f := by
  constructor
  · intro ⟨n, r, h⟩
    obtain ⟨a, ha, -⟩ := Option.map_eq_some_iff.mp h
    exact ⟨n, a, ha⟩
  · intro ⟨n, a, ha⟩
    exact ⟨n, g a, Option.map_eq_some_iff.mpr ⟨a, ha, rfl⟩⟩

theorem Persists.returns_bind_iff {k : α → Nat → Option β} (hf : Persists f)
    (hk : ∀ a, Persists (k a)) : (Returns fun n => (f n).bind fun a => k a n) ↔
      Returns f ∧ ∀ n a, f n = some a → Returns (k a) := by
  constructor
  · intro ⟨n, r, h⟩
    obtain ⟨a, ha, hr⟩ := Option.bind_eq_some_iff.mp h
    refine ⟨⟨n, a, ha⟩, fun n' a' ha' => ?_⟩
    rw [hf.agree ha' ha]
    exact ⟨n, r, hr⟩
  · intro ⟨⟨n, a, ha⟩, hnext⟩
    obtain ⟨m, r, hr⟩ := hnext n a ha
    refine ⟨max n m, r, Option.bind_eq_some_iff.mpr ⟨a, ?_, ?_⟩⟩
    · exact hf.le (Nat.le_max_left n m) ha
    · exact (hk a).le (Nat.le_max_right n m) hr

end

end HackersOs.Core

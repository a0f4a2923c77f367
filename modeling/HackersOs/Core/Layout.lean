import Mathlib.Data.List.Basic

/-!
# Fields laid out in a buffer

A buffer is a function from offsets to cells. `Holds f off l` says that it has
the list `l` from `off` on. A record is written as the concatenation of its
fields; `holds_append` and `holds_cons` take a buffer that holds it apart into
what it holds at each field's offset.
-/
namespace HackersOs.Core

variable {α : Type} {f : Nat → α} {off : Nat} {l l' : List α} {x : α}

def Holds (f : Nat → α) (off : Nat) (l : List α) : Prop :=
  ∀ i (h : i < l.length), f (off + i) = l[i]

@[simp] theorem holds_nil : Holds f off [] := fun _ h => absurd h (Nat.not_lt_zero _)

@[simp] theorem holds_cons : Holds f off (x :: l) ↔ f off = x ∧ Holds f (off + 1) l := by
  constructor
  · intro h
    refine ⟨h 0 (by simp), fun i hi => ?_⟩
    rw [Nat.add_assoc, Nat.add_comm 1]
    exact h (i + 1) (by simpa using hi)
  · rintro ⟨h0, h⟩ i hi
    cases i with
    | zero => exact h0
    | succ i =>
      have hlt : i < l.length := by simpa using hi
      have hi' : f (off + 1 + i) = l[i] := h i hlt
      rwa [Nat.add_assoc, Nat.add_comm 1] at hi'

/-- A list as a buffer. -/
theorem holds_getD (l : List α) (d : α) : Holds (fun i => l.getD i d) 0 l := by
  intro i hi
  dsimp only
  rw [Nat.zero_add, List.getD_eq_getElem?_getD, List.getElem?_eq_getElem hi, Option.getD_some]

theorem holds_append : Holds f off (l ++ l') ↔ Holds f off l ∧ Holds f (off + l.length) l' := by
  induction l generalizing off with
  | nil => simp
  | cons x l ih =>
    rw [List.cons_append, holds_cons, ih, holds_cons, and_assoc, List.length_cons,
      Nat.add_assoc, Nat.add_comm 1]

end HackersOs.Core

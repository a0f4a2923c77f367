import Mathlib.Control.Monad.Writer
import Mathlib.Tactic.Common

/-!
# Programs that leave a trace

A computation in the writer monad over `List A` returns a value and the list
of the events it caused (memory accesses, say). `Every P m` says that all of
them satisfy `P`. It is compositional: `every_bind` splits a sequence at the
value the first part returns, so a bounds proof of a straight-line program is
one goal per access.
-/
namespace HackersOs.Core

abbrev Traced (A α : Type) : Type := Writer (List A) α

namespace Traced

variable {A α β : Type} {P : A → Prop}

def value (m : Traced A α) : α := (WriterT.run m : α × List A).1

def trace (m : Traced A α) : List A := (WriterT.run m : α × List A).2

/-- The computation causes one event. -/
def event (a : A) : Traced A Unit := tell [a]

/-- The computation causes the events of a list. -/
def events (l : List A) : Traced A Unit := tell l

def Every (P : A → Prop) (m : Traced A α) : Prop := ∀ a ∈ m.trace, P a

@[simp] theorem value_pure (x : α) : value (pure x : Traced A α) = x := rfl

@[simp] theorem value_bind (m : Traced A α) (f : α → Traced A β) :
    value (m >>= f) = value (f m.value) := rfl

@[simp] theorem trace_bind (m : Traced A α) (f : α → Traced A β) :
    trace (m >>= f) = m.trace ++ (f m.value).trace := rfl

@[simp] theorem trace_pure (x : α) : trace (pure x : Traced A α) = [] := rfl

@[simp] theorem trace_event (a : A) : trace (event a) = [a] := rfl

theorem Every.imp {Q : A → Prop} {m : Traced A α} (h : Every P m) (hPQ : ∀ a, P a → Q a) :
    Every Q m :=
  fun a ha => hPQ a (h a ha)

@[simp] theorem every_pure (x : α) : Every P (pure x : Traced A α) := fun _ h => by cases h

@[simp] theorem every_event (a : A) : Every P (event a) ↔ P a := by
  change (∀ x ∈ [a], P x) ↔ P a
  simp

@[simp] theorem every_events (l : List A) : Every P (events l) ↔ ∀ a ∈ l, P a := Iff.rfl

@[simp] theorem every_bind (m : Traced A α) (f : α → Traced A β) :
    Every P (m >>= f) ↔ Every P m ∧ Every P (f m.value) := by
  simp only [Every, trace_bind, List.mem_append, or_imp, forall_and]

theorem every_ite {c : Prop} [Decidable c] {m m' : Traced A α} :
    Every P (if c then m else m') ↔ (c → Every P m) ∧ (¬ c → Every P m') := by
  split
  all_goals
    rename_i h
    simp [h]

end Traced

end HackersOs.Core

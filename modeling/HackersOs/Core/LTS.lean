import Mathlib.Logic.Relation
import Mathlib.Tactic.Common

/-!
# Labelled transition systems and inductive invariants

A system is a set of initial states and a labelled step relation. `Run` is a
finite path with its list of labels, `Reachable` the states at the end of a
run from an initial state. `Inductive I` packages "`I` holds initially and
every step keeps it"; `Inductive.reachable` is the one induction over runs
that every safety result of the development goes through. Where the steps are
given by a function, `runIf` evaluates a list of labels.
-/
namespace HackersOs.Core

universe u v

structure LTS (S : Type u) (L : Type v) where
  init : S → Prop
  step : S → L → S → Prop

namespace LTS

variable {S : Type u} {L : Type v} (T : LTS S L)

inductive Run : S → List L → S → Prop where
  | nil (s : S) : Run s [] s
  | cons {s s' s'' : S} {l : L} {ls : List L} :
      T.step s l s' → Run s' ls s'' → Run s (l :: ls) s''

def Reachable (s : S) : Prop := ∃ s₀ ls, T.init s₀ ∧ T.Run s₀ ls s

structure Inductive (I : S → Prop) : Prop where
  init : ∀ s, T.init s → I s
  step : ∀ s l s', I s → T.step s l s' → I s'

variable {T}

theorem Run.invariant {I : S → Prop} (hstep : ∀ s l s', I s → T.step s l s' → I s')
    {s s' : S} {ls : List L} (h : T.Run s ls s') (hs : I s) : I s' := by
  induction h with
  | nil => exact hs
  | cons hst _ ih => exact ih (hstep _ _ _ hs hst)

theorem Inductive.reachable {I : S → Prop} (h : T.Inductive I) (s : S) (hr : T.Reachable s) :
    I s := by
  obtain ⟨s₀, ls, h₀, hrun⟩ := hr
  exact hrun.invariant h.step (h.init s₀ h₀)

theorem Run.append {s s' s'' : S} {ls ks : List L} (h : T.Run s ls s') (h' : T.Run s' ks s'') :
    T.Run s (ls ++ ks) s'' := by
  induction h with
  | nil => exact h'
  | cons hst _ ih => exact .cons hst (ih h')

theorem Reachable.step {s s' : S} {l : L} (hr : T.Reachable s) (h : T.step s l s') :
    T.Reachable s' := by
  obtain ⟨s₀, ls, h₀, hrun⟩ := hr
  exact ⟨s₀, ls ++ [l], h₀, hrun.append (.cons h (.nil _))⟩

/-- A list of labels, each of which is possible in every state. -/
theorem Reachable.foldl {f : S → L → S} (hf : ∀ s l, T.step s l (f s l)) {s : S}
    (hr : T.Reachable s) (ls : List L) : T.Reachable (ls.foldl f s) := by
  induction ls generalizing s with
  | nil => exact hr
  | cons l ls ih => exact ih (hr.step (hf s l))

/-- The run of a list of labels by a step function, if each is possible and meets
`G`. -/
def runIf (step : S → L → Option S) (G : S → L → Prop) [∀ s l, Decidable (G s l)] :
    S → List L → Option S
  | s, [] => some s
  | s, l :: ls => if G s l then (step s l).bind fun s' => runIf step G s' ls else none

theorem Reachable.runIf {step : S → L → Option S} {G : S → L → Prop} [∀ s l, Decidable (G s l)]
    (hT : ∀ s l s', G s l → step s l = some s' → T.step s l s') {s s' : S} {ls : List L}
    (hr : T.Reachable s) (h : LTS.runIf step G s ls = some s') : T.Reachable s' := by
  induction ls generalizing s with
  | nil => exact Option.some.inj h ▸ hr
  | cons l ls ih =>
    obtain ⟨hl, hs⟩ := Option.ite_none_right_eq_some.mp h
    obtain ⟨s₁, hs₁, hrest⟩ := Option.bind_eq_some_iff.mp hs
    exact ih (hr.step (hT s l s₁ hl hs₁)) hrest

end LTS

end HackersOs.Core

import Mathlib.Computability.StateTransition
import Mathlib.Data.Finset.Card
import Mathlib.Data.Finset.Insert
import Mathlib.Data.List.Chain
import Mathlib.Tactic.Common
import HackersOs.Core.Fuel

/-!
# Walks of a partial function

A loop that goes from a state to the next one until there is none is a partial
function `f` (`StateTransition.Reaches` is Mathlib's). Over finitely many states
its walk from `a` is a lasso: a list of distinct states (`exists_lasso`) that
ends, or that comes back into itself. So it ends exactly when it reaches no
cycle (`ends_iff_no_cycle`). A loop with fuel that follows such a walk returns
exactly when the walk ends (`Runs.returns_iff`).
-/
namespace HackersOs.Core.Orbit
open StateTransition Relation

universe u v

variable {α : Type u} {f : α → Option α} {a b : α} {l : List α}

/-- The walk from `a` comes to a state without a next one. -/
def Ends (f : α → Option α) (a : α) : Prop := ∃ b, Reaches f a b ∧ f b = none

/-- A state that the walk from `a` comes back to. -/
def Cycles (f : α → Option α) (a : α) : Prop := ∃ x, Reaches f a x ∧ Reaches₁ f x x

theorem ends_of_none (h : f a = none) : Ends f a := ⟨a, .refl, h⟩

theorem ends_step (h : f a = some b) : Ends f a ↔ Ends f b := by
  constructor
  · intro ⟨z, hz, hnone⟩
    rcases ReflTransGen.cases_head hz with rfl | ⟨c, hc, hcz⟩
    · rw [h] at hnone
      cases hnone
    · cases Option.mem_unique hc h
      exact ⟨z, hcz, hnone⟩
  · intro ⟨z, hz, hnone⟩
    exact ⟨z, .head h hz, hnone⟩

/-! ## Lassos -/

/-- The distinct states of a walk, up to its end or to the first one it repeats. -/
structure Lasso (f : α → Option α) (a : α) (l : List α) : Prop where
  head : l.head? = some a
  chain : l.IsChain fun x y => f x = some y
  nodup : l.Nodup
  closed : ∀ z ∈ l.getLast?, ∀ y, f z = some y → y ∈ l

/-- What stands in a walk can be reached. -/
theorem reaches_of_chain (hl : (a :: l).IsChain fun x y => f x = some y) :
    ∀ x ∈ a :: l, Reaches f a x := by
  induction l generalizing a with
  | nil =>
    intro x hx
    cases List.mem_singleton.mp hx
    exact .refl
  | cons b l ih =>
    obtain ⟨hab, hb⟩ := List.isChain_cons_cons.mp hl
    intro x hx
    rcases List.mem_cons.mp hx with rfl | hx
    · exact .refl
    · exact .head hab (ih hb x hx)

theorem chain_eq_cons (hhead : l.head? = some a) : ∃ tl, l = a :: tl := by
  cases l with
  | nil => cases hhead
  | cons x tl =>
    cases hhead
    exact ⟨tl, rfl⟩

/-- A walk through a finite set can be extended only so often. -/
theorem exists_lasso_of_chain [DecidableEq α] (S : Finset α) (hS : ∀ x, Reaches f a x → x ∈ S)
    {k : Nat}
    (hhead : l.head? = some a) (hchain : l.IsChain fun x y => f x = some y) (hnd : l.Nodup)
    (hk : S.card ≤ l.length + k) : ∃ l', Lasso f a l' := by
  induction k generalizing l with
  | zero =>
    refine ⟨l, hhead, hchain, hnd, fun z hz y hy => ?_⟩
    obtain ⟨tl, rfl⟩ := chain_eq_cons hhead
    have hreach := reaches_of_chain hchain
    -- the list has all of `S`
    have hsub : (a :: tl).toFinset ⊆ S := fun x hx => hS x (hreach x (List.mem_toFinset.mp hx))
    have hall : (a :: tl).toFinset = S := by
      refine Finset.eq_of_subset_of_card_le hsub ?_
      rwa [List.toFinset_card_of_nodup hnd]
    have hyS : y ∈ S := hS y ((hreach z (List.mem_of_mem_getLast? hz)).tail hy)
    rw [← hall] at hyS
    exact List.mem_toFinset.mp hyS
  | succ k ih =>
    by_cases hclosed : ∀ z ∈ l.getLast?, ∀ y, f z = some y → y ∈ l
    · exact ⟨l, hhead, hchain, hnd, hclosed⟩
    simp only [not_forall] at hclosed
    obtain ⟨z, hz, y, hy, hnew⟩ := hclosed
    refine ih (l := l ++ [y]) ?_ ?_ ?_ ?_
    · rw [List.head?_append, hhead]
      rfl
    · refine List.isChain_append.mpr ⟨hchain, List.isChain_singleton y, fun x hx w hw => ?_⟩
      cases Option.mem_unique hx hz
      cases hw
      exact hy
    · refine List.nodup_append.mpr ⟨hnd, List.nodup_cons.mpr ⟨List.not_mem_nil, List.nodup_nil⟩, ?_⟩
      intro x hx w hw e
      cases List.mem_singleton.mp hw
      exact hnew (e ▸ hx)
    · rw [List.length_append, List.length_singleton]
      omega

theorem exists_lasso [DecidableEq α] (S : Finset α) (hS : ∀ x, Reaches f a x → x ∈ S) :
    ∃ l, Lasso f a l :=
  exists_lasso_of_chain S hS (l := [a]) (k := S.card) rfl (List.isChain_singleton a)
    (List.nodup_cons.mpr ⟨List.not_mem_nil, List.nodup_nil⟩) (by omega)

/-- The states of a lasso are those the walk reaches. -/
theorem Lasso.mem_iff (h : Lasso f a l) {x : α} : x ∈ l ↔ Reaches f a x := by
  obtain ⟨tl, rfl⟩ := chain_eq_cons h.head
  constructor
  · exact reaches_of_chain h.chain x
  intro hx
  induction hx with
  | refl => exact List.mem_cons_self
  | @tail y z _ hyz ih =>
    obtain ⟨pre, post, e⟩ := List.append_of_mem ih
    have hchain := h.chain
    have hclosed := h.closed
    rw [e] at hchain hclosed ⊢
    cases post with
    | nil => exact hclosed y (by simp) z hyz
    | cons w post =>
      -- inside the list the next state is the next element
      have hyw := (List.isChain_cons_cons.mp (List.isChain_append.mp hchain).2.1).1
      cases Option.mem_unique hyz hyw
      simp

/-! ## Ends and cycles -/

/-- On a cycle every state leads back to where one started. -/
theorem reaches₁_back {x y : α} (hx : Reaches₁ f x x) (hy : Reaches f x y) : Reaches₁ f y x := by
  induction hy with
  | refl => exact hx
  | tail _ hstep ih =>
    rcases reflTransGen_iff_eq_or_transGen.mp (reaches₁_fwd ih hstep) with rfl | h
    · exact hx
    · exact h

theorem Ends.not_cycles (h : Ends f a) : ¬ Cycles f a := by
  intro ⟨x, hax, hxx⟩
  obtain ⟨z, haz, hz⟩ := h
  have hzx : Reaches₁ f z x := by
    rcases reaches_total haz hax with hzx | hxz
    · rcases reflTransGen_iff_eq_or_transGen.mp hzx with rfl | h
      · exact hxx
      · exact h
    · exact reaches₁_back hxx hxz
  obtain ⟨w, hw, -⟩ := TransGen.head'_iff.mp hzx
  rw [Option.mem_def, hz] at hw
  cases hw

/-- A walk over finitely many states ends unless it comes to a cycle. -/
theorem ends_iff_no_cycle [DecidableEq α] (S : Finset α) (hS : ∀ x, Reaches f a x → x ∈ S) :
    Ends f a ↔ ¬ Cycles f a := by
  refine ⟨Ends.not_cycles, fun hno => ?_⟩
  obtain ⟨l, hl⟩ := exists_lasso S hS
  obtain ⟨tl, rfl⟩ := chain_eq_cons hl.head
  obtain ⟨z, hz⟩ : ∃ z, z ∈ (a :: tl).getLast? := ⟨_, List.getLast?_eq_some_getLast (by simp)⟩
  have hreach := reaches_of_chain hl.chain
  cases hfz : f z with
  | none => exact ⟨z, hreach z (List.mem_of_mem_getLast? hz), hfz⟩
  | some y =>
    have hy := hl.closed z hz y hfz
    refine absurd ⟨y, hreach y hy, ?_⟩ hno
    obtain ⟨pre, post, e⟩ := List.append_of_mem hy
    have hchain := hl.chain
    rw [e] at hchain hz
    have hlast : z ∈ (y :: post).getLast? := by
      rwa [List.getLast?_append_of_ne_nil _ (by simp)] at hz
    have hyz := reaches_of_chain (List.isChain_append.mp hchain).2.1 z
      (List.mem_of_mem_getLast? hlast)
    exact TransGen.tail' hyz hfz

/-! ## Loops with fuel -/

/-- The loop `F`, in states that stand for those of the walk, makes one step of the
walk with each unit of fuel and returns where the walk ends. -/
structure Runs {σ : Type v} {β : Type} (f : α → Option α) (R : σ → α → Prop)
    (F : Nat → σ → Option β) : Prop where
  zero : ∀ s, F 0 s = none
  stop : ∀ {s a}, R s a → f a = none → ∀ n, (F (n + 1) s).isSome = true
  step : ∀ {s a b}, R s a → f a = some b → ∃ s', R s' b ∧ ∀ n, (F (n + 1) s).isSome = (F n s').isSome

section
variable {σ : Type v} {β : Type} {R : σ → α → Prop} {F : Nat → σ → Option β} {s : σ}

theorem Runs.ends (h : Runs f R F) (hs : R s a) {n : Nat} (hn : (F n s).isSome = true) :
    Ends f a := by
  induction n generalizing s a with
  | zero =>
    rw [h.zero] at hn
    cases hn
  | succ n ih =>
    cases hf : f a with
    | none => exact ends_of_none hf
    | some b =>
      obtain ⟨s', hs', heq⟩ := h.step hs hf
      rw [heq] at hn
      exact (ends_step hf).mpr (ih hs' hn)

theorem Runs.returns (h : Runs f R F) (hs : R s a) (hends : Ends f a) :
    ∃ n, (F n s).isSome = true := by
  obtain ⟨z, hreach, hz⟩ := hends
  induction hreach using ReflTransGen.head_induction_on generalizing s with
  | refl => exact ⟨1, h.stop hs hz 0⟩
  | head hstep _ ih =>
    obtain ⟨s', hs', heq⟩ := h.step hs hstep
    obtain ⟨n, hn⟩ := ih hs'
    exact ⟨n + 1, (heq n).trans hn⟩

theorem Runs.returns_iff (h : Runs f R F) (hs : R s a) : (Returns fun n => F n s) ↔ Ends f a := by
  constructor
  · intro ⟨n, r, hr⟩
    exact h.ends hs (Option.isSome_iff_exists.mpr ⟨r, hr⟩)
  · intro hends
    obtain ⟨n, hn⟩ := h.returns hs hends
    obtain ⟨r, hr⟩ := Option.isSome_iff_exists.mp hn
    exact ⟨n, r, hr⟩

end

end HackersOs.Core.Orbit

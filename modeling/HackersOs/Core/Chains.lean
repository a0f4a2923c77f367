import Mathlib.Data.List.Nodup
import Mathlib.Data.List.Basic
import Mathlib.Tactic.Common

/-!
# Chains in a successor table

A table maps each node to its successor; some values are nodes (`ok`), some
are end marks (`fin`), none is both. `Chain next ok fin c l` says that the
walk from `c` visits exactly the nodes of `l`, in order, and then finds an end
mark. The derivation is finite, so a chain has no cycle (`nodup`).

A chain only depends on its own entries (`congr`); writing a new last node
behind the old one extends every chain that ends there (`extend`).
-/
namespace HackersOs.Core

inductive Chain {α : Type} (next : α → α) (ok fin : α → Prop) : α → List α → Prop where
  | last {c : α} : ok c → fin (next c) → Chain next ok fin c [c]
  | link {c : α} {l : List α} : ok c → Chain next ok fin (next c) l → Chain next ok fin c (c :: l)

namespace Chain

variable {α : Type} {next next' : α → α} {ok fin : α → Prop} {c x y : α} {l l' : List α}

theorem head_mem (h : Chain next ok fin c l) : c ∈ l := by
  cases h <;> simp

theorem head_ok (h : Chain next ok fin c l) : ok c := by
  cases h <;> assumption

theorem mem_ok (h : Chain next ok fin c l) (hx : x ∈ l) : ok x := by
  induction h with
  | last hc _ => rwa [List.mem_singleton.mp hx]
  | link hc _ ih =>
    rcases List.mem_cons.mp hx with rfl | hx
    · exact hc
    · exact ih hx

/-- Behind a node of the chain is an end mark or another node. -/
theorem mem_next (h : Chain next ok fin c l) (hx : x ∈ l) : fin (next x) ∨ ok (next x) := by
  induction h with
  | last _ hfin => exact .inl (List.mem_singleton.mp hx ▸ hfin)
  | link _ htail ih =>
    rcases List.mem_cons.mp hx with rfl | hx
    · exact .inr htail.head_ok
    · exact ih hx

/-- The walk from a node of the chain stays in it. -/
theorem from_mem (h : Chain next ok fin c l) (hx : x ∈ l) :
    ∃ l₂, Chain next ok fin x l₂ ∧ l₂ <:+ l := by
  induction h with
  | last hc hfin =>
    obtain rfl := List.mem_singleton.mp hx
    exact ⟨_, .last hc hfin, List.suffix_refl _⟩
  | @link c l hc htail ih =>
    rcases List.mem_cons.mp hx with rfl | hx
    · exact ⟨_, .link hc htail, List.suffix_refl _⟩
    · obtain ⟨l₂, hl₂, hsuf⟩ := ih hx
      exact ⟨l₂, hl₂, hsuf.trans (List.suffix_cons c l)⟩

theorem head_eq (h : Chain next ok fin c (x :: l)) : c = x := by
  cases h <;> rfl

/-- A chain with more nodes behind the first. -/
theorem of_cons {p q : List α} (h : Chain next ok fin c (y :: (p ++ x :: q))) :
    c = y ∧ ok y ∧ Chain next ok fin (next y) (p ++ x :: q) := by
  generalize hl : p ++ x :: q = l at h ⊢
  cases h with
  | last => simp at hl
  | link hc htail => exact ⟨rfl, hc, htail⟩

/-- The rest of a chain is a chain. -/
theorem drop {p q : List α} (h : Chain next ok fin c (p ++ x :: q)) :
    Chain next ok fin x (x :: q) := by
  induction p generalizing c with
  | nil =>
    obtain rfl : c = x := h.head_eq
    exact h
  | cons y p ih =>
    obtain ⟨-, -, htail⟩ := h.of_cons
    exact ih htail

theorem congr (h : Chain next ok fin c l) (hn : ∀ x ∈ l, next' x = next x) :
    Chain next' ok fin c l := by
  induction h with
  | @last c hc hfin => exact .last hc (by rwa [hn c List.mem_cons_self])
  | @link c l hc _ ih =>
    refine .link hc ?_
    rw [hn c List.mem_cons_self]
    exact ih fun x hx => hn x (List.mem_cons_of_mem _ hx)

/-- The first nodes of a chain. -/
theorem front {p q : List α} (h : Chain next ok fin c (p ++ y :: q)) :
    Chain next ok (fun _ => True) c (p ++ [y]) := by
  induction p generalizing c with
  | nil =>
    obtain rfl : c = y := h.head_eq
    exact .last h.head_ok trivial
  | cons z p ih =>
    obtain ⟨rfl, hc, htail⟩ := h.of_cons
    exact .link hc (ih htail)

/-- Only the entries in front of the last node matter, and what counts as an end. -/
theorem congr_front {fin' : α → Prop} {p : List α} (h : Chain next ok fin c (p ++ [y]))
    (hn : ∀ x ∈ p, next' x = next x) (hfin : fin' (next' y)) : Chain next' ok fin' c (p ++ [y]) := by
  induction p generalizing c with
  | nil =>
    obtain rfl : c = y := h.head_eq
    exact .last h.head_ok hfin
  | cons z p ih =>
    obtain ⟨rfl, hc, htail⟩ := h.of_cons
    refine .link hc ?_
    rw [hn c List.mem_cons_self]
    exact ih htail fun x hx => hn x (List.mem_cons_of_mem c hx)

/-- Behind a node that is not the last comes a node. -/
theorem front_next {p : List α} (h : Chain next ok fin c (p ++ [y])) (hx : x ∈ p) : ok (next x) := by
  obtain ⟨p₁, p₂, rfl⟩ := List.append_of_mem hx
  rw [List.append_assoc, List.cons_append] at h
  obtain ⟨-, -, htail⟩ := h.drop.of_cons
  exact htail.head_ok

/-- A new last node behind the old one. -/
theorem snoc {fin' : α → Prop} {p : List α} (h : Chain next ok fin c (p ++ [x]))
    (hn : ∀ z ∈ p, next' z = next z) (hx : next' x = y) (hy : ok y) (hfin : fin' (next' y)) :
    Chain next' ok fin' c (p ++ [x] ++ [y]) := by
  induction p generalizing c with
  | nil =>
    obtain rfl : c = x := h.head_eq
    refine .link h.head_ok ?_
    rw [hx]
    exact .last hy hfin
  | cons z p ih =>
    obtain ⟨rfl, hc, htail⟩ := h.of_cons
    refine .link hc ?_
    rw [hn c List.mem_cons_self]
    exact ih htail fun w hw => hn w (List.mem_cons_of_mem c hw)

/-- A chain that starts like another one goes on from there. -/
theorem of_front {fin' : α → Prop} {p : List α} (hp : Chain next ok fin' c (p ++ [y]))
    (h : Chain next ok fin c l) (hsep : ∀ x, ok x → ¬ fin x) :
    ∃ q, l = p ++ y :: q ∧ Chain next ok fin y (y :: q) := by
  induction p generalizing c l with
  | nil =>
    obtain rfl : c = y := hp.head_eq
    cases h with
    | last hc hfin => exact ⟨[], rfl, .last hc hfin⟩
    | link hc htail => exact ⟨_, rfl, .link hc htail⟩
  | cons z p ih =>
    obtain ⟨rfl, -, htail⟩ := hp.of_cons
    cases h with
    | last _ hfin => exact absurd hfin (hsep _ htail.head_ok)
    | link _ htail' =>
      obtain ⟨q, rfl, hq⟩ := ih htail htail'
      exact ⟨q, rfl, hq⟩

section
variable (hsep : ∀ x, ok x → ¬ fin x)
include hsep

theorem unique (h : Chain next ok fin c l) (h' : Chain next ok fin c l') : l = l' := by
  induction h generalizing l' with
  | last _ hfin =>
    cases h' with
    | last => rfl
    | link _ htail => exact absurd hfin (hsep _ htail.head_ok)
  | link _ htail ih =>
    cases h' with
    | last _ hfin => exact absurd hfin (hsep _ htail.head_ok)
    | link _ htail' => rw [ih htail']

theorem nodup (h : Chain next ok fin c l) : l.Nodup := by
  induction h with
  | last => exact List.nodup_singleton _
  | @link c l hc htail ih =>
    refine List.nodup_cons.mpr ⟨fun hmem => ?_, ih⟩
    -- a second visit of `c` would be a chain from `c` shorter than the one from `c`
    obtain ⟨l₂, hl₂, hsuf⟩ := htail.from_mem hmem
    have heq := unique hsep (.link hc htail) hl₂
    have hlen := hsuf.length_le
    rw [← heq, List.length_cons] at hlen
    omega

/-- Writing `y` behind the last node `x` extends the chain by `y`. -/
theorem extend (h : Chain next ok fin c l) (hx : x ∈ l) (hfin : fin (next x))
    (hy : ok y) (hyfin : fin (next' y)) (hnext : next' x = y)
    (hother : ∀ z ∈ l, z ≠ x → next' z = next z) : Chain next' ok fin c (l ++ [y]) := by
  induction h with
  | @last c hc _ =>
    obtain rfl := List.mem_singleton.mp hx
    refine .link hc ?_
    rw [hnext]
    exact .last hy hyfin
  | @link c l hc htail ih =>
    have hne : c ≠ x := by
      rintro rfl
      exact hsep _ htail.head_ok hfin
    have hmem : x ∈ l := by
      rcases List.mem_cons.mp hx with rfl | hmem
      · exact absurd rfl hne
      · exact hmem
    refine .link hc ?_
    rw [hother c List.mem_cons_self hne]
    exact ih hmem fun z hz hzx => hother z (List.mem_cons_of_mem _ hz) hzx

end

end Chain

end HackersOs.Core

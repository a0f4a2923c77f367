import Mathlib.Algebra.GroupWithZero.Nat
import Mathlib.Data.Fin.Basic
import Mathlib.Tactic.Common

/-!
# Searching a table round and round

A table of `n` slots searched from the one after a start slot, going up, from
the last slot on to the first one, and back to the start: the loop of a
round-robin scheduler.

`ahead i j` is the number of steps from `i` to `j` in that order, from 1 to
`n`; a slot is `n` steps ahead of itself. `search_le` says that the search
stops at a slot that satisfies its predicate and that no such slot is nearer.
-/
namespace HackersOs.Core.Cyclic

variable {n : Nat}

def ahead (i j : Fin n) : Nat := if i.val < j.val then j.val - i.val else n + j.val - i.val

theorem ahead_pos (i j : Fin n) : 0 < ahead i j := by
  unfold ahead
  split <;> omega

theorem ahead_le (i j : Fin n) : ahead i j ≤ n := by
  unfold ahead
  split <;> omega

theorem ahead_self (i : Fin n) : ahead i i = n := by
  unfold ahead
  rw [if_neg (Nat.lt_irrefl _)]
  omega

theorem ahead_inj {i j k : Fin n} (h : ahead i j = ahead i k) : j = k := by
  unfold ahead at h
  split at h <;> split at h <;> omega

theorem ahead_lt {i j : Fin n} (h : j ≠ i) : ahead i j < n := by
  have hle := ahead_le i j
  have hne : ahead i j ≠ n := fun e => h (ahead_inj (e.trans (ahead_self i).symm))
  omega

/-- A slot nearer than `k` lies on the way to `k`. -/
theorem ahead_add {i j k : Fin n} (h : ahead i j < ahead i k) :
    ahead i j + ahead j k = ahead i k := by
  unfold ahead at *
  split_ifs at * <;> omega

variable [NeZero n]

theorem val_next (i : Fin n) : (i + 1).val = if i.val + 1 < n then i.val + 1 else 0 := by
  rw [Fin.val_add, Fin.val_one', Nat.add_mod_mod]
  split
  · exact Nat.mod_eq_of_lt ‹_›
  · rw [show i.val + 1 = n by omega, Nat.mod_self]

theorem ahead_next_self (i : Fin n) : ahead i (i + 1) = 1 := by
  have hv := val_next i
  unfold ahead
  split_ifs at * <;> omega

theorem ahead_next {i j : Fin n} (h : j ≠ i + 1) : ahead i j = ahead (i + 1) j + 1 := by
  have hv := val_next i
  unfold ahead
  split_ifs at * <;> omega

variable (P : Fin n → Prop) [DecidablePred P]

/-- At most `k` rounds of
`next = (next + 1) % n; if (P(next)) break;` `while (next != start)`. -/
def searchLoop (start : Fin n) : Nat → Fin n → Fin n
  | 0, next => next
  | k + 1, next =>
    if P (next + 1) then next + 1
    else if next + 1 = start then next + 1
    else searchLoop start k (next + 1)

def search (start : Fin n) : Fin n := searchLoop P start n start

variable {P}

/-- The loop, with the steps left to the start as the number of rounds. -/
theorem searchLoop_spec {start next : Fin n} {k : Nat} (hk : ahead next start = k) :
    (P (searchLoop P start k next) ∨ searchLoop P start k next = start) ∧
      ahead next (searchLoop P start k next) ≤ k ∧
      ∀ j, P j → ahead next j ≤ k → ahead next (searchLoop P start k next) ≤ ahead next j := by
  induction k generalizing next with
  | zero => exact absurd hk (Nat.ne_of_gt (ahead_pos next start))
  | succ k ih =>
    have h1 := ahead_next_self next
    rw [searchLoop]
    split
    · rename_i hP
      exact ⟨.inl hP, by omega, fun j _ _ => h1 ▸ ahead_pos next j⟩
    rename_i hP
    split
    · rename_i hs
      exact ⟨.inr hs, by omega, fun j _ _ => h1 ▸ ahead_pos next j⟩
    rename_i hs
    have hk' : ahead (next + 1) start = k := by
      have := ahead_next (Ne.symm hs)
      omega
    obtain ⟨hr, hle, hmin⟩ := ih hk'
    have hkn : k < n := hk' ▸ ahead_lt (Ne.symm hs)
    -- the search has left `next + 1` behind
    have hne : searchLoop P start k (next + 1) ≠ next + 1 := by
      intro e
      rw [e, ahead_self] at hle
      omega
    refine ⟨hr, ?_, fun j hj hjk => ?_⟩
    · rw [ahead_next hne]
      omega
    have hj1 : j ≠ next + 1 := fun e => hP (e ▸ hj)
    rw [ahead_next hj1] at hjk ⊢
    rw [ahead_next hne]
    have := hmin j hj (by omega)
    omega

/-- If some slot satisfies `P`, the search stops at the nearest one. -/
theorem search_le {start j : Fin n} (hj : P j) :
    P (search P start) ∧ ahead start (search P start) ≤ ahead start j := by
  obtain ⟨hr, -, hmin⟩ := @searchLoop_spec n _ P _ start start n (ahead_self start)
  have hle := hmin j hj (ahead_le start j)
  refine ⟨hr.elim id fun h => ?_, hle⟩
  -- back at the start: `j` is no nearer than the start itself
  unfold search
  rw [h, ahead_self] at hle
  have : ahead start j = ahead start start := by
    have := ahead_le start j
    rw [ahead_self]
    omega
  rw [h, ← ahead_inj this]
  exact hj

/-- If none does, the search is back at the start. -/
theorem search_of_none {start : Fin n} (h : ∀ j, ¬ P j) : search P start = start := by
  obtain ⟨hr, -, -⟩ := @searchLoop_spec n _ P _ start start n (ahead_self start)
  exact hr.resolve_left (h _)

end HackersOs.Core.Cyclic

import Mathlib.Data.List.Chain
import Mathlib.Tactic.Common

/-!
# Streams of messages

A buffer that several messages went through holds, for each element, the number
of its message and its place there. `Follows` is what neighbours look like when
messages are appended in order and taken from the front: the next element of
the same message, or the start of a later one.

`take_eq_message_iff`: what a reader takes from the front is the start of message
`n` exactly when the front is its first element and the reader stays inside it.
-/
namespace HackersOs.Core

variable {k n : Nat} {l : List Tag}

abbrev Tag := Nat × Nat

def Follows (a b : Tag) : Prop := (b.1 = a.1 ∧ b.2 = a.2 + 1) ∨ (a.1 < b.1 ∧ b.2 = 0)

/-- The first `k` elements of message `n`. -/
def message (n k : Nat) : List Tag := (List.range k).map fun o => (n, o)

@[simp] theorem length_message (n k : Nat) : (message n k).length = k := by simp [message]

theorem isChain_message (n k : Nat) : (message n k).IsChain Follows := by
  induction k with
  | zero => exact .nil
  | succ k ih =>
    have hsucc : message n (k + 1) = message n k ++ [(n, k)] := by simp [message, List.range_succ]
    rw [hsucc, List.isChain_append]
    refine ⟨ih, .singleton _, fun a ha b hb => ?_⟩
    obtain rfl : b = (n, k) := by simpa using hb.symm
    cases k with
    | zero => simp [message] at ha
    | succ k =>
      obtain rfl : a = (n, k) := by simpa [message, List.range_succ] using ha.symm
      exact .inl ⟨rfl, rfl⟩

/-- A later message goes behind. -/
theorem IsChain.append_message (h : l.IsChain Follows) (hn : ∀ t ∈ l, t.1 < n) (k : Nat) :
    (l ++ message n k).IsChain Follows := by
  rw [List.isChain_append]
  refine ⟨h, isChain_message n k, fun a ha b hb => .inr ⟨?_, ?_⟩⟩
  · have hb' : b ∈ message n k := List.mem_of_mem_head? hb
    obtain ⟨o, -, rfl⟩ := List.mem_map.mp hb'
    exact hn a (List.mem_of_mem_getLast? ha)
  · cases k with
    | zero => simp [message] at hb
    | succ k =>
      obtain rfl : b = (n, 0) := by simpa [message, List.range_succ_eq_map] using hb.symm
      rfl

/-- Behind an element come only its own and later messages. -/
theorem IsChain.le_of_mem {a : Tag} (h : (a :: l).IsChain Follows) :
    ∀ t ∈ l, a.1 ≤ t.1 := by
  induction l generalizing a with
  | nil => intro t ht; cases ht
  | cons b l ih =>
    rw [List.isChain_cons_cons] at h
    have hab : a.1 ≤ b.1 := by
      rcases h.1 with ⟨he, -⟩ | ⟨hlt, -⟩
      · exact he.ge
      · exact hlt.le
    intro t ht
    rcases List.mem_cons.mp ht with rfl | ht
    · exact hab
    · exact hab.trans (ih h.2 t ht)

/-- A reader that starts at place `o` of message `n` and stays inside it. -/
theorem take_of_le_countP {o : Nat} (h : ((n, o) :: l).IsChain Follows)
    (hk : k ≤ ((n, o) :: l).countP (·.1 = n)) :
    ((n, o) :: l).take k = (List.range k).map fun j => (n, o + j) := by
  induction l generalizing o k with
  | nil =>
    have : k = 0 ∨ k = 1 := by
      simp at hk
      omega
    rcases this with rfl | rfl
    all_goals rfl
  | cons b l ih =>
    cases k with
    | zero => rfl
    | succ k =>
      rw [List.countP_cons_of_pos (by simp)] at hk
      rw [List.isChain_cons_cons] at h
      rw [List.take_succ_cons, List.range_succ_eq_map, List.map_cons, List.map_map, Nat.add_zero]
      congr 1
      rcases h.1 with ⟨hn, ho⟩ | ⟨hlt, -⟩
      · obtain rfl : b = (n, o + 1) := Prod.ext hn ho
        rw [ih h.2 (by omega)]
        refine List.map_congr_left fun j _ => ?_
        simp only [Function.comp, Nat.succ_eq_add_one, Prod.mk.injEq, true_and]
        omega
      · -- the rest belongs to later messages, so nothing more is asked for
        have hzero : (b :: l).countP (·.1 = n) = 0 := by
          rw [List.countP_eq_zero]
          intro t ht
          have hle : b.1 ≤ t.1 := by
            rcases List.mem_cons.mp ht with rfl | ht
            · exact Nat.le_refl _
            · exact IsChain.le_of_mem h.2 t ht
          simp only [decide_eq_true_eq]
          omega
        rw [hzero] at hk
        obtain rfl : k = 0 := by omega
        rfl

theorem take_eq_message_iff (h : l.IsChain Follows) (hk : 0 < k) (hkl : k ≤ l.length) :
    l.take k = message n k ↔ l.head? = some (n, 0) ∧ k ≤ l.countP (·.1 = n) := by
  constructor
  · intro he
    constructor
    · obtain ⟨m, rfl⟩ : ∃ m, k = m + 1 := ⟨k - 1, by omega⟩
      have hhead := congrArg List.head? he
      rw [List.head?_take, if_neg (by omega)] at hhead
      rw [hhead]
      simp [message, List.range_succ_eq_map]
    · have hall : (l.take k).countP (·.1 = n) = k := by
        rw [he, List.countP_eq_length.mpr]
        · exact length_message n k
        · intro t ht
          obtain ⟨o, -, rfl⟩ := List.mem_map.mp ht
          simp
      rw [← hall]
      exact (List.take_sublist k l).countP_le
  · rintro ⟨hhead, hcount⟩
    obtain ⟨l', rfl⟩ : ∃ l', l = (n, 0) :: l' := by
      cases l with
      | nil => cases hhead
      | cons a l' =>
        obtain rfl : a = (n, 0) := Option.some.inj hhead
        exact ⟨l', rfl⟩
    rw [take_of_le_countP h hcount, message]
    simp only [Nat.zero_add]

end HackersOs.Core

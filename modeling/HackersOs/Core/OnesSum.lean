import Mathlib.Algebra.GroupWithZero.Nat
import Mathlib.Algebra.Group.Nat.Defs
import Mathlib.Algebra.BigOperators.Group.List.Basic
import Mathlib.Tactic.Common

/-!
# One's-complement sums of 16-bit words (RFC 1071)

`onesAdd` adds two words and puts the carry back in at the low end; `onesSum`
is the sum of a list of words. There are two words for zero, 0 and 65535;
`onesSum_eq` says which one a sum gives: the sum modulo 65535, and 0 only when
every word is 0 (`carried`).

A byte string is cut into words with the first byte high (`beWords`, network
order) or low (`leWords`); an odd byte at the end is padded with a zero.
`swap16_carried`: the two sums are each other with the bytes swapped.
`carried_complement`: adding the complement of a sum to it gives 65535.
-/
namespace HackersOs.Core

def onesAdd (x y : Nat) : Nat := if x + y < 65536 then x + y else x + y - 65535

def onesSum (ws : List Nat) : Nat := ws.foldl onesAdd 0

/-- The word that stands for `n` modulo 65535; 0 only for 0. -/
def carried (n : Nat) : Nat := if n = 0 then 0 else (n - 1) % 65535 + 1

/-- The words with their first byte high. -/
def beWords : List UInt8 → List Nat
  | a :: b :: rest => (256 * a.toNat + b.toNat) :: beWords rest
  | [a] => [256 * a.toNat]
  | [] => []

/-- The words with their first byte low. -/
def leWords : List UInt8 → List Nat
  | a :: b :: rest => (a.toNat + 256 * b.toNat) :: leWords rest
  | [a] => [a.toNat]
  | [] => []

/-- The two bytes of a word in the other order. -/
def swap16 (x : Nat) : Nat := x % 256 * 256 + x / 256

/-- The checksum of RFC 1071: the complement of the sum of the words in network order. -/
def rfc1071 (bytes : List UInt8) : Nat := 65535 - onesSum (beWords bytes)

/-! ## Sums -/

section
variable {n c k x y : Nat}

theorem carried_le (n : Nat) : carried n ≤ 65535 := by
  unfold carried
  split <;> omega

theorem carried_eq_zero : carried n = 0 ↔ n = 0 := by
  unfold carried
  split <;> omega

theorem carried_mod (n : Nat) : carried n % 65535 = n % 65535 := by
  unfold carried
  split <;> omega

theorem carried_unique (hle : c ≤ 65535) (hzero : c = 0 ↔ n = 0) (hmod : c % 65535 = n % 65535) :
    carried n = c := by
  unfold carried
  split <;> omega

theorem carried_of_lt (h : n < 65536) : carried n = n := by
  unfold carried
  split <;> omega

theorem onesAdd_eq (hx : x < 65536) (hy : y < 65536) : onesAdd x y = carried (x + y) := by
  unfold onesAdd carried
  split <;> split <;> omega

theorem carried_add (x y : Nat) : carried (carried x + y) = carried (x + y) := by
  have hmod := carried_mod x
  have hzero := @carried_eq_zero x
  refine carried_unique (carried_le _) ?_ ?_
  · rw [carried_eq_zero]
    omega
  · rw [carried_mod]
    omega

theorem foldl_onesAdd (ws : List Nat) (hws : ∀ w ∈ ws, w < 65536) (hx : x < 65536) :
    ws.foldl onesAdd x = carried (x + ws.sum) := by
  induction ws generalizing x with
  | nil => exact (carried_of_lt hx).symm
  | cons w ws ih =>
    have hw := hws w List.mem_cons_self
    rw [List.foldl_cons, onesAdd_eq hx hw,
      ih (fun v hv => hws v (List.mem_cons_of_mem w hv)) (Nat.lt_succ_of_le (carried_le _)),
        carried_add,
      List.sum_cons, Nat.add_assoc]

/-- The sum with end-around carries is the plain sum modulo 65535. -/
theorem onesSum_eq {ws : List Nat} (h : ∀ w ∈ ws, w < 65536) : onesSum ws = carried ws.sum := by
  rw [onesSum, foldl_onesAdd ws h (by decide), Nat.zero_add]

/-- A sum and its complement add up to the other zero. -/
theorem carried_complement (n : Nat) : carried (n + (65535 - carried n)) = 65535 := by
  have hle := carried_le n
  have hmod := carried_mod n
  have hzero := @carried_eq_zero n
  refine carried_unique (Nat.le_refl _) ?_ ?_ <;> omega

end

/-! ## Words of byte strings -/

section
variable {l pre : List UInt8}

theorem byte_lt (b : UInt8) : b.toNat < 256 := b.toNat_lt

theorem beWords_lt (l : List UInt8) : ∀ w ∈ beWords l, w < 65536 := by
  fun_induction beWords l with
  | case1 a b rest ih =>
    intro w hw
    have ha := byte_lt a
    have hb := byte_lt b
    rcases List.mem_cons.mp hw with rfl | hw
    · omega
    · exact ih w hw
  | case2 a =>
    intro w hw
    have ha := byte_lt a
    obtain rfl := List.mem_singleton.mp hw
    omega
  | case3 => exact fun w hw => absurd hw List.not_mem_nil

theorem leWords_sum_le (l : List UInt8) : (leWords l).sum ≤ 65535 * ((l.length + 1) / 2) := by
  fun_induction leWords l with
  | case1 a b rest ih =>
    have ha := byte_lt a
    have hb := byte_lt b
    rw [List.sum_cons, List.length_cons, List.length_cons]
    omega
  | case2 a =>
    have ha := byte_lt a
    rw [List.sum_singleton, List.length_singleton]
    omega
  | case3 => exact Nat.zero_le _

theorem leWords_append (hpre : pre.length % 2 = 0) (l : List UInt8) :
    leWords (pre ++ l) = leWords pre ++ leWords l := by
  fun_induction leWords pre with
  | case1 a b rest ih =>
    have hrest : rest.length % 2 = 0 := by
      simp only [List.length_cons] at hpre
      omega
    rw [List.cons_append, List.cons_append, leWords, ih hrest, List.cons_append]
  | case2 a => simp at hpre
  | case3 => rfl

/-- Multiplying by 256 turns one byte order into the other. -/
theorem beWords_sum (l : List UInt8) :
    ∃ k, k ≤ (beWords l).sum ∧ 256 * (leWords l).sum = (beWords l).sum + 65535 * k := by
  fun_induction beWords l with
  | case1 a b rest ih =>
    obtain ⟨k, hle, hk⟩ := ih
    refine ⟨k + b.toNat, ?_⟩
    rw [leWords, List.sum_cons, List.sum_cons]
    omega
  | case2 a => exact ⟨0, Nat.zero_le _, by simp [leWords]⟩
  | case3 => exact ⟨0, Nat.zero_le _, rfl⟩

/-- The sum in network order is the other one with its bytes swapped. -/
theorem swap16_carried (l : List UInt8) : swap16 (carried (leWords l).sum) = onesSum (beWords l) := by
  rw [onesSum_eq (beWords_lt l)]
  obtain ⟨k, hkle, hk⟩ := beWords_sum l
  have hle := carried_le (leWords l).sum
  have hmod := carried_mod (leWords l).sum
  have hzero := @carried_eq_zero (leWords l).sum
  refine (carried_unique ?_ ?_ ?_).symm <;> unfold swap16 <;> omega

theorem swap16_complement {x : Nat} (h : x ≤ 65535) : swap16 (65535 - x) = 65535 - swap16 x := by
  unfold swap16
  omega

end

end HackersOs.Core

import HackersOs.Core.Words

/-!
# The clock (`sys_clock_gettime`)

The counter and its frequency give the seconds and, from what is left, the
nanoseconds. The product of the rest and 10^9 has to fit 64 bits, which it does for
a frequency of 32; the seconds have to fit an `i64`, which they do unless the
counter runs at 1 Hz (`clock_exact_iff`).
-/
namespace HackersOs.L5
open HackersOs.Core

/-- mirrors src/compat/linux_syscalls.h:108-111 -/
structure Timespec where
  tvSec : Int64
  tvNsec : Int64

/-- What is stored through `tp`. mirrors src/compat/linux_syscalls.cpp:304-324 -/
def sysClockGettime (ticks freq cnt : UInt64) : Timespec :=
  if freq > 0 then
    { tvSec := (cnt / freq).toInt64
      tvNsec := (cnt % freq * 1000000000 / freq).toInt64 }
  else
    { tvSec := (ticks / 100).toInt64
      tvNsec := (ticks % 100 * 10000000).toInt64 }

/-- Not later, in lexicographic order. -/
def Timespec.Le (a b : Timespec) : Prop :=
  a.tvSec.toInt < b.tvSec.toInt ∨ a.tvSec.toInt = b.tvSec.toInt ∧ a.tvNsec.toInt ≤ b.tvNsec.toInt

section
variable {ticks ticks' freq cnt cnt' : UInt64}

theorem toInt_toInt64_of_lt {x : UInt64} (h : x.toNat < 2 ^ 63) : x.toInt64.toInt = x.toNat := by
  rw [toInt_toInt64, if_pos h]

/-- The quotient of the seconds and that of the rest make the quotient of the whole. -/
theorem div_add_rest (c g : Nat) {f : Nat} (hf : 0 < f) : c / f * g + c % f * g / f = c * g / f := by
  have hc : c * g = c % f * g + f * (c / f * g) := by
    rw [← Nat.mul_assoc, ← Nat.add_mul, Nat.mod_add_div]
  rw [hc, Nat.add_mul_div_left _ _ hf, Nat.add_comm]

theorem rest_div_lt {c g f : Nat} (hf : 0 < f) (hg : 0 < g) : c % f * g / f < g := by
  rw [Nat.div_lt_iff_lt_mul hf, Nat.mul_comm g]
  exact Nat.mul_lt_mul_of_pos_right (Nat.mod_lt c hf) hg

/-- Seconds first, then what is left. -/
theorem div_lex {c c' : Nat} (g f : Nat) (h : c' ≤ c) :
    c' / f < c / f ∨ c' / f = c / f ∧ c' % f * g / f ≤ c % f * g / f := by
  rcases Nat.lt_or_eq_of_le (Nat.div_le_div_right (c := f) h) with hlt | heq
  · exact .inl hlt
  refine .inr ⟨heq, Nat.div_le_div_right (Nat.mul_le_mul_right g ?_)⟩
  have hdiv := Nat.div_add_mod c f
  have hdiv' := Nat.div_add_mod c' f
  rw [heq] at hdiv'
  omega

/-! ## The 64-bit computation -/

theorem product_exact (cnt : UInt64) (h0 : 0 < freq.toNat) (hfreq : freq.toNat < 2 ^ 32) :
    (cnt % freq * 1000000000).toNat = cnt.toNat % freq.toNat * 1000000000 := by
  rw [UInt64.toNat_mul, UInt64.toNat_mod]
  change cnt.toNat % freq.toNat * 1000000000 % 2 ^ 64 = _
  have := Nat.mod_lt cnt.toNat h0
  omega

theorem tvNsec_eq (h0 : 0 < freq.toNat) (hfreq : freq.toNat < 2 ^ 32) :
    (sysClockGettime ticks freq cnt).tvNsec.toInt =
      (cnt.toNat % freq.toNat * 1000000000 / freq.toNat : Nat) := by
  have hlt : cnt.toNat % freq.toNat * 1000000000 / freq.toNat < 1000000000 :=
    rest_div_lt h0 (by decide)
  have hnat : (cnt % freq * 1000000000 / freq).toNat =
      cnt.toNat % freq.toNat * 1000000000 / freq.toNat := by
    rw [UInt64.toNat_div, product_exact cnt h0 hfreq]
  rw [sysClockGettime, if_pos (show freq > 0 from h0), toInt_toInt64_of_lt (by omega), hnat]

theorem tvSec_eq (h0 : 0 < freq.toNat) (h : cnt.toNat / freq.toNat < 2 ^ 63) :
    (sysClockGettime ticks freq cnt).tvSec.toInt = (cnt.toNat / freq.toNat : Nat) := by
  have hnat : (cnt / freq).toNat = cnt.toNat / freq.toNat := UInt64.toNat_div ..
  rw [sysClockGettime, if_pos (show freq > 0 from h0), toInt_toInt64_of_lt (by omega), hnat]

/-- The seconds that do not fit come out negative. -/
theorem tvSec_neg (h0 : 0 < freq.toNat) (h : 2 ^ 63 ≤ cnt.toNat / freq.toNat) :
    (sysClockGettime ticks freq cnt).tvSec.toInt < 0 := by
  have hnat : (cnt / freq).toNat = cnt.toNat / freq.toNat := UInt64.toNat_div ..
  have hlt := (cnt / freq).toNat_lt
  rw [sysClockGettime, if_pos (show freq > 0 from h0), toInt_toInt64, if_neg (by omega)]
  omega

/-- Only a counter at 1 Hz reaches 2^63 seconds. -/
theorem seconds_lt_iff (h0 : 0 < freq.toNat) :
    cnt.toNat / freq.toNat < 2 ^ 63 ↔ (freq = 1 → cnt.toNat < 2 ^ 63) := by
  have hcnt := cnt.toNat_lt
  rw [Nat.div_lt_iff_lt_mul h0]
  by_cases h1 : freq = 1
  · subst h1
    simp
  · have hne : freq.toNat ≠ 1 := fun h => h1 (UInt64.toNat_inj.mp h)
    refine iff_of_true ?_ fun h => absurd h h1
    omega

end

/-- For every counter value and every frequency of 32 bits: the product does not overflow, the
time is the exact quotient with nanoseconds below 10^9 and not before that of an earlier
counter value, if and only if the frequency is not 1 or the counter is below 2^63. -/
theorem clock_exact_iff (ticks freq cnt : UInt64) (h0 : 0 < freq.toNat)
    (hfreq : freq.toNat < 2 ^ 32) :
    ((cnt % freq * 1000000000).toNat = cnt.toNat % freq.toNat * 1000000000 ∧
      0 ≤ (sysClockGettime ticks freq cnt).tvNsec.toInt ∧
      (sysClockGettime ticks freq cnt).tvNsec.toInt < 1000000000 ∧
      (sysClockGettime ticks freq cnt).tvSec.toInt * 1000000000 +
        (sysClockGettime ticks freq cnt).tvNsec.toInt =
        (cnt.toNat * 1000000000 / freq.toNat : Nat) ∧
      ∀ ticks' cnt', cnt' ≤ cnt →
        (sysClockGettime ticks' freq cnt').Le (sysClockGettime ticks freq cnt)) ↔
      (freq = 1 → cnt.toNat < 2 ^ 63) := by
  have hnsec := @tvNsec_eq ticks freq cnt h0 hfreq
  have hlt : cnt.toNat % freq.toNat * 1000000000 / freq.toNat < 1000000000 :=
    rest_div_lt h0 (by decide)
  have hwhole := div_add_rest cnt.toNat 1000000000 h0
  have hlex (c : UInt64) (hc : c ≤ cnt) :=
    div_lex 1000000000 freq.toNat (show c.toNat ≤ cnt.toNat from hc)
  rw [← seconds_lt_iff h0, hnsec, ← hwhole]
  generalize cnt.toNat % freq.toNat * 1000000000 / freq.toNat = nsec at hnsec hlt hlex ⊢
  constructor
  · rintro ⟨-, -, -, hexact, -⟩
    by_contra hbig
    have hneg := @tvSec_neg ticks freq cnt h0 (by omega)
    generalize cnt.toNat / freq.toNat = sec at hexact
    omega
  · intro hsec
    have hsec' := @tvSec_eq ticks freq cnt h0 hsec
    refine ⟨product_exact cnt h0 hfreq, by omega, by omega, ?_, fun ticks' cnt' hle => ?_⟩
    · rw [hsec', Int.natCast_add, Int.natCast_mul]
      rfl
    have hbefore := Nat.div_le_div_right (c := freq.toNat) (show cnt'.toNat ≤ cnt.toNat from hle)
    unfold Timespec.Le
    rw [hsec', hnsec, tvSec_eq h0 (by omega), tvNsec_eq h0 hfreq]
    have hle := hlex cnt' hle
    generalize cnt'.toNat / freq.toNat = sec' at hle ⊢
    generalize cnt.toNat / freq.toNat = sec at hle ⊢
    generalize cnt'.toNat % freq.toNat * 1000000000 / freq.toNat = nsec' at hle ⊢
    omega

/-- A counter at 62.5 MHz. -/
theorem clock_exact_iff_qemu : (sysClockGettime 0 62500000 125000001).tvSec.toInt * 1000000000 +
    (sysClockGettime 0 62500000 125000001).tvNsec.toInt = 2000000016 :=
  ((clock_exact_iff 0 62500000 125000001 (by decide) (by decide)).mpr fun h =>
    absurd h (by decide)).2.2.2.1

/-- **Counterexample.** A counter at 1 Hz with its top bit set: the time is negative, and was
not before. -/
theorem clock_turns_negative : (sysClockGettime 0 1 0x8000000000000000).tvSec.toInt =
    -9223372036854775808 ∧
    ¬ (sysClockGettime 0 1 0x7FFFFFFFFFFFFFFF).Le (sysClockGettime 0 1 0x8000000000000000) := by
  have h : (sysClockGettime 0 1 0x8000000000000000).tvSec.toInt = -9223372036854775808 ∧
      (sysClockGettime 0 1 0x7FFFFFFFFFFFFFFF).tvSec.toInt = 9223372036854775807 := by decide
  unfold Timespec.Le
  rw [h.1, h.2]
  omega

end HackersOs.L5

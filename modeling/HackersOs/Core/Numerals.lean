import Mathlib.Algebra.Group.Nat.Defs
import Mathlib.Data.List.Basic
import Mathlib.Data.List.Induction
import Mathlib.Tactic.Common

/-!
# Canonical numerals

A text stands for a number in base `b` (at most 16, digits `0`-`9` and `a`-`f`) if
its characters are digits and have that value (`parse`). It is the canonical numeral
if it also has no leading zero. The last character decides: a canonical numeral of
`n` ends in the digit of `n % b`, behind the canonical numeral of `n / b` if there
is more than one digit (`canonical_snoc_iff`). So there is only one
(`Canonical.unique`), and a printer that emits digits from the left or from the
right makes it one digit at a time (`Canonical.digit`, `Canonical.snoc`).
-/
namespace HackersOs.Core.Numerals

/-- The character of a digit. -/
def digitChar (d : Nat) : UInt8 := if d < 10 then .ofNat (0x30 + d) else .ofNat (0x57 + d)

/-- The digit of a character. -/
def digitValue (b : Nat) (c : UInt8) : Option Nat := (List.range b).find? fun d => digitChar d = c

/-- The number a text stands for. -/
def parse (b : Nat) (text : List UInt8) : Option Nat :=
  text.foldlM (fun n c => (digitValue b c).map (n * b + ·)) 0

/-- The text is the canonical numeral of `n` in base `b`. -/
structure Canonical (b n : Nat) (text : List UInt8) : Prop where
  ne_nil : text ≠ []
  value : parse b text = some n
  leading : text.head? = some 0x30 → text = [0x30]

/-- The text is the canonical decimal of an integer. -/
inductive SignedCanonical : Int → List UInt8 → Prop where
  | nonneg {n : Nat} {text : List UInt8} : Canonical 10 n text → SignedCanonical n text
  | neg {n : Nat} {text : List UInt8} : 0 < n → Canonical 10 n text →
      SignedCanonical (-n) (0x2D :: text)

section
variable {b n d : Nat} {c : UInt8} {text text' : List UInt8}

theorem digitValue_lt (h : digitValue b c = some d) : d < b :=
  List.mem_range.mp (List.mem_of_find?_eq_some h)

/-- A digit has one character. -/
theorem digitChar_of_digitValue (h : digitValue b c = some d) : digitChar d = c := by
  simpa using List.find?_some h

theorem digitChar_inj {e : Nat} (hd : d < 16) (he : e < 16) (h : digitChar d = digitChar e) :
    d = e := by
  have hall : ∀ d e : Fin 16, digitChar d = digitChar e → d = e := by decide
  exact congrArg Fin.val (hall ⟨d, hd⟩ ⟨e, he⟩ h)

/-- And a character one digit. -/
theorem digitValue_digitChar (hb : b ≤ 16) (hd : d < b) : digitValue b (digitChar d) = some d := by
  have hsome : (digitValue b (digitChar d)).isSome := by
    refine List.find?_isSome.mpr ⟨d, List.mem_range.mpr hd, ?_⟩
    simp
  obtain ⟨e, he⟩ := Option.isSome_iff_exists.mp hsome
  have hlt := digitValue_lt he
  rw [he, digitChar_inj (by omega) (by omega) (digitChar_of_digitValue he)]

theorem parse_snoc : parse b (text ++ [c]) =
    (parse b text).bind fun n => (digitValue b c).map (n * b + ·) := by
  unfold parse
  rw [List.foldlM_append]
  simp only [List.foldlM_cons, List.foldlM_nil, bind_pure]
  rfl

theorem parse_snoc_eq_some : parse b (text ++ [c]) = some n ↔
    ∃ m d, parse b text = some m ∧ digitValue b c = some d ∧ m * b + d = n := by
  rw [parse_snoc, Option.bind_eq_some_iff]
  simp only [Option.map_eq_some_iff]
  constructor
  · rintro ⟨m, hm, d, hd, hn⟩
    exact ⟨m, d, hm, hd, hn⟩
  · rintro ⟨m, d, hm, hd, hn⟩
    exact ⟨m, hm, d, hd, hn⟩

/-- A text of value 0 has only zeros. -/
theorem parse_zero_head (hb : 0 < b) (h : parse b text = some 0) :
    ∀ c ∈ text, digitValue b c = some 0 := by
  induction text using List.reverseRecOn with
  | nil => exact fun c hc => absurd hc List.not_mem_nil
  | append_singleton text c ih =>
    obtain ⟨m, d, hm, hd, hn⟩ := parse_snoc_eq_some.mp h
    have hm0 : m = 0 := by
      rcases Nat.eq_zero_or_pos m with h0 | hpos
      · exact h0
      · have := Nat.mul_pos hpos hb
        omega
    subst hm0
    have hd0 : d = 0 := by omega
    subst hd0
    intro c' hc'
    rcases List.mem_append.mp hc' with hc' | hc'
    · exact ih hm c' hc'
    · rwa [List.mem_singleton.mp hc']

theorem digitValue_zero (hb : 0 < b) (hb' : b ≤ 16) : digitValue b 0x30 = some 0 :=
  digitValue_digitChar hb' hb

theorem Canonical.ne_zero (hb : 0 < b) (h : Canonical b n text) (hlead : text.head? ≠ some 0x30) :
    n ≠ 0 := by
  rintro rfl
  cases htext : text with
  | nil => exact h.ne_nil htext
  | cons c rest =>
    have hc := parse_zero_head hb h.value c (htext ▸ List.mem_cons_self)
    refine hlead ?_
    rw [htext, ← digitChar_of_digitValue hc]
    rfl

/-- What the last character of a canonical numeral says. -/
theorem canonical_snoc_iff (hb : 0 < b) (hb16 : b ≤ 16) : Canonical b n (text ++ [c]) ↔
    digitValue b c = some (n % b) ∧ if n < b then text = [] else Canonical b (n / b) text := by
  constructor
  · rintro ⟨-, hval, hlead⟩
    obtain ⟨m, d, hm, hd, rfl⟩ := parse_snoc_eq_some.mp hval
    have hlt := digitValue_lt hd
    have hmod : (m * b + d) % b = d := by rw [Nat.mul_comm, Nat.mul_add_mod, Nat.mod_eq_of_lt hlt]
    have hdiv : (m * b + d) / b = m := by
      rw [Nat.mul_comm, Nat.mul_add_div hb, Nat.div_eq_of_lt hlt, Nat.add_zero]
    rw [hmod, hdiv]
    refine ⟨hd, ?_⟩
    rcases List.eq_nil_or_concat' text with rfl | ⟨rest, c', rfl⟩
    · cases hm
      rw [if_pos (by omega)]
    -- more than one character, so the first is not a zero
    have hhead : (rest ++ [c']).head? ≠ some 0x30 := by
      intro h0
      have := congrArg List.length (hlead (by rw [List.head?_append, h0]; rfl))
      simp at this
    have hcanon : Canonical b m (rest ++ [c']) := ⟨by simp, hm, fun h0 => absurd h0 hhead⟩
    have hpos := Nat.pos_of_ne_zero (hcanon.ne_zero hb hhead)
    have := Nat.mul_le_mul_right b hpos
    rwa [if_neg (by omega)]
  · rintro ⟨hd, htext⟩
    have hn : n / b * b + n % b = n := by rw [Nat.mul_comm, Nat.div_add_mod]
    split at htext
    · rename_i hlt
      subst htext
      refine ⟨by simp, parse_snoc_eq_some.mpr ⟨0, n % b, rfl, hd, ?_⟩, fun h0 => ?_⟩
      · rw [Nat.zero_mul, Nat.zero_add, Nat.mod_eq_of_lt hlt]
      · cases h0
        rfl
    · rename_i hge
      refine ⟨by simp, parse_snoc_eq_some.mpr ⟨n / b, n % b, htext.value, hd, hn⟩, fun h0 => ?_⟩
      have hhead : text.head? = some 0x30 := by
        cases htext' : text with
        | nil => exact absurd htext' htext.ne_nil
        | cons c' rest => rwa [htext'] at h0
      -- the numeral of the rest would be 0
      have hzero := htext.value
      rw [htext.leading hhead] at hzero
      have hval : parse b [0x30] = some 0 := by
        rw [← List.nil_append [0x30]]
        exact parse_snoc_eq_some.mpr ⟨0, 0, rfl, digitValue_zero hb hb16, by omega⟩
      have hdiv : n / b = 0 := Option.some.inj (hzero.symm.trans hval)
      rcases Nat.div_eq_zero_iff.mp hdiv with h | h
      · omega
      · exact absurd h hge

/-- There is one canonical numeral. -/
theorem Canonical.unique (hb : 0 < b) (hb16 : b ≤ 16) (h : Canonical b n text)
    (h' : Canonical b n text') : text = text' := by
  induction text using List.reverseRecOn generalizing n text' with
  | nil => exact absurd rfl h.ne_nil
  | append_singleton text c ih =>
    rcases List.eq_nil_or_concat' text' with rfl | ⟨text', c', rfl⟩
    · exact absurd rfl h'.ne_nil
    obtain ⟨hc, htext⟩ := (canonical_snoc_iff hb hb16).mp h
    obtain ⟨hc', htext'⟩ := (canonical_snoc_iff hb hb16).mp h'
    rw [← digitChar_of_digitValue hc, ← digitChar_of_digitValue hc']
    congr 1
    split at htext
    · rename_i hlt
      rw [if_pos hlt] at htext'
      rw [htext, htext']
    · rename_i hge
      rw [if_neg hge] at htext'
      exact ih htext htext'

theorem SignedCanonical.unique {z : Int} (h : SignedCanonical z text) (h' : SignedCanonical z text') :
    text = text' := by
  generalize hz : z = z' at h'
  cases h with
  | nonneg hn =>
    cases h' with
    | nonneg hn' =>
      cases Int.ofNat_inj.mp hz
      exact hn.unique (by decide) (by decide) hn'
    | neg hpos hn' => omega
  | neg hpos hn =>
    cases h' with
    | nonneg hn' => omega
    | neg hpos' hn' =>
      cases Int.ofNat_inj.mp (Int.neg_inj.mp hz)
      rw [hn.unique (by decide) (by decide) hn']

theorem Canonical.digit (hb : b ≤ 16) (hd : d < b) : Canonical b d [digitChar d] := by
  rw [← List.nil_append [digitChar d], canonical_snoc_iff (by omega) hb, if_pos hd,
    Nat.mod_eq_of_lt hd]
  exact ⟨digitValue_digitChar hb hd, rfl⟩

theorem Canonical.snoc (hb : b ≤ 16) (h0 : 0 < n) (hd : d < b) (h : Canonical b n text) :
    Canonical b (n * b + d) (text ++ [digitChar d]) := by
  have hle := Nat.mul_le_mul_right b h0
  rw [canonical_snoc_iff (by omega) hb, if_neg (by omega), Nat.mul_comm, Nat.mul_add_mod,
    Nat.mod_eq_of_lt hd,
    Nat.mul_add_div (by omega), Nat.div_eq_of_lt hd]
  exact ⟨digitValue_digitChar hb hd, h⟩

end

end HackersOs.Core.Numerals

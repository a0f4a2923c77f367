import Mathlib.Data.List.TakeWhile
import HackersOs.L4Fs.Fat32

/-!
# Names in 8.3 form

`string_to_fat_name` writes a name into eight and three upper-case bytes padded
with blanks; `fat_name_to_string` reads such a field back in lower case, up to
the first blank. `fatNameToString_eq` says what is read back of any eleven
bytes, `read_padName_iff` which parts come back as they were.

Result: `names_round_trip`: the strings that match their own 8.3 form are those
of the form `base` or `base.ext` without blanks and upper-case letters, and a
FAT name with blanks only as padding is the 8.3 form of its string.
-/
namespace HackersOs.L4.Fat
open HackersOs.Core List

variable {base : List UInt8}

/-! ## Characters -/

/-- No padding, and no upper-case letter. -/
def Plain (b : UInt8) : Prop := b ≠ 32 ∧ ¬ (65 ≤ b ∧ b ≤ 90)

theorem upper_lower (b : UInt8) :
    (upper b = 32 ↔ b = 32) ∧ (upper b = 0 ↔ b = 0) ∧ (upper b = 0xE5 ↔ b = 0xE5) ∧
    (lower b = 0 ↔ b = 0) ∧ (lower b = 46 ↔ b = 46) ∧
    (lower (upper b) = b ↔ ¬ (65 ≤ b ∧ b ≤ 90)) ∧ (upper (lower b) = b ↔ ¬ (97 ≤ b ∧ b ≤ 122)) := by
  have htable : ∀ n : Fin 256,
      (upper (UInt8.ofNat n) = 32 ↔ UInt8.ofNat n = 32) ∧
        (upper (UInt8.ofNat n) = 0 ↔ UInt8.ofNat n = 0) ∧
      (upper (UInt8.ofNat n) = 0xE5 ↔ UInt8.ofNat n = 0xE5) ∧
      (lower (UInt8.ofNat n) = 0 ↔ UInt8.ofNat n = 0) ∧
        (lower (UInt8.ofNat n) = 46 ↔ UInt8.ofNat n = 46) ∧
      (lower (upper (UInt8.ofNat n)) = UInt8.ofNat n ↔
        ¬ (65 ≤ UInt8.ofNat n ∧ UInt8.ofNat n ≤ 90)) ∧
      (upper (lower (UInt8.ofNat n)) = UInt8.ofNat n ↔
        ¬ (97 ≤ UInt8.ofNat n ∧ UInt8.ofNat n ≤ 122)) := by decide +kernel
  have hb := htable ⟨b.toNat, b.toNat_lt⟩
  rwa [UInt8.ofNat_toNat] at hb

/-! ## One part of a name -/

/-- A field up to its padding, in lower case. -/
def readPart (f : List UInt8) : List UInt8 := (f.takeWhile (· ≠ 32)).map lower

section
variable {l f : List UInt8} {k : Nat}

theorem length_padName (k : Nat) (l : List UInt8) : (padName k l).length = k := by
  rw [padName, length_append, length_map, length_take, length_replicate]
  omega

/-- The padding is not read. -/
theorem takeWhile_padding (xs : List UInt8) (n : Nat) :
    (xs ++ List.replicate n 32).takeWhile (· ≠ 32) = xs.takeWhile (· ≠ 32) := by
  induction xs with
  | nil =>
    cases n with
    | zero => rfl
    | succ n => rfl
  | cons x xs ih =>
    rw [cons_append, takeWhile_cons, takeWhile_cons, ih]

/-- A part written and read back: it ends at its first blank. -/
theorem read_padName (k : Nat) (l : List UInt8) :
    readPart (padName k l) = ((l.take k).takeWhile (· ≠ 32)).map (lower ∘ upper) := by
  have hblank : ((fun b : UInt8 => decide (b ≠ 32)) ∘ upper) = fun b => decide (b ≠ 32) := by
    funext b
    simp [(upper_lower b).1]
  rw [readPart, padName, takeWhile_padding, takeWhile_map, hblank, map_map]

theorem length_read_padName (k : Nat) (l : List UInt8) :
    (readPart (padName k l)).length ≤ min k l.length := by
  rw [read_padName, length_map, ← length_take]
  exact (takeWhile_sublist _).length_le

/-- The parts that come back as they were. -/
theorem read_padName_iff : readPart (padName k l) = l ↔ l.length ≤ k ∧ ∀ b ∈ l, Plain b := by
  constructor
  · intro h
    have hlen := length_read_padName k l
    rw [h] at hlen
    have htake : l.take k = l := take_of_length_le (by omega)
    rw [read_padName, htake] at h
    have hwhole : l.takeWhile (· ≠ 32) = l := by
      refine ( takeWhile_prefix _).eq_of_length ?_
      have := congrArg List.length h
      rwa [length_map] at this
    rw [hwhole] at h
    have hblank := takeWhile_eq_self_iff.mp hwhole
    have hcase : ∀ b ∈ l, (lower ∘ upper) b = id b := by
      apply map_inj_left.mp
      rw [h, map_id]
    refine ⟨by omega, fun b hb => ⟨by simpa using hblank b hb, ?_⟩⟩
    exact (upper_lower b).2.2.2.2.2.1.mp (hcase b hb)
  · intro ⟨hk, hl⟩
    have hwhole : l.takeWhile (· ≠ 32) = l :=
      takeWhile_eq_self_iff.mpr fun b hb => decide_eq_true (hl b hb).1
    have hcase : l.map (lower ∘ upper) = l.map id :=
      map_congr_left fun b hb => (upper_lower b).2.2.2.2.2.1.mpr (hl b hb).2
    rw [read_padName, take_of_length_le hk, hwhole, hcase, map_id]

theorem read_padName_ne_zero (hl : 0 ∉ l) : ∀ b ∈ readPart (padName k l), b ≠ 0 := by
  intro b hb h0
  rw [read_padName, mem_map] at hb
  obtain ⟨c, hc, rfl⟩ := hb
  have hc0 : c = 0 := (upper_lower c).2.1.mp ((upper_lower (upper c)).2.2.2.1.mp h0)
  rw [hc0] at hc
  exact hl (mem_of_mem_take ((takeWhile_sublist _).mem hc))

/-- A field that starts with a blank reads as nothing. -/
theorem readPart_eq_nil (hf : f ≠ []) : readPart f = [] ↔ f.getD 0 0 = 32 := by
  cases f with
  | nil => exact absurd rfl hf
  | cons b f =>
    rw [readPart, map_eq_nil_iff, takeWhile_cons]
    by_cases hb : b = 32
    all_goals simp [hb]

/-! ## Whole names -/

/-- What is read of a directory entry's eleven bytes. -/
theorem fatNameToString_eq (hf : f.length = 11) : fatNameToString f =
    readPart (f.take 8) ++ if readPart (f.drop 8) = [] then [] else 46 :: readPart (f.drop 8) := by
  have hlen : (f.drop 8).length = 3 := by rw [length_drop, hf]
  have hne : f.drop 8 ≠ [] := by
    intro h
    rw [h] at hlen
    cases hlen
  have hget : (f.drop 8).getD 0 0 = f.getD 8 0 := by
    rw [getD_eq_getElem?_getD, getD_eq_getElem?_getD, List.getElem?_drop]
  have hnil := readPart_eq_nil hne
  rw [hget] at hnil
  rw [fatNameToString, take_of_length_le (by omega : (f.drop 8).length ≤ 3)]
  change readPart (f.take 8) ++ (if f.getD 8 0 ≠ 32 then 46 :: readPart (f.drop 8) else []) = _
  by_cases h : f.getD 8 0 = 32
  · rw [if_neg (not_not.mpr h), if_pos (hnil.mpr h)]
  · rw [if_pos h, if_neg fun h' => h (hnil.mp h')]

theorem takeWhile_no_dot (h : 46 ∉ base) (rest : List UInt8) :
    (base ++ rest).takeWhile (· ≠ 46) = base ++ rest.takeWhile (· ≠ 46) ∧
      (base ++ rest).dropWhile (· ≠ 46) = rest.dropWhile (· ≠ 46) := by
  have hpos : ∀ b ∈ base, decide (b ≠ 46) = true :=
    fun b hb => decide_eq_true fun e => h (e ▸ hb)
  exact ⟨takeWhile_append_of_pos hpos, dropWhile_append_of_pos hpos⟩

theorem stringToFatName_base (h : 46 ∉ base) :
    stringToFatName base = padName 8 base ++ padName 3 [] := by
  obtain ⟨h1, h2⟩ := takeWhile_no_dot h []
  rw [append_nil, takeWhile_nil, append_nil] at h1
  rw [append_nil, dropWhile_nil] at h2
  rw [stringToFatName, h1, h2, drop_nil]

theorem stringToFatName_ext (h : 46 ∉ base) (ext : List UInt8) :
    stringToFatName (base ++ 46 :: ext) = padName 8 base ++ padName 3 ext := by
  obtain ⟨h1, h2⟩ := takeWhile_no_dot h (46 :: ext)
  have hdot : (46 :: ext).takeWhile (· ≠ 46) = [] := rfl
  have hext : (46 :: ext).dropWhile (· ≠ 46) = 46 :: ext := rfl
  rw [stringToFatName, h1, h2, hdot, hext, append_nil, drop_one, tail_cons]

/-- A string has no dot, or a first one. -/
theorem dot_cases (n : List UInt8) : 46 ∉ n ∨ ∃ base ext, 46 ∉ base ∧ n = base ++ 46 :: ext := by
  by_cases h : 46 ∈ n
  · obtain ⟨base, ext, rfl, hbase⟩ := eq_append_cons_of_mem h
    exact .inr ⟨base, ext, hbase, rfl⟩
  · exact .inl h

theorem fatNameToString_pad (base ext : List UInt8) :
    fatNameToString (padName 8 base ++ padName 3 ext) = readPart (padName 8 base) ++
      if readPart (padName 3 ext) = [] then [] else 46 :: readPart (padName 3 ext) := by
  have h8 := length_padName 8 base
  have hlen : (padName 8 base ++ padName 3 ext).length = 11 := by
    rw [length_append, h8, length_padName]
  rw [fatNameToString_eq hlen, take_left' h8, drop_left' h8]

/-- `base` or `base.ext`, as the 8.3 form can hold them. -/
def ShortName (n : List UInt8) : Prop :=
  ∃ base, base.length ≤ 8 ∧ 46 ∉ base ∧ (∀ b ∈ base, Plain b) ∧
    (n = base ∨ ∃ ext, 1 ≤ ext.length ∧ ext.length ≤ 3 ∧ (∀ b ∈ ext, Plain b) ∧ n = base ++ 46 :: ext)

/-- Without a NUL in it a name is compared whole. -/
theorem nameMatches_whole {n : List UInt8} (h : ∀ b ∈ fatNameToString f, b ≠ 0) :
    nameMatches f n = true ↔ fatNameToString f = n := by
  have hwhole : (fatNameToString f).takeWhile (· ≠ 0) = fatNameToString f :=
    takeWhile_eq_self_iff.mpr fun b hb => decide_eq_true (h b hb)
  rw [nameMatches, hwhole, decide_eq_true_iff]

theorem fatNameToString_pad_ne_zero {ext : List UInt8} (hbase : 0 ∉ base) (hext : 0 ∉ ext) :
    ∀ b ∈ fatNameToString (padName 8 base ++ padName 3 ext), b ≠ 0 := by
  intro b hb
  rw [fatNameToString_pad, mem_append] at hb
  rcases hb with hb | hb
  · exact read_padName_ne_zero hbase b hb
  split at hb
  · cases hb
  · rcases mem_cons.mp hb with rfl | hb
    · decide
    · exact read_padName_ne_zero hext b hb

/-- A name without a dot. -/
theorem matches_base (hdot : 46 ∉ base) (h0 : 0 ∉ base) :
    nameMatches (stringToFatName base) base = true ↔ base.length ≤ 8 ∧ ∀ b ∈ base, Plain b := by
  have hempty : readPart (padName 3 []) = [] := rfl
  rw [stringToFatName_base hdot,
    nameMatches_whole (fatNameToString_pad_ne_zero h0 not_mem_nil), fatNameToString_pad,
    if_pos hempty, append_nil, read_padName_iff]

/-- A name with a dot: nothing may be lost on either side of it. -/
theorem matches_ext {ext : List UInt8} (hdot : 46 ∉ base) (h0 : 0 ∉ base) (h0' : 0 ∉ ext) :
    nameMatches (stringToFatName (base ++ 46 :: ext)) (base ++ 46 :: ext) = true ↔
      (base.length ≤ 8 ∧ ∀ b ∈ base, Plain b) ∧ 1 ≤ ext.length ∧ ext.length ≤ 3 ∧
        ∀ b ∈ ext, Plain b := by
  rw [stringToFatName_ext hdot, nameMatches_whole (fatNameToString_pad_ne_zero h0 h0'),
    fatNameToString_pad]
  have hl1 := length_read_padName 8 base
  have hl2 := length_read_padName 3 ext
  constructor
  · intro h
    have hlen := congrArg List.length h
    by_cases hnil : readPart (padName 3 ext) = []
    · rw [if_pos hnil, append_nil, length_append, length_cons] at hlen
      omega
    rw [if_neg hnil, length_append, length_append, length_cons, length_cons] at hlen
    rw [if_neg hnil] at h
    obtain ⟨hb, he⟩ := append_inj h (by omega)
    have he' := (List.cons.inj he).2
    have hpos : 1 ≤ ext.length := by
      rw [← he']
      exact length_pos_iff.mpr hnil
    exact ⟨read_padName_iff.mp hb, hpos, read_padName_iff.mp he'⟩
  · intro ⟨hb, hpos, he⟩
    have hbase := read_padName_iff.mpr hb
    have hext := read_padName_iff.mpr he
    have hne : ext ≠ [] := length_pos_iff.mp hpos
    rw [hbase, hext, if_neg hne]

/-- The strings that match their own 8.3 form. -/
theorem nameMatches_iff {n : List UInt8} (h0 : 0 ∉ n) :
    nameMatches (stringToFatName n) n = true ↔ ShortName n := by
  rcases dot_cases n with hdot | ⟨base, ext, hdot, rfl⟩
  · rw [matches_base hdot h0]
    constructor
    · intro ⟨hlen, hplain⟩
      exact ⟨n, hlen, hdot, hplain, .inl rfl⟩
    · rintro ⟨base, hlen, -, hplain, rfl | ⟨ext, -, -, -, rfl⟩⟩
      · exact ⟨hlen, hplain⟩
      · exact absurd (mem_append_right _ mem_cons_self) hdot
  · have hb0 : 0 ∉ base := fun h => h0 (mem_append_left _ h)
    have he0 : 0 ∉ ext := fun h => h0 (mem_append_right _ (mem_cons_of_mem _ h))
    rw [matches_ext hdot hb0 he0]
    constructor
    · intro ⟨⟨hlen, hplain⟩, hpos, hle, hplain'⟩
      exact ⟨base, hlen, hdot, hplain, .inr ⟨ext, hpos, hle, hplain', rfl⟩⟩
    rintro ⟨base', hlen, hdot', hplain, h | ⟨ext', hpos, hle, hplain', h⟩⟩
    · rw [← h] at hdot'
      exact absurd (mem_append_right _ mem_cons_self) hdot'
    -- the first dot is in the same place
    have hsplit : base = base' ∧ ext = ext' := by
      have h1 := (takeWhile_no_dot hdot (46 :: ext)).1
      rw [h, (takeWhile_no_dot hdot' (46 :: ext')).1] at h1
      have hbb : base' = base := by simpa using h1
      subst hbb
      exact ⟨rfl, (List.cons.inj (append_cancel_left h)).2⟩
    obtain ⟨rfl, rfl⟩ := hsplit
    exact ⟨⟨hlen, hplain⟩, hpos, hle, hplain'⟩

/-! ## From the disk and back -/

/-- Blanks stand only at the end. -/
def Padded (l : List UInt8) : Prop := ∃ part k, 32 ∉ part ∧ l = part ++ List.replicate k 32

/-- Eleven bytes as a directory holds them. -/
structure FatForm (f : List UInt8) : Prop where
  length : f.length = 11
  noLower : ∀ b ∈ f, ¬ (97 ≤ b ∧ b ≤ 122)
  noZero : 0 ∉ f
  noDot : 46 ∉ f.take 8
  base : Padded (f.take 8)
  ext : Padded (f.drop 8)

/-- A padded field is the padded form of what is read of it. -/
theorem padName_readPart (hk : f.length = k) (hlow : ∀ b ∈ f, ¬ (97 ≤ b ∧ b ≤ 122))
    (hpad : Padded f) : padName k (readPart f) = f := by
  obtain ⟨part, j, hblank, rfl⟩ := hpad
  have hwhole : part.takeWhile (· ≠ 32) = part :=
    takeWhile_eq_self_iff.mpr fun b hb => decide_eq_true fun e => hblank (e ▸ hb)
  have hcase : part.map (upper ∘ lower) = part.map id :=
    map_congr_left fun b hb =>
      (upper_lower b).2.2.2.2.2.2.mpr (hlow b (mem_append_left _ hb))
  rw [length_append, length_replicate] at hk
  have hj : k - part.length = j := by omega
  rw [readPart, takeWhile_padding, hwhole, padName, length_map, hj,
    take_of_length_le (by rw [length_map]; omega), map_map, hcase, map_id]

theorem readPart_avoids {c : UInt8} (hlow : ∀ b, lower b = c ↔ b = c) (hf : c ∉ f) :
    c ∉ readPart f := by
  intro hc
  obtain ⟨b, hb, hbc⟩ := mem_map.mp hc
  rw [(hlow b).mp hbc] at hb
  exact hf ((takeWhile_sublist _).mem hb)

theorem FatForm.round_trip (h : FatForm f) :
    stringToFatName ((fatNameToString f).takeWhile (· ≠ 0)) = f := by
  have hbase := padName_readPart (by rw [length_take, h.length]; rfl)
    (fun b hb => h.noLower b (mem_of_mem_take hb)) h.base (k := 8)
  have hext := padName_readPart (by rw [length_drop, h.length])
    (fun b hb => h.noLower b (mem_of_mem_drop hb)) h.ext (k := 3)
  have hdot : 46 ∉ readPart (f.take 8) := readPart_avoids (fun b => (upper_lower b).2.2.2.2.1) h.noDot
  have hz1 : 0 ∉ readPart (f.take 8) :=
    readPart_avoids (fun b => (upper_lower b).2.2.2.1) fun hb => h.noZero (mem_of_mem_take hb)
  have hz2 : 0 ∉ readPart (f.drop 8) :=
    readPart_avoids (fun b => (upper_lower b).2.2.2.1) fun hb => h.noZero (mem_of_mem_drop hb)
  have hwhole : ∀ l : List UInt8, 0 ∉ l → l.takeWhile (· ≠ 0) = l := fun l hl =>
    takeWhile_eq_self_iff.mpr fun b hb => decide_eq_true fun e => hl (e ▸ hb)
  rw [fatNameToString_eq h.length]
  by_cases hnil : readPart (f.drop 8) = []
  · rw [hnil] at hext
    rw [if_pos hnil, append_nil, hwhole _ hz1, stringToFatName_base hdot, hbase, hext,
      take_append_drop]
  · have hz : 0 ∉ readPart (f.take 8) ++ 46 :: readPart (f.drop 8) := by
      rw [mem_append, mem_cons, not_or, not_or]
      exact ⟨hz1, by decide, hz2⟩
    rw [if_neg hnil, hwhole _ hz, stringToFatName_ext hdot, hbase, hext, take_append_drop]

end

/-- Which names survive the way to the disk and back, in both directions. -/
theorem names_round_trip :
    (∀ n : List UInt8, 0 ∉ n → (nameMatches (stringToFatName n) n = true ↔ ShortName n)) ∧
    ∀ f : List UInt8, FatForm f → stringToFatName ((fatNameToString f).takeWhile (· ≠ 0)) = f :=
  ⟨fun _ h0 => nameMatches_iff h0, fun _ h => h.round_trip⟩

/-- `a.txt`, and `A       TXT` on the disk. -/
theorem names_round_trip_txt :
    nameMatches (stringToFatName [97, 46, 116, 120, 116]) [97, 46, 116, 120, 116] = true ∧
    stringToFatName ((fatNameToString [65, 32, 32, 32, 32, 32, 32, 32, 84, 88, 84]).takeWhile
      (· ≠ 0)) = [65, 32, 32, 32, 32, 32, 32, 32, 84, 88, 84] := by
  have hform : FatForm [65, 32, 32, 32, 32, 32, 32, 32, 84, 88, 84] :=
    ⟨rfl, by decide +kernel, by decide, by decide, ⟨[65], 7, by decide, rfl⟩,
      ⟨[84, 88, 84], 0, by decide, rfl⟩⟩
  refine ⟨(names_round_trip.1 _ (by decide)).mpr ?_, names_round_trip.2 _ hform⟩
  refine ⟨[97], by decide, by decide, ?_, .inr ⟨[116, 120, 116], by decide, by decide, ?_, rfl⟩⟩
  all_goals
    unfold Plain
    decide +kernel

end HackersOs.L4.Fat

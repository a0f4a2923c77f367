import Mathlib.Data.List.TakeWhile
import HackersOs.L3Net.DnsMessages

/-!
# The query of the DNS resolver

`resolve` builds its query in `query[512]`: a header, the name, type and class.
`encode_name` has the 500 bytes behind the header. It compares the end of a label
with them, but it has cut the label's length to a byte by then; and the four bytes
of type and class are not part of the comparison.

Results:
* `dns_name_encoded`: a hostname becomes its labels in wire format, which `skip_name`
  skips.
* `buildQuery_message`: the query is a message with one question.
* `query_in_bounds_iff`: for which hostnames the query stays in its buffers.
-/
namespace HackersOs.L3.Dns
open HackersOs.Core Net HackersOs.Core.Traced List

variable {b : UInt8} {w : List UInt8}

/-! ## The code -/

/-- `query[off] = b` -/
def storeByte (query : Frame) (off : Nat) (b : UInt8) : Traced Access Frame := do
  Traced.event (.write 512 off 1)
  pure fun i => if i = off then b else query i

/-- `while (p < dot) buf[pos++] = *p++`; `buf` is `query + 12`. mirrors src/net/dns.cpp:41 -/
def copyLabel : List UInt8 → Frame → UInt32 → Traced Access (Frame × UInt32)
  | [], query, pos => pure (query, pos)
  | b :: label, query, pos => do
    let query ← storeByte query (12 + pos.toNat) b
    copyLabel label query (pos + 1)

/-- From `p` to the next dot. -/
def firstLabel (name : List UInt8) : List UInt8 := name.takeWhile (· ≠ 46)

/-- Behind that dot. -/
def afterLabel (name : List UInt8) : List UInt8 := (name.dropWhile (· ≠ 46)).drop 1

/-- The loop of `encode_name`; a round takes one character at least.
mirrors src/net/dns.cpp:32-43 -/
def encodeLoop : Nat → List UInt8 → Frame → UInt32 → Traced Access (Frame × UInt32)
  | 0, _, query, pos => pure (query, pos)
  | n + 1, name, query, pos =>
    if name ≠ [] ∧ pos < 500 - 2 then
      let labelLen := UInt8.ofNat (firstLabel name).length
      if pos + 1 + labelLen.toUInt32 ≥ 500 then pure (query, pos)
      else do
        let query ← storeByte query (12 + pos.toNat) labelLen
        let r ← copyLabel (firstLabel name) query (pos + 1)
        encodeLoop n (afterLabel name) r.1 r.2
    else pure (query, pos)

/-- `name` is the string without its NUL. mirrors src/net/dns.cpp:28-46 -/
def encodeName (name : List UInt8) (query : Frame) : Traced Access (Frame × UInt32) := do
  let r ← encodeLoop name.length name query 0
  let query ← storeByte r.1 (12 + r.2.toNat) 0
  pure (query, r.2 + 1)

def queryHeader (txid : UInt16) : List UInt8 :=
  be16Bytes txid ++ be16Bytes 0x0100 ++ be16Bytes 1 ++ be16Bytes 0 ++ be16Bytes 0 ++ be16Bytes 0

/-- The query and its length; `udp_pkt` has room for 520 bytes.
mirrors src/net/dns.cpp:70-100 -/
def buildQuery (txid : UInt16) (hostname : List UInt8) (query : Frame) :
    Traced Access (Frame × UInt32) := do
  Traced.event (.write 512 0 12)
  let query : Frame := fun i => if i < 12 then (queryHeader txid).getD i 0 else query i
  let r ← encodeName hostname query
  let qlen := 12 + r.2
  let query ← storeByte r.1 qlen.toNat 0
  let query ← storeByte query (qlen + 1).toNat 1
  let query ← storeByte query (qlen + 2).toNat 0
  let query ← storeByte query (qlen + 3).toNat 1
  let qlen := qlen + 4
  Traced.event (.write 520 0 8)
  Traced.event (.read 0 qlen.toNat)
  Traced.event (.write 520 8 qlen.toNat)
  pure (query, qlen)

section
variable {name label : List UInt8} {q : Frame} {pos : UInt32} {n : Nat}

/-! ## Labels of a name -/

/-- Label `w` stands at offset `o` of a name. Between two dots in a row there is an
empty one, behind a dot at the end there is none. -/
inductive LabelOf : List UInt8 → Nat → List UInt8 → Prop where
  | last {w : List UInt8} : 46 ∉ w → w ≠ [] → LabelOf w 0 w
  | first {w t : List UInt8} : 46 ∉ w → LabelOf (w ++ 46 :: t) 0 w
  | later {w t v : List UInt8} {o : Nat} :
      46 ∉ w → LabelOf t o v → LabelOf (w ++ 46 :: t) (w.length + 1 + o) v

theorem no_dot (h : 46 ∉ w) : ∀ b ∈ w, decide (b ≠ 46) = true := by
  intro b hb
  exact decide_eq_true (ne_of_mem_of_not_mem hb h)

theorem firstLabel_last (h : 46 ∉ w) : firstLabel w = w ∧ afterLabel w = [] := by
  rw [firstLabel, afterLabel, takeWhile_eq_self_iff.mpr (no_dot h),
    dropWhile_eq_nil_iff.mpr (no_dot h)]
  exact ⟨rfl, rfl⟩

theorem firstLabel_dot (h : 46 ∉ w) (t : List UInt8) :
    firstLabel (w ++ 46 :: t) = w ∧ afterLabel (w ++ 46 :: t) = t := by
  rw [firstLabel, afterLabel, takeWhile_append_of_pos (no_dot h), dropWhile_append_of_pos (no_dot h)]
  simp

/-- A name is one label, or a label, a dot and the rest. -/
theorem name_cases (name : List UInt8) :
    (46 ∉ name ∧ firstLabel name = name ∧ afterLabel name = []) ∨
    46 ∉ firstLabel name ∧ name = firstLabel name ++ 46 :: afterLabel name := by
  by_cases h : 46 ∈ name
  · obtain ⟨w, t, rfl, hw⟩ := eq_append_cons_of_mem h
    obtain ⟨hfirst, hafter⟩ := firstLabel_dot hw t
    rw [hfirst, hafter]
    exact .inr ⟨hw, rfl⟩
  · exact .inl ⟨h, firstLabel_last h⟩

theorem not_labelOf_nil {o : Nat} : ¬ LabelOf [] o w := by
  intro h
  generalize hnil : ([] : List UInt8) = name at h
  cases h with
  | last _ hne => exact hne hnil.symm
  | first => simp at hnil
  | later => simp at hnil

theorem labelOf_iff (hne : name ≠ []) {o : Nat} : LabelOf name o w ↔ (o = 0 ∧ w = firstLabel name) ∨
      ∃ o', o = (firstLabel name).length + 1 + o' ∧ LabelOf (afterLabel name) o' w := by
  constructor
  · intro h
    cases h with
    | last hdot _ => exact .inl ⟨rfl, (firstLabel_last hdot).1.symm⟩
    | @first w t hdot => exact .inl ⟨rfl, (firstLabel_dot hdot t).1.symm⟩
    | @later v t _ o' hdot hrest =>
      obtain ⟨hfirst, hafter⟩ := firstLabel_dot hdot t
      rw [hfirst, hafter]
      exact .inr ⟨o', rfl, hrest⟩
  · intro h
    rcases name_cases name with ⟨hdot, hfirst, hafter⟩ | ⟨hdot, hname⟩
    · rw [hfirst, hafter] at h
      rcases h with ⟨rfl, rfl⟩ | ⟨o', -, hrest⟩
      · exact .last hdot hne
      · exact absurd hrest not_labelOf_nil
    · rcases h with ⟨rfl, rfl⟩ | ⟨o', rfl, hrest⟩
      · rw [hname, (firstLabel_dot hdot _).1]
        exact .first hdot
      · rw [hname, (firstLabel_dot hdot _).1]
        exact .later hdot hrest

theorem length_afterLabel (hne : name ≠ []) : (afterLabel name).length < name.length := by
  rcases name_cases name with ⟨-, -, hafter⟩ | ⟨-, hname⟩
  · rw [hafter]
    exact length_pos_iff.mpr hne
  · have hlen := congrArg List.length hname
    rw [length_append, length_cons] at hlen
    omega

/-! ## Writes -/

@[simp] theorem every_storeByte {P : Access → Prop} {off : Nat} :
    Every P (storeByte q off b) ↔ P (.write 512 off 1) := by
  simp [storeByte]

@[simp] theorem value_storeByte {off : Nat} :
    (storeByte q off b).value = fun i => if i = off then b else q i := rfl

theorem toNat_succ (h : pos.toNat + 1 < 2 ^ 32) : (pos + 1).toNat = pos.toNat + 1 := by
  rw [UInt32.toNat_add]
  exact Nat.mod_eq_of_lt h

theorem copyLabel_pos (label : List UInt8) {q : Frame} (h : pos.toNat + label.length < 2 ^ 32) :
    (copyLabel label q pos).value.2.toNat = pos.toNat + label.length := by
  induction label generalizing q pos with
  | nil => rfl
  | cons b label ih =>
    rw [length_cons] at h ⊢
    have hpos := @toNat_succ pos (by omega)
    rw [copyLabel, value_bind, ih (by omega), hpos]
    omega

/-- A label that starts in the buffer is copied inside it exactly when it ends there. -/
theorem copyLabel_inBounds (label : List UInt8) (h : pos.toNat ≤ 500) :
    Every (Access.InBounds 512) (copyLabel label q pos) ↔ pos.toNat + label.length ≤ 500 := by
  induction label generalizing q pos with
  | nil => exact iff_of_true (every_pure _) h
  | cons b label ih =>
    rw [copyLabel, every_bind, every_storeByte, length_cons]
    simp only [Access.InBounds]
    by_cases hlt : pos.toNat < 500
    · have hpos := @toNat_succ pos (by omega)
      rw [ih (by omega), hpos]
      omega
    · refine iff_of_false ?_ (by omega)
      intro hall
      omega

theorem copyLabel_holds (label : List UInt8) {q : Frame} (h : pos.toNat + label.length < 2 ^ 32) :
    Holds (copyLabel label q pos).value.1 (12 + pos.toNat) label ∧
    ∀ i, i < 12 + pos.toNat ∨ 12 + pos.toNat + label.length ≤ i →
      (copyLabel label q pos).value.1 i = q i := by
  induction label generalizing q pos with
  | nil => exact ⟨holds_nil, fun _ _ => rfl⟩
  | cons b label ih =>
    rw [length_cons] at h
    have hpos := @toNat_succ pos (by omega)
    rw [copyLabel, value_bind, value_storeByte]
    obtain ⟨hrest, hout⟩ := @ih (pos + 1) (fun i => if i = 12 + pos.toNat then b else q i) (by omega)
    rw [hpos] at hrest hout
    refine ⟨holds_cons.mpr ⟨?_, hrest⟩, fun i hi => ?_⟩
    · rw [hout _ (.inl (by omega)), if_pos rfl]
    · rw [length_cons] at hi
      rw [hout i (by omega), if_neg (by omega)]

/-! ## Rounds -/

/-- The comparison in front of a label, for a position in the buffer. -/
theorem refuses_iff (h : pos.toNat < 500) (w : List UInt8) :
    pos + 1 + (UInt8.ofNat w.length).toUInt32 ≥ 500 ↔ 500 ≤ pos.toNat + 1 + w.length % 256 := by
  rw [ge_iff_le, UInt32.le_iff_toNat_le, UInt32.toNat_add, toNat_succ (by omega),
    UInt8.toNat_toUInt32,
    UInt8.toNat_ofNat']
  change 500 ≤ _ % 2 ^ 32 ↔ _
  omega

theorem encodeLoop_refuses (hpos : pos.toNat < 498)
    (h : 500 ≤ pos.toNat + 1 + (firstLabel name).length % 256) :
    encodeLoop (n + 1) name q pos = pure (q, pos) := by
  rw [encodeLoop]
  split
  · exact if_pos ((refuses_iff (by omega) _).mpr h)
  · rfl

theorem encodeLoop_takes (hne : name ≠ []) (hpos : pos.toNat < 498)
    (h : ¬ 500 ≤ pos.toNat + 1 + (firstLabel name).length % 256) :
    encodeLoop (n + 1) name q pos = (do
      let query ← storeByte q (12 + pos.toNat) (UInt8.ofNat (firstLabel name).length)
      let r ← copyLabel (firstLabel name) query (pos + 1)
      encodeLoop n (afterLabel name) r.1 r.2) := by
  have hlt : pos < 500 - 2 := UInt32.lt_iff_toNat_lt.mpr hpos
  rw [encodeLoop, if_pos ⟨hne, hlt⟩]
  exact if_neg (mt (refuses_iff (by omega) _).mp h)

theorem encodeLoop_stops (hpos : ¬ pos.toNat < 498) : encodeLoop n name q pos = pure (q, pos) := by
  cases n with
  | zero => rfl
  | succ n =>
    rw [encodeLoop, if_neg]
    intro hc
    exact hpos (UInt32.lt_iff_toNat_lt.mp hc.2)

theorem encodeLoop_nil : encodeLoop n [] q pos = pure (q, pos) := by
  cases n with
  | zero => rfl
  | succ n => rw [encodeLoop, if_neg (fun hc => hc.1 rfl)]

/-- A round that takes a label, as far as its writes are concerned. -/
theorem round_inBounds {m : Frame → UInt32 → Traced Access (Frame × UInt32)}
    (hpos : pos.toNat < 498) : Every (Access.InBounds 512) (do
      let query ← storeByte q (12 + pos.toNat) b
      let r ← copyLabel w query (pos + 1)
      m r.1 r.2) ↔
    pos.toNat + 1 + w.length ≤ 500 ∧ Every (Access.InBounds 512)
      (m (copyLabel w (storeByte q (12 + pos.toNat) b).value (pos + 1)).value.1
        (copyLabel w (storeByte q (12 + pos.toNat) b).value (pos + 1)).value.2) := by
  have hsucc := @toNat_succ pos (by omega)
  rw [every_bind, every_storeByte, every_bind, copyLabel_inBounds _ (by omega), hsucc]
  simp only [Access.InBounds]
  constructor
  · intro hall
    exact hall.2
  · intro hall
    exact ⟨by omega, hall⟩

/-- A loop inside the buffer only moves forward in it. -/
theorem encodeLoop_mono (h : pos.toNat ≤ 500)
    (hin : Every (Access.InBounds 512) (encodeLoop n name q pos)) :
    pos.toNat ≤ (encodeLoop n name q pos).value.2.toNat := by
  induction n generalizing name q pos with
  | zero => exact Nat.le_refl _
  | succ n ih =>
    by_cases hne : name = []
    · rw [hne, encodeLoop_nil]
      exact Nat.le_refl _
    by_cases hpos : pos.toNat < 498
    swap
    · rw [encodeLoop_stops hpos]
      exact Nat.le_refl _
    by_cases href : 500 ≤ pos.toNat + 1 + (firstLabel name).length % 256
    · rw [encodeLoop_refuses hpos href]
      exact Nat.le_refl _
    rw [encodeLoop_takes hne hpos href] at hin ⊢
    obtain ⟨hlen, hrest⟩ := (round_inBounds hpos).mp hin
    have hsucc := @toNat_succ pos (by omega)
    have hend := @copyLabel_pos (pos + 1) (firstLabel name)
      (storeByte q (12 + pos.toNat) (UInt8.ofNat (firstLabel name).length)).value (by omega)
    have hnext := ih (by omega) hrest
    rw [value_bind, value_bind]
    omega

/-! ## Which names fit -/

/-- A label that starts before byte 495 of the name and ends behind it is refused: its length
modulo 256 takes it past the 500 bytes. -/
def Contained (start : Nat) (name : List UInt8) : Prop :=
  ∀ o w, LabelOf name o w → start + o ≤ 495 → 495 < start + o + 1 + w.length →
    500 ≤ start + o + 1 + w.length % 256

theorem contained_nil (start : Nat) : Contained start [] := fun _ _ h => absurd h not_labelOf_nil

theorem contained_iff {start : Nat} (hne : name ≠ []) (hstart : start ≤ 495) : Contained start name ↔
    (495 < start + 1 + (firstLabel name).length → 500 ≤ start + 1 + (firstLabel name).length % 256) ∧
      Contained (start + 1 + (firstLabel name).length) (afterLabel name) := by
  constructor
  · intro h
    refine ⟨fun hlong => ?_, fun o w hw h1 h2 => ?_⟩
    · have := h 0 (firstLabel name) ((labelOf_iff hne).mpr (.inl ⟨rfl, rfl⟩)) hstart (by omega)
      omega
    · have := h _ w ((labelOf_iff hne).mpr (.inr ⟨o, rfl, hw⟩)) (by omega) (by omega)
      omega
  · intro h o w hw h1 h2
    obtain ⟨hfirst, hrest⟩ := h
    rcases (labelOf_iff hne).mp hw with ⟨rfl, rfl⟩ | ⟨o', rfl, hw'⟩
    · have := hfirst (by omega)
      omega
    · have := hrest o' w hw' (by omega) (by omega)
      omega

/-- Behind byte 495 there is nothing to ask for. -/
theorem contained_of_lt {start : Nat} (h : 495 < start) : Contained start name := by
  intro o w _ h1 _
  omega

/-- The loop stays in the buffer, with room for the five bytes behind it, exactly if the
name is `Contained`. -/
theorem encodeLoop_iff (hn : name.length ≤ n) (hpos : pos.toNat ≤ 495) :
    (Every (Access.InBounds 512) (encodeLoop n name q pos) ∧
      (encodeLoop n name q pos).value.2.toNat ≤ 495) ↔ Contained pos.toNat name := by
  induction n generalizing name q pos with
  | zero =>
    rw [eq_nil_of_length_eq_zero (Nat.le_zero.mp hn)]
    exact iff_of_true ⟨every_pure _, hpos⟩ (contained_nil _)
  | succ n ih =>
    by_cases hne : name = []
    · rw [hne, encodeLoop_nil]
      exact iff_of_true ⟨every_pure _, hpos⟩ (contained_nil _)
    have hshorter := length_afterLabel hne
    rw [contained_iff hne hpos]
    by_cases href : 500 ≤ pos.toNat + 1 + (firstLabel name).length % 256
    · -- refused: the name is cut in front of the label
      rw [encodeLoop_refuses (by omega) href]
      refine iff_of_true ⟨every_pure _, hpos⟩ ⟨fun _ => href, contained_of_lt (by omega)⟩
    have hsucc := @toNat_succ pos (by omega)
    rw [encodeLoop_takes hne (by omega) href, round_inBounds (by omega), value_bind, value_bind]
    generalize hr : (copyLabel (firstLabel name)
      (storeByte q (12 + pos.toNat) (UInt8.ofNat (firstLabel name).length)).value (pos + 1)).value = r
    have hend (hfit : pos.toNat + 1 + (firstLabel name).length ≤ 500) :
        r.2.toNat = pos.toNat + 1 + (firstLabel name).length := by
      rw [← hr, copyLabel_pos _ (by omega), hsucc]
    by_cases hlong : 495 < pos.toNat + 1 + (firstLabel name).length
    · -- taken too far: what follows cannot go back
      refine iff_of_false ?_ fun hc => href (hc.1 hlong)
      intro hc
      obtain ⟨⟨hfit, hin⟩, hle⟩ := hc
      have hmono := encodeLoop_mono (by rw [hend hfit]; exact hfit) hin
      have := hend hfit
      omega
    · have hfit : pos.toNat + 1 + (firstLabel name).length ≤ 500 := by omega
      have hrest := @ih (afterLabel name) r.1 r.2 (by omega) (by rw [hend hfit]; omega)
      rw [hend hfit] at hrest
      rw [and_assoc, hrest]
      constructor
      · intro hc
        exact ⟨fun h => absurd h hlong, hc.2⟩
      · intro hc
        exact ⟨hfit, hc.2⟩

/-- The offsets behind a name of `len` bytes. -/
theorem toNat_behind {len : UInt32} (h : len.toNat ≤ 500) :
    (12 + len).toNat = 12 + len.toNat ∧ (12 + len + 1).toNat = 12 + len.toNat + 1 ∧
      (12 + len + 2).toNat = 12 + len.toNat + 2 ∧ (12 + len + 3).toNat = 12 + len.toNat + 3 ∧
      (12 + len + 4).toNat = 12 + len.toNat + 4 := by
  have h0 : (12 + len).toNat = 12 + len.toNat := by
    rw [UInt32.toNat_add]
    exact Nat.mod_eq_of_lt (show 12 + len.toNat < 2 ^ 32 by omega)
  have hadd (k : UInt32) (hk : k.toNat ≤ 4) : (12 + len + k).toNat = 12 + len.toNat + k.toNat := by
    rw [UInt32.toNat_add, h0]
    exact Nat.mod_eq_of_lt (by omega)
  exact ⟨h0, hadd 1 (by decide), hadd 2 (by decide), hadd 3 (by decide), hadd 4 (by decide)⟩

/-- The bytes behind the loop: the root label, type and class, and the copy. -/
theorem buildQuery_inBounds (txid : UInt16) (hostname : List UInt8) (q : Frame) :
    ∃ q₀, (Every (Access.InBounds 512) (buildQuery txid hostname q) ↔
      Every (Access.InBounds 512) (encodeLoop hostname.length hostname q₀ 0) ∧
        (encodeLoop hostname.length hostname q₀ 0).value.2.toNat ≤ 495) := by
  refine ⟨fun i => if i < 12 then (queryHeader txid).getD i 0 else q i, ?_⟩
  generalize hloop : encodeLoop hostname.length hostname _ 0 = loop
  simp only [buildQuery, encodeName, hloop, every_bind, every_event, every_storeByte,
    every_pure, value_bind, value_pure, Access.InBounds, and_true]
  have hsucc (h : loop.value.2.toNat ≤ 499) := @toNat_succ loop.value.2 (by omega)
  constructor
  · intro hall
    obtain ⟨-, ⟨hin, hroot⟩, -, -, -, hlast, -⟩ := hall
    obtain ⟨-, -, -, h3, -⟩ := @toNat_behind (loop.value.2 + 1) (by omega)
    exact ⟨hin, by omega⟩
  · intro hall
    obtain ⟨hin, hle⟩ := hall
    obtain ⟨h0, h1, h2, h3, h4⟩ := @toNat_behind (loop.value.2 + 1) (by omega)
    exact ⟨by decide, ⟨hin, by omega⟩, by omega, by omega, by omega, by omega, by decide, by omega,
      by omega⟩

/-- For every hostname: the query is written inside `query` and `udp_pkt` if and only if each
label that starts at one of the first 496 characters and would end behind 495 bytes is
refused, because its length modulo 256 reaches the end of the buffer. -/
theorem query_in_bounds_iff (txid : UInt16) (hostname : List UInt8) (query : Frame) :
    Every (Access.InBounds 512) (buildQuery txid hostname query) ↔
      ∀ o w, LabelOf hostname o w → o ≤ 495 → 495 < o + 1 + w.length →
        500 ≤ o + 1 + w.length % 256 := by
  obtain ⟨q₀, hbuild⟩ := buildQuery_inBounds txid hostname query
  rw [hbuild, encodeLoop_iff (Nat.le_refl _) (Nat.zero_le _)]
  change Contained 0 hostname ↔ _
  simp only [Contained, Nat.zero_add]

/-- **Counterexample.** One label of 512 letters. Its length is cut to 0, so that it passes the
comparison, and all of it is copied. -/
theorem long_label_overruns :
    ¬ Every (Access.InBounds 512) (buildQuery 1 (List.replicate 512 97) fun _ => 0) := by
  have hlabel : LabelOf (List.replicate 512 97) 0 (List.replicate 512 97) := by
    refine .last ?_ (ne_nil_of_length_pos (by rw [length_replicate]; decide))
    intro h
    exact absurd (eq_of_mem_replicate h) (by decide)
  obtain ⟨q₀, hbuild⟩ := buildQuery_inBounds 1 (List.replicate 512 97) fun _ => 0
  rw [hbuild, encodeLoop_iff (Nat.le_refl _) (Nat.zero_le _)]
  intro hc
  have hrefused := hc 0 _ hlabel (Nat.zero_le _) (by rw [length_replicate]; decide)
  rw [length_replicate] at hrefused
  exact absurd hrefused (by decide)

end

/-! ## Hostnames -/

/-- A label as it may stand between two dots. -/
structure HostLabel extends Label where
  noDot : 46 ∉ text
  noNul : 0 ∉ text

/-- Labels with single dots between them, and perhaps one behind the last. -/
structure Hostname where
  labels : List HostLabel
  trailing : Bool

def dotted (trailing : Bool) : List HostLabel → List UInt8
  | [] => []
  | l :: ls =>
    l.text ++ if ls = [] then (if trailing then [46] else []) else 46 :: dotted trailing ls

def Hostname.text (h : Hostname) : List UInt8 := dotted h.trailing h.labels

/-- The wire format: a length byte and the text for each label, and a zero byte. -/
def Hostname.wire (h : Hostname) : List UInt8 := Name.bytes ⟨h.labels.map HostLabel.toLabel, .root⟩

section
variable {trailing : Bool} {q : Frame} {pos : UInt32} {n : Nat}

theorem dotted_cons (l : HostLabel) (ls : List HostLabel) :
    firstLabel (dotted trailing (l :: ls)) = l.text ∧
      afterLabel (dotted trailing (l :: ls)) = dotted trailing ls := by
  rw [dotted]
  cases ls with
  | cons l' ls =>
    rw [if_neg (cons_ne_nil _ _)]
    exact firstLabel_dot l.noDot _
  | nil =>
    rw [if_pos rfl]
    cases trailing with
    | true => exact firstLabel_dot l.noDot []
    | false =>
      rw [if_neg (by decide), append_nil]
      exact firstLabel_last l.noDot

theorem dotted_ne_nil (l : HostLabel) (ls : List HostLabel) : dotted trailing (l :: ls) ≠ [] := by
  rw [dotted]
  exact append_ne_nil_of_left_ne_nil (length_pos_iff.mp l.nonempty) _

theorem Label.length_bytes (l : Label) : l.bytes.length = 1 + l.text.length := by
  rw [Label.bytes, length_cons, Nat.add_comm]

/-- What the loop has written once `ls` is done. -/
theorem encodeLoop_labels (ls : List HostLabel) (hn : (dotted trailing ls).length ≤ n)
    (hroom : pos.toNat + (ls.flatMap fun l => l.bytes).length < 498) :
    (encodeLoop n (dotted trailing ls) q pos).value.2.toNat =
      pos.toNat + (ls.flatMap fun l => l.bytes).length ∧
    Holds (encodeLoop n (dotted trailing ls) q pos).value.1 (12 + pos.toNat)
      (ls.flatMap fun l => l.bytes) ∧
    ∀ i, i < 12 + pos.toNat ∨ 12 + pos.toNat + (ls.flatMap fun l => l.bytes).length ≤ i →
      (encodeLoop n (dotted trailing ls) q pos).value.1 i = q i := by
  induction ls generalizing n q pos with
  | nil =>
    rw [dotted, encodeLoop_nil]
    exact ⟨rfl, holds_nil, fun _ _ => rfl⟩
  | cons l ls ih =>
    have hne : dotted trailing (l :: ls) ≠ [] := dotted_ne_nil l ls
    obtain ⟨hfirst, hafter⟩ := @dotted_cons trailing l ls
    have hshorter := length_afterLabel hne
    obtain ⟨n, rfl⟩ : ∃ k, n = k + 1 := ⟨n - 1, by omega⟩
    rw [flatMap_cons, length_append, Label.length_bytes] at hroom ⊢
    have hsucc := @toNat_succ pos (by omega)
    have htakes := @encodeLoop_takes (dotted trailing (l :: ls)) q pos n hne (by omega)
      (by rw [hfirst]; omega)
    rw [hfirst, hafter] at htakes
    rw [htakes, value_bind, value_bind, value_storeByte]
    generalize hq : (fun i => if i = 12 + pos.toNat then UInt8.ofNat l.text.length else q i) = q₁
    have hend := @copyLabel_pos (pos + 1) l.text q₁ (by omega)
    obtain ⟨hlabel, hkeep⟩ := @copyLabel_holds (pos + 1) l.text q₁ (by omega)
    generalize (copyLabel l.text q₁ (pos + 1)).value = r at hend hlabel hkeep ⊢
    rw [hsucc] at hend hlabel hkeep
    rw [hafter] at hshorter
    obtain ⟨hpos, hrest, hout⟩ := @ih r.1 r.2 n (by omega) (by omega)
    rw [hend] at hpos hrest hout
    have hnext : 12 + (pos.toNat + 1 + l.text.length) = 12 + pos.toNat + (1 + l.text.length) :=
      by omega
    rw [hnext] at hrest hout
    refine ⟨by omega, ?_, fun i hi => ?_⟩
    · rw [holds_append, Label.length_bytes]
      refine ⟨?_, hrest⟩
      -- the rest is written behind the label
      rw [Label.bytes, holds_cons]
      refine ⟨?_, fun i hi => ?_⟩
      · rw [hout _ (.inl (by omega)), hkeep _ (.inl (by omega)), ← hq]
        exact if_pos rfl
      · rw [hout _ (.inl (by omega))]
        exact hlabel i hi
    · rw [hout i (by omega), hkeep i (by omega), ← hq]
      exact if_neg (by omega)

theorem Hostname.wire_eq (h : Hostname) : h.wire = (h.labels.flatMap fun l => l.bytes) ++ [0] := by
  rw [Hostname.wire, Name.bytes, flatMap_map]
  rfl

/-- The name behind the header, and nothing else. -/
theorem encodeName_hostname (h : Hostname) (hwire : h.wire.length ≤ 255) (query : Frame) :
    (encodeName h.text query).value.2.toNat = h.wire.length ∧
      Holds (encodeName h.text query).value.1 12 h.wire ∧
      ∀ i, i < 12 ∨ 12 + h.wire.length ≤ i → (encodeName h.text query).value.1 i = query i := by
  rw [h.wire_eq, length_append, length_singleton] at hwire ⊢
  obtain ⟨hpos, hbytes, hout⟩ := @encodeLoop_labels h.trailing query 0 _ h.labels (Nat.le_refl _)
    (by change 0 + _ < _; omega)
  rw [encodeName, value_bind, value_bind, value_storeByte, value_pure]
  change _ = 0 + _ at hpos
  change Holds _ (12 + 0) _ at hbytes
  change ∀ i, i < 12 + 0 ∨ 12 + 0 + _ ≤ i → _ at hout
  rw [Nat.zero_add] at hpos
  rw [Nat.add_zero] at hbytes hout
  unfold Hostname.text
  generalize (encodeLoop _ (dotted h.trailing h.labels) query 0).value = r at hpos hbytes hout ⊢
  refine ⟨?_, holds_append.mpr ⟨fun i hi => ?_, ?_⟩, fun i hi => ?_⟩
  · rw [toNat_succ (by omega), hpos]
  · exact (if_neg (by omega)).trans (hbytes i hi)
  · rw [holds_cons, hpos]
    exact ⟨if_pos rfl, holds_nil⟩
  · exact (if_neg (by omega)).trans (hout i (by omega))

/-- For every hostname whose wire format has at most 255 bytes: `encode_name` writes this
format behind the header and nothing else, and returns its length; and `skip_name` goes from
its first byte to just behind it, wherever it stands and whatever follows. -/
theorem dns_name_encoded (h : Hostname) (hwire : h.wire.length ≤ 255) (query : Frame) :
    ((encodeName h.text query).value.2.toNat = h.wire.length ∧
      Holds (encodeName h.text query).value.1 12 h.wire ∧
      ∀ i, i < 12 ∨ 12 + h.wire.length ≤ i → (encodeName h.text query).value.1 i = query i) ∧
    ∀ (buf : Frame) (p stop : Nat), Holds buf p h.wire → p + h.wire.length ≤ stop →
      skipName buf p stop = p + h.wire.length := by
  refine ⟨encodeName_hostname h hwire query, ?_⟩
  intro buf p stop hbuf hstop
  exact skipName_name _ hbuf hstop

/-- One question for the host's addresses, with recursion desired. -/
def Hostname.query (h : Hostname) (txid : UInt16) : Message where
  id := txid
  flags := 0x0100
  questions := [⟨⟨h.labels.map HostLabel.toLabel, .root⟩, 1, 1⟩]
  answers := []
  nscount := 0
  arcount := 0
  rest := []
  qdcount_lt := Nat.one_lt_two_pow (by decide)
  ancount_lt := by decide

/-- What is sent is that message. -/
theorem buildQuery_message (h : Hostname) (hwire : h.wire.length ≤ 255) (txid : UInt16)
    (query : Frame) :
    Holds (buildQuery txid h.text query).value.1 0 (h.query txid).bytes ∧
      (buildQuery txid h.text query).value.2.toNat = (h.query txid).bytes.length := by
  have hbytes : (h.query txid).bytes = queryHeader txid ++ (h.wire ++ [0, 1, 0, 1]) := by
    simp only [Hostname.query, Message.bytes, Question.bytes, flatMap_cons, flatMap_nil,
      append_nil, Hostname.wire]
    rfl
  have hheader : (queryHeader txid).length = 12 := rfl
  rw [buildQuery]
  simp only [value_bind, value_storeByte, value_pure]
  obtain ⟨hpos, hname, hout⟩ := encodeName_hostname h hwire
    fun i => if i < 12 then (queryHeader txid).getD i 0 else query i
  generalize (encodeName h.text _).value = r at hpos hname hout ⊢
  obtain ⟨h0, h1, h2, h3, h4⟩ := @toNat_behind r.2 (by omega)
  rw [hpos] at h0 h1 h2 h3 h4
  rw [hbytes, h0, h1, h2, h3, h4]
  constructor
  · rw [holds_append, holds_append, hheader, Nat.zero_add]
    refine ⟨fun i hi => ?_, fun i hi => ?_, ?_⟩
    · have hlow : i < 12 := hi
      rw [Nat.zero_add]
      beta_reduce
      rw [if_neg (by omega), if_neg (by omega), if_neg (by omega), if_neg (by omega),
        hout i (.inl hlow), if_pos hlow, getD_eq_getElem?_getD, List.getElem?_eq_getElem hi]
      rfl
    · beta_reduce
      rw [if_neg (by omega), if_neg (by omega), if_neg (by omega), if_neg (by omega)]
      exact hname i hi
    · simp [holds_cons, holds_nil]
  · simp only [length_append, hheader, length_cons, length_nil]
    omega

end

def hostA : HostLabel := ⟨labelA, by decide, by decide⟩
def hostB : HostLabel := ⟨labelB, by decide, by decide⟩

theorem buildQuery_dot : (buildQuery 7 [97, 46, 98, 46] fun _ => 0).value.2.toNat =
    (Hostname.query ⟨[hostA, hostB], true⟩ 7).bytes.length :=
  (buildQuery_message ⟨[hostA, hostB], true⟩ (by decide) 7 fun _ => 0).2

/-- `a.b.` -/
theorem dns_name_encoded_dot :
    Holds (encodeName [97, 46, 98, 46] fun _ => 7).value.1 12 [1, 97, 1, 98, 0] ∧
      skipName (inPacket [1, 97, 1, 98, 0, 9]) 42 48 = 47 := by
  have hshort : (⟨[hostA, hostB], true⟩ : Hostname).wire.length ≤ 255 := by decide
  obtain ⟨⟨-, hbytes, -⟩, hskip⟩ := dns_name_encoded ⟨[hostA, hostB], true⟩ hshort fun _ => 7
  refine ⟨hbytes, hskip _ 42 48 ?_ (by decide)⟩
  exact (holds_append.mp (holds_inPacket ([1, 97, 1, 98, 0] ++ [9]))).1

end HackersOs.L3.Dns

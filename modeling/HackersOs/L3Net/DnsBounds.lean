import HackersOs.Core.Fuel
import HackersOs.L3Net.Dns

/-!
# Reads of the DNS parser

The parser of `resolve` with every byte it reads, for a frame that passed the
checks in front of it. `skip_name` moves its pointer by what the message says, so
its loop carries a fuel and gives `none` when that runs out. A pointer may go
behind the end; it is compared with the end before it is read through.

`dns_parse_in_bounds`: whatever the message, only bytes of the message are read,
and the parser returns.
-/
namespace HackersOs.L3.Dns
open HackersOs.Core Net HackersOs.Core.Traced

variable {p : Nat}

/-- The access is inside `[dns_data, dns_data + dns_len)`. -/
def InMessage (len : Nat) : Access → Prop
  | .read off n => 42 ≤ off ∧ off + n ≤ len
  | _ => False

/-! ## The code -/

/-- mirrors src/net/dns.cpp:49-57 -/
def skipTraced (buf : Frame) (stop : Nat) : Nat → Nat → Traced Access (Option Nat)
  | 0, _ => pure none
  | fuel + 1, p => do
    if p < stop then
      let len ← read8 buf p
      if len = 0 then pure (some (p + 1))
      else if len &&& 0xC0 = 0xC0 then pure (some (p + 2))
      else skipTraced buf stop fuel (p + 1 + len.toNat)
    else pure (some stop)

/-- mirrors src/net/dns.cpp:145-148 -/
def questionsTraced (buf : Frame) (stop fuel : Nat) : Nat → Nat → Traced Access (Option Nat)
  | 0, p => pure (some p)
  | n + 1, p => do
    match ← skipTraced buf stop fuel p with
    | none => pure none
    | some p => questionsTraced buf stop fuel n (p + 4)

/-- mirrors src/net/dns.cpp:151-166; the inner option is the address. -/
def answersTraced (buf : Frame) (stop fuel : Nat) : Nat → Nat → Traced Access (Option (Option UInt32))
  | 0, _ => pure (some none)
  | n + 1, p => do
    if p < stop then
      match ← skipTraced buf stop fuel p with
      | none => pure none
      | some p =>
        if p + 10 > stop then pure (some none)
        else
          let rtype ← read16 buf p
          let rdlength ← read16 buf (p + 8)
          if rtype = 1 ∧ rdlength = 4 ∧ p + 10 + 4 ≤ stop then
            let addr ← readAddr buf (p + 10)
            pure (some (some addr))
          else answersTraced buf stop fuel n (p + 10 + rdlength.toNat)
    else pure (some none)

/-- From the check of the header's length on. mirrors src/net/dns.cpp:131-166 -/
def parseTraced (txid : UInt16) (fuel : Nat) (buf : Frame) (len : Nat) :
    Traced Access (Option (Option UInt32)) := do
  let id ← read16 buf 42
  if id ≠ txid then pure (some none)
  else
    let flags ← read16 buf 44
    if flags &&& 0x8000 = 0 then pure (some none)
    else if flags &&& 0x000F ≠ 0 then pure (some none)
    else
      let ancount ← read16 buf 48
      if ancount = 0 then pure (some none)
      else
        let qdcount ← read16 buf 46
        match ← questionsTraced buf len fuel qdcount.toNat 54 with
        | none => pure none
        | some p => answersTraced buf len fuel ancount.toNat p

/-- A UDP packet from port 53 that has room for a header.
mirrors src/net/dns.cpp:114-132 -/
def FromServer (buf : Frame) (len : Nat) : Prop :=
  14 + 20 + 8 + 12 ≤ len ∧ buf 23 = 17 ∧ be16At buf 34 = 53

section
variable {buf : Frame} {stop fuel : Nat}

/-! ## Bounds -/

theorem skipTraced_every (p : Nat) (h : 42 ≤ p) :
    Every (InMessage stop) (skipTraced buf stop fuel p) := by
  induction fuel generalizing p with
  | zero => exact every_pure _
  | succ fuel ih =>
    rw [skipTraced]
    simp only [every_ite, every_bind, every_read8, value_read8, every_pure, implies_true,
      and_true, true_and]
    intro hp
    exact ⟨⟨h, hp⟩, fun _ _ => ih _ (by omega)⟩

/-- Where `skip_name` stops it has gone forward, or to the end. -/
theorem skipTraced_le {p q : Nat} (h : (skipTraced buf stop fuel p).value = some q) :
    min p stop ≤ q := by
  induction fuel generalizing p with
  | zero => cases h
  | succ fuel ih =>
    rw [skipTraced] at h
    by_cases hp : p < stop
    · rw [if_pos hp, value_bind, value_read8] at h
      split at h
      · cases h
        omega
      split at h
      · cases h
        omega
      · have := ih h
        omega
    · rw [if_neg hp] at h
      cases h
      omega

theorem questionsTraced_every (hstop : 42 ≤ stop) (n : Nat) (h : 42 ≤ p) :
    Every (InMessage stop) (questionsTraced buf stop fuel n p) := by
  induction n generalizing p with
  | zero => exact every_pure _
  | succ n ih =>
    rw [questionsTraced, every_bind]
    refine ⟨skipTraced_every p h, ?_⟩
    cases hq : (skipTraced buf stop fuel p).value with
    | none => exact every_pure _
    | some q =>
      have hle := skipTraced_le hq
      exact ih (by omega)

theorem questionsTraced_le (hstop : 42 ≤ stop) {n q : Nat} (h : 42 ≤ p)
    (hq : (questionsTraced buf stop fuel n p).value = some q) : 42 ≤ q := by
  induction n generalizing p with
  | zero =>
    cases hq
    exact h
  | succ n ih =>
    rw [questionsTraced, value_bind] at hq
    cases hs : (skipTraced buf stop fuel p).value with
    | none =>
      rw [hs] at hq
      cases hq
    | some q' =>
      rw [hs] at hq
      have hle := skipTraced_le hs
      exact ih (by omega) hq

/-- Every read of the answer loop is behind a comparison with the end. -/
theorem answersTraced_every (n : Nat) (h : 42 ≤ p) :
    Every (InMessage stop) (answersTraced buf stop fuel n p) := by
  induction n generalizing p with
  | zero => exact every_pure _
  | succ n ih =>
    rw [answersTraced]
    refine every_ite.mpr ⟨fun _ => ?_, fun _ => every_pure _⟩
    rw [every_bind]
    refine ⟨skipTraced_every p h, ?_⟩
    cases hq : (skipTraced buf stop fuel p).value with
    | none => exact every_pure _
    | some q =>
      have hle := skipTraced_le hq
      refine every_ite.mpr ⟨fun _ => every_pure _, fun hroom => ?_⟩
      simp only [every_bind, every_ite, every_read16, value_read16, every_readAddr,
        every_pure, and_true]
      refine ⟨⟨by omega, by omega⟩, ⟨by omega, by omega⟩, fun haddr => ⟨by omega, haddr.2.2⟩,
        fun _ => ?_⟩
      exact ih (by omega)

theorem parseTraced_every (txid : UInt16) {len : Nat} (h : 54 ≤ len) :
    Every (InMessage len) (parseTraced txid fuel buf len) := by
  have hread {off : Nat} (hlo : 42 ≤ off) (hhi : off + 2 ≤ 54) : InMessage len (.read off 2) :=
    ⟨hlo, hhi.trans h⟩
  rw [parseTraced]
  simp only [every_bind, every_ite, every_read16, value_read16, every_pure, implies_true,
    true_and]
  refine ⟨hread (by decide) (by decide), fun _ => ⟨hread (by decide) (by decide), fun _ _ => ?_⟩⟩
  refine ⟨hread (by decide) (by decide), fun _ => ⟨hread (by decide) (by decide), ?_, ?_⟩⟩
  · exact questionsTraced_every (by omega) _ (by decide)
  · cases hq : (questionsTraced buf len fuel (be16At buf 46).toNat 54).value with
    | none => exact every_pure _
    | some q => exact answersTraced_every _ (questionsTraced_le (by omega) (by decide) hq)

/-! ## The parser returns -/

theorem skipTraced_value (h : stop ≤ fuel + p) :
    (skipTraced buf stop (fuel + 1) p).value = some (skipLoop buf stop (fuel + 1) p) := by
  induction fuel generalizing p with
  | zero =>
    rw [skipTraced, skipLoop, if_neg (by omega), if_neg (by omega), value_pure]
  | succ fuel ih =>
    rw [skipTraced, skipLoop]
    by_cases hp : p < stop
    · rw [if_pos hp, if_pos hp, value_bind, value_read8]
      by_cases h0 : buf p = 0
      · rw [if_pos h0, if_pos h0, value_pure]
      rw [if_neg h0, if_neg h0]
      by_cases hptr : buf p &&& 0xC0 = 0xC0
      · rw [if_pos hptr, if_pos hptr, value_pure]
      · rw [if_neg hptr, if_neg hptr]
        exact ih (by omega)
    · rw [if_neg hp, if_neg hp, value_pure]

theorem skipLoop_enough (buf : Frame) {n : Nat} (h : stop ≤ n) :
    skipLoop buf stop n p = skipLoop buf stop stop p := by
  induction n with
  | zero => rw [Nat.le_zero.mp h]
  | succ n ih =>
    rcases Nat.le_succ_iff.mp h with hle | heq
    · rw [skipLoop_rounds buf stop n p (by omega), ih hle]
    · rw [heq]

/-- With a round for each byte of the frame `skip_name` ends. -/
theorem skipTraced_skipName (hstop : 0 < stop) (hp : 0 < p) (hfuel : stop ≤ fuel) :
    (skipTraced buf stop fuel p).value = some (skipName buf p stop) := by
  obtain ⟨n, rfl⟩ : ∃ n, fuel = n + 1 := ⟨fuel - 1, by omega⟩
  rw [skipTraced_value (by omega), skipLoop_enough buf hfuel, skipName]

theorem skipName_pos (hstop : 0 < stop) (hp : 0 < p) : 0 < skipName buf p stop := by
  have hle := @skipTraced_le buf stop stop p _ (skipTraced_skipName hstop hp (Nat.le_refl stop))
  omega

theorem questionsTraced_value (hstop : 0 < stop) (hfuel : stop ≤ fuel) (n : Nat) (h : 0 < p) :
    (questionsTraced buf stop fuel n p).value = some (skipQuestions buf stop n p) := by
  induction n generalizing p with
  | zero => rfl
  | succ n ih =>
    rw [questionsTraced, skipQuestions, value_bind, skipTraced_skipName hstop h hfuel]
    exact ih (Nat.add_pos_left (skipName_pos hstop h) 4)

theorem skipQuestions_pos (hstop : 0 < stop) (n : Nat) (h : 0 < p) :
    0 < skipQuestions buf stop n p := by
  induction n generalizing p with
  | zero => exact h
  | succ n ih => exact ih (Nat.add_pos_left (skipName_pos hstop h) 4)

theorem answersTraced_value (hfuel : stop ≤ fuel) (n : Nat) (h : 0 < p) :
    (answersTraced buf stop fuel n p).value = some (findAnswer buf stop n p) := by
  induction n generalizing p with
  | zero => rfl
  | succ n ih =>
    rw [answersTraced, findAnswer]
    by_cases hp : p < stop
    · have hstop : 0 < stop := Nat.zero_lt_of_lt hp
      rw [if_pos hp, if_pos hp, value_bind, skipTraced_skipName hstop h hfuel]
      dsimp only
      by_cases hroom : skipName buf p stop + 10 > stop
      · rw [if_pos hroom, if_pos hroom, value_pure]
      rw [if_neg hroom, if_neg hroom]
      simp only [value_bind, value_read16]
      split
      · rfl
      · exact ih (by omega)
    · rw [if_neg hp, if_neg hp, value_pure]

/-- On a packet from port 53 the parser's result is that of `dnsAccept`. -/
theorem parseTraced_value (txid : UInt16) {len : Nat} (h : FromServer buf len) (hfuel : len ≤ fuel) :
    (parseTraced txid fuel buf len).value = some (dnsAccept txid buf len) := by
  obtain ⟨hlen, hproto, hport⟩ := h
  rw [parseTraced, dnsAccept, if_neg (Nat.not_lt.mpr hlen), if_neg (not_not_intro hproto),
    if_neg (not_not_intro hport)]
  have hpos : 0 < len := by omega
  simp only [value_bind, value_read16]
  split
  · rfl
  simp only [value_bind, value_read16]
  split
  · rfl
  split
  · rfl
  simp only [value_bind, value_read16]
  split
  · rfl
  simp only [value_bind, value_read16]
  rw [questionsTraced_value hpos hfuel _ (by decide)]
  exact answersTraced_value hfuel _ (skipQuestions_pos hpos _ (by decide))

/-- Whatever the lengths, counts and pointers in a packet: the parser reads only bytes of
the message, and it returns. -/
theorem dns_parse_in_bounds (txid : UInt16) (buf : Frame) (len : Nat) (h : FromServer buf len) :
    (∀ fuel, Every (InMessage len) (parseTraced txid fuel buf len)) ∧
    ∃ enough, ∀ fuel, enough ≤ fuel →
      (parseTraced txid fuel buf len).value = some (dnsAccept txid buf len) := by
  refine ⟨fun fuel => parseTraced_every txid h.1, len, fun fuel hfuel => ?_⟩
  exact parseTraced_value txid h hfuel

end

/-- A response that ends after the first byte of its question, a label of 191 bytes. -/
def cutBytes : List UInt8 :=
  List.replicate 23 0 ++ [17] ++ List.replicate 10 0 ++ [0, 53] ++ List.replicate 6 0 ++
    [0, 7, 0x80, 0, 0, 1, 0, 1, 0, 0, 0, 0] ++ [0xBF]

def cutResponse : Frame := fun i => cutBytes.getD i 0

theorem dns_parse_in_bounds_cut : FromServer cutResponse 55 ∧
    Every (InMessage 55) (parseTraced 7 55 cutResponse 55) ∧
    ∃ fuel, (parseTraced 7 fuel cutResponse 55).value = some none := by
  have hfrom : FromServer cutResponse 55 := ⟨by decide, by decide, by decide⟩
  obtain ⟨hreads, enough, hvalue⟩ := dns_parse_in_bounds 7 cutResponse 55 hfrom
  have hnone : dnsAccept 7 cutResponse 55 = none := by decide
  exact ⟨hfrom, hreads 55, enough, hnone ▸ hvalue enough (Nat.le_refl _)⟩

end HackersOs.L3.Dns

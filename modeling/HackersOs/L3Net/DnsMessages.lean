import HackersOs.L3Net.DnsBounds

/-!
# DNS messages

What a response is: a header, questions, answer records, and whatever follows
them. A name is a list of labels that ends in the root label or in a pointer
to a name elsewhere; the invariants are fields, so every value is well-formed.

`skipName_name` and `findAnswer_records`: the parser of `resolve` lands behind
each name and behind each record. `dns_answers_understood`: it returns the first
address of the answer section, and none only if there is none.
-/
namespace HackersOs.L3.Dns
open HackersOs.Core Net List

/-! ## Names -/

structure Label where
  text : List UInt8
  nonempty : 0 < text.length
  short : text.length ≤ 63

def Label.bytes (l : Label) : List UInt8 := UInt8.ofNat l.text.length :: l.text

/-- How a name ends: with the root label, or with the offset of its rest. -/
inductive NameEnd where
  | root
  | pointer (offset : Fin 0x4000)

def NameEnd.bytes : NameEnd → List UInt8
  | .root => [0]
  | .pointer offset => [0xC0 ||| UInt8.ofNat (offset / 256), UInt8.ofNat offset]

structure Name where
  labels : List Label
  last : NameEnd

def Name.bytes (n : Name) : List UInt8 := n.labels.flatMap Label.bytes ++ n.last.bytes

/-! ## Sections -/

structure Question where
  name : Name
  qtype : UInt16
  qclass : UInt16

def Question.bytes (q : Question) : List UInt8 :=
  q.name.bytes ++ (be16Bytes q.qtype ++ be16Bytes q.qclass)

structure Record where
  name : Name
  rtype : UInt16
  rclass : UInt16
  ttl : UInt32
  rdata : List UInt8
  short : rdata.length < 2 ^ 16

def Record.bytes (r : Record) : List UInt8 :=
  r.name.bytes ++ (be16Bytes r.rtype ++ be16Bytes r.rclass ++ be32Bytes r.ttl ++
    be16Bytes (UInt16.ofNat r.rdata.length)) ++ r.rdata

/-- An A record with an IPv4 address. -/
def Record.isAddress (r : Record) : Bool := r.rtype == 1 && r.rdata.length == 4

/-- A message; `rest` is what follows the answers. -/
structure Message where
  id : UInt16
  flags : UInt16
  questions : List Question
  answers : List Record
  nscount : UInt16
  arcount : UInt16
  rest : List UInt8
  qdcount_lt : questions.length < 2 ^ 16
  ancount_lt : answers.length < 2 ^ 16

def Message.bytes (m : Message) : List UInt8 :=
  be16Bytes m.id ++ be16Bytes m.flags ++ be16Bytes (UInt16.ofNat m.questions.length) ++
    be16Bytes (UInt16.ofNat m.answers.length) ++ be16Bytes m.nscount ++ be16Bytes m.arcount ++
    m.questions.flatMap Question.bytes ++ m.answers.flatMap Record.bytes ++ m.rest

/-! ## Names are skipped -/

section
variable {buf : Frame} {p stop : Nat}

theorem label_byte : ∀ n, 0 < n → n ≤ 63 → UInt8.ofNat n ≠ 0 ∧ UInt8.ofNat n &&& 0xC0 ≠ 0xC0 := by
  have hall : ∀ n, n < 64 → 0 < n → UInt8.ofNat n ≠ 0 ∧ UInt8.ofNat n &&& 0xC0 ≠ 0xC0 := by decide
  intro n hpos hle
  exact hall n (Nat.lt_succ_of_le hle) hpos

theorem pointer_byte (b : UInt8) : (0xC0 ||| b) &&& 0xC0 = 0xC0 := by
  apply UInt8.eq_of_toBitVec_eq
  rw [UInt8.toBitVec_and, UInt8.toBitVec_or]
  ext i hi
  rw [BitVec.getElem_and, BitVec.getElem_or]
  cases (UInt8.toBitVec 0xC0)[i] <;> simp

theorem NameEnd.length_pos (e : NameEnd) : 0 < e.bytes.length := by
  cases e <;> exact Nat.succ_pos _

theorem skipName_end (e : NameEnd) (h : Holds buf p e.bytes) (hstop : p + e.bytes.length ≤ stop) :
    skipName buf p stop = p + e.bytes.length := by
  cases e with
  | root =>
    obtain ⟨h0, -⟩ := holds_cons.mp h
    exact skipName_root hstop h0
  | pointer offset =>
    obtain ⟨h0, -⟩ := holds_cons.mp h
    have hlt : p < stop := Nat.lt_of_lt_of_le (Nat.lt_add_of_pos_right (NameEnd.length_pos _)) hstop
    refine skipName_pointer hlt ?_
    rw [h0, pointer_byte]

/-- A label is one round of the loop. -/
theorem skipName_label (l : Label) (hp : p < stop) (h : Holds buf p l.bytes) :
    skipName buf p stop = skipName buf (p + l.bytes.length) stop := by
  obtain ⟨h0, -⟩ := holds_cons.mp h
  obtain ⟨hne, hptr⟩ := label_byte l.text.length l.nonempty l.short
  obtain ⟨n, rfl⟩ : ∃ n, stop = n + 1 := ⟨stop - 1, by omega⟩
  have hlen : p + l.bytes.length = p + 1 + (UInt8.ofNat l.text.length).toNat := by
    have hshort : l.text.length < UInt8.size := Nat.lt_of_le_of_lt l.short (by decide)
    rw [UInt8.toNat_ofNat_of_lt' hshort, Label.bytes, length_cons]
    omega
  rw [skipName, skipName, hlen, skipLoop.eq_2, if_pos hp, h0, if_neg hne, if_neg hptr]
  exact (skipLoop_rounds buf (n + 1) n _ (by omega)).symm

/-- `skip_name` lands behind a name, plain or compressed. -/
theorem skipName_name (n : Name) (h : Holds buf p n.bytes) (hstop : p + n.bytes.length ≤ stop) :
    skipName buf p stop = p + n.bytes.length := by
  obtain ⟨labels, last⟩ := n
  simp only [Name.bytes] at h hstop ⊢
  induction labels generalizing p with
  | nil => exact skipName_end last h hstop
  | cons l labels ih =>
    rw [flatMap_cons, append_assoc] at h hstop ⊢
    obtain ⟨hl, hrest⟩ := holds_append.mp h
    rw [length_append, ← Nat.add_assoc] at hstop ⊢
    have hpos : 0 < l.bytes.length := Nat.succ_pos _
    rw [skipName_label l (by omega) hl]
    exact ih hrest hstop

/-! ## Sections are walked -/

theorem skipQuestions_questions (qs : List Question) {rest : List UInt8}
    (h : Holds buf p (qs.flatMap Question.bytes ++ rest))
    (hstop : p + (qs.flatMap Question.bytes).length ≤ stop) :
    skipQuestions buf stop qs.length p = p + (qs.flatMap Question.bytes).length := by
  induction qs generalizing p with
  | nil => rfl
  | cons q qs ih =>
    rw [flatMap_cons, append_assoc] at h
    rw [flatMap_cons, length_append] at hstop ⊢
    have hq : q.bytes.length = q.name.bytes.length + 4 := length_append
    obtain ⟨hfirst, hrest⟩ := holds_append.mp h
    have hname := @skipName_name buf p stop q.name (holds_append.mp hfirst).1 (by omega)
    rw [length_cons, skipQuestions, hname]
    have hnext : p + q.name.bytes.length + 4 = p + q.bytes.length := by omega
    rw [hnext, ih hrest (by omega), Nat.add_assoc]

theorem addrBytes_addrAt (f : Frame) (off : Nat) :
    addrBytes (addrAt f off) = [f off, f (off + 1), f (off + 2), f (off + 3)] := by
  have hbytes : (addrAt f off).toUInt8 = f off ∧ (addrAt f off >>> 8).toUInt8 = f (off + 1) ∧
      (addrAt f off >>> 16).toUInt8 = f (off + 2) ∧ (addrAt f off >>> 24).toUInt8 = f (off + 3) := by
    unfold addrAt
    refine ⟨?_, ?_, ?_, ?_⟩ <;>
    · apply UInt8.eq_of_toBitVec_eq
      simp only [UInt32.toBitVec_or, UInt32.toBitVec_shiftLeft, UInt8.toBitVec_toUInt32,
        UInt32.toBitVec_toUInt8, UInt32.toBitVec_shiftRight]
      ext i hi
      simp only [UInt32.toBitVec_ofNat, BitVec.ofNat_eq_ofNat, BitVec.reduceMod,
        BitVec.ushiftRight_eq',
        BitVec.toNat_ofNat, Nat.reducePow, Nat.reduceMod, BitVec.shiftLeft_eq',
          BitVec.getElem_setWidth,
        BitVec.getLsbD_setWidth, BitVec.getLsbD_ushiftRight, BitVec.getLsbD_or,
          BitVec.getLsbD_shiftLeft]
      grind
  obtain ⟨h0, h1, h2, h3⟩ := hbytes
  rw [addrBytes, h0, h1, h2, h3]

/-- Four bytes are read as the address with these bytes. -/
theorem addrBytes_holds {f : Frame} {off : Nat} {l : List UInt8} (h : Holds f off l)
    (hlen : l.length = 4) : addrBytes (addrAt f off) = l := by
  obtain ⟨a, l, rfl⟩ := exists_cons_of_length_eq_add_one hlen
  obtain ⟨b, l, rfl⟩ := exists_cons_of_length_eq_add_one (Nat.succ.inj hlen)
  obtain ⟨c, l, rfl⟩ := exists_cons_of_length_eq_add_one (Nat.succ.inj (Nat.succ.inj hlen))
  obtain ⟨d, rfl⟩ := length_eq_one_iff.mp (Nat.succ.inj (Nat.succ.inj (Nat.succ.inj hlen)))
  simp only [holds_cons] at h
  obtain ⟨h0, h1, h2, h3, -⟩ := h
  rw [addrBytes_addrAt, h0, h1, h2, h3]

/-- What the answer loop reads of a record. -/
theorem record_fields (r : Record) (h : Holds buf p r.bytes) :
    Holds buf p r.name.bytes ∧ be16At buf (p + r.name.bytes.length) = r.rtype ∧
    (be16At buf (p + r.name.bytes.length + 8)).toNat = r.rdata.length ∧
    Holds buf (p + r.name.bytes.length + 10) r.rdata := by
  simp only [Record.bytes, holds_append, length_append, length_be16Bytes, length_be32Bytes,
    Nat.reduceAdd, ← Nat.add_assoc] at h
  obtain ⟨⟨hname, ⟨⟨hrtype, -⟩, -⟩, hlen⟩, hdata⟩ := h
  refine ⟨hname, be16At_holds hrtype, ?_, hdata⟩
  rw [be16At_holds hlen]
  exact UInt16.toNat_ofNat_of_lt' r.short

theorem Record.length_bytes (r : Record) :
    r.bytes.length = r.name.bytes.length + 10 + r.rdata.length := by
  simp only [Record.bytes, length_append, length_be16Bytes, length_be32Bytes]

theorem Record.isAddress_iff (r : Record) :
    r.isAddress = true ↔ r.rtype = 1 ∧ r.rdata.length = 4 := by
  simp [Record.isAddress]

/-- The answer loop goes from record to record up to the first address. -/
theorem findAnswer_records (rs : List Record) {rest : List UInt8}
    (h : Holds buf p (rs.flatMap Record.bytes ++ rest))
    (hstop : p + (rs.flatMap Record.bytes).length ≤ stop) :
    (findAnswer buf stop rs.length p).map addrBytes =
      (rs.find? Record.isAddress).map Record.rdata := by
  induction rs generalizing p with
  | nil => rfl
  | cons r rs ih =>
    rw [flatMap_cons, append_assoc] at h
    rw [flatMap_cons, length_append] at hstop
    obtain ⟨hr, hrest⟩ := holds_append.mp h
    obtain ⟨hname, hrtype, hlen, hdata⟩ := record_fields r hr
    have hbytes := r.length_bytes
    rw [length_cons, findAnswer, if_pos (by omega), skipName_name r.name hname (by omega)]
    rw [if_neg (by omega), hrtype]
    have hlen4 : be16At buf (p + r.name.bytes.length + 8) = 4 ↔ r.rdata.length = 4 := by
      rw [← hlen, ← UInt16.toNat_inj]
      rfl
    by_cases haddr : r.rtype = 1 ∧ r.rdata.length = 4
    · rw [if_pos ⟨haddr.1, hlen4.mpr haddr.2, by omega⟩,
        List.find?_cons_of_pos (r.isAddress_iff.mpr haddr)]
      exact congrArg some (addrBytes_holds hdata haddr.2)
    · rw [if_neg fun hc => haddr ⟨hc.1, hlen4.mp hc.2.1⟩,
        List.find?_cons_of_neg (mt r.isAddress_iff.mp haddr), hlen]
      have hnext : p + r.name.bytes.length + 10 + r.rdata.length = p + r.bytes.length := by omega
      rw [hnext]
      exact ih hrest (by omega)

/-- What the parser reads of a header. -/
theorem message_fields (m : Message) (h : Holds buf 42 m.bytes) :
    be16At buf 42 = m.id ∧ be16At buf 44 = m.flags ∧ (be16At buf 46).toNat = m.questions.length ∧
    (be16At buf 48).toNat = m.answers.length ∧
    Holds buf 54 (m.questions.flatMap Question.bytes ++
      (m.answers.flatMap Record.bytes ++ m.rest)) := by
  rw [Message.bytes, append_assoc, append_assoc] at h
  obtain ⟨hheader, hsections⟩ := holds_append.mp h
  simp only [holds_append, length_append, length_be16Bytes, Nat.reduceAdd] at hheader
  obtain ⟨⟨⟨⟨⟨hid, hflags⟩, hqdcount⟩, hancount⟩, -⟩, -⟩ := hheader
  refine ⟨be16At_holds hid, be16At_holds hflags, ?_, ?_, hsections⟩
  · rw [be16At_holds hqdcount]
    exact UInt16.toNat_ofNat_of_lt' m.qdcount_lt
  · rw [be16At_holds hancount]
    exact UInt16.toNat_ofNat_of_lt' m.ancount_lt

theorem Message.length_bytes (m : Message) :
    m.bytes.length = 12 + (m.questions.flatMap Question.bytes).length +
      (m.answers.flatMap Record.bytes).length + m.rest.length := by
  simp only [Message.bytes, length_append, length_be16Bytes]

/-- The response in a packet from port 53 is parsed up to its first address. -/
theorem dnsAccept_message {txid : UInt16} {m : Message} (hproto : buf 23 = 17)
    (hport : be16At buf 34 = 53)
    (h : Holds buf 42 m.bytes) (hid : m.id = txid) (hqr : m.flags &&& 0x8000 ≠ 0)
    (hrcode : m.flags &&& 0x000F = 0) : (dnsAccept txid buf (42 + m.bytes.length)).map addrBytes =
      (m.answers.find? Record.isAddress).map Record.rdata := by
  obtain ⟨hid', hflags, hqdcount, hancount, hsections⟩ := message_fields m h
  have hlen := m.length_bytes
  rw [dnsAccept, if_neg (by omega), if_neg (not_not_intro hproto), if_neg (not_not_intro hport), hid',
    if_neg (not_not_intro hid), hflags, if_neg hqr, if_neg (not_not_intro hrcode)]
  by_cases hnone : be16At buf 48 = 0
  · -- no answers at all
    rw [hnone] at hancount
    rw [if_pos hnone, eq_nil_of_length_eq_zero hancount.symm]
    rfl
  · rw [if_neg hnone, hqdcount, hancount, skipQuestions_questions m.questions hsections (by omega)]
    exact findAnswer_records m.answers (holds_append.mp hsections).2 (by omega)

/-- For every response to the query in a packet from port 53, with any questions, records
and names: the parser returns the data of the first answer that is an A record of four
bytes, and nothing exactly when there is none. -/
theorem dns_answers_understood (txid : UInt16) (m : Message) (buf : Frame)
    (hproto : buf 23 = 17) (hport : be16At buf 34 = 53) (h : Holds buf 42 m.bytes) (hid : m.id = txid)
    (hqr : m.flags &&& 0x8000 ≠ 0) (hrcode : m.flags &&& 0x000F = 0) :
    (∀ before r after, m.answers = before ++ r :: after →
      (∀ x ∈ before, ¬ (x.rtype = 1 ∧ x.rdata.length = 4)) → r.rtype = 1 → r.rdata.length = 4 →
      ∃ addr, dnsAccept txid buf (42 + m.bytes.length) = some addr ∧ addrBytes addr = r.rdata) ∧
    (dnsAccept txid buf (42 + m.bytes.length) = none ↔
      ∀ r ∈ m.answers, ¬ (r.rtype = 1 ∧ r.rdata.length = 4)) := by
  have hparse := dnsAccept_message hproto hport h hid hqr hrcode
  constructor
  · intro before r after hanswers hbefore hrtype hlen
    have hfind : m.answers.find? Record.isAddress = some r := by
      rw [hanswers, List.find?_append, List.find?_eq_none.mpr, Option.none_or,
        List.find?_cons_of_pos (r.isAddress_iff.mpr ⟨hrtype, hlen⟩)]
      exact fun x hx => mt x.isAddress_iff.mp (hbefore x hx)
    rw [hfind] at hparse
    obtain ⟨addr, haddr, hbytes⟩ := Option.map_eq_some_iff.mp hparse
    exact ⟨addr, haddr, hbytes⟩
  · have hnone : dnsAccept txid buf (42 + m.bytes.length) = none ↔
        m.answers.find? Record.isAddress = none := by
      rw [← Option.map_eq_none_iff (f := addrBytes), hparse, Option.map_eq_none_iff]
    rw [hnone, List.find?_eq_none]
    exact forall₂_congr fun r _ => not_congr r.isAddress_iff

end

/-- A message in a packet from port 53. -/
def inPacket (message : List UInt8) : Frame := fun i =>
  if i < 42 then (if i = 23 then 17 else if i = 35 then 53 else 0) else message.getD (i - 42) 0

theorem holds_inPacket (message : List UInt8) : Holds (inPacket message) 42 message := by
  intro i hi
  have hget := holds_getD message 0 i hi
  rw [Nat.zero_add] at hget
  rwa [inPacket, if_neg (by omega), Nat.add_sub_cancel_left]

def labelA : Label := ⟨[97], by decide, by decide⟩
def labelB : Label := ⟨[98], by decide, by decide⟩

/-- The answer to a question for `a`: an alias `b`, written with a pointer to the
question, and the address 10.0.2.15 of `b`. -/
def aliasResponse : Message where
  id := 7
  flags := 0x8180
  questions := [⟨⟨[labelA], .root⟩, 1, 1⟩]
  answers := [⟨⟨[], .pointer 12⟩, 5, 1, 60, [1, 98, 0], by decide⟩,
    ⟨⟨[labelB], .root⟩, 1, 1, 60, [10, 0, 2, 15], by decide⟩]
  nscount := 0
  arcount := 0
  rest := []
  qdcount_lt := by decide
  ancount_lt := by decide

theorem dns_answers_understood_alias : ∃ addr,
    dnsAccept 7 (inPacket aliasResponse.bytes) (42 + aliasResponse.bytes.length) = some addr ∧
      addrBytes addr = [10, 0, 2, 15] := by
  obtain ⟨hfirst, -⟩ := dns_answers_understood 7 aliasResponse (inPacket aliasResponse.bytes) rfl
    (by decide) (holds_inPacket _) rfl (by decide) (by decide)
  refine hfirst [⟨⟨[], .pointer 12⟩, 5, 1, 60, [1, 98, 0], by decide⟩] _ [] rfl ?_ rfl rfl
  intro x hx
  rw [mem_singleton.mp hx]
  decide

end HackersOs.L3.Dns

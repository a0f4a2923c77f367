import HackersOs.Core.OnesSum
import HackersOs.L3Net.Dhcp

/-!
# Checksums

`inet_checksum` adds up the words of a string as the little-endian machine loads
them. `inetChecksum_toNat` says what it computes: the complement of the
one's-complement sum of these words. That is the checksum of RFC 1071 with its
bytes swapped, and swapped again when it is stored.

Results:
* `inet_checksum_rfc1071`: the stored checksum is that of the RFC, the
  accumulator does not wrap, the carry loop ends, and a string with its
  checksum in place has checksum 0; so do the headers that are sent.
* `tcp_checksum_agrees`: `tcp_checksum` is `inet_checksum` with the
  pseudo-header in front.
-/
namespace HackersOs.L3.Net
open HackersOs.Core Tcp List

variable {l pre : List UInt8}

/-! ## The loops -/

theorem toNat_word (a b : UInt8) :
    (a.toUInt32 ||| b.toUInt32 <<< 8).toNat = a.toNat + 256 * b.toNat := by
  have ha : a.toNat < 2 ^ 8 := byte_lt a
  have hb := byte_lt b
  have hshift : (b.toUInt32 <<< 8).toNat = 2 ^ 8 * b.toNat := by
    rw [UInt32.toNat_shiftLeft, UInt8.toNat_toUInt32, Nat.shiftLeft_eq]
    change b.toNat * 2 ^ 8 % 2 ^ 32 = _
    omega
  rw [UInt32.toNat_or, hshift, UInt8.toNat_toUInt32, Nat.or_comm, ← Nat.two_pow_add_eq_or_of_lt ha]
  omega

/-- The accumulator is the plain sum as long as that fits into 32 bits. -/
theorem sumWords_toNat {acc : UInt32} (h : acc.toNat + (leWords l).sum < 2 ^ 32) :
    (sumWords l acc).toNat = acc.toNat + (leWords l).sum := by
  fun_induction sumWords l acc with
  | case1 a b rest acc ih =>
    rw [leWords, sum_cons] at h ⊢
    have hadd : (acc + (a.toUInt32 ||| b.toUInt32 <<< 8)).toNat =
        acc.toNat + (a.toNat + 256 * b.toNat) := by
      rw [UInt32.toNat_add, toNat_word, Nat.mod_eq_of_lt (by omega)]
    rw [ih (by omega), hadd, Nat.add_assoc]
  | case2 a acc =>
    rw [leWords, sum_singleton] at h ⊢
    rw [UInt32.toNat_add, UInt8.toNat_toUInt32, Nat.mod_eq_of_lt h]
  | case3 acc => rfl

theorem carried_addCarry (x : UInt32) : carried (addCarry x).toNat = carried x.toNat := by
  rw [toNat_addCarry]
  have hle := carried_le x.toNat
  have hmod := carried_mod x.toNat
  have hzero := @carried_eq_zero x.toNat
  refine carried_unique hle ?_ ?_ <;> omega

theorem carried_foldCarry (n : Nat) (x : UInt32) :
    carried (foldCarry n x).toNat = carried x.toNat := by
  induction n generalizing x with
  | zero => rfl
  | succ n ih =>
    rw [foldCarry]
    split
    · rfl
    · rw [ih, carried_addCarry]

/-- The carry loop leaves the word for the sum modulo 65535. -/
theorem foldCarry_toNat (x : UInt32) : (foldCarry 2 x).toNat = carried x.toNat := by
  have hdone := congrArg UInt32.toNat (foldCarry_done x)
  rw [toNat_shiftRight16] at hdone
  rw [← carried_foldCarry 2 x, carried_of_lt]
  change _ = 0 at hdone
  omega

theorem sum_lt (h : l.length ≤ 131072) : (leWords l).sum < 2 ^ 32 := by
  have hle := leWords_sum_le l
  omega

theorem complement_toNat (x : UInt32) :
    (~~~ (foldCarry 2 x).toUInt16).toNat = 65535 - carried x.toNat := by
  have hle := carried_le x.toNat
  rw [UInt16.toNat_not, UInt32.toNat_toUInt16, foldCarry_toNat, Nat.mod_eq_of_lt (by omega)]
  rfl

/-- 65536 words fit. -/
theorem sumWords_exact (h : l.length ≤ 131072) : (sumWords l 0).toNat = (leWords l).sum := by
  have hzero : (0 : UInt32).toNat + (leWords l).sum = (leWords l).sum := Nat.zero_add _
  rw [sumWords_toNat (hzero.symm ▸ sum_lt h), hzero]

theorem inetChecksum_toNat (h : l.length ≤ 131072) :
    (inetChecksum l).toNat = 65535 - carried (leWords l).sum := by
  rw [inetChecksum, complement_toNat, sumWords_exact h]

/-! ## Stored checksums -/

theorem toNat_high (v : UInt16) : (v >>> 8).toUInt8.toNat = v.toNat / 256 := by
  have hlt := v.toNat_lt
  rw [UInt16.toNat_toUInt8, UInt16.toNat_shiftRight, Nat.shiftRight_eq_div_pow]
  change v.toNat / 2 ^ 8 % 2 ^ 8 = _
  omega

/-- A stored word read back in the other byte order. -/
theorem le16Bytes_swap (v : UInt16) : le16Bytes v = be16Bytes (UInt16.ofNat (swap16 v.toNat)) := by
  have hlt := v.toNat_lt
  have hswap : (UInt16.ofNat (swap16 v.toNat)).toNat = swap16 v.toNat := by
    refine UInt16.toNat_ofNat_of_lt' ?_
    change swap16 v.toNat < 65536
    unfold swap16
    omega
  have hlow : v.toUInt8 = (UInt16.ofNat (swap16 v.toNat) >>> 8).toUInt8 := by
    apply UInt8.toNat_inj.mp
    rw [UInt16.toNat_toUInt8, toNat_high, hswap, swap16]
    omega
  have hhigh : (v >>> 8).toUInt8 = (UInt16.ofNat (swap16 v.toNat)).toUInt8 := by
    apply UInt8.toNat_inj.mp
    rw [toNat_high, UInt16.toNat_toUInt8, hswap, swap16]
    omega
  rw [le16Bytes, be16Bytes, ← hlow, ← hhigh]

/-- The stored checksum is the one of RFC 1071 in network order. -/
theorem stored_checksum (h : l.length ≤ 131072) :
    le16Bytes (inetChecksum l) = be16Bytes (UInt16.ofNat (rfc1071 l)) := by
  rw [le16Bytes_swap, inetChecksum_toNat h, swap16_complement (carried_le _), swap16_carried, rfc1071]

theorem leWords_stored (v : UInt16) : leWords (le16Bytes v) = [v.toNat] := by
  rw [le16Bytes, leWords, leWords, UInt16.toNat_toUInt8, toNat_high]
  congr 1
  omega

/-- A word at an even offset counts as it is. -/
theorem leWords_field (hpre : pre.length % 2 = 0) (v : UInt16) (post : List UInt8) :
    (leWords (pre ++ (le16Bytes v ++ post))).sum =
      (leWords pre).sum + v.toNat + (leWords post).sum := by
  have heven : (le16Bytes v).length % 2 = 0 := by rw [length_le16Bytes]
  rw [leWords_append hpre, leWords_append heven, leWords_stored, sum_append,
    sum_append, sum_singleton, Nat.add_assoc]

/-- With the complement of its sum in a field that was zero, a string sums up to the
other zero. -/
theorem carried_field {post : List UInt8} (hpre : pre.length % 2 = 0) {v : UInt16}
    (hv : v.toNat = 65535 - carried (leWords (pre ++ (le16Bytes 0 ++ post))).sum) :
    carried (leWords (pre ++ (le16Bytes v ++ post))).sum = 65535 := by
  rw [leWords_field hpre] at hv ⊢
  rw [hv, Nat.add_right_comm]
  have hzero : (leWords pre).sum + (0 : UInt16).toNat + (leWords post).sum =
      (leWords pre).sum + (leWords post).sum := rfl
  rw [hzero]
  exact carried_complement _

/-- A string with its checksum in place has checksum 0. -/
theorem verifies {post : List UInt8} (hpre : pre.length % 2 = 0)
    (hlen : pre.length + 2 + post.length ≤ 131072) :
    inetChecksum (pre ++ (le16Bytes (inetChecksum (pre ++ ([0, 0] ++ post))) ++ post)) = 0 := by
  have hlen' (v : UInt16) : (pre ++ (le16Bytes v ++ post)).length ≤ 131072 := by
    simp only [length_append, length_le16Bytes]
    omega
  have hzero : [0, 0] = le16Bytes 0 := rfl
  apply UInt16.toNat_inj.mp
  rw [hzero, inetChecksum_toNat (hlen' _), carried_field hpre (inetChecksum_toNat (hlen' 0))]
  rfl

/-! ## Headers and replies -/

/-- The IPv4 header of a frame. -/
def ipHeaderOf (frame : List UInt8) : List UInt8 := (frame.drop 14).take 20

section
variable (total id flags : UInt16) (proto : UInt8) (src dst : UInt32)

theorem ipHeader_split (sum : List UInt8) : ipHeader total id flags proto src dst sum =
    ([0x45, 0] ++ be16Bytes total ++ be16Bytes id ++ be16Bytes flags ++ [64, proto]) ++
      (sum ++ (addrBytes src ++ addrBytes dst)) := by
  simp only [ipHeader, append_assoc]

theorem length_ipHeader (sum : List UInt8) (h : sum.length = 2) :
    (ipHeader total id flags proto src dst sum).length = 20 := by
  simp only [ipHeader, length_append, length_be16Bytes, length_addrBytes, length_cons,
    length_nil, h]

theorem ipHeader_verifies : inetChecksum (ipHeader total id flags proto src dst
      (le16Bytes (inetChecksum (ipHeader total id flags proto src dst [0, 0])))) = 0 := by
  rw [ipHeader_split, ipHeader_split]
  refine verifies ?_ ?_
  · simp only [length_append, length_be16Bytes, length_cons, length_nil, Nat.reduceAdd,
      Nat.reduceMod]
  · simp only [length_append, length_be16Bytes, length_addrBytes, length_cons, length_nil]
    decide

/-- The header behind two hardware addresses and the type. -/
theorem ipHeaderOf_frame (dstMac srcMac : MacAddr) (type : UInt16) {hdr : List UInt8}
    (h : hdr.length = 20) (payload : List UInt8) :
    ipHeaderOf (dstMac.toList ++ srcMac.toList ++ be16Bytes type ++ hdr ++ payload) = hdr := by
  have hfront : (dstMac.toList ++ srcMac.toList ++ be16Bytes type).length = 14 := by
    simp only [length_append, Vector.length_toList, length_be16Bytes]
  rw [ipHeaderOf, append_assoc _ hdr, drop_left' hfront, take_left' h]

end

/-- What `handle_icmp` stores in the copied payload. -/
theorem echo_payload {payload : List UInt8} (hlen : 4 ≤ payload.length) :
    ∃ a b post, payload.length = 4 + post.length ∧
      ((payload.set 0 0).set 2 0).set 3 0 = [a, b] ++ ([0, 0] ++ post) ∧
      ∀ sum : UInt16, ((((payload.set 0 0).set 2 0).set 3 0).set 2 sum.toUInt8).set 3
        (sum >>> 8).toUInt8 = [a, b] ++ (le16Bytes sum ++ post) := by
  obtain ⟨type, l, rfl⟩ := exists_cons_of_length_pos (Nat.lt_of_lt_of_le (by decide) hlen)
  rw [length_cons] at hlen
  obtain ⟨code, l, rfl⟩ := @List.exists_cons_of_length_pos _ l (by omega)
  rw [length_cons] at hlen
  obtain ⟨low, l, rfl⟩ := @List.exists_cons_of_length_pos _ l (by omega)
  rw [length_cons] at hlen
  obtain ⟨high, post, rfl⟩ := @List.exists_cons_of_length_pos _ l (by omega)
  refine ⟨0, code, post, ?_, rfl, fun _ => rfl⟩
  simp only [length_cons]
  omega

section
variable (st : NetState) (src : UInt32) (len : UInt32) {payload : List UInt8}

theorem echoReply_header : inetChecksum (ipHeaderOf (echoReply st src len payload)) = 0 := by
  unfold echoReply
  rw [ipHeaderOf_frame _ _ _ (length_ipHeader _ _ _ _ _ _ _ (length_le16Bytes _))]
  exact ipHeader_verifies _ _ _ _ _ _

theorem echoReply_payload (h4 : 4 ≤ payload.length) (hlen : payload.length ≤ 131072) :
    inetChecksum ((echoReply st src len payload).drop 34) = 0 := by
  obtain ⟨a, b, post, hpost, hcleared, hstored⟩ := echo_payload h4
  unfold echoReply
  rw [drop_left', hstored, hcleared]
  · have heven : [a, b].length % 2 = 0 := by simp
    refine verifies heven ?_
    rw [length_cons, length_singleton]
    omega
  · simp only [length_append, Vector.length_toList, length_be16Bytes,
      length_ipHeader _ _ _ _ _ _ _ (length_le16Bytes _)]

theorem length_echoReply : (echoReply st src len payload).length = 34 + payload.length := by
  unfold echoReply
  simp only [length_append, Vector.length_toList, length_be16Bytes, length_set,
    length_ipHeader _ _ _ _ _ _ _ (length_le16Bytes _)]

end

/-- A reply to a message whose length does not wrap is the whole of what was built. -/
theorem handleIcmp_reply {st : NetState} {f : Frame} {off : Nat} {len : UInt32} {reply : List UInt8}
    (h : (handleIcmp st f off len).value.state.sent = st.sent ++ [reply])
    (hlen : 34 + len.toNat < 2 ^ 32) :
    ∃ src payload, 4 ≤ payload.length ∧ payload.length ≤ 131072 ∧
      reply = echoReply st src len payload := by
  have hnone : st.sent ≠ st.sent ++ [reply] := by simp
  rw [handleIcmp] at h
  split at h
  · exact absurd h hnone
  rename_i h8
  simp only [Traced.value_bind, value_read8] at h
  split at h
  · split at h
    · exact absurd h hnone
    rename_i htotal
    simp only [Traced.value_bind, Traced.value_pure, value_readAddr, NetState.drop,
      append_cancel_left_eq, List.cons.injEq, and_true] at h
    have h8 : 8 ≤ len.toNat := UInt32.le_iff_toNat_le.mp (UInt32.not_lt.mp h8)
    have hsum : (14 + 20 + len).toNat = (34 + len.toNat) % 2 ^ 32 := UInt32.toNat_add _ _
    have hle : (14 + 20 + len).toNat ≤ 1518 := UInt32.le_iff_toNat_le.mp (UInt32.not_lt.mp htotal)
    have hcopied : ((List.range len.toNat).map fun i => f (off + i)).length = len.toNat := by
      rw [length_map, length_range]
    refine ⟨addrAt f 26, (List.range len.toNat).map fun i => f (off + i), ?_, ?_, ?_⟩
    · omega
    · omega
    · rw [← h, take_of_length_le]
      rw [length_echoReply]
      omega
  · exact absurd h hnone

/-- `inet_checksum` is the checksum of RFC 1071, for every string of up to 128 KB. A
string with its checksum at an even offset verifies, and so do the headers of
`send_ip`, `handle_icmp` and `send_dhcp` and the replies to pings. -/
theorem inet_checksum_rfc1071 (l : List UInt8) (h : l.length ≤ 131072) :
    le16Bytes (inetChecksum l) = be16Bytes (UInt16.ofNat (rfc1071 l)) ∧
    ((sumWords l 0).toNat = (leWords l).sum ∧ foldCarry 2 (sumWords l 0) >>> 16 = 0) ∧
    (∀ pre post, l = pre ++ ([0, 0] ++ post) → pre.length % 2 = 0 →
      inetChecksum (pre ++ (le16Bytes (inetChecksum l) ++ post)) = 0) ∧
    (∀ link src dst proto payload frame, (sendIp link src dst proto payload).1 = some frame →
      inetChecksum (ipHeaderOf frame) = 0) ∧
    (∀ st f off len reply, (handleIcmp st f off len).value.state.sent = st.sent ++ [reply] →
      34 + len.toNat < 2 ^ 32 → inetChecksum (ipHeaderOf reply) = 0 ∧
        inetChecksum (reply.drop 34) = 0) ∧ ∀ mac xid msgType serverIp requestedIp,
      inetChecksum (ipHeaderOf (Dhcp.dhcpFrame mac xid msgType serverIp requestedIp)) = 0 := by
  refine ⟨stored_checksum h, ⟨sumWords_exact h, foldCarry_done _⟩, ?_, ?_, ?_, ?_⟩
  · intro pre post hl hpre
    subst hl
    simp only [length_append, length_cons, length_nil] at h
    exact verifies hpre (by omega)
  · intro link src dst proto payload frame hframe
    obtain ⟨-, rfl⟩ := sendIp_eq_some hframe
    unfold ipFrame
    rw [ipHeaderOf_frame _ _ _ (length_ipHeader _ _ _ _ _ _ _ (length_le16Bytes _))]
    exact ipHeader_verifies _ _ _ _ _ _
  · intro st f off len reply hsent hreply
    obtain ⟨src, payload, h4, hlen, rfl⟩ := handleIcmp_reply hsent hreply
    exact ⟨echoReply_header st src len, echoReply_payload st src len h4 hlen⟩
  · intro mac xid msgType serverIp requestedIp
    unfold Dhcp.dhcpFrame Dhcp.dhcpWrap
    rw [append_assoc, append_assoc,
      ipHeaderOf_frame _ _ _ (length_ipHeader _ _ _ _ _ _ _ (length_le16Bytes _))]
    exact ipHeader_verifies _ _ _ _ _ _

/-- The words 0x1234 and 0x5600 add up to 0x6834; the stored bytes are those of 0x97CB. -/
theorem inet_checksum_rfc1071_odd : le16Bytes (inetChecksum [0x12, 0x34, 0x56]) = [0x97, 0xCB] ∧
    le16Bytes (inetChecksum [0x12, 0x34, 0x56]) =
      be16Bytes (UInt16.ofNat (rfc1071 [0x12, 0x34, 0x56])) :=
  ⟨by decide, (inet_checksum_rfc1071 [0x12, 0x34, 0x56] (by decide)).1⟩

/-! ## `tcp_checksum` -/

/-- `__builtin_bswap16` -/
def htons (v : UInt16) : UInt16 := v <<< 8 ||| v >>> 8

/-- The additions of `tcp_checksum` one by one; `tcpChecksum` has the bytes they stand
for. mirrors src/net/tcp.cpp:11-36 -/
def tcpChecksumWords (src dst : UInt32) (data : List UInt8) : UInt16 :=
  let sum : UInt32 := 0
  let sum := sum + (src &&& 0xFFFF)
  let sum := sum + src >>> 16
  let sum := sum + (dst &&& 0xFFFF)
  let sum := sum + dst >>> 16
  let sum := sum + (htons 6).toUInt32
  let sum := sum + (htons (UInt16.ofNat data.length)).toUInt32
  ~~~ (foldCarry 2 (sumWords data sum)).toUInt16

/-- The addresses, a zero, the protocol and the length, in network order. -/
def pseudoHeader (src dst : UInt32) (len : Nat) : List UInt8 :=
  addrBytes src ++ addrBytes dst ++ [0, 6] ++ be16Bytes (UInt16.ofNat len)

theorem sumWords_append (hpre : pre.length % 2 = 0) (l : List UInt8) (acc : UInt32) :
    sumWords (pre ++ l) acc = sumWords l (sumWords pre acc) := by
  fun_induction sumWords pre acc with
  | case1 a b rest acc ih =>
    have hrest : rest.length % 2 = 0 := by
      simp only [length_cons] at hpre
      omega
    rw [cons_append, cons_append, sumWords, ih hrest]
  | case2 a acc => simp at hpre
  | case3 acc => rfl

theorem low_word (x : UInt32) : x.toUInt8.toUInt32 ||| (x >>> 8).toUInt8.toUInt32 <<< 8 =
    x &&& 0xFFFF := by
  apply UInt32.toNat_inj.mp
  rw [toNat_word, UInt32.toNat_and, UInt32.toNat_toUInt8, UInt32.toNat_toUInt8,
    UInt32.toNat_shiftRight,
    Nat.shiftRight_eq_div_pow]
  change x.toNat % 2 ^ 8 + 256 * (x.toNat / 2 ^ 8 % 2 ^ 8) = x.toNat &&& 2 ^ 16 - 1
  rw [Nat.and_two_pow_sub_one_eq_mod]
  omega

theorem high_word (x : UInt32) :
    (x >>> 16).toUInt8.toUInt32 ||| (x >>> 24).toUInt8.toUInt32 <<< 8 = x >>> 16 := by
  have hlt := x.toNat_lt
  apply UInt32.toNat_inj.mp
  rw [toNat_word, UInt32.toNat_toUInt8, UInt32.toNat_toUInt8, toNat_shiftRight16,
    UInt32.toNat_shiftRight,
    Nat.shiftRight_eq_div_pow]
  change x.toNat / 2 ^ 16 % 2 ^ 8 + 256 * (x.toNat / 2 ^ 24 % 2 ^ 8) = x.toNat / 2 ^ 16
  omega

theorem swapped_word (v : UInt16) :
    (v >>> 8).toUInt8.toUInt32 ||| v.toUInt8.toUInt32 <<< 8 = (htons v).toUInt32 := by
  have hlt := v.toNat_lt
  have hlow : v.toNat / 2 ^ 8 < 2 ^ 8 := by omega
  apply UInt32.toNat_inj.mp
  rw [toNat_word, toNat_high, UInt16.toNat_toUInt8, UInt16.toNat_toUInt32, htons, UInt16.toNat_or,
    UInt16.toNat_shiftLeft, UInt16.toNat_shiftRight, Nat.shiftLeft_eq, Nat.shiftRight_eq_div_pow]
  change v.toNat / 256 + 256 * (v.toNat % 2 ^ 8) = v.toNat * 2 ^ 8 % 2 ^ 16 ||| v.toNat / 2 ^ 8
  have hhigh : v.toNat * 2 ^ 8 % 2 ^ 16 = 2 ^ 8 * (v.toNat % 2 ^ 8) := by omega
  rw [hhigh, ← Nat.two_pow_add_eq_or_of_lt hlow]
  omega

theorem sumWords_pseudo (src dst : UInt32) (len : Nat) : sumWords (pseudoHeader src dst len) 0 =
    0 + (src &&& (0xFFFF : UInt32)) + src >>> (16 : UInt32) + (dst &&& (0xFFFF : UInt32)) +
      dst >>> (16 : UInt32) + (htons 6).toUInt32 + (htons (UInt16.ofNat len)).toUInt32 := by
  rw [← low_word src, ← high_word src, ← low_word dst, ← high_word dst, ← swapped_word 6,
    ← swapped_word]
  rfl

theorem length_pseudoHeader (src dst : UInt32) (len : Nat) :
    (pseudoHeader src dst len).length = 12 := rfl

theorem tcpChecksumWords_eq (src dst : UInt32) (data : List UInt8) :
    tcpChecksumWords src dst data = inetChecksum (pseudoHeader src dst data.length ++ data) := by
  have heven : (pseudoHeader src dst data.length).length % 2 = 0 := by rw [length_pseudoHeader]
  rw [inetChecksum, sumWords_append heven, sumWords_pseudo]
  rfl

theorem tcpChecksum_eq (src dst : UInt32) (data : List UInt8) :
    tcpChecksum src dst data = inetChecksum (pseudoHeader src dst data.length ++ data) := by
  have heven : (pseudoHeader src dst data.length).length % 2 = 0 := by rw [length_pseudoHeader]
  rw [inetChecksum, sumWords_append heven]
  rfl

/-- The checksum stands 16 bytes behind the start of a segment. -/
theorem tcpHeader_split (sg : Segment) : ∃ front : List UInt8, front.length = 16 ∧
    ∀ sum, tcpHeader sg sum ++ sg.data = front ++ (sum ++ ([0, 0] ++ sg.data)) := by
  refine ⟨be16Bytes sg.srcPort ++ be16Bytes sg.dstPort ++ be32Bytes sg.seq ++ be32Bytes sg.ack ++
    [0x50, sg.flags] ++ be16Bytes sg.window, ?_, fun sum => ?_⟩
  · simp only [length_append, length_be16Bytes, length_be32Bytes, length_cons, length_nil]
  · simp only [tcpHeader, append_assoc]

/-- The segment with its checksum in place. -/
theorem tcpBytes_verifies (src : UInt32) (sg : Segment) (hlen : sg.data.length ≤ 65515) :
    inetChecksum (pseudoHeader src sg.dst (tcpBytes src sg).length ++ tcpBytes src sg) = 0 := by
  obtain ⟨front, hfront, hheader⟩ := tcpHeader_split sg
  have hlength : (tcpHeader sg [0, 0] ++ sg.data).length = 20 + sg.data.length := by
    simp only [hheader, length_append, hfront, length_cons, length_nil]
    omega
  have hpre : (pseudoHeader src sg.dst (20 + sg.data.length) ++ front).length = 28 := by
    rw [length_append, length_pseudoHeader, hfront]
  rw [tcpBytes_length, tcpBytes, tcpChecksum_eq, hlength, hheader, hheader,
    ← append_assoc (pseudoHeader src sg.dst (20 + sg.data.length)) front,
    ← append_assoc (pseudoHeader src sg.dst (20 + sg.data.length)) front]
  refine verifies ?_ ?_
  · rw [hpre]
  · rw [hpre, length_append, length_cons, length_singleton]
    omega

/-- `tcp_checksum` is `inet_checksum` of pseudo-header and segment, and the segment that
`send_tcp_segment` puts into a frame verifies. -/
theorem tcp_checksum_agrees : (∀ src dst data, tcpChecksumWords src dst data =
      inetChecksum (pseudoHeader src dst data.length ++ data)) ∧
    (∀ src dst data, tcpChecksum src dst data = tcpChecksumWords src dst data) ∧
    ∀ s id flags data link frame, tcpFrame s id flags data link = some frame →
      inetChecksum (pseudoHeader (s.conns id).localIp (s.conns id).remoteIp (frame.drop 34).length ++
        frame.drop 34) = 0 := by
  refine ⟨tcpChecksumWords_eq, fun src dst data => ?_, fun s id flags data link frame hframe => ?_⟩
  · rw [tcpChecksum_eq, tcpChecksumWords_eq]
  obtain ⟨hmax, rfl⟩ := sendIp_eq_some hframe
  have hdata : (tcpBytes (s.conns id).localIp (buildSegment (s.conns id) flags data)).length =
      20 + data.length := tcpBytes_length
  rw [ipFrame_payload]
  exact tcpBytes_verifies _ (buildSegment (s.conns id) flags data) (by
    change data.length ≤ 65515
    simp only [maxPacket] at hmax
    omega)

end HackersOs.L3.Net

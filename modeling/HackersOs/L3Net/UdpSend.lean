import HackersOs.L3Net.Wire

/-!
# What `sendto` sends by UDP

`sendto` cuts the data to the MTU less the UDP header, `send_ip` refuses a frame
above `MAX_PACKET`, which has four bytes more than an Ethernet header and the MTU,
and the length field has the length before the cut. A frame handed over to the
device counts as sent, whether the device reports it in time or not; requests
for the hardware address of the next hop do not count.

`udp_send_iff`: when result and frame fit together. **Counterexample**
(`udp_exceeds_mtu`): 1473 bytes make an IP packet of 1501 bytes.
-/
namespace HackersOs.L3.Net
open HackersOs.Core Tcp Socket

/-- The 16-bit field at `off` of a frame. -/
def fieldAt (frame : List UInt8) (off : Nat) : Nat := (be16At (fun i => frame.getD i 0) off).toNat

/-- Nothing is sent and the result is an error, or one frame is sent within the MTU with
the lengths and the first `n` bytes of the data, and `n` is returned. -/
def SendConsistent (sent : Option (List UInt8)) (result : Int) (buf : List UInt8) : Prop :=
  (sent = none ∧ result < 0) ∨
  ∃ frame n, sent = some frame ∧ result = (n : Nat) ∧ fieldAt frame 16 = 28 + n ∧ 28 + n ≤ mtu ∧
    fieldAt frame 38 = 8 + n ∧ frame.drop 42 = buf.take n ∧ n ≤ buf.length

section
variable {s : Sockets} {fd : Int} {i : Fin 64} {buf : List UInt8} {dest : Option (SockAddr × Nat)}
  {runs : List (IpRun × List Round)} {polled : Polled} {tick : UInt64} {l : Link}

/-- The fields of a frame with a UDP packet. -/
theorem udp_fields {src dst : UInt32} {sport dport : UInt16} {frame : List UInt8}
    (h : frame = ipFrame l src dst 17 (udpPacket sport dport buf)) (hlen : buf.length ≤ 1492) :
    fieldAt frame 16 = 28 + buf.length ∧ fieldAt frame 38 = 8 + buf.length ∧ frame.drop 42 = buf := by
  have hholds := holds_getD frame 0
  rw [h] at hholds
  obtain ⟨-, -, htotal, -, -, hpayload⟩ := ipFrame_fields hholds
  obtain ⟨-, -, hlength, -⟩ := udpPacket_fields hpayload hlen
  refine ⟨?_, ?_, ?_⟩
  · rw [fieldAt, h, htotal, udpPacket_length]
    rw [UInt16.toNat_ofNat_of_lt' (by simp only [UInt16.size]; omega)]
    omega
  · rw [fieldAt, h, hlength]
    exact UInt16.toNat_ofNat_of_lt' (by simp only [UInt16.size]; omega)
  · have hdrop : frame.drop 42 = (frame.drop 34).drop 8 := by rw [List.drop_drop]
    rw [hdrop, h, ipFrame_payload, udpPacket, List.drop_left']
    · exact List.take_of_length_le hlen
    · simp only [List.length_append, length_be16Bytes, List.length_cons, List.length_nil]

/-- The frame of `sendto`, when there is one. -/
theorem udpFrame_cases (s : Sockets) (i : Fin 64) (buf : List UInt8)
    (dest : Option (SockAddr × Nat)) (l : Link) :
    (udpFrame s i buf dest l = none ∧ (1476 < buf.length ∨ l.nextHop = macZero)) ∨
    (buf.length ≤ 1476 ∧ l.nextHop ≠ macZero ∧ ∃ src dst sport dport,
      udpFrame s i buf dest l = some (ipFrame l src dst 17 (udpPacket sport dport buf))) := by
  unfold udpFrame sendIp
  dsimp only
  rw [udpPacket_length]
  by_cases hlen : 14 + 20 + (8 + min 1492 buf.length) > maxPacket
  · rw [if_pos hlen]
    simp only [maxPacket] at hlen
    exact .inl ⟨rfl, .inl (by omega)⟩
  rw [if_neg hlen]
  simp only [maxPacket] at hlen
  by_cases hhop : l.nextHop = macZero
  · rw [if_pos hhop]
    exact .inl ⟨rfl, .inr hhop⟩
  · rw [if_neg hhop]
    exact .inr ⟨by omega, hhop, _, _, _, _, rfl⟩

/-- `send_ip` returns true when the frame fits, is built and is reported. -/
theorem sendIp_ok {t : TcpSys} {n : Nat} : (Socket.sendIp t n (l.run polled tick)).2 = true ↔
    34 + n ≤ maxPacket ∧ l.nextHop ≠ macZero ∧ l.reported = true := by
  unfold Socket.sendIp Link.run
  dsimp only
  by_cases hlen : 14 + 20 + n > maxPacket
  · rw [if_pos hlen]
    refine iff_of_false Bool.false_ne_true fun h => ?_
    exact absurd h.1 (Nat.not_le.mpr hlen)
  rw [if_neg hlen, decide_eq_true_eq]
  by_cases hhop : l.nextHop = macZero
  · rw [if_pos hhop]
    exact iff_of_false (by decide) fun h => h.2.1 hhop
  rw [if_neg hhop]
  cases l.reported with
  | false => exact iff_of_false (by decide) fun h => absurd h.2.2 (by decide)
  | true => exact iff_of_true rfl ⟨Nat.not_lt.mp hlen, hhop, rfl⟩

/-- The result of `sendto`: what was copied, if a frame was built and reported. -/
theorem sendto_result (hfd : fdToIdx s fd = some i) (htype : (s.entries i).type = .udp) :
    (sendto s fd buf dest ⟨runs, l.run polled tick⟩).2 =
      if buf.length ≤ 1476 ∧ l.nextHop ≠ macZero ∧ l.reported = true then (buf.length : Int)
      else linuxEio := by
  simp only [sendto, hfd, htype, sendIp_ok, udpPacket_length, udpHeaderLen, maxPacket]
  have hlen : 34 + (8 + min 1492 buf.length) ≤ 1518 ↔ buf.length ≤ 1476 := by omega
  simp only [hlen]
  split
  · rename_i h
    rw [Nat.add_sub_cancel_left, Nat.min_eq_right (h.1.trans (by decide))]
  · rfl

/-- On every UDP socket, with every destination and length: `sendto` sends nothing and fails,
or sends one frame within the MTU and returns what is in it, if and only if the data are
too long for a frame, no next hop answers, or the data fit the MTU and the device
reports the frame. -/
theorem udp_send_iff (hfd : fdToIdx s fd = some i) (htype : (s.entries i).type = .udp) :
    SendConsistent (udpFrame s i buf dest l) (sendto s fd buf dest ⟨runs, l.run polled tick⟩).2 buf ↔
      1476 < buf.length ∨ l.nextHop = macZero ∨ (buf.length ≤ 1472 ∧ l.reported = true) := by
  rw [sendto_result hfd htype]
  rcases udpFrame_cases s i buf dest l with ⟨hnone, hwhy⟩ | ⟨hlen, hhop, src, dst, sport, dport,
    hframe⟩
  · -- no frame, and an error
    have hfail : ¬ (buf.length ≤ 1476 ∧ l.nextHop ≠ macZero ∧ l.reported = true) := by
      rintro ⟨hle, hne, -⟩
      rcases hwhy with hlong | hzero
      · omega
      · exact hne hzero
    rw [hnone, if_neg hfail]
    refine iff_of_true (.inl ⟨rfl, by decide⟩) ?_
    rcases hwhy with hlong | hzero
    · exact .inl hlong
    · exact .inr (.inl hzero)
  · obtain ⟨htotal, hlength, hdata⟩ := udp_fields rfl (Nat.le_trans hlen (by decide))
    rw [hframe]
    cases hreport : l.reported with
    | false =>
      -- a frame, and an error
      rw [if_neg fun h => absurd h.2.2 (by decide)]
      refine iff_of_false ?_ ?_
      · rintro (⟨hnone, -⟩ | ⟨frame, n, -, hn, -⟩)
        · cases hnone
        · exact absurd hn (by unfold linuxEio; omega)
      · rintro (hlong | hzero | ⟨-, hfalse⟩)
        · omega
        · exact hhop hzero
        · cases hfalse
    | true =>
      rw [if_pos ⟨hlen, hhop, rfl⟩]
      constructor
      · rintro (⟨hnone, -⟩ | ⟨frame, n, -, hn, -, hmtu, -⟩)
        · cases hnone
        · obtain rfl : buf.length = n := Int.ofNat.inj hn
          exact .inr (.inr ⟨by unfold mtu at hmtu; omega, rfl⟩)
      · rintro (hlong | hzero | ⟨hfits, -⟩)
        · omega
        · exact absurd hzero hhop
        · refine .inr ⟨_, buf.length, rfl, rfl, htotal, ?_, hlength, ?_, Nat.le_refl _⟩
          · unfold mtu
            omega
          · rw [hdata, List.take_length]

end

theorem udp_send_iff_query : SendConsistent (udpFrame querySockets 0 [1, 2, 3] none lan)
      (sendto querySockets 100 [1, 2, 3] none ⟨[], lan.run .nil 0⟩).2 [1, 2, 3] :=
  (udp_send_iff (by decide +kernel) (by decide +kernel)).mpr (.inr (.inr ⟨by decide, rfl⟩))

/-- **Counterexample.** 1473 bytes: the result is 1473, the frame has an IP packet of
1501 bytes. -/
theorem udp_exceeds_mtu :
    (sendto querySockets 100 (List.replicate 1473 7) none ⟨[], lan.run .nil 0⟩).2 = 1473 ∧
    (∃ frame, udpFrame querySockets 0 (List.replicate 1473 7) none lan = some frame ∧
      fieldAt frame 16 = 1501) ∧
    ¬ SendConsistent (udpFrame querySockets 0 (List.replicate 1473 7) none lan)
      (sendto querySockets 100 (List.replicate 1473 7) none ⟨[], lan.run .nil 0⟩).2
      (List.replicate 1473 7) := by
  have hresult := @sendto_result querySockets 100 0 (List.replicate 1473 7) none [] .nil 0 lan
    (by decide +kernel) (by decide +kernel)
  have hlen : (List.replicate 1473 (7 : UInt8)).length = 1473 := List.length_replicate
  rw [if_pos ⟨by rw [hlen]; decide, by decide, rfl⟩, hlen] at hresult
  rcases udpFrame_cases querySockets 0 (List.replicate 1473 7) none lan with
    ⟨-, hlong | hzero⟩ | ⟨-, -, src, dst, sport, dport, hframe⟩
  · omega
  · exact absurd hzero (by decide)
  obtain ⟨htotal, -⟩ := @udp_fields (List.replicate 1473 7) lan src dst sport dport _ rfl
    (by rw [hlen]; decide)
  rw [hlen] at htotal
  refine ⟨hresult, ⟨_, hframe, htotal⟩, ?_⟩
  rw [hframe]
  rintro (⟨hnone, -⟩ | ⟨frame, n, hsent, -, hn, hmtu, -⟩)
  · cases hnone
  · rw [← Option.some.inj hsent, htotal] at hn
    unfold mtu at hmtu
    omega

end HackersOs.L3.Net

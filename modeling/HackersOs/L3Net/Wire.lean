import HackersOs.Core.Layout
import HackersOs.L3Net.InputBounds
import HackersOs.L3Net.Sockets

/-!
# What goes over the wire

The bytes of the frames: `Net::send_ip`, the UDP packet of `sendto`, the
segment of `send_tcp_segment`. The next hop's address, the identification and
the device's report are those of the send (`Link`); nothing of the receiver
depends on them.

`wire_round_trip`: the input path of any other instance reads back what was
sent.
-/
namespace HackersOs.L3.Net
open HackersOs.Core Tcp Socket

variable {buf : List UInt8} {dp lp : UInt16} {n : Nat} {polled : Polled} {sg : Segment}
  {tick : UInt64}

/-! ## Fields -/

/-- The bytes of `htonl(v)`. -/
def be32Bytes (v : UInt32) : List UInt8 :=
  [(v >>> 24).toUInt8, (v >>> 16).toUInt8, (v >>> 8).toUInt8, v.toUInt8]

@[simp] theorem length_be16Bytes (v : UInt16) : (be16Bytes v).length = 2 := rfl

@[simp] theorem length_le16Bytes (v : UInt16) : (le16Bytes v).length = 2 := rfl

@[simp] theorem length_be32Bytes (v : UInt32) : (be32Bytes v).length = 4 := rfl

@[simp] theorem length_addrBytes (a : UInt32) : (addrBytes a).length = 4 := rfl

theorem u16_bytes (v : UInt16) : (v >>> 8).toUInt8.toUInt16 <<< 8 ||| v.toUInt8.toUInt16 = v := by
  apply UInt16.eq_of_toBitVec_eq
  simp only [UInt16.toBitVec_or, UInt16.toBitVec_shiftLeft, UInt8.toBitVec_toUInt16,
    UInt16.toBitVec_toUInt8, UInt16.toBitVec_shiftRight]
  ext i hi
  simp only [UInt16.toBitVec_ofNat, BitVec.ofNat_eq_ofNat, BitVec.reduceMod, BitVec.ushiftRight_eq',
    BitVec.toNat_ofNat, Nat.reducePow, Nat.reduceMod, BitVec.shiftLeft_eq', BitVec.getElem_or,
    BitVec.getElem_shiftLeft, BitVec.getElem_setWidth, BitVec.getLsbD_setWidth,
      BitVec.getLsbD_ushiftRight]
  grind

theorem u32_bytes (v : UInt32) : v.toUInt8.toUInt32 ||| (v >>> 8).toUInt8.toUInt32 <<< 8 |||
    (v >>> 16).toUInt8.toUInt32 <<< 16 ||| (v >>> 24).toUInt8.toUInt32 <<< 24 = v := by
  apply UInt32.eq_of_toBitVec_eq
  simp only [UInt32.toBitVec_or, UInt32.toBitVec_shiftLeft, UInt8.toBitVec_toUInt32,
    UInt32.toBitVec_toUInt8, UInt32.toBitVec_shiftRight]
  ext i hi
  simp only [UInt32.toBitVec_ofNat, BitVec.ofNat_eq_ofNat, BitVec.reduceMod, BitVec.ushiftRight_eq',
    BitVec.toNat_ofNat, Nat.reducePow, Nat.reduceMod, BitVec.shiftLeft_eq', BitVec.getElem_or,
    BitVec.getElem_shiftLeft, BitVec.getElem_setWidth, BitVec.getLsbD_setWidth,
      BitVec.getLsbD_ushiftRight]
  grind

section
variable {f : Frame} {off : Nat}

theorem be16At_holds {v : UInt16} (h : Holds f off (be16Bytes v)) : be16At f off = v := by
  simp only [be16Bytes, holds_cons] at h
  rw [be16At, h.1, h.2.1, u16_bytes]

theorem addrAt_holds {a : UInt32} (h : Holds f off (addrBytes a)) : addrAt f off = a := by
  simp only [addrBytes, holds_cons] at h
  obtain ⟨h0, h1, h2, h3, -⟩ := h
  rw [addrAt, h0, h1, h2, h3, u32_bytes]

theorem be32At_holds {v : UInt32} (h : Holds f off (be32Bytes v)) : be32At f off = v := by
  simp only [be32Bytes, holds_cons] at h
  obtain ⟨h0, h1, h2, h3, -⟩ := h
  -- the same four bytes in the other order
  have hv := u32_bytes v
  rw [be32At, h0, h1, h2, h3]
  rw [UInt32.or_comm, UInt32.or_comm (_ ||| _) ((v >>> 8).toUInt8.toUInt32 <<< 8), ← UInt32.or_assoc,
    UInt32.or_comm ((v >>> 24).toUInt8.toUInt32 <<< 24), ← UInt32.or_assoc]
  exact hv

end

/-! ## Frames -/

/-- What a send finds and gets: the hardware addresses of both ends, with zero
for a next hop that did not answer, the identification and the device's report. -/
structure Link where
  localMac : MacAddr
  nextHop : MacAddr
  id : UInt16
  reported : Bool

/-- The send as the connection table sees it. -/
def Link.run (l : Link) (polled : Polled) (tick : UInt64) : IpRun :=
  .mk polled (if l.nextHop = macZero then .noFrame else if l.reported then .ok else .timeout) tick

/-- mirrors src/net/net.cpp:277-294 -/
def ipFrame (l : Link) (src dst : UInt32) (proto : UInt8) (payload : List UInt8) : List UInt8 :=
  let hdr := ipHeader (UInt16.ofNat (20 + payload.length)) l.id 0x4000 proto src dst
  l.nextHop.toList ++ l.localMac.toList ++ be16Bytes 0x0800 ++
    hdr (le16Bytes (inetChecksum (hdr [0, 0]))) ++ payload

/-- The frame handed to the device, and the result. mirrors src/net/net.cpp:255-297 -/
def sendIp (l : Link) (src dst : UInt32) (proto : UInt8) (payload : List UInt8) :
    Option (List UInt8) × Bool :=
  if 14 + 20 + payload.length > maxPacket then (none, false)
  else if l.nextHop = macZero then (none, false)
  else (some (ipFrame l src dst proto payload), l.reported)

/-- The frame of `sendto` on a UDP socket. mirrors src/net/socket.cpp:195-227 -/
def udpFrame (s : Sockets) (i : Fin 64) (buf : List UInt8) (dest : Option (SockAddr × Nat))
    (l : Link) : Option (List UInt8) :=
  let s := autoPort s i
  let dst := udpDest (s.entries i) dest
  (sendIp l s.tcp.localIp dst.addr 17 (udpPacket (s.entries i).localPort dst.port buf)).1

/-- mirrors src/net/tcp.cpp:11-36; `htons` of the protocol and of the length. -/
def tcpChecksum (src dst : UInt32) (data : List UInt8) : UInt16 :=
  let pseudo := addrBytes src ++ addrBytes dst ++ be16Bytes 6 ++ be16Bytes (UInt16.ofNat data.length)
  ~~~ (foldCarry 2 (sumWords data (sumWords pseudo 0))).toUInt16

/-- A segment without options, with the given checksum bytes. -/
def tcpHeader (sg : Segment) (sum : List UInt8) : List UInt8 :=
  be16Bytes sg.srcPort ++ be16Bytes sg.dstPort ++ be32Bytes sg.seq ++ be32Bytes sg.ack ++
    [0x50, sg.flags] ++ be16Bytes sg.window ++ sum ++ [0, 0]

/-- mirrors src/net/tcp.cpp:38-55 -/
def tcpBytes (src : UInt32) (sg : Segment) : List UInt8 :=
  tcpHeader sg (le16Bytes (tcpChecksum src sg.dst (tcpHeader sg [0, 0] ++ sg.data))) ++ sg.data

/-- The frame of `send_tcp_segment`. mirrors src/net/tcp.cpp:37-57 -/
def tcpFrame (s : TcpSys) (id : Slot) (flags : UInt8) (data : List UInt8) (l : Link) :
    Option (List UInt8) :=
  let conn := s.conns id
  (sendIp l s.localIp conn.remoteIp 6 (tcpBytes conn.localIp (buildSegment conn flags data))).1

/-! ## Reading back -/

/-- `socket_udp_input` is called with the given endpoints and bytes: they stand in
the received frame, and what the stack has after the frame is what that call
leaves. -/
def ReachesUdp (st : NetState) (f : Frame) (len : Nat) (srcIp : UInt32) (srcPort dstPort : UInt16)
    (data : List UInt8) : Prop :=
  ∃ off, Holds f off data ∧ (netHandlePacket st f (UInt32.ofNat len)).value =
    { st with sockets := (Net.socketUdpInput st.sockets srcIp srcPort dstPort f off
      (UInt32.ofNat data.length)).value }.drop

/-- The state machine of `tcp_input` is given a segment with the given fields and
bytes. -/
def ReachesTcp (st : NetState) (f : Frame) (len : Nat) (srcIp : UInt32) (srcPort dstPort : UInt16)
    (seq ack : UInt32) (flags : UInt8) (data : List UInt8) : Prop :=
  ∃ seg : InSeg, seg.srcIp = srcIp ∧ seg.srcPort = srcPort ∧ seg.dstPort = dstPort ∧
    seg.seq = seq ∧ seg.ack = ack ∧ seg.flags = flags ∧
    seg.dataLen.toNat = data.length ∧ Holds seg.data 0 data ∧
    (netHandlePacket st f (UInt32.ofNat len)).value =
      ⟨{ st with tcp := (react st.tcp seg).1 }, (react st.tcp seg).2⟩

section
variable {st : NetState} {f : Frame} {l : Link} {src dst : UInt32} {proto : UInt8}
  {payload : List UInt8}

theorem ipFrame_payload : (ipFrame l src dst proto payload).drop 34 = payload := by
  refine List.drop_left' ?_
  simp [ipHeader]

/-- A frame is built when it fits and the next hop answers. -/
theorem sendIp_eq_some {frame : List UInt8} (h : (sendIp l src dst proto payload).1 = some frame) :
    34 + payload.length ≤ maxPacket ∧ frame = ipFrame l src dst proto payload := by
  unfold sendIp at h
  split at h
  · cases h
  split at h
  · cases h
  · rename_i hlen _
    exact ⟨Nat.not_lt.mp hlen, (Option.some.inj h).symm⟩

theorem ipFrame_length : (ipFrame l src dst proto payload).length = 34 + payload.length := by
  simp [ipFrame, ipHeader]
  omega

/-- What the input path reads of a frame. -/
theorem ipFrame_fields (h : Holds f 0 (ipFrame l src dst proto payload)) :
    be16At f 12 = 0x0800 ∧ f 14 = 0x45 ∧ be16At f 16 = UInt16.ofNat (20 + payload.length) ∧
      f 23 = proto ∧ addrAt f 26 = src ∧ Holds f 34 payload := by
  simp only [ipFrame, ipHeader, holds_append, holds_cons, List.length_append, Vector.length_toList,
    length_be16Bytes, length_le16Bytes, length_addrBytes, List.length_cons, List.length_nil,
      Nat.zero_add,
    Nat.reduceAdd, and_assoc] at h
  obtain ⟨-, -, htype, hver, -, -, htotal, -, -, -, hproto, -, -, hsrc, -, hpayload⟩ := h
  exact ⟨be16At_holds htype, hver, be16At_holds htotal, hproto, addrAt_holds hsrc, hpayload⟩

theorem toNat_ofNat32 (h : n ≤ maxPacket) : (UInt32.ofNat n).toNat = n :=
  UInt32.toNat_ofNat_of_lt' (by simp only [maxPacket, UInt32.size] at h ⊢; omega)

theorem not_lt_ofNat {k : Nat} (h : n ≤ maxPacket) (hk : k ≤ n) :
    ¬ UInt32.ofNat n < UInt32.ofNat k := by
  rw [UInt32.lt_iff_toNat_lt, toNat_ofNat32 h, toNat_ofNat32 (hk.trans h)]
  omega

theorem ofNat_sub {k : Nat} (h : n ≤ maxPacket) (hk : k ≤ n) :
    UInt32.ofNat n - UInt32.ofNat k = UInt32.ofNat (n - k) := by
  apply UInt32.toNat_inj.mp
  have hle : UInt32.ofNat k ≤ UInt32.ofNat n := by
    rw [UInt32.le_iff_toNat_le, toNat_ofNat32 h, toNat_ofNat32 (hk.trans h)]
    exact hk
  rw [UInt32.toNat_sub_of_le _ _ hle, toNat_ofNat32 h, toNat_ofNat32 (hk.trans h),
    toNat_ofNat32 ((Nat.sub_le n k).trans h)]

/-- The frame is taken apart down to its payload. -/
theorem handle_ipFrame (h : Holds f 0 (ipFrame l src dst proto payload))
    (hlen : 34 + payload.length ≤ maxPacket) :
    (netHandlePacket st f (UInt32.ofNat (34 + payload.length))).value =
      (if proto = 1 then handleIcmp st f 34 (UInt32.ofNat payload.length)
      else if proto = 17 then handleUdp st f 34 (UInt32.ofNat payload.length)
      else if proto = 6 then tcpInput st f 34 (UInt32.ofNat payload.length)
      else pure st.drop).value := by
  obtain ⟨htype, hver, htotal, hproto, -, -⟩ := ipFrame_fields h
  have hlen14 : ¬ UInt32.ofNat (34 + payload.length) < 14 :=
    not_lt_ofNat (k := 14) hlen (by omega)
  have hlen34 : ¬ UInt32.ofNat (34 + payload.length) < 34 :=
    not_lt_ofNat (k := 34) hlen (by omega)
  have hsub : UInt32.ofNat (34 + payload.length) - 14 = UInt32.ofNat (20 + payload.length) := by
    have := ofNat_sub (k := 14) hlen (by omega)
    rwa [show 34 + payload.length - 14 = 20 + payload.length by omega] at this
  have hrest : UInt32.ofNat (20 + payload.length) - 20 = UInt32.ofNat payload.length := by
    have := ofNat_sub (n := 20 + payload.length) (k := 20) (by omega) (by omega)
    rwa [Nat.add_sub_cancel_left] at this
  have hwide : (UInt16.ofNat (20 + payload.length)).toUInt32 =
      UInt32.ofNat (20 + payload.length) := by
    apply UInt32.toNat_inj.mp
    rw [UInt16.toNat_toUInt32, toNat_ofNat32 (by omega), UInt16.toNat_ofNat_of_lt']
    simp only [maxPacket, UInt16.size] at hlen ⊢
    omega
  have hhdr : ((0x45 : UInt8) &&& 0x0F).toUInt32 * 4 = 20 := by decide
  rw [netHandlePacket, if_neg hlen14]
  simp only [Traced.value_bind, read16, Traced.value_pure, htype]
  rw [if_neg (by decide), if_pos trivial, handleIpv4, if_neg hlen34]
  simp only [Traced.value_bind, read8, read16, Traced.value_pure, hver, htotal, hproto, hwide, hhdr,
    hsub]
  rw [if_neg (UInt32.lt_irrefl _)]
  simp only [Traced.value_bind, Traced.value_pure, hrest]
  rfl

/-! ### UDP -/

theorem udpPacket_length : (udpPacket lp dp buf).length = 8 + min 1492 buf.length := by
  simp [udpPacket, mtu, udpHeaderLen]
  omega

theorem udpPacket_fields (h : Holds f 34 (udpPacket lp dp buf)) (hlen : buf.length ≤ 1492) :
    be16At f 34 = lp ∧ be16At f 36 = dp ∧
      be16At f 38 = UInt16.ofNat (8 + buf.length) ∧ Holds f 42 buf := by
  have htake : buf.take (mtu - udpHeaderLen) = buf :=
    List.take_of_length_le (by simpa [mtu, udpHeaderLen] using hlen)
  simp only [udpPacket, htake, holds_append, List.length_append, length_be16Bytes, List.length_cons,
    List.length_nil, Nat.reduceAdd, and_assoc] at h
  obtain ⟨hsrc, hdst, hlength, -, hdata⟩ := h
  exact ⟨be16At_holds hsrc, be16At_holds hdst, be16At_holds hlength, hdata⟩

theorem udp_reaches (h : Holds f 0 (ipFrame l src dst 17 (udpPacket lp dp buf)))
    (hlen : 34 + (udpPacket lp dp buf).length ≤ maxPacket) :
    ReachesUdp st f (ipFrame l src dst 17 (udpPacket lp dp buf)).length src lp dp buf := by
  have hlen' := hlen
  rw [udpPacket_length] at hlen'
  simp only [maxPacket] at hlen'
  obtain ⟨-, -, -, -, hsrc, hpayload⟩ := ipFrame_fields h
  obtain ⟨hlp, hdp, hlength, hdata⟩ := udpPacket_fields hpayload (by omega)
  have hlen8 : ¬ UInt32.ofNat (udpPacket lp dp buf).length < 8 :=
    not_lt_ofNat (k := 8) (by omega) (by rw [udpPacket_length]; omega)
  have hdataLen : (UInt16.ofNat (8 + buf.length) - 8).toUInt32 = UInt32.ofNat buf.length := by
    have hl : (UInt16.ofNat (8 + buf.length)).toNat = 8 + buf.length :=
      UInt16.toNat_ofNat_of_lt' (by simp only [UInt16.size]; omega)
    apply UInt32.toNat_inj.mp
    rw [dataLen_toNat (by omega), hl, toNat_ofNat32 (by simp only [maxPacket]; omega),
      Nat.add_sub_cancel_left]
  refine ⟨42, hdata, ?_⟩
  rw [ipFrame_length, handle_ipFrame h hlen, if_neg (by decide), if_pos rfl, handleUdp, if_neg hlen8]
  simp only [Traced.value_bind, read16, readAddr, Traced.value_pure, hlp, hdp, hlength, hsrc,
    hdataLen]

/-! ### TCP -/

theorem tcpHeader_length {x y : UInt8} : (tcpHeader sg [x, y]).length = 20 := by
  simp [tcpHeader]

theorem tcpBytes_length : (tcpBytes src sg).length = 20 + sg.data.length := by
  rw [tcpBytes, le16Bytes, List.length_append, tcpHeader_length]

theorem tcpBytes_fields (h : Holds f 34 (tcpBytes src sg)) :
    be16At f 34 = sg.srcPort ∧ be16At f 36 = sg.dstPort ∧ be32At f 38 = sg.seq ∧
      be32At f 42 = sg.ack ∧ f 46 = 0x50 ∧ f 47 = sg.flags ∧ Holds f 54 sg.data := by
  simp only [tcpBytes, tcpHeader, holds_append, holds_cons, List.length_append, length_be16Bytes,
    length_be32Bytes, length_le16Bytes, List.length_cons, List.length_nil, Nat.reduceAdd,
      and_assoc] at h
  obtain ⟨hsp, hdp, hseq, hack, hoff, hflags, -, -, -, -, -, -, hdata⟩ := h
  exact ⟨be16At_holds hsp, be16At_holds hdp, be32At_holds hseq, be32At_holds hack, hoff, hflags,
    hdata⟩

theorem tcp_reaches {ip : UInt32} (h : Holds f 0 (ipFrame l src dst 6 (tcpBytes ip sg)))
    (hlen : 34 + (tcpBytes ip sg).length ≤ maxPacket) :
    ReachesTcp st f (ipFrame l src dst 6 (tcpBytes ip sg)).length src sg.srcPort sg.dstPort sg.seq
      sg.ack sg.flags sg.data := by
  obtain ⟨-, -, -, -, hsrc, hpayload⟩ := ipFrame_fields h
  obtain ⟨hsp, hdp, hseq, hack, hoff, hflags, hdata⟩ := tcpBytes_fields hpayload
  have hlen' : 54 + sg.data.length ≤ maxPacket := by
    rw [tcpBytes_length] at hlen
    omega
  have hlen20 : ¬ UInt32.ofNat (20 + sg.data.length) < 20 :=
    not_lt_ofNat (k := 20) (by omega) (by omega)
  have hrest : UInt32.ofNat (20 + sg.data.length) - 20 = UInt32.ofNat sg.data.length := by
    have := ofNat_sub (n := 20 + sg.data.length) (k := 20) (by omega) (by omega)
    rwa [Nat.add_sub_cancel_left] at this
  have hhdr : ((0x50 : UInt8) >>> 4).toUInt32 * 4 = 20 := by decide
  refine ⟨⟨src, sg.srcPort, sg.dstPort, sg.seq, sg.ack, sg.flags, UInt32.ofNat sg.data.length,
    fun i => f (54 + i)⟩, rfl, rfl, rfl, rfl, rfl, rfl, toNat_ofNat32 (by omega), ?_, ?_⟩
  · intro i hi
    simpa using hdata i hi
  · rw [ipFrame_length, handle_ipFrame h hlen, if_neg (by decide), if_neg (by decide), if_pos rfl,
      tcpInput,
      tcpBytes_length, if_neg hlen20]
    simp only [Traced.value_bind, read8, read16, read32, readAddr, Traced.value_pure, hsp, hdp,
      hseq, hack,
      hoff, hflags, hsrc, hhdr, hrest]
    rfl

/-! ## The round trip -/

/-- A send that is reported handed over its frame. -/
theorem sendIp_frame {s : TcpSys}
    (h : (Socket.sendIp s payload.length (l.run polled tick)).2 = true) :
    (sendIp l src dst proto payload).1 = some (ipFrame l src dst proto payload) ∧
      34 + payload.length ≤ maxPacket := by
  unfold Socket.sendIp Link.run at h
  dsimp only at h
  split at h
  · cases h
  rename_i hlen
  by_cases hz : l.nextHop = macZero
  · simp [hz] at h
  · rw [sendIp, if_neg hlen, if_neg hz]
    exact ⟨rfl, by omega⟩

/-- So `sendto` on a UDP socket sent all it was given. -/
theorem sendto_frame {s : Sockets} {fd : Int} {i : Fin 64} {dest : Option (SockAddr × Nat)}
    {runs : List (IpRun × List Round)} (hfd : fdToIdx s fd = some i)
    (htype : (s.entries i).type = .udp) (h : 0 ≤ (sendto s fd buf dest ⟨runs, l.run polled tick⟩).2) :
    (sendto s fd buf dest ⟨runs, l.run polled tick⟩).2 = buf.length ∧
      ∃ packet, packet = udpPacket ((autoPort s i).entries i).localPort
          (udpDest ((autoPort s i).entries i) dest).port buf ∧ 34 + packet.length ≤ maxPacket ∧
        udpFrame s i buf dest l = some (ipFrame l (autoPort s i).tcp.localIp
          (udpDest ((autoPort s i).entries i) dest).addr 17 packet) := by
  simp only [sendto, hfd, htype] at h ⊢
  split at h
  · rename_i hok
    obtain ⟨hframe, hlen⟩ := sendIp_frame hok
    rw [if_pos hok]
    refine ⟨?_, _, rfl, hlen, hframe⟩
    rw [udpPacket_length] at hlen ⊢
    simp only [maxPacket, udpHeaderLen] at hlen ⊢
    omega
  · exact absurd h (by decide)

theorem autoPort_dest (s : Sockets) (i : Fin 64) (dest : Option (SockAddr × Nat)) :
    udpDest ((autoPort s i).entries i) dest = udpDest (s.entries i) dest := by
  unfold autoPort
  split
  · cases dest <;> simp [Sockets.set, udpDest]
  · rfl

theorem autoPort_tcp (s : Sockets) (i : Fin 64) : (autoPort s i).tcp = s.tcp := by
  unfold autoPort
  split <;> rfl

theorem tcpFrame_eq {s : TcpSys} {id : Slot} {flags : UInt8} {data : List UInt8}
    (h : (sendTcpSegment s id flags data (l.run polled tick)).2 = true) :
    34 + (tcpBytes (s.conns id).localIp (buildSegment (s.conns id) flags data)).length ≤ maxPacket ∧
      tcpFrame s id flags data l = some (ipFrame l s.localIp (s.conns id).remoteIp 6
        (tcpBytes (s.conns id).localIp (buildSegment (s.conns id) flags data))) := by
  unfold Link.run at h
  rw [sendTcpSegment] at h
  split at h
  · cases h
  rename_i hlen
  have hlen' : 34 + (tcpBytes (s.conns id).localIp (buildSegment (s.conns id) flags data)).length ≤
      maxPacket := by
    rw [tcpBytes_length, show (buildSegment (s.conns id) flags data).data = data from rfl]
    simp only [headersLen] at hlen
    omega
  have hhop : l.nextHop ≠ macZero := fun hz => by simp [hz] at h
  refine ⟨hlen', ?_⟩
  rw [tcpFrame, sendIp, if_neg (by omega), if_neg hhop]

/-- Whatever a send reports as sent, another instance of the stack reads back. -/
theorem wire_round_trip (l : Link) (polled : Polled) (tick : UInt64) (st : NetState) (f : Frame) :
    (∀ (s : Sockets) (fd : Int) (i : Fin 64) (buf : List UInt8) (dest : Option (SockAddr × Nat))
      (runs : List (IpRun × List Round)) (n : Int),
      fdToIdx s fd = some i → (s.entries i).type = .udp →
      (sendto s fd buf dest ⟨runs, l.run polled tick⟩).2 = n → 0 ≤ n →
      n = buf.length ∧ ∃ frame, udpFrame s i buf dest l = some frame ∧
        (Holds f 0 frame → ReachesUdp st f frame.length s.tcp.localIp
          ((autoPort s i).entries i).localPort (udpDest (s.entries i) dest).port buf)) ∧
    ∀ (s : TcpSys) (id : Slot) (flags : UInt8) (data : List UInt8),
      (sendTcpSegment s id flags data (l.run polled tick)).2 = true →
      ∃ frame, tcpFrame s id flags data l = some frame ∧ (Holds f 0 frame →
          ReachesTcp st f frame.length s.localIp (s.conns id).localPort (s.conns id).remotePort
            (s.conns id).sndNxt (s.conns id).rcvNxt flags data) := by
  constructor
  · intro s fd i buf dest runs n hfd htype hsend hn
    obtain ⟨hlen, packet, rfl, hmax, hframe⟩ := sendto_frame hfd htype (hsend ▸ hn)
    refine ⟨hsend ▸ hlen, _, hframe, fun hf => ?_⟩
    rw [autoPort_tcp, autoPort_dest] at hf ⊢
    rw [autoPort_dest] at hmax
    exact udp_reaches hf hmax
  · intro s id flags data hsend
    obtain ⟨hmax, hframe⟩ := tcpFrame_eq hsend
    exact ⟨_, hframe, fun hf => tcp_reaches hf hmax⟩

end

/-- A next hop that answers, and a device that reports. -/
def lan : Link := ⟨macZero, Vector.replicate 6 1, 7, true⟩

/-- A UDP socket, connected to port 53 of 10.0.2.3. -/
def querySockets : Sockets :=
  (Socket.connect (create ⟨bootTcp, fun _ => zeroEntry, 50000⟩ afInet sockDgram).1 100
    ⟨53, 0x0302000A⟩ sockaddrInSize (lan.run .nil 0) []).1

def queryFrame : List UInt8 := (udpFrame querySockets 0 [1, 2, 3] none lan).getD []

/-- A connection from port 49152 to port 80. -/
def dialedTcp : TcpSys := bootTcp.update 0 fun c =>
  { c with localPort := 49152, remotePort := 80, sndNxt := 1001, rcvNxt := 7 }

def dataFrame : List UInt8 := (tcpFrame dialedTcp 0 (tcpAck ||| tcpPsh) [4, 5] lan).getD []

/-- Three bytes by UDP and two by TCP arrive as sent. -/
theorem wire_query :
    ReachesUdp bootNet (fun i => queryFrame.getD i 0) queryFrame.length 0x0A00020F 50000 53
      [1, 2, 3] ∧
    ReachesTcp bootNet (fun i => dataFrame.getD i 0) dataFrame.length 0x0A00020F 49152 80 1001 7
      (tcpAck ||| tcpPsh) [4, 5] := by
  constructor
  · obtain ⟨-, frame, hf, hreach⟩ := (wire_round_trip lan .nil 0 bootNet fun i =>
      queryFrame.getD i 0).1 querySockets 100 0 [1, 2, 3] none [] 3 (by decide +kernel)
      (by decide +kernel) (by decide +kernel) (by decide)
    obtain rfl : queryFrame = frame := by rw [queryFrame, hf, Option.getD_some]
    have hsrc : ((autoPort querySockets 0).entries 0).localPort = 50000 := by decide +kernel
    have hdst : (udpDest (querySockets.entries 0) none).port = 53 := by decide +kernel
    have h := hreach fun i hi => by simp [hi]
    rwa [hsrc, hdst] at h
  · obtain ⟨frame, hf, hreach⟩ := (wire_round_trip lan .nil 0 bootNet fun i =>
      dataFrame.getD i 0).2 dialedTcp 0 (tcpAck ||| tcpPsh) [4, 5] (by decide +kernel)
    obtain rfl : dataFrame = frame := by rw [dataFrame, hf, Option.getD_some]
    exact hreach fun i hi => by simp [hi]

end HackersOs.L3.Net

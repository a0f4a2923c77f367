import HackersOs.L3Net.NetInput

/-!
# Bounds of the input path

`Fits` is the condition on the header fields of a frame (and, for UDP, on the
room in the socket's ring) under which `net_handle_packet` stays in bounds.

Results:
* `input_in_bounds_iff`: for every state, contents and length, all reads are
  inside the frame, no length wraps and no copy leaves its buffer exactly when
  the frame `Fits`.
* `echo_overruns` (**Counterexample**): a ping whose IP header length exceeds
  its total length makes `handle_icmp` copy 4294967266 bytes into its
  1518-byte buffer.
-/
namespace HackersOs.L3.Net
open HackersOs.Core Tcp HackersOs.Core.Traced

variable {P : Access → Prop}

/-- `ip_hdr_len` -/
def ipHdrLen (f : Frame) : Nat := ((f 14 &&& 0x0F).toUInt32 * 4).toNat

/-- `ip_total` -/
def ipTotal (f : Frame) : Nat := (be16At f 16).toNat

/-- `hdr_len` of a TCP segment at offset `payload`. -/
def tcpHdrLen (f : Frame) (payload : Nat) : Nat :=
  ((f (payload + 12) >>> 4).toUInt32 * 4).toNat

/-- The length of a datagram at offset `payload` is at least that of its
header, and what is copied of it ends inside the frame. -/
def UdpFits (st : NetState) (f : Frame) (payload len : Nat) : Prop :=
  8 ≤ (be16At f (payload + 4)).toNat ∧
  ∀ i b, udpTarget st.sockets (be16At f (payload + 2)) = some (i, b) →
    payload + 8 + b.ring.room ((be16At f (payload + 4)).toNat - 8) ≤ len

/-- If the frame is an IPv4 packet that is not dropped: its header is not longer
than the packet, a UDP datagram fits, a TCP header is not longer than its segment. -/
def Fits (st : NetState) (f : Frame) (len : UInt32) : Prop :=
  34 ≤ len.toNat → be16At f 12 = 0x0800 → ipTotal f + 14 ≤ len.toNat →
    ipHdrLen f ≤ ipTotal f ∧
    (f 23 = 17 → ipHdrLen f + 8 ≤ ipTotal f → UdpFits st f (14 + ipHdrLen f) len.toNat) ∧
    (f 23 = 6 → ipHdrLen f + 20 ≤ ipTotal f →
      ipHdrLen f + tcpHdrLen f (14 + ipHdrLen f) ≤ ipTotal f)

section
variable {f : Frame} {off n : Nat}

/-! ## Reads -/

@[simp] theorem every_read8 : Every P (read8 f off) ↔ P (.read off 1) := by
  simp [read8]

@[simp] theorem every_read16 : Every P (read16 f off) ↔ P (.read off 2) := by
  simp [read16]

@[simp] theorem every_read32 : Every P (read32 f off) ↔ P (.read off 4) := by
  simp [read32]

@[simp] theorem every_readAddr : Every P (readAddr f off) ↔ P (.read off 4) := by
  simp [readAddr]

@[simp] theorem every_readMac : Every P (readMac f off) ↔ P (.read off 6) := by
  simp [readMac]

@[simp] theorem value_read8 : (read8 f off).value = f off := by
  simp [read8]

@[simp] theorem value_read16 : (read16 f off).value = be16At f off := by
  simp [read16]

@[simp] theorem value_read32 : (read32 f off).value = be32At f off := by
  simp [read32]

@[simp] theorem value_readAddr : (readAddr f off).value = addrAt f off := by
  simp [readAddr]

/-- The copy into a ring stays in the ring; it is in bounds iff its source is. -/
theorem every_copyRing {cap : Nat} (r : Ring UInt8 cap) (f : Frame) (src len n : Nat) (h : src ≤ n) :
    Every (Access.InBounds n) (copyRing r f src len) ↔ src + r.room len ≤ n := by
  simp only [copyRing, every_bind, every_events, every_pure, and_true,
    List.mem_flatMap, List.mem_range, List.mem_cons, List.not_mem_nil, or_false]
  refine ⟨fun hall => ?_, fun hle a ha => ?_⟩
  · by_cases h0 : r.room len = 0
    · omega
    · have hlast := hall (.read (src + (r.room len - 1)) 1) ⟨r.room len - 1, by omega, .inl rfl⟩
      simp only [Access.InBounds] at hlast
      omega
  · obtain ⟨j, hj, rfl | rfl⟩ := ha
    · simp only [Access.InBounds]
      omega
    -- the write index is taken modulo the size of the ring
    have hpos := Nat.zero_lt_of_lt r.head_lt
    have hidx := Nat.mod_lt (r.head + j) hpos
    simp only [Access.InBounds, Ring.fillLoop_head r.head_lt]
    omega

end

/-! ## Handlers -/

section
variable (st : NetState) (f : Frame) {payload n : Nat} {len : UInt32}

theorem handleArp_inBounds : Every (Access.InBounds len.toNat) (handleArp st f len) := by
  unfold handleArp
  rw [every_ite]
  refine ⟨fun _ => every_pure _, fun hlen => ?_⟩
  have hlen' : 42 ≤ len.toNat := UInt32.le_iff_toNat_le.mp (UInt32.not_lt.mp hlen)
  simp only [every_bind, every_readAddr, every_readMac, every_read16, every_ite,
    every_event, every_pure, Access.InBounds, implies_true, and_true]
  omega

/-- A payload inside the frame. -/
theorem handleIcmp_inBounds (h : payload + len.toNat ≤ n) (hn : 34 ≤ n) (hlen : len.toNat < 2 ^ 16) :
    Every (Access.InBounds n) (handleIcmp st f payload len) := by
  unfold handleIcmp
  rw [every_ite]
  refine ⟨fun _ => every_pure _, fun h8 => ?_⟩
  have h8' : 8 ≤ len.toNat := UInt32.le_iff_toNat_le.mp (UInt32.not_lt.mp h8)
  have htotal : (14 + 20 + len).toNat = 34 + len.toNat := by
    rw [UInt32.toNat_add]
    change (34 + len.toNat) % 2 ^ 32 = _
    omega
  simp only [every_bind, every_read8, every_ite, every_readAddr,
    every_event, every_pure, Access.InBounds, implies_true, and_true, true_and,
    maxPacket]
  refine ⟨by omega, fun _ htot => ?_⟩
  have htot' := UInt32.le_iff_toNat_le.mp (UInt32.not_lt.mp htot)
  rw [htotal] at htot'
  change 34 + len.toNat ≤ 1518 at htot'
  omega

/-- The data length of a datagram that is not shorter than its header. -/
theorem dataLen_toNat {length : UInt16} (h : 8 ≤ length.toNat) :
    (length - 8).toUInt32.toNat = length.toNat - 8 := by
  have := length.toNat_lt
  rw [UInt16.toNat_toUInt32, UInt16.toNat_sub]
  change (2 ^ 16 - 8 + length.toNat) % 2 ^ 16 = _
  omega

theorem handleUdp_inBounds (h : payload + len.toNat ≤ n) (hn : 34 ≤ n) :
    Every (Access.InBounds n) (handleUdp st f payload len) ↔
      (8 ≤ len.toNat → UdpFits st f payload n) := by
  unfold handleUdp
  rw [every_ite]
  have hlt : len < 8 ↔ len.toNat < 8 := UInt32.lt_iff_toNat_lt
  by_cases h8 : len.toNat < 8
  · have hsmall : len < 8 := hlt.mpr h8
    simp only [every_pure, implies_true, hsmall, not_true_eq_false, false_implies, and_true,
      true_iff]
    omega
  · have hbig : ¬ len < 8 := fun hc => h8 (hlt.mp hc)
    simp only [hbig, false_implies, not_false_eq_true, true_implies, true_and, every_bind,
      every_read16, every_readAddr, value_read16, value_readAddr, every_event,
      every_pure, and_true, Access.InBounds]
    refine ⟨fun hall _ => ?_, fun hfit => ?_⟩
    · obtain ⟨-, -, hsub, -, -, hcopy⟩ := hall
      refine ⟨hsub, fun i b htarget => ?_⟩
      rw [socketUdpInput, htarget] at hcopy
      have hcopy' := (every_bind _ _).mp hcopy
      have := (every_copyRing b.ring f (payload + 8) _ n (by omega)).mp hcopy'.1
      rwa [dataLen_toNat hsub] at this
    · obtain ⟨hsub, hcopy⟩ := hfit (by omega)
      refine ⟨by omega, by omega, hsub, by omega, by omega, ?_⟩
      unfold socketUdpInput
      split
      · rename_i i b htarget
        refine (every_bind _ _).mpr ⟨?_, every_pure _⟩
        rw [every_copyRing b.ring f _ _ n (by omega), dataLen_toNat hsub]
        exact hcopy i b htarget
      · exact every_pure _

theorem tcpCopy_inBounds (s : TcpSys) (seg : InSeg) {data : Nat}
    (h : data + seg.dataLen.toNat ≤ n) :
    Every (Access.InBounds n) (tcpCopy s seg f data) := by
  unfold tcpCopy
  split
  · rename_i i _ _
    split
    · refine (every_bind _ _).mpr ⟨?_, every_pure _⟩
      have hroom := (s.conns i).rx.room_le seg.dataLen.toNat
      rw [every_copyRing _ f data _ n (by omega)]
      omega
    · exact every_pure _
  · exact every_pure _

theorem tcpInput_inBounds (h : payload + len.toNat ≤ n) (hn : 34 ≤ n) :
    Every (Access.InBounds n) (tcpInput st f payload len) ↔
      (20 ≤ len.toNat → tcpHdrLen f payload ≤ len.toNat) := by
  unfold tcpInput
  rw [every_ite]
  have hlt : len < 20 ↔ len.toNat < 20 := UInt32.lt_iff_toNat_lt
  by_cases h20 : len.toNat < 20
  · have hsmall : len < 20 := hlt.mpr h20
    simp only [every_pure, implies_true, hsmall, not_true_eq_false, false_implies, and_true,
      true_iff]
    omega
  · have hbig : ¬ len < 20 := fun hc => h20 (hlt.mp hc)
    simp only [hbig, false_implies, not_false_eq_true, true_implies, true_and, every_bind,
      every_read16, every_read32, every_read8, every_readAddr, value_read16, value_read32,
      value_read8, value_readAddr, every_event, every_pure, and_true,
      Access.InBounds]
    refine ⟨fun hall _ => ?_, fun hfit => ?_⟩
    · obtain ⟨-, -, -, -, -, -, hsub, -⟩ := hall
      exact hsub
    have hsub : ((f (payload + 12) >>> 4).toUInt32 * 4).toNat ≤ len.toNat := hfit (by omega)
    refine ⟨by omega, by omega, by omega, by omega, by omega, by omega, hsub, by omega, ?_⟩
    apply tcpCopy_inBounds
    have hlen : (len - (f (payload + 12) >>> 4).toUInt32 * 4).toNat =
        len.toNat - ((f (payload + 12) >>> 4).toUInt32 * 4).toNat :=
      UInt32.toNat_sub_of_le _ _ (UInt32.le_iff_toNat_le.mpr hsub)
    change payload + ((f (payload + 12) >>> 4).toUInt32 * 4).toNat +
      (len - (f (payload + 12) >>> 4).toUInt32 * 4).toNat ≤ n
    omega

/-- An IPv4 packet that is not dropped. -/
theorem handleIpv4_inBounds (hlen : 34 ≤ len.toNat) :
    Every (Access.InBounds len.toNat) (handleIpv4 st f len) ↔
      (ipTotal f + 14 ≤ len.toNat → ipHdrLen f ≤ ipTotal f ∧
        (f 23 = 17 → ipHdrLen f + 8 ≤ ipTotal f → UdpFits st f (14 + ipHdrLen f) len.toNat) ∧
        (f 23 = 6 → ipHdrLen f + 20 ≤ ipTotal f →
          ipHdrLen f + tcpHdrLen f (14 + ipHdrLen f) ≤ ipTotal f)) := by
  have hbig : ¬ len < 34 := fun hc => by
    have := UInt32.lt_iff_toNat_lt.mp hc
    change len.toNat < 34 at this
    omega
  have hsub14 : (len - 14).toNat = len.toNat - 14 :=
    UInt32.toNat_sub_of_le _ _ (UInt32.le_iff_toNat_le.mpr (Nat.le_trans (by decide) hlen))
  have hdrop : (be16At f 16).toUInt32 > len - 14 ↔ ¬ ipTotal f + 14 ≤ len.toNat := by
    rw [gt_iff_lt, UInt32.lt_iff_toNat_lt, hsub14, UInt16.toNat_toUInt32]
    unfold ipTotal
    omega
  unfold handleIpv4
  rw [if_neg hbig]
  simp only [every_bind, every_read8, every_read16, value_read8, value_read16,
    every_ite, every_event, every_pure, Access.InBounds, implies_true,
    true_and, and_true, hdrop, not_not]
  have hhdr : 14 + 1 ≤ len.toNat ∧ 16 + 2 ≤ len.toNat ∧ 23 + 1 ≤ len.toNat := by omega
  simp only [hhdr, true_and]
  refine imp_congr_right fun htotal => ?_
  change (ipHdrLen f ≤ ipTotal f ∧ _) ↔ _
  refine and_congr_right fun hhl => ?_
  -- from here on the payload is inside the frame
  have hle : (f 14 &&& 0x0F).toUInt32 * 4 ≤ (be16At f 16).toUInt32 := UInt32.le_iff_toNat_le.mpr hhl
  have hpl : ((be16At f 16).toUInt32 - (f 14 &&& 0x0F).toUInt32 * 4).toNat =
      ipTotal f - ipHdrLen f := UInt32.toNat_sub_of_le _ _ hle
  have hin : 14 + ipHdrLen f + ((be16At f 16).toUInt32 - (f 14 &&& 0x0F).toUInt32 * 4).toNat ≤
      len.toNat := by omega
  have hudp := handleUdp_inBounds st f hin hlen
  have htcp := tcpInput_inBounds st f hin hlen
  have h16 : ipTotal f < 2 ^ 16 := (be16At f 16).toNat_lt
  have hicmp := handleIcmp_inBounds st f hin hlen (by omega)
  rw [hpl] at hudp htcp
  refine ⟨fun hall => ⟨fun h17 h8 => ?_, fun h6 h20 => ?_⟩, fun hfit => ⟨fun _ => hicmp,
    fun _ => ⟨fun h17 => hudp.mpr fun h8 => hfit.1 h17 (by omega),
      fun _ h6 => htcp.mpr fun h20 => ?_⟩⟩⟩
  · exact hudp.mp ((hall.2 (by rw [h17]; decide)).1 h17) (by omega)
  · have := htcp.mp ((hall.2 (by rw [h6]; decide)).2 (by rw [h6]; decide) h6) (by omega)
    omega
  · have := hfit.2 h6 (by omega)
    omega

end

/-- For every state, frame contents and length: `net_handle_packet` and all it
calls read only inside the frame, compute no length that wraps and write only
inside their buffers, exactly when the header fields fit. -/
theorem input_in_bounds_iff (st : NetState) (f : Frame) (len : UInt32) :
    Every (Access.InBounds len.toNat) (netHandlePacket st f len) ↔ Fits st f len := by
  have hlt : ∀ k : UInt32, len < k ↔ len.toNat < k.toNat := fun k => UInt32.lt_iff_toNat_lt
  unfold netHandlePacket Fits
  by_cases h14 : len < 14
  · rw [if_pos h14]
    have h14' : len.toNat < 14 := (hlt 14).mp h14
    exact iff_of_true (every_pure _) fun h => absurd h (by omega)
  have h14' : 14 ≤ len.toNat := Nat.le_of_not_lt fun hc => h14 ((hlt 14).mpr hc)
  rw [if_neg h14]
  simp only [every_bind, every_read16, value_read16, Access.InBounds]
  rw [and_iff_right (by omega)]
  by_cases harp : be16At f 12 = 0x0806
  · rw [if_pos harp]
    refine iff_of_true (handleArp_inBounds st f) fun _ hip => ?_
    exact absurd (harp.symm.trans hip) (by decide)
  rw [if_neg harp]
  by_cases hip : be16At f 12 = 0x0800
  · rw [if_pos hip]
    by_cases h34 : 34 ≤ len.toNat
    · rw [handleIpv4_inBounds st f h34]
      exact ⟨fun h _ _ => h, fun h => h h34 hip⟩
    · have hsmall : len < 34 := (hlt 34).mpr (Nat.lt_of_not_le h34)
      rw [handleIpv4, if_pos hsmall]
      exact iff_of_true (every_pure _) fun h => absurd h h34
  · rw [if_neg hip]
    exact iff_of_true (every_pure _) fun _ h => absurd h hip

/-! ## An overrun -/

/-- The stack before any traffic, with no socket. -/
def bootNet : NetState where
  gatewayIp := 0x0202000A
  localMac := macZero
  ipIdCounter := 1
  arpCache := fun _ => ⟨0, macZero, false⟩
  sockets := fun _ => ⟨false, .none, 0, none⟩
  tcp := bootTcp
  sent := []

/-- An echo request with a 60-byte IP header and a total length of 30. -/
def badPing : Frame := fun i =>
  if i = 12 then 0x08 else if i = 14 then 0x4F else if i = 17 then 30 else if i = 23 then 1
  else if i = 74 then 8 else 0

/-- **Counterexample.** The payload length wraps to 4294967266; so many bytes are
read from the frame and written behind the headers of the reply. -/
theorem echo_overruns : ¬ Every (Access.InBounds 75) (netHandlePacket bootNet badPing 75) ∧
    Access.sub 30 60 ∈ (netHandlePacket bootNet badPing 75).trace ∧
    Access.read 74 4294967266 ∈ (netHandlePacket bootNet badPing 75).trace ∧
    Access.write 1518 34 4294967266 ∈ (netHandlePacket bootNet badPing 75).trace := by
  have htrace : (netHandlePacket bootNet badPing 75).trace =
      [.read 12 2, .read 14 1, .read 16 2, .sub 30 60, .read 23 1, .read 74 1, .read 26 4,
       .write 1518 0 34, .read 74 4294967266, .write 1518 34 4294967266] := by
    decide +kernel
  refine ⟨fun hall => ?_, by simp [htrace], by simp [htrace], by simp [htrace]⟩
  have hsub := hall (.sub 30 60) (by simp [htrace])
  exact absurd hsub (by simp [Access.InBounds])

end HackersOs.L3.Net

import HackersOs.L3Net.Wire

/-!
# The DHCP client (`net/dhcp.cpp`)

The packets byte by byte: the frame of `send_dhcp`, the option search, the
checks `receive_dhcp` makes on a frame in its buffer. `discover` is a machine
that reads one frame at a time; what it sends is returned.

A received packet is the buffer from the DHCP header on. Behind its 548 bytes
the code only reads when an option that it looks for is cut off by the end of
the packet.
-/
namespace HackersOs.L3.Dhcp
open HackersOs.Core Net

/-- A `DhcpPacket` in memory. -/
abbrev Packet := Nat → UInt8

def dhcpDiscover : UInt8 := 1
def dhcpOffer : UInt8 := 2
def dhcpRequest : UInt8 := 3
def dhcpAck : UInt8 := 5

/-- `DHCP_MAGIC` -/
def dhcpMagic : UInt32 := 0x63538263

/-- `sizeof(options)` -/
def optionsLen : Nat := 308

def Packet.op (p : Packet) : UInt8 := p 0
def Packet.xid (p : Packet) : UInt32 := addrAt p 4
def Packet.yiaddr (p : Packet) : UInt32 := addrAt p 16
def Packet.siaddr (p : Packet) : UInt32 := addrAt p 20
def Packet.chaddr (p : Packet) : MacAddr := Vector.ofFn fun i => p (28 + i)
def Packet.magicCookie (p : Packet) : UInt32 := addrAt p 236
def Packet.option (p : Packet) (i : Nat) : UInt8 := p (240 + i)

/-! ## Options -/

/-- The loop of `find_option` from index `i` of the options on; `optionsLen` rounds
are enough, each takes one byte at least. -/
def findLoop (p : Packet) (code : UInt8) : Nat → Nat → Option Nat
  | 0, _ => none
  | n + 1, i =>
    if i < optionsLen ∧ p.option i ≠ 0xFF then
      if p.option i = 0 then findLoop p code n (i + 1)
      else if i + 1 ≥ optionsLen then none
      else if p.option i = code then some (i + 2)
      else findLoop p code n (i + 2 + (p.option (i + 1)).toNat)
    else none

/-- The index of the option's data. mirrors src/net/dhcp.cpp:47-59 -/
def findOption (p : Packet) (code : UInt8) : Option Nat := findLoop p code optionsLen 0

/-- The loop of the source has no bound; another round changes nothing. -/
theorem findLoop_rounds (p : Packet) (code : UInt8) (n i : Nat) (h : optionsLen ≤ n + i) :
    findLoop p code (n + 1) i = findLoop p code n i := by
  induction n generalizing i with
  | zero =>
    rw [findLoop, findLoop, if_neg]
    omega
  | succ n ih =>
    rw [findLoop.eq_2 p code i (n + 1), findLoop.eq_2 p code i n, ih (i + 1) (by omega),
      ih (i + 2 + (p.option (i + 1)).toNat) (by omega)]

/-- `memcpy(&v, opt, 4)` for an option that is there. -/
def Packet.addrOption (p : Packet) (code : UInt8) : Option UInt32 :=
  (findOption p code).map fun i => addrAt p (240 + i)

/-! ## Sending -/

def addOption (code : UInt8) (data : List UInt8) : List UInt8 :=
  code :: UInt8.ofNat data.length :: data

/-- mirrors src/net/dhcp.cpp:100-113 -/
def dhcpOptions (msgType : UInt8) (serverIp requestedIp : UInt32) : List UInt8 :=
  addOption 53 [msgType] ++
    (if msgType = dhcpRequest then
      (if requestedIp ≠ 0 then addOption 50 (addrBytes requestedIp) else []) ++
        (if serverIp ≠ 0 then addOption 54 (addrBytes serverIp) else [])
    else []) ++
    addOption 55 [1, 3, 6, 15] ++ [0xFF]

/-- A packet up to its options; the rest of a frame is zero. -/
def dhcpFixed (op : UInt8) (xid yiaddr siaddr : UInt32) (mac : MacAddr) : List UInt8 :=
  [op, 1, 6, 0] ++ addrBytes xid ++ [0, 0] ++ be16Bytes 0x8000 ++ addrBytes 0 ++ addrBytes yiaddr ++
    addrBytes siaddr ++ addrBytes 0 ++ mac.toList ++ List.replicate 10 0 ++ List.replicate 192 0 ++
    addrBytes dhcpMagic

/-- A packet in its frame: Ethernet, IP and UDP header with everything zero that
is not set. -/
def dhcpWrap (eth mac : MacAddr) (src dst : UInt32) (sport dport : UInt16) (packet : List UInt8) :
    List UInt8 :=
  let hdr := ipHeader 576 0 0 17 src dst
  eth.toList ++ mac.toList ++ be16Bytes 0x0800 ++ hdr (le16Bytes (inetChecksum (hdr [0, 0]))) ++
    (be16Bytes sport ++ be16Bytes dport ++ be16Bytes 556 ++ [0, 0]) ++ packet ++
    List.replicate (548 - packet.length) 0

def macBroadcast : MacAddr := Vector.replicate 6 0xFF

/-- mirrors src/net/dhcp.cpp:61-116 -/
def dhcpFrame (mac : MacAddr) (xid : UInt32) (msgType : UInt8) (serverIp requestedIp : UInt32) :
    List UInt8 :=
  dhcpWrap macBroadcast mac 0 0xFFFFFFFF 68 67
    (dhcpFixed 1 xid 0 0 mac ++ dhcpOptions msgType serverIp requestedIp)

/-! ## Receiving -/

/-- The checks on a frame of `len` bytes in the buffer, and what is copied out.
mirrors src/net/dhcp.cpp:132-151 -/
def dhcpAccept (expectedType : UInt8) (xid : UInt32) (buf : Frame) (len : Nat) : Option Packet :=
  let p : Packet := fun i => buf (42 + i)
  if len < 14 + 20 + 8 + 240 then none
  else if buf 23 ≠ 17 then none
  else if be16At buf 36 ≠ 68 then none
  else if p.op ≠ 2 then none
  else if p.xid ≠ xid then none
  else if p.magicCookie ≠ dhcpMagic then none
  else
    match findOption p 53 with
    | none => none
    | some i => if p.option i ≠ expectedType then none else some p

/-- The same checks, as what holds of an accepted frame. -/
theorem dhcpAccept_some {t : UInt8} {xid : UInt32} {buf : Frame} {len : Nat} {p : Packet}
    (h : dhcpAccept t xid buf len = some p) : p = (fun i => buf (42 + i)) ∧ 282 ≤ len ∧ buf 23 = 17 ∧
      be16At buf 36 = 68 ∧ p.op = 2 ∧ p.xid = xid ∧ p.magicCookie = dhcpMagic ∧
      (findOption p 53).map p.option = some t := by
  unfold dhcpAccept at h
  simp only [Option.ite_none_left_eq_some, not_lt, not_not] at h
  obtain ⟨hlen, hproto, hport, hop, hxid, hmagic, hopt⟩ := h
  split at hopt
  · cases hopt
  rename_i i hi
  obtain ⟨ht, hp⟩ := Option.ite_none_left_eq_some.mp hopt
  obtain rfl := Option.some.inj hp
  refine ⟨rfl, hlen, hproto, hport, hop, hxid, hmagic, ?_⟩
  rw [hi]
  exact congrArg some (not_not.mp ht)

/-- The buffer of `receive_dhcp` after `VirtioNet::receive`: the frame, as far as it
fits, over what was there. -/
def received (buf : Frame) (frame : List UInt8) : Frame := Tcp.copyIn buf (frame.take 1500)

def receivedLen (frame : List UInt8) : Nat := (frame.take 1500).length

/-! ## The fields of a packet in its frame -/

section
variable {f : Frame} {eth mac : MacAddr} {src dst xid yiaddr siaddr : UInt32} {sport dport : UInt16}
  {op t : UInt8} {packet opts : List UInt8}

theorem dhcpFixed_length : (dhcpFixed op xid yiaddr siaddr mac).length = 240 := by
  simp only [dhcpFixed, List.length_append, Vector.length_toList, List.length_replicate,
    length_be16Bytes,
    length_addrBytes, List.length_cons, List.length_nil]

theorem dhcpWrap_length (h : packet.length ≤ 548) :
    (dhcpWrap eth mac src dst sport dport packet).length = 590 := by
  simp [dhcpWrap, ipHeader]
  omega

theorem dhcpWrap_fields (h : Holds f 0 (dhcpWrap eth mac src dst sport dport packet)) :
    f 23 = 17 ∧ be16At f 36 = dport ∧ Holds f 42 packet := by
  simp only [dhcpWrap, ipHeader, holds_append, holds_cons, List.length_append, Vector.length_toList,
    length_be16Bytes, length_le16Bytes, length_addrBytes, List.length_cons, List.length_nil,
      Nat.zero_add,
    Nat.reduceAdd, and_assoc] at h
  obtain ⟨-, -, -, -, -, -, -, -, -, -, hproto, -, -, -, -, -, hport, -, -, -, -, hpacket, -⟩ := h
  exact ⟨hproto, be16At_holds hport, hpacket⟩

theorem holds_shift {l : List UInt8} {off k : Nat} (h : Holds f (off + k) l) :
    Holds (fun i => f (off + i)) k l := fun i hi => by
  have := h i hi
  rwa [Nat.add_assoc] at this

theorem vector_ofFn_holds {off : Nat} (h : Holds f off mac.toList) :
    (Vector.ofFn fun i : Fin 6 => f (off + i)) = mac := by
  refine Vector.ext fun i hi => ?_
  have := h i (by simpa using hi)
  simpa using this

theorem dhcpFixed_fields (h : Holds f 42 (dhcpFixed op xid yiaddr siaddr mac ++ opts)) :
    ∃ p : Packet, p = (fun i => f (42 + i)) ∧ p.op = op ∧ p.xid = xid ∧ p.yiaddr = yiaddr ∧
      p.chaddr = mac ∧ p.magicCookie = dhcpMagic ∧ Holds p.option 0 opts := by
  have hp : Holds (fun i => f (42 + i)) 0 (dhcpFixed op xid yiaddr siaddr mac ++ opts) :=
    holds_shift h
  generalize (fun i => f (42 + i)) = p at hp ⊢
  simp only [dhcpFixed, holds_append, holds_cons, List.length_append, Vector.length_toList,
    List.length_replicate, length_be16Bytes, length_addrBytes, List.length_cons, List.length_nil,
    Nat.zero_add, Nat.reduceAdd, and_assoc] at hp
  obtain ⟨hop, -, -, -, -, hxid, -, -, -, -, -, hyi, -, -, hmac, -, -, hmagic, hopts⟩ := hp
  exact ⟨p, rfl, hop, addrAt_holds hxid, addrAt_holds hyi, vector_ofFn_holds hmac,
    addrAt_holds hmagic, holds_shift hopts⟩

/-- The message type stands first. -/
theorem findOption_first {p : Packet} (h : Holds p.option 0 (addOption 53 [t] ++ opts)) :
    (findOption p 53).map p.option = some t := by
  simp only [addOption, List.cons_append, List.nil_append, holds_cons, Nat.zero_add,
    Nat.reduceAdd] at h
  obtain ⟨hcode, -, htype, -⟩ := h
  simp [findOption, findLoop, optionsLen, hcode, htype]

end

/-- A reply of a server: the packet fields that the client reads. -/
def replyFrame (serverMac : MacAddr) (serverIp : UInt32) (msgType : UInt8) (xid yiaddr : UInt32)
    (mac : MacAddr) : List UInt8 :=
  dhcpWrap macBroadcast serverMac serverIp 0xFFFFFFFF 67 68
    (dhcpFixed 2 xid yiaddr serverIp mac ++ (addOption 53 [msgType] ++ [0xFF]))

theorem received_holds (buf : Frame) {frame : List UInt8} (h : frame.length ≤ 1500) :
    Holds (received buf frame) 0 frame := by
  intro i hi
  simp [received, Tcp.copyIn, List.take_of_length_le h, hi]

theorem replyFrame_length {serverMac mac : MacAddr} {serverIp xid yiaddr : UInt32} {t : UInt8} :
    (replyFrame serverMac serverIp t xid yiaddr mac).length = 590 :=
  dhcpWrap_length (by simp [dhcpFixed_length, addOption])

theorem receivedLen_reply {serverMac mac : MacAddr} {serverIp xid yiaddr : UInt32} {t : UInt8} :
    receivedLen (replyFrame serverMac serverIp t xid yiaddr mac) = 590 := by
  rw [receivedLen, List.length_take, replyFrame_length]
  rfl

theorem replyFrame_fields (buf : Frame) (serverMac mac : MacAddr) (serverIp xid yiaddr : UInt32)
    (t : UInt8) :
    ∃ f : Frame, f = received buf (replyFrame serverMac serverIp t xid yiaddr mac) ∧ f 23 = 17 ∧
      be16At f 36 = 68 ∧ ∃ p : Packet, p = (fun i => f (42 + i)) ∧ p.op = 2 ∧ p.xid = xid ∧
        p.yiaddr = yiaddr ∧ p.chaddr = mac ∧ p.magicCookie = dhcpMagic ∧
        (findOption p 53).map p.option = some t := by
  obtain ⟨hproto, hport, hpacket⟩ := dhcpWrap_fields
    (received_holds buf (replyFrame_length.le.trans (by decide)) :
      Holds _ 0 (replyFrame serverMac serverIp t xid yiaddr mac))
  obtain ⟨p, hp, hop, hxid, hyi, hmac, hmagic, hopts⟩ := dhcpFixed_fields hpacket
  exact ⟨_, rfl, hproto, hport, p, hp, hop, hxid, hyi, hmac, hmagic, findOption_first hopts⟩

/-- Whatever the buffer had, the reply passes the checks for its type and
transaction. -/
theorem dhcpAccept_reply (buf : Frame) (serverMac mac : MacAddr) (serverIp xid yiaddr : UInt32)
    (t : UInt8) :
    ∃ p, dhcpAccept t xid (received buf (replyFrame serverMac serverIp t xid yiaddr mac))
      (receivedLen (replyFrame serverMac serverIp t xid yiaddr mac)) = some p ∧
      p.yiaddr = yiaddr ∧ p.chaddr = mac := by
  obtain ⟨f, hf, hproto, hport, p, rfl, hop, hxid, hyi, hmac, hmagic, htype⟩ :=
    replyFrame_fields buf serverMac mac serverIp xid yiaddr t
  obtain ⟨i, hi, hit⟩ := Option.map_eq_some_iff.mp htype
  refine ⟨_, ?_, hyi, hmac⟩
  rw [receivedLen_reply, ← hf, dhcpAccept]
  simp only [hproto, hport, hop, hxid, hmagic, hi, hit]
  simp

/-- What the frame of a client says. -/
theorem dhcpFrame_fields (buf : Frame) (mac : MacAddr) (xid : UInt32) (t : UInt8)
    (server requested : UInt32) :
    ∃ p : Packet, p = (fun i => received buf (dhcpFrame mac xid t server requested) (42 + i)) ∧
      p.op = 1 ∧ p.xid = xid ∧ p.chaddr = mac ∧ (findOption p 53).map p.option = some t := by
  have hopts : (dhcpOptions t server requested).length ≤ 22 := by
    unfold dhcpOptions
    split
    · split <;> split <;> simp [addOption]
    · simp [addOption]
  have hlen : (dhcpFrame mac xid t server requested).length = 590 :=
    dhcpWrap_length (by rw [List.length_append, dhcpFixed_length]; omega)
  obtain ⟨-, -, hpacket⟩ := dhcpWrap_fields (received_holds buf (hlen.le.trans (by decide)))
  obtain ⟨p, hp, hop, hxid, -, hmac, -, hopt⟩ := dhcpFixed_fields hpacket
  refine ⟨p, hp, hop, hxid, hmac, ?_⟩
  unfold dhcpOptions at hopt
  rw [List.append_assoc, List.append_assoc] at hopt
  exact findOption_first hopt

/-! ## `discover` -/

structure Config where
  localIp : UInt32
  netmask : UInt32
  gatewayIp : UInt32
  dnsServer : UInt32

/-- Where a call of `discover` is; `bound` is its return with true. -/
inductive Phase where
  | idle | waitOffer | waitAck | bound | failed
  deriving DecidableEq, Repr

structure Client where
  mac : MacAddr
  /-- `dhcp_xid` -/
  xid : UInt32
  phase : Phase
  config : Config

/-- The machine after power-on. -/
def Client.Boot (c : Client) : Prop := c.xid = 0x12345678 ∧ c.phase = .idle

/-- `discover` up to its first wait, and the DISCOVER. mirrors src/net/dhcp.cpp:158-168 -/
def Client.discover (c : Client) : Client × List UInt8 :=
  ({ c with xid := c.xid + 1, phase := .waitOffer }, dhcpFrame c.mac (c.xid + 1) dhcpDiscover 0 0)

/-- mirrors src/net/dhcp.cpp:177-182 -/
def serverId (offer : Packet) : UInt32 := (offer.addrOption 54).getD offer.siaddr

/-- mirrors src/net/dhcp.cpp:197-223 -/
def Config.ofAck (c : Config) (ack : Packet) : Config where
  localIp := ack.yiaddr
  netmask := (ack.addrOption 1).getD c.netmask
  gatewayIp := (ack.addrOption 3).getD c.gatewayIp
  dnsServer := (ack.addrOption 6).getD c.dnsServer

/-- One frame received in a wait, and the REQUEST if it is sent.
mirrors src/net/dhcp.cpp:170-223 -/
def Client.receive (c : Client) (buf : Frame) (len : Nat) : Client × Option (List UInt8) :=
  match c.phase with
  | .waitOffer =>
    match dhcpAccept dhcpOffer c.xid buf len with
    | none => (c, none)
    | some offer =>
      ({ c with phase := .waitAck },
        some (dhcpFrame c.mac c.xid dhcpRequest (serverId offer) offer.yiaddr))
  | .waitAck =>
    match dhcpAccept dhcpAck c.xid buf len with
    | none => (c, none)
    | some ack => ({ c with phase := .bound, config := c.config.ofAck ack }, none)
  | _ => (c, none)

/-- A send that fails, or a wait that times out. -/
def Client.fail (c : Client) : Client := { c with phase := .failed }

end HackersOs.L3.Dhcp

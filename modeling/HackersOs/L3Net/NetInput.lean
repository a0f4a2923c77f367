import HackersOs.Core.Traced
import HackersOs.L3Net.TcpSteps

/-!
# The input path (`net/net.cpp`, `socket_udp_input`, the parser of `tcp_input`)

`net_handle_packet` and everything it calls, as computations that record each
access: the bytes of the frame they read, the lengths they subtract from each
other and the bytes they write into a buffer. A frame is the content of the
receive buffer, of which the first `len` bytes were received.

`tcp_input` parses a segment and hands it to the state machine `react`; the
answer it sends at the end is returned. Frames handed to the device by the
other handlers are collected in `sent`.
-/
namespace HackersOs.L3.Net
open HackersOs.Core Tcp

abbrev Frame := Nat → UInt8

inductive Access where
  /-- bytes `[off, off + n)` of the frame are read -/
  | read (off n : Nat)
  /-- the length `x - y` is computed -/
  | sub (x y : Nat)
  /-- bytes `[off, off + n)` of a buffer of `cap` bytes are written -/
  | write (cap off n : Nat)
  deriving DecidableEq, Repr

/-- The access is right for a frame of `len` bytes. -/
def Access.InBounds (len : Nat) : Access → Prop
  | .read off n => off + n ≤ len
  | .sub x y => y ≤ x
  | .write cap off n => off + n ≤ cap

/-! ## Fields -/

abbrev MacAddr := Vector UInt8 6

def macZero : MacAddr := Vector.replicate 6 0

/-- `ntohs` of the field at `off`. -/
def be16At (f : Frame) (off : Nat) : UInt16 :=
  (f off).toUInt16 <<< 8 ||| (f (off + 1)).toUInt16

/-- `ntohl` of the field at `off`. -/
def be32At (f : Frame) (off : Nat) : UInt32 :=
  (f off).toUInt32 <<< 24 ||| (f (off + 1)).toUInt32 <<< 16 ||| (f (off + 2)).toUInt32 <<< 8 |||
    (f (off + 3)).toUInt32

/-- An `IPv4Addr`, in network byte order as the code keeps it. -/
def addrAt (f : Frame) (off : Nat) : UInt32 :=
  (f off).toUInt32 ||| (f (off + 1)).toUInt32 <<< 8 ||| (f (off + 2)).toUInt32 <<< 16 |||
    (f (off + 3)).toUInt32 <<< 24

def read8 (f : Frame) (off : Nat) : Traced Access UInt8 := do
  Traced.event (.read off 1)
  pure (f off)

def read16 (f : Frame) (off : Nat) : Traced Access UInt16 := do
  Traced.event (.read off 2)
  pure (be16At f off)

def read32 (f : Frame) (off : Nat) : Traced Access UInt32 := do
  Traced.event (.read off 4)
  pure (be32At f off)

def readAddr (f : Frame) (off : Nat) : Traced Access UInt32 := do
  Traced.event (.read off 4)
  pure (addrAt f off)

def readMac (f : Frame) (off : Nat) : Traced Access MacAddr := do
  Traced.event (.read off 6)
  pure (Vector.ofFn fun i => f (off + i))

/-- The bytes of an `IPv4Addr` in memory. -/
def addrBytes (a : UInt32) : List UInt8 :=
  [a.toUInt8, (a >>> 8).toUInt8, (a >>> 16).toUInt8, (a >>> 24).toUInt8]

/-- The bytes of `htons(v)`. -/
def be16Bytes (v : UInt16) : List UInt8 := [(v >>> 8).toUInt8, v.toUInt8]

/-- The bytes of a `u16` stored as it is. -/
def le16Bytes (v : UInt16) : List UInt8 := [v.toUInt8, (v >>> 8).toUInt8]

/-- The word loop of `inet_checksum`. -/
def sumWords : List UInt8 → UInt32 → UInt32
  | a :: b :: rest, sum => sumWords rest (sum + (a.toUInt32 ||| b.toUInt32 <<< 8))
  | [a], sum => sum + a.toUInt32
  | [], sum => sum

/-- `(sum & 0xFFFF) + (sum >> 16)` -/
def addCarry (sum : UInt32) : UInt32 := (sum &&& (0xFFFF : UInt32)) + sum >>> (16 : UInt32)

/-- The carry loop of `inet_checksum`, `n` rounds at most. -/
def foldCarry : Nat → UInt32 → UInt32
  | 0, sum => sum
  | n + 1, sum => if sum >>> 16 = 0 then sum else foldCarry n (addCarry sum)

/-- mirrors src/net/net.cpp:24-38; two rounds of carries are enough
(`foldCarry_done`). -/
def inetChecksum (data : List UInt8) : UInt16 := ~~~ (foldCarry 2 (sumWords data 0)).toUInt16

theorem toNat_shiftRight16 (x : UInt32) : (x >>> 16).toNat = x.toNat / 2 ^ 16 := by
  rw [UInt32.toNat_shiftRight, Nat.shiftRight_eq_div_pow]
  rfl

theorem toNat_addCarry (x : UInt32) : (addCarry x).toNat = x.toNat % 2 ^ 16 + x.toNat / 2 ^ 16 := by
  have hlow : (x &&& (0xFFFF : UInt32)).toNat = x.toNat % 2 ^ 16 := by
    rw [UInt32.toNat_and]
    exact Nat.and_two_pow_sub_one_eq_mod _ 16
  have := x.toNat_lt
  rw [addCarry, UInt32.toNat_add, hlow, toNat_shiftRight16]
  omega

/-- The carry loop has ended after two rounds. -/
theorem foldCarry_done (sum : UInt32) : foldCarry 2 sum >>> 16 = 0 := by
  have hlt := sum.toNat_lt
  simp only [foldCarry]
  split
  · assumption
  split
  · assumption
  · apply UInt32.toNat_inj.mp
    rw [toNat_shiftRight16, toNat_addCarry, toNat_addCarry]
    change _ = 0
    omega

/-! ## State -/

structure ArpEntry where
  ip : UInt32
  mac : MacAddr
  valid : Bool

inductive SockType where
  | none | tcp | udp | raw
  deriving DecidableEq, Repr

def udpBufSize : Nat := 4096

/-- mirrors src/net/socket.cpp:13-21; `ring` is `data` with its three indices. -/
structure UdpBuffer where
  ring : Ring UInt8 udpBufSize
  lastSrcIp : UInt32
  lastSrcPort : UInt16

/-- mirrors src/net/socket.cpp:23-32, the fields of a UDP socket. -/
structure SocketEntry where
  active : Bool
  type : SockType
  localPort : UInt16
  udpBuf : Option UdpBuffer

/-- `local_ip` is the address in `tcp`. -/
structure NetState where
  gatewayIp : UInt32
  localMac : MacAddr
  ipIdCounter : UInt16
  arpCache : Fin 32 → ArpEntry
  sockets : Fin 64 → SocketEntry
  tcp : TcpSys
  sent : List (List UInt8)

/-- The state after a packet, and the answer `tcp_input` sends. -/
structure Handled where
  state : NetState
  answer : Option (Slot × UInt8)

/-- Nothing is done. -/
def NetState.drop (st : NetState) : Handled := ⟨st, none⟩

/-! ## ARP -/

/-- mirrors src/net/net.cpp:41-48 -/
def arpLookup (cache : Fin 32 → ArpEntry) (ip : UInt32) : MacAddr :=
  match (List.finRange 32).find? fun i => (cache i).valid && (cache i).ip == ip with
  | some i => (cache i).mac
  | none => macZero

/-- mirrors src/net/net.cpp:50-70 -/
def arpCacheAdd (cache : Fin 32 → ArpEntry) (ip : UInt32) (mac : MacAddr) : Fin 32 → ArpEntry :=
  match (List.finRange 32).find? fun i => (cache i).valid && (cache i).ip == ip with
  | some i => fun j => if j = i then { cache j with mac := mac } else cache j
  | none =>
    match (List.finRange 32).find? fun i => !(cache i).valid with
    | some i => fun j => if j = i then ⟨ip, mac, true⟩ else cache j
    | none => fun j => if j = 0 then { cache j with ip := ip, mac := mac } else cache j

/-- The reply of `handle_arp`: Ethernet and ARP header. -/
def arpReply (st : NetState) (ip : UInt32) (mac : MacAddr) : List UInt8 :=
  mac.toList ++ st.localMac.toList ++ be16Bytes 0x0806 ++
    (be16Bytes 1 ++ be16Bytes 0x0800 ++ [6, 4] ++ be16Bytes 2 ++ st.localMac.toList ++
      addrBytes st.tcp.localIp ++ mac.toList ++ addrBytes ip)

/-- mirrors src/net/net.cpp:73-103 -/
def handleArp (st : NetState) (f : Frame) (len : UInt32) : Traced Access Handled := do
  if len < 42 then pure st.drop
  else
    let senderIp ← readAddr f 28
    let senderMac ← readMac f 22
    let st := { st with arpCache := arpCacheAdd st.arpCache senderIp senderMac }
    let opcode ← read16 f 20
    if opcode = 1 then
      let targetIp ← readAddr f 38
      if targetIp = st.tcp.localIp then
        Traced.event (.write 42 0 42)
        pure { st with sent := st.sent ++ [arpReply st senderIp senderMac] }.drop
      else pure st.drop
    else pure st.drop

/-! ## ICMP -/

/-- An IPv4 header without options, with the given checksum bytes. -/
def ipHeader (total id flags : UInt16) (proto : UInt8) (src dst : UInt32) (sum : List UInt8) :
    List UInt8 :=
  [0x45, 0] ++ be16Bytes total ++ be16Bytes id ++ be16Bytes flags ++ [64, proto] ++ sum ++
    addrBytes src ++ addrBytes dst

/-- mirrors src/net/net.cpp:125-142; `payload` is what was copied. -/
def echoReply (st : NetState) (src : UInt32) (len : UInt32) (payload : List UInt8) : List UInt8 :=
  let mac := arpLookup st.arpCache src
  let mac := if mac = macZero then arpLookup st.arpCache st.gatewayIp else mac
  let hdr := ipHeader (20 + len.toUInt16) st.ipIdCounter 0 1 st.tcp.localIp src
  let cleared := ((payload.set 0 0).set 2 0).set 3 0
  let sum := inetChecksum cleared
  mac.toList ++ st.localMac.toList ++ be16Bytes 0x0800 ++
    hdr (le16Bytes (inetChecksum (hdr [0, 0]))) ++
    (cleared.set 2 sum.toUInt8).set 3 (sum >>> 8).toUInt8

/-- mirrors src/net/net.cpp:106-150. The total is a 64-bit sum cut to 32 bits. -/
def handleIcmp (st : NetState) (f : Frame) (payload : Nat) (len : UInt32) :
    Traced Access Handled := do
  if len < 8 then pure st.drop
  else
    let type ← read8 f payload
    if type = 8 then
      let total := 14 + 20 + len
      if total > 1518 then pure st.drop
      else
        let src ← readAddr f 26
        Traced.event (.write maxPacket 0 34)
        Traced.event (.read payload len.toNat)
        Traced.event (.write maxPacket 34 len.toNat)
        let reply := echoReply st src len ((List.range len.toNat).map fun i => f (payload + i))
        pure { st with ipIdCounter := st.ipIdCounter + 1,
                       sent := st.sent ++ [reply.take total.toNat] }.drop
    else pure st.drop

/-! ## UDP -/

/-- The byte loop into a ring: what fits of `len` bytes from offset `src` on. -/
def copyRing {cap : Nat} (r : Ring UInt8 cap) (f : Frame) (src len : Nat) :
    Traced Access (Ring UInt8 cap) := do
  let data := fun i => f (src + i)
  Traced.events ((List.range (r.room len)).flatMap fun j =>
    [.read (src + j) 1, .write cap (Ring.fillLoop cap data r.buf r.head j).2 1])
  pure (r.fill data len)

/-- The socket a datagram goes to: the first one that matches and has a buffer. -/
def udpTarget (sockets : Fin 64 → SocketEntry) (dstPort : UInt16) : Option (Fin 64 × UdpBuffer) :=
  (List.finRange 64).findSome? fun i =>
    if (sockets i).active && (sockets i).type = .udp && (sockets i).localPort = dstPort then
      (sockets i).udpBuf.map fun b => (i, b)
    else none

/-- mirrors src/net/socket.cpp:45-67; the datagram is at offset `data` of the frame. -/
def socketUdpInput (sockets : Fin 64 → SocketEntry) (srcIp : UInt32) (srcPort dstPort : UInt16)
    (f : Frame) (data : Nat) (len : UInt32) : Traced Access (Fin 64 → SocketEntry) :=
  match udpTarget sockets dstPort with
  | some (i, b) => do
    let ring ← copyRing b.ring f data len.toNat
    pure fun j => if j = i then { sockets j with udpBuf := some ⟨ring, srcIp, srcPort⟩ }
      else sockets j
  | none => pure sockets

/-- mirrors src/net/net.cpp:153-166. `data_len` is a 64-bit difference cut to 16 bits. -/
def handleUdp (st : NetState) (f : Frame) (payload : Nat) (len : UInt32) :
    Traced Access Handled := do
  if len < 8 then pure st.drop
  else
    let dstPort ← read16 f (payload + 2)
    let length ← read16 f (payload + 4)
    Traced.event (.sub length.toNat 8)
    let dataLen := length - 8
    let srcIp ← readAddr f 26
    let srcPort ← read16 f payload
    let sockets ← socketUdpInput st.sockets srcIp srcPort dstPort f (payload + 8) dataLen.toUInt32
    pure { st with sockets := sockets }.drop

/-! ## TCP -/

/-- The state machine copies data of the segment into the ring. -/
def takesData (c : TcpConnection) (seg : InSeg) : Bool :=
  decide (c.state = .established) && !has seg.flags tcpFin && decide (0 < seg.dataLen) &&
    decide (seg.seq = c.rcvNxt)

/-- The reads and writes of that copy; the data is at offset `data` of the frame. -/
def tcpCopy (s : TcpSys) (seg : InSeg) (f : Frame) (data : Nat) : Traced Access Unit :=
  match scan s.conns seg (List.finRange 16) none with
  | (some i, _) =>
    if takesData (s.conns i) seg then do
      let _ ← copyRing (s.conns i).rx f data seg.dataLen.toNat
      pure ()
    else pure ()
  | (none, _) => pure ()

/-- mirrors src/net/tcp.cpp:112-245 -/
def tcpInput (st : NetState) (f : Frame) (payload : Nat) (len : UInt32) :
    Traced Access Handled := do
  if len < 20 then pure st.drop
  else
    let srcPort ← read16 f payload
    let dstPort ← read16 f (payload + 2)
    let seq ← read32 f (payload + 4)
    let ack ← read32 f (payload + 8)
    let flags ← read8 f (payload + 13)
    let dataOffset ← read8 f (payload + 12)
    let hdrLen := (dataOffset >>> 4).toUInt32 * 4
    Traced.event (.sub len.toNat hdrLen.toNat)
    let srcIp ← readAddr f 26
    let seg : InSeg := ⟨srcIp, srcPort, dstPort, seq, ack, flags, len - hdrLen,
      fun i => f (payload + hdrLen.toNat + i)⟩
    tcpCopy st.tcp seg f (payload + hdrLen.toNat)
    let r := react st.tcp seg
    pure ⟨{ st with tcp := r.1 }, r.2⟩

/-! ## IPv4 and Ethernet -/

/-- mirrors src/net/net.cpp:169-194 -/
def handleIpv4 (st : NetState) (f : Frame) (len : UInt32) : Traced Access Handled := do
  if len < 34 then pure st.drop
  else
    let versionIhl ← read8 f 14
    let ipHdrLen := (versionIhl &&& 0x0F).toUInt32 * 4
    let total ← read16 f 16
    let ipTotal := total.toUInt32
    if ipTotal > len - 14 then pure st.drop
    else
      let payload := 14 + ipHdrLen.toNat
      Traced.event (.sub ipTotal.toNat ipHdrLen.toNat)
      let payloadLen := ipTotal - ipHdrLen
      let protocol ← read8 f 23
      if protocol = 1 then handleIcmp st f payload payloadLen
      else if protocol = 17 then handleUdp st f payload payloadLen
      else if protocol = 6 then tcpInput st f payload payloadLen
      else pure st.drop

/-- mirrors src/net/net.cpp:197-213 -/
def netHandlePacket (st : NetState) (f : Frame) (len : UInt32) : Traced Access Handled := do
  if len < 14 then pure st.drop
  else
    let ethertype ← read16 f 12
    if ethertype = 0x0806 then handleArp st f len
    else if ethertype = 0x0800 then handleIpv4 st f len
    else pure st.drop

/-- The copy that `tcpCopy` records is the one the state machine makes. -/
theorem onSegment_rx (c : TcpConnection) (seg : InSeg) : (onSegment c seg).1.rx =
    if takesData c seg then c.rx.fill seg.data seg.dataLen.toNat else c.rx := by
  unfold onSegment takesData
  cases hst : c.state <;> simp only [decide_true, decide_false, Bool.true_and, Bool.false_and,
    Bool.false_eq_true, if_false, reduceCtorEq]
  case synSent => split <;> rfl
  case synReceived => split <;> rfl
  case finWait1 => split; split; all_goals rfl
  case finWait2 => split <;> rfl
  case lastAck => split <;> rfl
  case established =>
    by_cases hfin : has seg.flags tcpFin = true
    · simp [hfin]
    · by_cases hack : has seg.flags tcpAck = true <;>
        by_cases hd : 0 < seg.dataLen ∧ seg.seq = c.rcvNxt <;> simp [hfin, hack, hd]

end HackersOs.L3.Net

import HackersOs.L3Net.NetInput

/-!
# Sockets (`net/socket.cpp`) and `TCP::accept`

The table of 64 sockets over the connection table. An address is given with
its port in host order; `addrlen` is what the caller says its size is. As in
`Tcp`, what the outside does during a call is an argument of the call: the
segments polled and the results of the sends. UDP packets that arrive during a
poll only touch the buffer of a UDP socket; the wait of `recvfrom` has them
beside the TCP segments of each poll.

The input path of UDP packets, with the sockets as it sees them, is in
`NetInput`; here a packet is its fields.
-/
namespace HackersOs.L3.Socket
open HackersOs.Core Tcp Net

def afInet : Nat := 2
def sockStream : Nat := 1
def sockDgram : Nat := 2
def sockRaw : Nat := 3

def linuxEio : Int := -5
def linuxEagain : Int := -11
def linuxEnomem : Int := -12
def linuxEinval : Int := -22
def linuxEnotsock : Int := -88
def linuxEafnosupport : Int := -97

def socketFdBase : Int := 100
/-- `sizeof(linux_sockaddr_in)` -/
def sockaddrInSize : Nat := 16
def mtu : Nat := 1500
/-- `sizeof(UdpHeader)` -/
def udpHeaderLen : Nat := 8

/-- mirrors src/net/socket.cpp:23-32, over the fields the input path reads; an
id of -1 is `none`. -/
structure SocketEntry extends Net.SocketEntry where
  domain : Nat
  remoteIp : UInt32
  remotePort : UInt16
  tcpConnId : Option Slot

instance sockets_neZero : NeZero 64 := ⟨by decide⟩

structure Sockets where
  tcp : TcpSys
  entries : Fin 64 → SocketEntry
  nextUdpPort : UInt16

structure SockAddr where
  port : UInt16
  addr : UInt32
  deriving DecidableEq

def zeroEntry : SocketEntry := ⟨⟨false, .none, 0, none⟩, 0, 0, 0, none⟩

def bootSockets : Sockets := ⟨bootTcp, fun _ => zeroEntry, 50000⟩

/-- mirrors src/net/socket.cpp:71-74 -/
def Sockets.init (s : Sockets) : Sockets :=
  { s with tcp := s.tcp.init, entries := fun _ => zeroEntry }

/-- mirrors src/net/socket.cpp:38-43 -/
def fdToIdx (s : Sockets) (fd : Int) : Option (Fin 64) :=
  let idx := fd - socketFdBase
  if h : 0 ≤ idx ∧ idx < 64 then
    let i : Fin 64 := ⟨idx.toNat, by omega⟩
    if (s.entries i).active then some i else none
  else none

def fdOf (i : Fin 64) : Int := socketFdBase + i.val

def Sockets.set (s : Sockets) (i : Fin 64) (e : SocketEntry) : Sockets :=
  { s with entries := Function.update s.entries i e }

/-- The first entry that is not active. -/
def firstEntry (s : Sockets) : Option (Fin 64) :=
  (List.finRange 64).find? fun i => !(s.entries i).active

/-! ## UDP packets -/

structure Datagram where
  srcIp : UInt32
  srcPort : UInt16
  dstPort : UInt16
  data : List UInt8

/-- mirrors src/net/socket.cpp:45-68 -/
def socketUdpInput (s : Sockets) (d : Datagram) : Sockets :=
  match udpTarget (fun i => (s.entries i).toSocketEntry) d.dstPort with
  | none => s
  | some (i, b) =>
    s.set i { s.entries i with
      udpBuf := some ⟨b.ring.fill (fun j => d.data.getD j 0) d.data.length, d.srcIp, d.srcPort⟩ }

/-! ## The calls -/

/-- `SOCK_STREAM`, `SOCK_DGRAM`, `SOCK_RAW` -/
def sockTypeOf (type : Nat) : Option SockType :=
  if type = sockStream then some .tcp
  else if type = sockDgram then some .udp
  else if type = sockRaw then some .raw
  else none

/-- mirrors src/net/socket.cpp:76-112 -/
def create (s : Sockets) (domain type : Nat) : Sockets × Int :=
  if domain ≠ afInet then (s, linuxEafnosupport)
  else
    match sockTypeOf type with
    | none => (s, linuxEinval)
    | some st =>
      match firstEntry s with
      | none => (s, linuxEnomem)
      | some i =>
        let e := { zeroEntry with active := true, type := st, domain := domain }
        match st with
        | .tcp =>
          let r := openConn s.tcp
          match r.2 with
          | none => ({ s with tcp := r.1 }.set i { e with active := false }, linuxEnomem)
          | some c => ({ s with tcp := r.1 }.set i { e with tcpConnId := some c }, fdOf i)
        | .udp =>
          (s.set i { e with udpBuf := some ⟨Ring.reset (fun _ => 0) (by decide), 0, 0⟩ }, fdOf i)
        | _ => (s.set i e, fdOf i)

/-- mirrors src/net/socket.cpp:114-129 -/
def bind (s : Sockets) (fd : Int) (sa : SockAddr) (addrlen : Nat) : Sockets × Int :=
  match fdToIdx s fd with
  | none => (s, linuxEnotsock)
  | some i =>
    if addrlen < sockaddrInSize then (s, linuxEinval)
    else
      let s' := s.set i { s.entries i with localPort := sa.port }
      match (s.entries i).type, (s.entries i).tcpConnId with
      | .tcp, some c => ({ s' with tcp := Tcp.bind s.tcp c sa.port }, 0)
      | _, _ => (s', 0)

/-- mirrors src/net/socket.cpp:131-138 -/
def listen (s : Sockets) (fd : Int) : Sockets × Int :=
  match fdToIdx s fd with
  | none => (s, linuxEnotsock)
  | some i =>
    if (s.entries i).type ≠ .tcp then (s, linuxEinval)
    else
      match (s.entries i).tcpConnId with
      | none => (s, -1)
      | some c => ({ s with tcp := Tcp.listen s.tcp c (s.entries i).localPort }, 0)

/-- One scan of `TCP::accept`; the first one, before the wait, also takes
SYN_RECEIVED. mirrors src/net/tcp.cpp:323-331, 336-343 -/
def acceptScan (s : TcpSys) (listenId : Slot) (early : Bool) : Option Slot :=
  (List.finRange 16).find? fun i => decide (i ≠ listenId) && (s.conns i).active &&
    decide ((s.conns i).localPort = (s.conns listenId).localPort) &&
    (decide ((s.conns i).state = .established) ||
      (early && decide ((s.conns i).state = .synReceived)))

/-- mirrors src/net/tcp.cpp:334-344 -/
def acceptWait (listenId : Slot) : TcpSys → List Polled → TcpSys × Option Slot
  | s, [] => (s, none)
  | s, p :: ps =>
    let s := pollSegs s p
    match acceptScan s listenId false with
    | some c => (s, some c)
    | none => acceptWait listenId s ps

/-- `TCP::accept`. mirrors src/net/tcp.cpp:319-346 -/
def tcpAccept (s : TcpSys) (listenId : Slot) (polls : List Polled) : TcpSys × Option Slot :=
  match acceptScan s listenId true with
  | some c => (s, some c)
  | none => acceptWait listenId s polls

/-- A new socket for an accepted connection. mirrors src/net/socket.cpp:149-160 -/
def wrapAccepted (s : Sockets) (i : Fin 64) (c : Slot) : Sockets × Int :=
  match firstEntry s with
  | none => (s, linuxEnomem)
  | some j =>
    (s.set j { s.entries j with
      active := true, type := .tcp, domain := (s.entries i).domain, tcpConnId := some c,
      localPort := (s.entries i).localPort }, fdOf j)

/-- mirrors src/net/socket.cpp:140-161 -/
def accept (s : Sockets) (fd : Int) (polls : List Polled) : Sockets × Int :=
  match fdToIdx s fd with
  | none => (s, linuxEnotsock)
  | some i =>
    if (s.entries i).type ≠ .tcp then (s, linuxEinval)
    else
      match (s.entries i).tcpConnId with
      | none => (s, linuxEagain)
      | some l =>
        let r := tcpAccept s.tcp l polls
        match r.2 with
        | none => ({ s with tcp := r.1 }, linuxEagain)
        | some c => wrapAccepted { s with tcp := r.1 } i c

/-- mirrors src/net/socket.cpp:163-183 -/
def connect (s : Sockets) (fd : Int) (sa : SockAddr) (addrlen : Nat) (run : IpRun)
    (polls : List Polled) : Sockets × Int :=
  match fdToIdx s fd with
  | none => (s, linuxEnotsock)
  | some i =>
    if addrlen < sockaddrInSize then (s, linuxEinval)
    else
      let s' := s.set i { s.entries i with remoteIp := sa.addr, remotePort := sa.port }
      match (s.entries i).type, (s.entries i).tcpConnId with
      | .tcp, some c =>
        let r := Tcp.connect s.tcp c sa.addr sa.port run polls
        ({ s' with tcp := r.1 }, r.2)
      | .tcp, none => (s', -1)
      | _, _ => (s', 0)

/-- `Net::send_ip` as the connection table sees it. -/
def sendIp (s : TcpSys) (payloadLen : Nat) : IpRun → TcpSys × Bool
  | .mk polled res _ =>
    if 14 + 20 + payloadLen > maxPacket then (s, false)
    else (pollSegs s polled, decide (res = .ok))

/-- What the outside does during `sendto`: of the sends of `TCP::send`, or of the
one send of a UDP packet. -/
structure SendEnv where
  tcp : List (IpRun × List Round)
  udp : IpRun

/-- Where a UDP packet goes: the address given with the call, or the one of
`connect`. mirrors src/net/socket.cpp:196-204 -/
def udpDest (e : SocketEntry) : Option (SockAddr × Nat) → SockAddr
  | some (sa, addrlen) => if addrlen ≥ sockaddrInSize then sa else ⟨e.remotePort, e.remoteIp⟩
  | none => ⟨e.remotePort, e.remoteIp⟩

/-- The payload of `send_ip`; the length field has the length asked for.
mirrors src/net/socket.cpp:210-221 -/
def udpPacket (localPort dstPort : UInt16) (buf : List UInt8) : List UInt8 :=
  be16Bytes localPort ++ be16Bytes dstPort ++ be16Bytes (UInt16.ofNat (udpHeaderLen + buf.length)) ++
    [0, 0] ++ buf.take (mtu - udpHeaderLen)

/-- A UDP socket without a port gets one. mirrors src/net/socket.cpp:206-208 -/
def autoPort (s : Sockets) (i : Fin 64) : Sockets :=
  if (s.entries i).localPort = 0 then
    { s.set i { s.entries i with localPort := s.nextUdpPort } with nextUdpPort := s.nextUdpPort + 1 }
  else s

/-- mirrors src/net/socket.cpp:185-230 -/
def sendto (s : Sockets) (fd : Int) (buf : List UInt8) (dest : Option (SockAddr × Nat))
    (env : SendEnv) : Sockets × Int :=
  match fdToIdx s fd with
  | none => (s, linuxEnotsock)
  | some i =>
    match (s.entries i).type with
    | .tcp =>
      match (s.entries i).tcpConnId with
      | none => (s, -1)
      | some c =>
        let r := Tcp.send s.tcp c buf env.tcp
        ({ s with tcp := r.1 }, r.2)
    | .udp =>
      let s := autoPort s i
      let packet := udpPacket (s.entries i).localPort (udpDest (s.entries i) dest).port buf
      let r := sendIp s.tcp packet.length env.udp
      ({ s with tcp := r.1 }, if r.2 then (packet.length - udpHeaderLen : Nat) else linuxEio)
    | _ => (s, linuxEinval)

/-- One poll of the wait of `recvfrom` on a UDP socket. -/
structure UdpPoll where
  segs : Polled
  packets : List Datagram

def udpPoll (s : Sockets) (p : UdpPoll) : Sockets :=
  p.packets.foldl socketUdpInput { s with tcp := pollSegs s.tcp p.segs }

/-- mirrors src/net/socket.cpp:246-249 -/
def udpWait (i : Fin 64) : Sockets → List UdpPoll → Sockets
  | s, [] => s
  | s, p :: ps =>
    match (s.entries i).udpBuf with
    | none => s
    | some b => if b.ring.count = 0 then udpWait i (udpPoll s p) ps else s

/-- The copy out of the buffer. mirrors src/net/socket.cpp:250-258 -/
def udpRead (s : Sockets) (i : Fin 64) (len : Nat) : Sockets × List UInt8 :=
  match (s.entries i).udpBuf with
  | none => (s, [])
  | some b =>
    let r := b.ring.drain len
    (s.set i { s.entries i with udpBuf := some { b with ring := r.2 } }, r.1)

/-- What the outside does during `recvfrom`. -/
structure RecvEnv where
  tcp : List Round
  udp : List UdpPoll

/-- The bytes that go to the caller, or the error. mirrors src/net/socket.cpp:232-272 -/
def recvfrom (s : Sockets) (fd : Int) (len : Nat) (env : RecvEnv) :
    Sockets × Except Int (List UInt8) :=
  match fdToIdx s fd with
  | none => (s, .error linuxEnotsock)
  | some i =>
    match (s.entries i).type with
    | .tcp =>
      match (s.entries i).tcpConnId with
      | none => (s, .error (-1))
      | some c =>
        let r := Tcp.recv s.tcp c len env.tcp
        ({ s with tcp := r.1 }, .ok r.2)
    | .udp =>
      match (s.entries i).udpBuf with
      | none => (s, .error linuxEio)
      | some _ =>
        let s := udpWait i s env.udp
        if ((s.entries i).udpBuf.map fun b => b.ring.count) = some 0 then (s, .error linuxEagain)
        else
          let r := udpRead s i len
          (r.1, .ok r.2)
    | _ => (s, .error linuxEinval)

/-- What `recvfrom` writes to `src_addr`; `addrlen` is none for a null pointer.
mirrors src/net/socket.cpp:260-269 -/
def recvSource (s : Sockets) (i : Fin 64) (addrlen : Option Nat) : Option SockAddr :=
  match (s.entries i).udpBuf, addrlen with
  | some b, some n => if n ≥ sockaddrInSize then some ⟨b.lastSrcPort, b.lastSrcIp⟩ else none
  | _, _ => none

/-- mirrors src/net/socket.cpp:275-279; all options are accepted. -/
def setsockopt (s : Sockets) (fd : Int) : Int :=
  match fdToIdx s fd with
  | none => linuxEnotsock
  | some _ => 0

/-- mirrors src/net/socket.cpp:281-285 -/
def getsockopt (s : Sockets) (fd : Int) : Int := setsockopt s fd

/-- What `getsockname` and `getpeername` share; `addrlen` is none for a null
pointer. -/
def addrCall (s : Sockets) (fd : Int) (addrlen : Option Nat) (sa : Fin 64 → SockAddr) :
    Except Int SockAddr :=
  match fdToIdx s fd with
  | none => .error linuxEnotsock
  | some i =>
    match addrlen with
    | none => .error linuxEinval
    | some n => if n < sockaddrInSize then .error linuxEinval else .ok (sa i)

/-- `ip` is `Net::get_ip()`. mirrors src/net/socket.cpp:287-300 -/
def getsockname (s : Sockets) (ip : UInt32) (fd : Int) (addrlen : Option Nat) : Except Int SockAddr :=
  addrCall s fd addrlen fun i => ⟨(s.entries i).localPort, ip⟩

/-- mirrors src/net/socket.cpp:302-315 -/
def getpeername (s : Sockets) (fd : Int) (addrlen : Option Nat) : Except Int SockAddr :=
  addrCall s fd addrlen fun i => ⟨(s.entries i).remotePort, (s.entries i).remoteIp⟩

/-- mirrors src/net/socket.cpp:317-326 -/
def close (s : Sockets) (fd : Int) (run : IpRun) : Sockets × Int :=
  match fdToIdx s fd with
  | none => (s, linuxEnotsock)
  | some i =>
    let tcp := match (s.entries i).type, (s.entries i).tcpConnId with
      | .tcp, some c => Tcp.close s.tcp c run
      | _, _ => s.tcp
    ({ s with tcp := tcp }.set i { s.entries i with active := false }, 0)

/-! ## Table access -/

@[simp] theorem set_self (s : Sockets) (i : Fin 64) (e : SocketEntry) :
    (s.set i e).entries i = e := by
  simp [Sockets.set]

@[simp] theorem set_tcp (s : Sockets) (i : Fin 64) (e : SocketEntry) : (s.set i e).tcp = s.tcp := rfl

theorem fdToIdx_eq_some {s : Sockets} {fd : Int} {i : Fin 64} :
    fdToIdx s fd = some i ↔ fd = fdOf i ∧ (s.entries i).active = true := by
  unfold fdToIdx fdOf socketFdBase
  dsimp only
  constructor
  · intro h
    split at h
    · split at h
      · rename_i hact
        cases h
        refine ⟨?_, hact⟩
        dsimp only
        omega
      · cases h
    · cases h
  · rintro ⟨rfl, hact⟩
    have hin : (0 : Int) ≤ 100 + i.val - 100 ∧ (100 + i.val - 100 : Int) < 64 := by omega
    have hidx : (⟨(100 + (i.val : Int) - 100).toNat, by omega⟩ : Fin 64) = i := by
      apply Fin.ext
      dsimp only
      omega
    rw [dif_pos hin, hidx, if_pos hact]

theorem fdToIdx_active {s : Sockets} {fd : Int} {i : Fin 64} (h : fdToIdx s fd = some i) :
    (s.entries i).active = true := (fdToIdx_eq_some.mp h).2

end HackersOs.L3.Socket

import HackersOs.Core.Ring

/-!
# TCP (`net/tcp.cpp`, `net/tcp.h`)

The connection table and every function of `tcp.cpp`, except the checksum
(the segments below carry the fields and the data).

Sending is not atomic: `send_tcp_segment` calls `Net::send_ip`, which resolves
the next hop and, while the ARP cache has no answer, polls the device. Each
frame polled may be a TCP segment, handled by `tcp_input` before the outer
call goes on, and its answer is sent the same way. `IpRun` is what the outside
does during one `send_ip`: the segments polled, each with the run of its own
answer, and the result. `sendTcpSegment` and `pollSegs` are the two sides of
that recursion; `tcp_input` sends at most one answer and does nothing after
it, so it is a state update `react` and the answer to send.

Ghost state: per slot, how the connection in it came about, the bytes `send`
accepted, the bytes `recv` returned and the segments handed to the device.
-/
namespace HackersOs.L3.Tcp
open HackersOs.Core

inductive TcpState where
  | closed | listen | synSent | synReceived | established | finWait1 | finWait2 | closeWait
  | closing | lastAck | timeWait
  deriving DecidableEq, Repr

def tcpFin : UInt8 := 0x01
def tcpSyn : UInt8 := 0x02
def tcpPsh : UInt8 := 0x08
def tcpAck : UInt8 := 0x10

def tcpBufSize : Nat := 8192
def retransmitTicks : UInt64 := 200
def maxRetransmits : UInt8 := 5
/-- The initial sequence number, a constant in the code. -/
def isn : UInt32 := 1000
def mss : Nat := 1460
/-- `sizeof(EthHeader) + sizeof(IPv4Header) + sizeof(TcpHeader)` -/
def headersLen : Nat := 14 + 20 + 20
def maxPacket : Nat := 1518

/-- mirrors src/net/tcp.h:22-48; `rx` is `rx_buf` with its three indices. -/
structure TcpConnection where
  active : Bool
  state : TcpState
  localIp : UInt32
  localPort : UInt16
  remoteIp : UInt32
  remotePort : UInt16
  sndNxt : UInt32
  sndUna : UInt32
  rcvNxt : UInt32
  rx : Ring UInt8 tcpBufSize
  txBuf : Nat → UInt8
  txLen : UInt32
  txSeq : UInt32
  retransmitTick : UInt64
  retransmitCount : UInt8

/-- An index into `connections`. -/
abbrev Slot := Fin 16

instance slots_neZero : NeZero 16 := ⟨by decide⟩

/-- A segment handed to the device. -/
structure Segment where
  dst : UInt32
  srcPort : UInt16
  dstPort : UInt16
  seq : UInt32
  ack : UInt32
  flags : UInt8
  window : UInt16
  data : List UInt8
  deriving DecidableEq, Repr

/-- What `tcp_input` reads of a received segment. `dataLen` is its 32-bit
difference of lengths, `data` the bytes from the data offset on. -/
structure InSeg where
  srcIp : UInt32
  srcPort : UInt16
  dstPort : UInt16
  seq : UInt32
  ack : UInt32
  flags : UInt8
  dataLen : UInt32
  data : Nat → UInt8

/-! ## The outside -/

/-- How `send_ip` ends: no frame went to the device (no ARP answer), the frame
was queued but the device did not report it in time, or it was sent. -/
inductive SendRes where
  | noFrame | timeout | ok
  deriving DecidableEq, Repr

mutual
/-- One `send_ip`: what is polled while the next hop is resolved, the result,
and the tick count after it. -/
inductive IpRun where
  | mk (polled : Polled) (res : SendRes) (tick : UInt64)
/-- Received segments, each with the `send_ip` of its answer. -/
inductive Polled where
  | nil
  | cons (seg : InSeg) (reply : IpRun) (rest : Polled)
end

/-! ## The table -/

/-- How the connection in a slot came about. -/
inductive Phase where
  /-- before the run, or after calls in an order the code does not guard -/
  | stale
  | opened
  /-- `open` and then `connect` -/
  | connected
  /-- passively opened by `tcp_input` -/
  | accepted
  deriving DecidableEq, Repr

structure Ghost where
  phase : Phase
  accepted : List UInt8
  returned : List UInt8
  sent : List Segment

structure TcpSys where
  conns : Slot → TcpConnection
  nextEphemeralPort : UInt16
  localIp : UInt32
  ghost : Slot → Ghost

def TcpSys.update (s : TcpSys) (id : Slot) (f : TcpConnection → TcpConnection) : TcpSys :=
  { s with conns := fun j => if j = id then f (s.conns j) else s.conns j }

def TcpSys.mark (s : TcpSys) (id : Slot) (f : Ghost → Ghost) : TcpSys :=
  { s with ghost := fun j => if j = id then f (s.ghost j) else s.ghost j }

/-- The segment goes to the device. -/
def TcpSys.record (s : TcpSys) (id : Slot) (seg : Segment) : TcpSys :=
  s.mark id fun g => { g with sent := g.sent ++ [seg] }

def has (flags bit : UInt8) : Bool := flags &&& bit != 0

/-! ## `send_tcp_segment` -/

/-- mirrors src/net/tcp.cpp:38-52 -/
def buildSegment (conn : TcpConnection) (flags : UInt8) (data : List UInt8) : Segment where
  dst := conn.remoteIp
  srcPort := conn.localPort
  dstPort := conn.remotePort
  seq := conn.sndNxt
  ack := conn.rcvNxt
  flags := flags
  window := UInt16.ofNat (tcpBufSize - conn.rx.count)
  data := data

/-- `memcpy(conn->tx_buf, data, data_len)` -/
def copyIn (buf : Nat → UInt8) (data : List UInt8) : Nat → UInt8 := fun i =>
  (data[i]?).getD (buf i)

/-- The bookkeeping after the frame was sent. mirrors src/net/tcp.cpp:59-72 -/
def afterSend (flags : UInt8) (data : List UInt8) (tick : UInt64) (conn : TcpConnection) :
    TcpConnection :=
  let conn := if has flags tcpSyn then { conn with sndNxt := conn.sndNxt + 1 } else conn
  let conn := if has flags tcpFin then { conn with sndNxt := conn.sndNxt + 1 } else conn
  if data.length > 0 then
    let dataLen := UInt32.ofNat data.length
    let conn := if data.length ≤ tcpBufSize then
        { conn with txBuf := copyIn conn.txBuf data, txLen := dataLen,
                    txSeq := conn.sndNxt - dataLen,
                    retransmitTick := tick + retransmitTicks, retransmitCount := 0 }
      else conn
    { conn with sndNxt := conn.sndNxt + dataLen }
  else conn

/-! ## `tcp_input` -/

/-- The slot that matches a segment and the last listener seen before it.
mirrors src/net/tcp.cpp:128-142 -/
def scan (conns : Slot → TcpConnection) (seg : InSeg) :
    List Slot → Option Slot → Option Slot × Option Slot
  | [], listener => (none, listener)
  | i :: is, listener =>
    let c := conns i
    if c.active = false then scan conns seg is listener
    else
      let listener := if c.state = .listen ∧ c.localPort = seg.dstPort then some i else listener
      if c.remoteIp = seg.srcIp ∧ c.remotePort = seg.srcPort ∧ c.localPort = seg.dstPort
      then (some i, listener) else scan conns seg is listener

/-- The first slot that is not active. -/
def firstFree (conns : Slot → TcpConnection) : Option Slot :=
  (List.finRange 16).find? fun i => !(conns i).active

/-- A passive open in slot `i`. The transmit fields keep what an earlier
connection left. mirrors src/net/tcp.cpp:149-162 -/
def passiveConn (localIp : UInt32) (seg : InSeg) (conn : TcpConnection) : TcpConnection :=
  { conn with active := true, state := .synReceived, localIp := localIp,
              localPort := seg.dstPort, remoteIp := seg.srcIp, remotePort := seg.srcPort,
              rcvNxt := seg.seq + 1, sndNxt := isn, sndUna := isn,
              rx := Ring.reset conn.rx.buf (by decide) }

/-- The state machine of a matched connection, and whether it answers with an
ACK. mirrors src/net/tcp.cpp:174-244 -/
def onSegment (conn : TcpConnection) (seg : InSeg) : TcpConnection × Bool :=
  match conn.state with
  | .synSent =>
    if seg.flags &&& (tcpSyn ||| tcpAck) = tcpSyn ||| tcpAck then
      ({ conn with rcvNxt := seg.seq + 1, sndUna := seg.ack, state := .established }, true)
    else (conn, false)
  | .synReceived =>
    if has seg.flags tcpAck then
      ({ conn with sndUna := seg.ack, state := .established }, false)
    else (conn, false)
  | .established =>
    if has seg.flags tcpFin then
      ({ conn with rcvNxt := seg.seq + 1, state := .closeWait }, true)
    else
      let conn := if has seg.flags tcpAck then { conn with sndUna := seg.ack } else conn
      if 0 < seg.dataLen ∧ seg.seq = conn.rcvNxt then
        ({ conn with rx := conn.rx.fill seg.data seg.dataLen.toNat,
                     rcvNxt := conn.rcvNxt + UInt32.ofNat (conn.rx.room seg.dataLen.toNat) }, true)
      else (conn, false)
  | .finWait1 =>
    if has seg.flags tcpAck then
      let conn := { conn with sndUna := seg.ack }
      if has seg.flags tcpFin then
        ({ conn with rcvNxt := seg.seq + 1, state := .timeWait }, true)
      else ({ conn with state := .finWait2 }, false)
    else (conn, false)
  | .finWait2 =>
    if has seg.flags tcpFin then
      ({ conn with rcvNxt := seg.seq + 1, state := .timeWait }, true)
    else (conn, false)
  | .lastAck =>
    if has seg.flags tcpAck then ({ conn with active := false, state := .closed }, false)
    else (conn, false)
  | _ => (conn, false)

/-- `tcp_input` up to the answer it sends. mirrors src/net/tcp.cpp:124-245 -/
def react (s : TcpSys) (seg : InSeg) : TcpSys × Option (Slot × UInt8) :=
  match scan s.conns seg (List.finRange 16) none with
  | (some i, _) =>
    let r := onSegment (s.conns i) seg
    (s.update i fun _ => r.1, if r.2 then some (i, tcpAck) else none)
  | (none, some _) =>
    if has seg.flags tcpSyn then
      match firstFree s.conns with
      | some i =>
        ((s.update i (passiveConn s.localIp seg)).mark i fun _ => ⟨.accepted, [], [], []⟩,
          some (i, tcpSyn ||| tcpAck))
      | none => (s, none)
    else (s, none)
  | (none, none) => (s, none)

mutual
/-- mirrors src/net/tcp.cpp:37-75, with the parts of `Net::send_ip` that show
(net.cpp:255-297): the size check, the polls and the result. -/
def sendTcpSegment (s : TcpSys) (id : Slot) (flags : UInt8) (data : List UInt8) :
    IpRun → TcpSys × Bool
  | .mk polled res tick =>
    if headersLen + data.length > maxPacket then (s, false)
    else
      -- the segment is built before anything is polled
      let seg := buildSegment (s.conns id) flags data
      let s := pollSegs s polled
      match res with
      | .noFrame => (s, false)
      | .timeout => (s.record id seg, false)
      | .ok => ((s.record id seg).update id (afterSend flags data tick), true)

/-- `tcp_input` on each segment of a poll. mirrors src/net/tcp.cpp:112-245 and
src/net/virtio_net.cpp `poll` -/
def pollSegs (s : TcpSys) : Polled → TcpSys
  | .nil => s
  | .cons seg reply rest =>
    let r := react s seg
    match r.2 with
    | none => pollSegs r.1 rest
    | some (id, flags) => pollSegs (sendTcpSegment r.1 id flags [] reply).1 rest
end

/-! ## The calls -/

def zeroConn : TcpConnection where
  active := false
  state := .closed
  localIp := 0
  localPort := 0
  remoteIp := 0
  remotePort := 0
  sndNxt := 0
  sndUna := 0
  rcvNxt := 0
  rx := Ring.reset (fun _ => 0) (by decide)
  txBuf := fun _ => 0
  txLen := 0
  txSeq := 0
  retransmitTick := 0
  retransmitCount := 0

/-- mirrors src/net/tcp.cpp:249-251 (`next_ephemeral_port` is not touched). -/
def TcpSys.init (s : TcpSys) : TcpSys :=
  { s with conns := fun _ => zeroConn, ghost := fun _ => ⟨.stale, [], [], []⟩ }

/-- `TCP::open`. mirrors src/net/tcp.cpp:253-264 -/
def openConn (s : TcpSys) : TcpSys × Option Slot :=
  match firstFree s.conns with
  | some i =>
    ((s.update i fun _ => { zeroConn with active := true, localIp := s.localIp }).mark i
      fun _ => ⟨.opened, [], [], []⟩, some i)
  | none => (s, none)

/-- mirrors src/net/tcp.cpp:266-281 -/
def close (s : TcpSys) (id : Slot) (run : IpRun) : TcpSys :=
  if (s.conns id).active = false then s
  else if (s.conns id).state = .established then
    (sendTcpSegment s id (tcpFin ||| tcpAck) [] run).1.update id fun c =>
      { c with state := .finWait1 }
  else if (s.conns id).state = .closeWait then
    (sendTcpSegment s id (tcpFin ||| tcpAck) [] run).1.update id fun c => { c with state := .lastAck }
  else s.update id fun c => { c with active := false, state := .closed }

/-- mirrors src/net/tcp.cpp:283-287 -/
def bind (s : TcpSys) (id : Slot) (port : UInt16) : TcpSys :=
  (s.update id fun c => { c with localPort := port }).mark id fun g =>
    { g with phase := if g.phase = .opened then .opened else .stale }

/-- mirrors src/net/tcp.cpp:312-317 -/
def listen (s : TcpSys) (id : Slot) (port : UInt16) : TcpSys :=
  (s.update id fun c => { c with localPort := port, state := .listen }).mark id fun g =>
    { g with phase := .stale }

/-- `connect` before its first segment. mirrors src/net/tcp.cpp:293-300 -/
def connectInit (s : TcpSys) (id : Slot) (addr : UInt32) (port : UInt16) : TcpSys :=
  let fresh := (s.conns id).localPort = 0
  let s' := s.update id fun c =>
    { c with remoteIp := addr, remotePort := port,
             localPort := if c.localPort = 0 then s.nextEphemeralPort else c.localPort,
             sndNxt := isn, sndUna := isn, rcvNxt := 0, state := .synSent }
  let s' := { s' with
    nextEphemeralPort := if fresh then s.nextEphemeralPort + 1 else s.nextEphemeralPort }
  s'.mark id fun g => { g with phase := if g.phase = .opened then .connected else .stale }

/-- `connect` up to its wait for the answer. mirrors src/net/tcp.cpp:293-302 -/
def connectStart (s : TcpSys) (id : Slot) (addr : UInt32) (port : UInt16) (run : IpRun) : TcpSys :=
  (sendTcpSegment (connectInit s id addr port) id tcpSyn [] run).1

/-- The wait of `connect`, one entry for each of its polls.
mirrors src/net/tcp.cpp:304-310 -/
def connectWait (s : TcpSys) (id : Slot) : List Polled → TcpSys × Int
  | [] => (s, -1)
  | p :: ps =>
    let s := pollSegs s p
    if (s.conns id).state = .established then (s, 0)
    else if (s.conns id).state = .closed then (s, -1)
    else connectWait s id ps

/-- mirrors src/net/tcp.cpp:289-310 -/
def connect (s : TcpSys) (id : Slot) (addr : UInt32) (port : UInt16) (run : IpRun)
    (polls : List Polled) : TcpSys × Int :=
  connectWait (connectStart s id addr port run) id polls

/-- The condition under which `check_retransmit` resends or gives up. -/
def due (conn : TcpConnection) (now : UInt64) : Bool :=
  conn.active && decide (conn.state = .established) && conn.txLen != 0 &&
    decide (conn.sndUna < conn.txSeq + conn.txLen) && decide (conn.retransmitTick ≤ now)

/-- How much of `tx_buf` is acknowledged. mirrors src/net/tcp.cpp:98-99 -/
def ackedLen (conn : TcpConnection) : UInt32 :=
  if conn.sndUna > conn.txSeq then conn.sndUna - conn.txSeq else 0

/-- Resend the rest of `tx_buf`, with `snd_nxt` rewound meanwhile.
mirrors src/net/tcp.cpp:98-106 -/
def resend (s : TcpSys) (id : Slot) (run : IpRun) : TcpSys :=
  let conn := s.conns id
  let acked := ackedLen conn
  let remaining := conn.txLen - acked
  if remaining > 0 ∧ remaining.toNat ≤ tcpBufSize then
    let data := (List.range remaining.toNat).map fun i => conn.txBuf (acked.toNat + i)
    let s := s.update id fun c => { c with sndNxt := c.sndUna }
    let s := (sendTcpSegment s id (tcpAck ||| tcpPsh) data run).1
    s.update id fun c => { c with sndNxt := conn.sndNxt }
  else s

/-- mirrors src/net/tcp.cpp:107-108 -/
def backoff (now : UInt64) (conn : TcpConnection) : TcpConnection :=
  let count := conn.retransmitCount + 1
  { conn with retransmitCount := count,
              retransmitTick := now + retransmitTicks * ((1 : UInt64) <<< count.toUInt64) }

/-- The body of the loop of `check_retransmit`. mirrors src/net/tcp.cpp:81-109 -/
def retransmitOne (s : TcpSys) (id : Slot) (now : UInt64) (run : IpRun) : TcpSys :=
  let conn := s.conns id
  if conn.active = false ∨ conn.state ≠ .established then s
  else if conn.txLen = 0 then s
  else if conn.sndUna ≥ conn.txSeq + conn.txLen then s.update id fun c => { c with txLen := 0 }
  else if now ≥ conn.retransmitTick then
    if conn.retransmitCount ≥ maxRetransmits then
      s.update id fun c => { c with state := .closed, active := false }
    else (resend s id run).update id (backoff now)
  else s

/-- mirrors src/net/tcp.cpp:78-110 -/
def checkRetransmit (s : TcpSys) (now : UInt64) (runs : Slot → IpRun) : TcpSys :=
  (List.finRange 16).foldl (fun s i => retransmitOne s i now (runs i)) s

/-- The send of one chunk by `TCP::send`. -/
def sendChunk (s : TcpSys) (id : Slot) (chunk : List UInt8) (run : IpRun) : TcpSys × Bool :=
  let r := sendTcpSegment s id (tcpAck ||| tcpPsh) chunk run
  (if r.2 then r.1.mark id fun g => { g with accepted := g.accepted ++ chunk } else r.1, r.2)

/-- One round of the loop behind a chunk: what is polled, the ticks and the
sends of `check_retransmit`. -/
structure Round where
  polled : Polled
  now : UInt64
  runs : Slot → IpRun

def rounds (s : TcpSys) (rs : List Round) : TcpSys :=
  rs.foldl (fun s r => checkRetransmit (pollSegs s r.polled) r.now r.runs) s

/-- The chunk loop of `TCP::send`; for each chunk the run of its send and the
rounds behind it. mirrors src/net/tcp.cpp:358-373 -/
def sendLoop (id : Slot) (data : List UInt8) :
    TcpSys → Nat → List (IpRun × List Round) → TcpSys × Int
  | s, sent, [] => (s, sent)
  | s, sent, (run, rs) :: env =>
    if sent < data.length then
      let chunk := (data.drop sent).take mss
      let r := sendChunk s id chunk run
      if r.2 then sendLoop id data (rounds r.1 rs) (sent + chunk.length) env
      else (r.1, sent)
    else (s, sent)

/-- `TCP::send`. mirrors src/net/tcp.cpp:348-374 -/
def send (s : TcpSys) (id : Slot) (data : List UInt8) (env : List (IpRun × List Round)) :
    TcpSys × Int :=
  if (s.conns id).state ≠ .established then (s, -1) else sendLoop id data s 0 env

/-- The copy out of the ring. mirrors src/net/tcp.cpp:391-398 -/
def recvDrain (s : TcpSys) (id : Slot) (len : Nat) : TcpSys × List UInt8 :=
  let r := (s.conns id).rx.drain len
  ((s.update id fun c => { c with rx := r.2 }).mark id fun g =>
    { g with returned := g.returned ++ r.1 }, r.1)

/-- The wait of `recv`, and whether it goes on to copy.
mirrors src/net/tcp.cpp:381-389 -/
def recvWait (id : Slot) : TcpSys → List Round → TcpSys × Bool
  | s, [] => (s, true)
  | s, r :: rs =>
    if (s.conns id).rx.count = 0 then
      let s := checkRetransmit (pollSegs s r.polled) r.now r.runs
      if (s.conns id).state ≠ .established ∧ (s.conns id).state ≠ .closeWait then
        (s, (s.conns id).rx.count != 0)
      else recvWait id s rs
    else (s, true)

/-- `TCP::recv`. mirrors src/net/tcp.cpp:376-399 -/
def recv (s : TcpSys) (id : Slot) (len : Nat) (rs : List Round) : TcpSys × List UInt8 :=
  let w := recvWait id s rs
  if w.2 then recvDrain w.1 id len else (w.1, [])

end HackersOs.L3.Tcp

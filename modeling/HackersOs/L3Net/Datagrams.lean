import HackersOs.Core.LTS
import HackersOs.Core.Messages
import HackersOs.L3Net.Sockets

/-!
# Datagrams of a UDP socket

`socket_udp_input` puts the bytes of all datagrams of a socket into one ring and
keeps one source address, the last one; `recvfrom` takes bytes from the front,
as many as there are or fit.

For one socket, `UdpRun` notes the datagrams delivered to it and for each byte in
the ring which datagram it is from and where it stood there. A `recvfrom` that
returns data should return the start of one datagram with its source.

Result: `datagram_iff`, when it does.
-/
namespace HackersOs.L3.Socket
open HackersOs.Core Tcp Net List

/-! ## The system -/

structure UdpRun where
  net : Sockets
  /-- ghost: the datagrams delivered to the socket, oldest first -/
  delivered : List Datagram
  /-- ghost: datagram and offset of the bytes in the ring -/
  unread : List Tag

section
variable (i : Fin 64)

def udpTargetOf (s : Sockets) (port : UInt16) : Option (Fin 64 × UdpBuffer) :=
  udpTarget (fun j => (s.entries j).toSocketEntry) port

def UdpRun.packet (w : UdpRun) (d : Datagram) : UdpRun :=
  let w' := { w with net := socketUdpInput w.net d }
  match udpTargetOf w.net d.dstPort with
  | none => w'
  | some (j, b) =>
    if j = i then
      { w' with
        delivered := w.delivered ++ [d]
        unread := w.unread ++ message w.delivered.length (b.ring.room d.data.length) }
    else w'

def UdpRun.poll (w : UdpRun) (p : UdpPoll) : UdpRun :=
  p.packets.foldl (UdpRun.packet i) { w with net := { w.net with tcp := pollSegs w.net.tcp p.segs } }

/-- The wait of `recvfrom`. -/
def UdpRun.wait : UdpRun → List UdpPoll → UdpRun
  | w, [] => w
  | w, p :: ps =>
    match (w.net.entries i).udpBuf with
    | none => w
    | some b => if b.ring.count = 0 then (w.poll i p).wait ps else w

/-- The bytes a call returns. -/
def returned : Except Int (List UInt8) → List UInt8
  | .ok data => data
  | .error _ => []

inductive UdpCall where
  | packet (d : Datagram)
  /-- with the size of the address buffer, none for a null pointer -/
  | recvfrom (len : Nat) (addrlen : Option Nat) (env : RecvEnv)

def UdpRun.exec (w : UdpRun) : UdpCall → UdpRun
  | .packet d => w.packet i d
  | .recvfrom len _ env =>
    let r := Socket.recvfrom w.net (fdOf i) len env
    ⟨r.1, (w.wait i env.udp).delivered, (w.wait i env.udp).unread.drop (returned r.2).length⟩

/-- A UDP socket as `create` leaves it, then datagrams and `recvfrom` calls. -/
def udpLTS : LTS UdpRun UdpCall where
  init w := (w.net.entries i).active = true ∧ (w.net.entries i).type = .udp ∧
    (∃ b, (w.net.entries i).udpBuf = some b ∧ b.ring.count = 0) ∧ w.delivered = [] ∧ w.unread = []
  step w c w' := w' = w.exec i c

/-! ## What is kept -/

def byteAt (delivered : List Datagram) (t : Tag) : UInt8 :=
  match delivered[t.1]? with
  | some d => d.data.getD t.2 0
  | none => 0

structure UdpInv (w : UdpRun) (b : UdpBuffer) : Prop where
  active : (w.net.entries i).active = true
  type : (w.net.entries i).type = .udp
  buf : (w.net.entries i).udpBuf = some b
  bytes : b.ring.toList = w.unread.map (byteAt w.delivered)
  known : ∀ t ∈ w.unread, ∃ d, w.delivered[t.1]? = some d ∧ t.2 < d.data.length
  chain : w.unread.IsChain Follows
  source : ∀ d, w.delivered.getLast? = some d → b.lastSrcIp = d.srcIp ∧ b.lastSrcPort = d.srcPort

end

section
variable {i : Fin 64} {w : UdpRun} {b : UdpBuffer}

theorem udpTarget_some {sockets : Fin 64 → Net.SocketEntry} {port : UInt16} {j : Fin 64}
    (h : udpTarget sockets port = some (j, b)) : (sockets j).udpBuf = some b := by
  obtain ⟨k, -, hk⟩ := exists_of_findSome?_eq_some h
  split at hk
  · obtain ⟨b', hb', he⟩ := Option.map_eq_some_iff.mp hk
    cases he
    exact hb'
  · cases hk

/-- What a packet does to the entry of the socket. -/
theorem packet_entry (s : Sockets) (d : Datagram) (i : Fin 64) : (socketUdpInput s d).entries i =
      match udpTargetOf s d.dstPort with
      | none => s.entries i
      | some (j, b) =>
        if j = i then { s.entries i with
          udpBuf := some ⟨b.ring.fill (fun k => d.data.getD k 0) d.data.length, d.srcIp, d.srcPort⟩ }
        else s.entries i := by
  unfold socketUdpInput udpTargetOf
  cases udpTarget (fun j => (s.entries j).toSocketEntry) d.dstPort with
  | none => rfl
  | some r =>
    obtain ⟨j, b⟩ := r
    by_cases hj : j = i
    · subst hj
      simp
    · simp [Sockets.set, hj, Ne.symm hj]

theorem byteAt_append {ds es : List Datagram} {t : Tag} (h : ∃ d, ds[t.1]? = some d) :
    byteAt (ds ++ es) t = byteAt ds t := by
  obtain ⟨d, hd⟩ := h
  unfold byteAt
  rw [List.getElem?_append_left (List.getElem?_eq_some_iff.mp hd).1]

theorem UdpInv.packet (h : UdpInv i w b) (d : Datagram) : ∃ b', UdpInv i (w.packet i d) b' := by
  have hentry := packet_entry w.net d i
  unfold UdpRun.packet
  cases ht : udpTargetOf w.net d.dstPort with
  | none =>
    rw [ht] at hentry
    exact ⟨b, { h with
      active := hentry ▸ h.active
      type := hentry ▸ h.type
      buf := hentry ▸ h.buf }⟩
  | some r =>
    obtain ⟨j, c⟩ := r
    rw [ht] at hentry
    dsimp only at hentry ⊢
    by_cases hj : j = i
    · subst hj
      obtain rfl : b = c := Option.some.inj (h.buf.symm.trans (udpTarget_some ht))
      rw [if_pos rfl] at hentry ⊢
      refine ⟨_, ⟨?_, ?_, by rw [hentry], ?_, fun t ht => ?_, ?_, fun e he => ?_⟩⟩
      · rw [hentry]
        exact h.active
      · rw [hentry]
        exact h.type
      · rw [Ring.toList_fill, h.bytes, map_append]
        congr 1
        · exact map_congr_left fun t ht => (byteAt_append ((h.known t ht).imp fun _ h => h.1)).symm
        · rw [message, map_map]
          refine map_congr_left fun o _ => ?_
          simp [byteAt]
      · rcases mem_append.mp ht with ht | ht
        · obtain ⟨e, he, ho⟩ := h.known t ht
          refine ⟨e, ?_, ho⟩
          rw [List.getElem?_append_left (List.getElem?_eq_some_iff.mp he).1]
          exact he
        · obtain ⟨o, ho, rfl⟩ := mem_map.mp ht
          have hroom := (b.ring.room_le d.data.length).1
          have := mem_range.mp ho
          refine ⟨d, by simp, ?_⟩
          omega
      · refine IsChain.append_message h.chain (fun t ht => ?_) _
        obtain ⟨e, he, -⟩ := h.known t ht
        exact (List.getElem?_eq_some_iff.mp he).1
      · rw [List.getLast?_concat] at he
        cases he
        exact ⟨rfl, rfl⟩
    · rw [if_neg hj] at hentry ⊢
      exact ⟨b, { h with
        active := hentry ▸ h.active
        type := hentry ▸ h.type
        buf := hentry ▸ h.buf }⟩

/-! ## The wait of `recvfrom` -/

theorem UdpInv.packets (h : UdpInv i w b) (ds : List Datagram) :
    ∃ b', UdpInv i (ds.foldl (UdpRun.packet i) w) b' := by
  induction ds generalizing w b with
  | nil => exact ⟨b, h⟩
  | cons d ds ih =>
    obtain ⟨b', h'⟩ := h.packet d
    exact ih h'

theorem UdpInv.wait (h : UdpInv i w b) (ps : List UdpPoll) : ∃ b', UdpInv i (w.wait i ps) b' := by
  induction ps generalizing w b with
  | nil => exact ⟨b, h⟩
  | cons p ps ih =>
    rw [UdpRun.wait, h.buf]
    dsimp only
    split
    · have h0 : UdpInv i { w with net := { w.net with tcp := pollSegs w.net.tcp p.segs } } b :=
        { h with }
      obtain ⟨b', h'⟩ := h0.packets p.packets
      exact ih h'
    · exact ⟨b, h⟩

theorem packet_net (w : UdpRun) (d : Datagram) : (w.packet i d).net = socketUdpInput w.net d := by
  unfold UdpRun.packet
  split
  · rfl
  · split <;> rfl

theorem packets_net (w : UdpRun) (ds : List Datagram) :
    (ds.foldl (UdpRun.packet i) w).net = ds.foldl socketUdpInput w.net := by
  induction ds generalizing w with
  | nil => rfl
  | cons d ds ih => rw [foldl_cons, foldl_cons, ih, packet_net]

theorem wait_net (w : UdpRun) (ps : List UdpPoll) : (w.wait i ps).net = udpWait i w.net ps := by
  induction ps generalizing w with
  | nil => rfl
  | cons p ps ih =>
    rw [UdpRun.wait, udpWait]
    cases (w.net.entries i).udpBuf with
    | none => rfl
    | some b =>
      dsimp only
      split
      · rw [ih]
        congr 1
        exact packets_net _ _
      · rfl

/-! ## `recvfrom` -/

/-- The call returns the front of the ring as the wait leaves it. -/
theorem recvfrom_ring (h : UdpInv i w b) (len : Nat) (env : RecvEnv) {c : UdpBuffer}
    (hc : UdpInv i (w.wait i env.udp) c) :
    returned (recvfrom w.net (fdOf i) len env).2 = c.ring.toList.take len ∧
    ∃ r, (recvfrom w.net (fdOf i) len env).1.entries i =
        { (w.wait i env.udp).net.entries i with udpBuf := some { c with ring := r } } ∧
      r.toList = c.ring.toList.drop len := by
  have hw := wait_net (i := i) w env.udp
  have hbuf := hc.buf
  rw [hw] at hbuf ⊢
  unfold recvfrom
  rw [fdToIdx_eq_some.mpr ⟨rfl, h.active⟩]
  simp only [h.type, h.buf, hbuf, Option.map_some, Option.some.injEq]
  split
  · rename_i hz
    have hnil : c.ring.toList = [] := eq_nil_of_length_eq_zero (by rw [Ring.length_toList, hz])
    rw [hnil, take_nil, drop_nil]
    refine ⟨rfl, c.ring, ?_, hnil⟩
    rw [← hbuf]
  · simp only [udpRead, hbuf, set_self, returned]
    exact ⟨Ring.drain_eq_take .., _, rfl, Ring.toList_drain_eq_drop ..⟩

theorem UdpInv.recvfrom (h : UdpInv i w b) (len : Nat) (addrlen : Option Nat) (env : RecvEnv) :
    ∃ b', UdpInv i (w.exec i (.recvfrom len addrlen env)) b' := by
  obtain ⟨c, hc⟩ := h.wait env.udp
  obtain ⟨hret, r, he, hr⟩ := recvfrom_ring h len env hc
  have hlen : (returned (Socket.recvfrom w.net (fdOf i) len env).2).length =
      min len (w.wait i env.udp).unread.length := by
    rw [hret, hc.bytes, length_take, length_map]
  unfold UdpRun.exec
  dsimp only
  rw [hlen]
  refine ⟨{ c with ring := r }, ⟨?_, ?_, ?_, ?_, fun t ht => ?_, ?_, hc.source⟩⟩
  · rw [he]
    exact hc.active
  · rw [he]
    exact hc.type
  · rw [he]
  · rw [hr, hc.bytes, ← map_drop]
    congr 1
    rcases Nat.le_total len (w.wait i env.udp).unread.length with hle | hle
    · rw [Nat.min_eq_left hle]
    · rw [Nat.min_eq_right hle, drop_of_length_le hle, drop_length]
  · exact hc.known t (mem_of_mem_drop ht)
  · exact hc.chain.drop _

theorem udpInv_reachable (hr : (udpLTS i).Reachable w) : ∃ b, UdpInv i w b := by
  have hI : (udpLTS i).Inductive fun w => ∃ b, UdpInv i w b := by
    constructor
    · rintro w ⟨hact, htype, ⟨b, hb, hz⟩, hd, hu⟩
      have hnil : b.ring.toList = [] := eq_nil_of_length_eq_zero (by rw [Ring.length_toList, hz])
      refine ⟨b, hact, htype, hb, ?_, ?_, ?_, ?_⟩ <;> simp [hd, hu, hnil]
    · rintro w c w' ⟨b, h⟩ rfl
      cases c with
      | packet d => exact h.packet d
      | recvfrom len addrlen env => exact h.recvfrom len addrlen env
  exact hI.reachable w hr

/-! ## Whole datagrams -/

/-- The caller gets the source address. -/
def Asks (addrlen : Option Nat) : Prop := ∃ n, addrlen = some n ∧ sockaddrInSize ≤ n

section
variable (i : Fin 64) (w : UdpRun) (len : Nat) (addrlen : Option Nat) (env : RecvEnv)

/-- If the call returns data, it is the start of one delivered datagram, and the
address is that datagram's. -/
def OneDatagram : Prop :=
  let r := Socket.recvfrom w.net (fdOf i) len env
  let k := (returned r.2).length
  0 < k → ∃ n d, (w.wait i env.udp).delivered[n]? = some d ∧
    (w.wait i env.udp).unread.take k = message n k ∧ returned r.2 = d.data.take k ∧
    (Asks addrlen → recvSource r.1 i addrlen = some ⟨d.srcPort, d.srcIp⟩)

/-- At the copy, the ring starts with the first byte of a datagram, has nothing
behind it or the buffer of the caller ends before, and no other sender's
datagram came after it. -/
def OneAtHead : Prop :=
  let w := w.wait i env.udp
  ∃ n d e, w.delivered[n]? = some d ∧ w.delivered.getLast? = some e ∧ w.unread.head? = some (n, 0) ∧
    (len ≤ w.unread.countP (·.1 = n) ∨ ∀ t ∈ w.unread, t.1 = n) ∧
    (Asks addrlen → e.srcIp = d.srcIp ∧ e.srcPort = d.srcPort)

end

theorem recvSource_eq {s : Sockets} (hb : (s.entries i).udpBuf = some b) {addrlen : Option Nat}
    (h : Asks addrlen) : recvSource s i addrlen = some ⟨b.lastSrcPort, b.lastSrcIp⟩ := by
  obtain ⟨n, rfl, hn⟩ := h
  simp only [recvSource, hb]
  exact if_pos hn

theorem min_le_countP_iff {l : List Tag} {n len : Nat} :
    min len l.length ≤ l.countP (·.1 = n) ↔ len ≤ l.countP (·.1 = n) ∨ ∀ t ∈ l, t.1 = n := by
  have hall : (∀ t ∈ l, t.1 = n) ↔ l.countP (·.1 = n) = l.length := by
    rw [countP_eq_length]
    simp
  have hle : l.countP (·.1 = n) ≤ l.length := countP_le_length
  rw [hall]
  omega

/-- The bytes at the front are the start of the datagram they are tagged with. -/
theorem UdpInv.take_bytes (h : UdpInv i w b) {n k : Nat} {d : Datagram}
    (hd : w.delivered[n]? = some d) (ht : w.unread.take k = message n k) :
    b.ring.toList.take k = d.data.take k := by
  have hk : k ≤ d.data.length := by
    by_contra hlt
    have hmem : (n, d.data.length) ∈ w.unread := by
      apply mem_of_mem_take (i := k)
      rw [ht]
      exact mem_map.mpr ⟨_, mem_range.mpr (by omega), rfl⟩
    obtain ⟨e, he, ho⟩ := h.known _ hmem
    obtain rfl : d = e := Option.some.inj (hd.symm.trans he)
    exact Nat.lt_irrefl _ ho
  rw [h.bytes, ← map_take, ht, message, map_map]
  apply ext_getElem
  · simp [hk]
  · intro j hj hj'
    simp only [length_map, length_range] at hj
    have hlt : j < d.data.length := by omega
    simp [byteAt, hd, hlt]

/-- A call that returns data returns one datagram exactly if one is at the head
of the ring, alone as far as the call reads, and the last one that came has the
same source. -/
theorem datagram_iff (hr : (udpLTS i).Reachable w) (len : Nat) (addrlen : Option Nat)
    (env : RecvEnv) :
    OneDatagram i w len addrlen env ↔
      (0 < len → (w.wait i env.udp).unread ≠ [] → OneAtHead i w len addrlen env) := by
  obtain ⟨b, h⟩ := udpInv_reachable hr
  obtain ⟨c, hc⟩ := h.wait env.udp
  obtain ⟨hret, r, he, -⟩ := recvfrom_ring h len env hc
  have hbuf : ((recvfrom w.net (fdOf i) len env).1.entries i).udpBuf = some { c with ring := r } := by
    rw [he]
  have hk : (returned (recvfrom w.net (fdOf i) len env).2).length =
      min len (w.wait i env.udp).unread.length := by
    rw [hret, hc.bytes, length_take, length_map]
  unfold OneDatagram OneAtHead
  dsimp only
  rw [hk]
  constructor
  · intro hone hlen hne
    have hpos := length_pos_of_ne_nil hne
    obtain ⟨n, d, hd, ht, -, hsrc⟩ := hone (by omega)
    obtain ⟨hhead, hcount⟩ := (take_eq_message_iff hc.chain (by omega) (by omega)).mp ht
    obtain ⟨e, hlast⟩ : ∃ e, (w.wait i env.udp).delivered.getLast? = some e :=
      ⟨_, List.getLast?_eq_some_getLast (ne_nil_of_mem (mem_of_getElem? hd))⟩
    refine ⟨n, d, e, hd, hlast, hhead, min_le_countP_iff.mp hcount, fun ha => ?_⟩
    have hs := hsrc ha
    rw [recvSource_eq hbuf ha] at hs
    obtain ⟨hip, hport⟩ := hc.source e hlast
    injection hs with hs
    injection hs with hp hi
    exact ⟨hip.symm.trans hi, hport.symm.trans hp⟩
  · intro hcond hpos
    obtain ⟨n, d, e, hd, hlast, hhead, hcount, hsrc⟩ :=
      hcond (by omega) (ne_nil_of_length_pos (by omega))
    have ht := (take_eq_message_iff hc.chain hpos (by omega)).mpr ⟨hhead,
      min_le_countP_iff.mpr hcount⟩
    refine ⟨n, d, hd, ht, ?_, fun ha => ?_⟩
    · rw [hret, ← hc.take_bytes hd ht, ← length_map (byteAt (w.wait i env.udp).delivered),
        ← hc.bytes, ← take_eq_take_min]
    · obtain ⟨hip, hport⟩ := hc.source e hlast
      obtain ⟨hi, hp⟩ := hsrc ha
      rw [recvSource_eq hbuf ha]
      rw [hip, hport, hi, hp]

end

/-! ### Two senders -/

/-- Port 7, fd 100, nothing delivered yet. -/
def udpBoot : UdpRun :=
  ⟨(bind (create bootSockets afInet sockDgram).1 100 ⟨7, 0⟩ sockaddrInSize).1, [], []⟩

theorem udpBoot_reachable : (udpLTS 0).Reachable udpBoot :=
  ⟨udpBoot, [], ⟨rfl, rfl, ⟨_, rfl, rfl⟩, rfl, rfl⟩, .nil _⟩

def fromTen : Datagram := ⟨0x0A000203, 1000, 7, [1, 2]⟩
def fromEleven : Datagram := ⟨0x0B000203, 2000, 7, [3]⟩

theorem fromTen_reachable : (udpLTS 0).Reachable (udpBoot.packet 0 fromTen) :=
  udpBoot_reachable.step (l := .packet fromTen) rfl

/-- A datagram that comes alone is returned as it is. -/
theorem datagram_alone : OneDatagram 0 (udpBoot.packet 0 fromTen) 10 (some sockaddrInSize)
    ⟨[], []⟩ := by
  rw [datagram_iff fromTen_reachable]
  intro _ _
  refine ⟨0, fromTen, fromTen, rfl, rfl, rfl, .inr ?_, fun _ => ⟨rfl, rfl⟩⟩
  decide +kernel

def twoSenders : UdpRun := (udpBoot.packet 0 fromTen).packet 0 fromEleven

/-- With a datagram of a second sender behind it, both come as one, under the
second sender's address. -/
theorem recvfrom_mixes_senders : (udpLTS 0).Reachable twoSenders ∧
    returned (recvfrom twoSenders.net 100 10 ⟨[], []⟩).2 = [1, 2, 3] ∧
    recvSource (recvfrom twoSenders.net 100 10 ⟨[], []⟩).1 0 (some sockaddrInSize) =
      some ⟨2000, 0x0B000203⟩ ∧ ¬ OneDatagram 0 twoSenders 10 (some sockaddrInSize) ⟨[], []⟩ := by
  have hret : returned (recvfrom twoSenders.net 100 10 ⟨[], []⟩).2 = [1, 2, 3] := by decide +kernel
  refine ⟨fromTen_reachable.step (l := .packet fromEleven) rfl, hret, rfl, fun hone => ?_⟩
  change returned (recvfrom twoSenders.net (fdOf 0) 10 ⟨[], []⟩).2 = [1, 2, 3] at hret
  have hun : (twoSenders.wait 0 []).unread = [(0, 0), (0, 1), (1, 0)] := by decide +kernel
  unfold OneDatagram at hone
  dsimp only at hone
  rw [hret] at hone
  obtain ⟨n, d, -, ht, -⟩ := hone (by decide)
  rw [hun] at ht
  -- the third byte would be at offset 2 of a datagram
  simp [message, range_succ] at ht

end HackersOs.L3.Socket

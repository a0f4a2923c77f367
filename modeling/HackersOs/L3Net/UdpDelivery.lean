import HackersOs.L3Net.Datagrams
import HackersOs.L3Net.Wire

/-!
# A datagram between two machines

From `sendto` over the wire and the input path, which sees bytes, to the sockets, which see
fields (`handle_datagram`), and `recvfrom`. `udp_end_to_end`: what `sendto` reports as sent
is received behind what the socket had, with the address of the sender.
-/
namespace HackersOs.L3.Net
open HackersOs.Core Tcp Socket

/-- The sockets as the input path sees them. -/
def view (v : Sockets) : Fin 64 → Net.SocketEntry := fun j => (v.entries j).toSocketEntry

section
variable {st : NetState} {v : Sockets} {f : Frame} {frame : List UInt8} {d : Datagram} {j : Fin 64}
  {b : UdpBuffer}

/-- A frame that reaches `socket_udp_input` is its datagram. -/
theorem handle_datagram (hv : st.sockets = view v) (hlen : d.data.length ≤ maxPacket)
    (h : ReachesUdp st f frame.length d.srcIp d.srcPort d.dstPort d.data) :
    (netHandlePacket st f (.ofNat frame.length)).value.state.sockets =
      view (Socket.socketUdpInput v d) := by
  obtain ⟨off, hdata, heq⟩ := h
  have hfill (r : Ring UInt8 udpBufSize) : r.fill (fun k => f (off + k)) d.data.length =
      r.fill (fun k => d.data.getD k 0) d.data.length :=
    r.fill_congr fun k hk => by
      rw [hdata k hk, List.getD_eq_getElem?_getD, List.getElem?_eq_getElem hk]
      rfl
  funext k
  have hentry := packet_entry v d k
  unfold view
  rw [hentry, heq, NetState.drop, Net.socketUdpInput, hv]
  cases htarget : udpTargetOf v d.dstPort with
  | none =>
    rw [show udpTarget (view v) d.dstPort = none from htarget]
    rfl
  | some r =>
    rw [show udpTarget (view v) d.dstPort = some r from htarget]
    simp only [Traced.value_bind, Traced.value_pure, copyRing, toNat_ofNat32 hlen, hfill]
    by_cases hk : r.1 = k
    · rw [if_pos hk, if_pos hk.symm]
      rfl
    · rw [if_neg hk, if_neg (Ne.symm hk)]
      rfl

theorem udpTarget_matches {port : UInt16} (h : udpTargetOf v port = some (j, b)) :
    (v.entries j).active = true ∧ (v.entries j).type = .udp := by
  obtain ⟨k, -, hk⟩ := List.exists_of_findSome?_eq_some h
  split at hk
  · rename_i hm
    simp only [Bool.and_eq_true, decide_eq_true_eq] at hm
    obtain ⟨b', -, he⟩ := Option.map_eq_some_iff.mp hk
    cases he
    exact hm.1
  · cases hk

theorem toList_fill_all (hfit : b.ring.count + d.data.length ≤ udpBufSize) :
    (b.ring.fill (fun k => d.data.getD k 0) d.data.length).toList = b.ring.toList ++ d.data := by
  have hroom : b.ring.room d.data.length = d.data.length := by
    unfold Ring.room
    split <;> omega
  rw [Ring.toList_fill, hroom]
  congr 1
  refine List.ext_getElem (by simp) fun k h1 h2 => ?_
  simp [List.getElem?_eq_getElem h2]

/-- `recvfrom` has the bytes of the ring, and does not wait if there are some. -/
theorem recvfrom_bytes (hact : (v.entries j).active = true) (htype : (v.entries j).type = .udp)
    (hb : (v.entries j).udpBuf = some b) (hne : b.ring.toList ≠ []) (len : Nat) (env : RecvEnv) :
    (recvfrom v (fdOf j) len env).2 = .ok (b.ring.toList.take len) ∧
      recvSource (recvfrom v (fdOf j) len env).1 j (some sockaddrInSize) =
        some ⟨b.lastSrcPort, b.lastSrcIp⟩ := by
  have hcount : b.ring.count ≠ 0 :=
    fun h0 => hne (List.eq_nil_of_length_eq_zero (by rw [Ring.length_toList, h0]))
  have hwait : udpWait j v env.udp = v := by
    cases env.udp with
    | nil => rfl
    | cons p ps =>
      rw [udpWait, hb]
      exact if_neg hcount
  unfold recvfrom
  rw [fdToIdx_eq_some.mpr ⟨rfl, hact⟩]
  simp only [htype, hb, hwait, Option.map_some, Option.some.injEq, if_neg hcount, udpRead]
  refine ⟨congrArg _ (Ring.drain_eq_take ..), ?_⟩
  simp only [recvSource, set_self]
  exact if_pos (Nat.le_refl _)

end

/-- If `sendto` reports the bytes as sent and the frame arrives at a machine with a socket for the
port that has room for them, `recvfrom` on that socket returns them behind the bytes it had, as
many as are asked for, and the address of the sender. -/
theorem udp_end_to_end {s : Sockets} {fd : Int} {i : Fin 64} {buf : List UInt8}
    {dest : Option (SockAddr × Nat)}
    {env : List (IpRun × List Round)} {l : Link} {polled : Polled} {tick : UInt64}
    (hfd : fdToIdx s fd = some i) (htype : (s.entries i).type = .udp)
    (hsent : 0 ≤ (sendto s fd buf dest ⟨env, l.run polled tick⟩).2)
    (hne : buf ≠ []) {st : NetState} {v : Sockets} (hv : st.sockets = view v) {j : Fin 64}
    {b : UdpBuffer} (hsocket : udpTargetOf v (udpDest (s.entries i) dest).port = some (j, b))
    (hfit : b.ring.count + buf.length ≤ udpBufSize) :
    ∃ frame, udpFrame s i buf dest l = some frame ∧ ∀ f, Holds f 0 frame → ∃ v',
      (netHandlePacket st f (.ofNat frame.length)).value.state.sockets = view v' ∧ ∀ len env,
        (recvfrom v' (fdOf j) len env).2 = .ok ((b.ring.toList ++ buf).take len) ∧
        recvSource (recvfrom v' (fdOf j) len env).1 j (some sockaddrInSize) =
          some ⟨((autoPort s i).entries i).localPort, s.tcp.localIp⟩ := by
  obtain ⟨-, packet, rfl, hmax, hframe⟩ := sendto_frame hfd htype hsent
  rw [autoPort_tcp, autoPort_dest] at hframe
  rw [autoPort_dest] at hmax
  refine ⟨_, hframe, fun f hf => ?_⟩
  let d : Datagram := ⟨s.tcp.localIp, ((autoPort s i).entries i).localPort,
    (udpDest (s.entries i) dest).port, buf⟩
  have hlen : d.data.length ≤ maxPacket := by
    rw [udpPacket_length] at hmax
    simp only [maxPacket] at hmax ⊢
    show buf.length ≤ _
    omega
  have hentry := packet_entry v d j
  rw [show udpTargetOf v d.dstPort = _ from hsocket] at hentry
  dsimp only at hentry
  rw [if_pos rfl] at hentry
  obtain ⟨hact, hudp⟩ := udpTarget_matches hsocket
  refine ⟨_, handle_datagram (d := d) hv hlen (udp_reaches hf hmax), fun len env => ?_⟩
  rw [← toList_fill_all (d := d) hfit]
  exact recvfrom_bytes (by rw [hentry]; exact hact) (by rw [hentry]; exact hudp) (by rw [hentry])
    (by rw [toList_fill_all hfit]; exact List.append_ne_nil_of_right_ne_nil _ hne) len env

/-- A socket at port 53. -/
def server : Sockets := (bind (create bootSockets afInet sockDgram).1 100 ⟨53, 0⟩ sockaddrInSize).1

/-- Three bytes for port 53. -/
theorem udp_query_received : ∃ frame, udpFrame querySockets 0 [1, 2, 3] none lan = some frame ∧
    ∀ f, Holds f 0 frame → ∃ v', (netHandlePacket { bootNet with sockets := view server } f
        (.ofNat frame.length)).value.state.sockets = view v' ∧
      ∀ env, (recvfrom v' 100 8 env).2 = .ok [1, 2, 3] := by
  obtain ⟨frame, hframe, h⟩ :=
    @udp_end_to_end querySockets 100 0 [1, 2, 3] none [] lan .nil 0 (by decide +kernel)
    (by decide +kernel) (by decide +kernel) (by decide)
      { bootNet with sockets := view server } server rfl 0 _ rfl
    (by decide)
  refine ⟨frame, hframe, fun f hf => ?_⟩
  obtain ⟨v', hv, hrecv⟩ := h f hf
  exact ⟨v', hv, fun env => (hrecv 8 env).1⟩

end HackersOs.L3.Net

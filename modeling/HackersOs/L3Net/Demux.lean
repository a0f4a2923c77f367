import HackersOs.L3Net.SocketNames

/-!
# Which connection a segment belongs to

`tcp_input` looks for the first connection with the addresses of a segment. That
is the right one if no two connections have the same, which a passive open
respects and `bind` and `connect` do not check. The ports that `TCP::connect` and
`sendto` pick come from counters of 16 bits that go on through ports in use, and
past 65535 to 0.

Results: `demux_iff`, in which runs the connections stay apart and the picked
ports are free. `connects_collide`: two clients with the same ends, and a picked
port that another socket has bound.
-/
namespace HackersOs.L3.Socket
open HackersOs.Core Tcp Net

/-! ## Connections apart -/

/-- Active, and neither LISTEN nor CLOSED. -/
def Live (c : TcpConnection) : Prop := c.active = true ∧ HasPeer c

def SameEnds (c d : TcpConnection) : Prop :=
  c.remoteIp = d.remoteIp ∧ c.remotePort = d.remotePort ∧ c.localPort = d.localPort

def Unambiguous (s : TcpSys) : Prop :=
  ∀ c d, c ≠ d → Live (s.conns c) → Live (s.conns d) → ¬ SameEnds (s.conns c) (s.conns d)

/-- No other connection is live with these ends. -/
def EndsFree (s : TcpSys) (c : Slot) (ip : UInt32) (remote port : UInt16) : Prop :=
  ∀ d, d ≠ c → Live (s.conns d) →
    ¬ ((s.conns d).remoteIp = ip ∧ (s.conns d).remotePort = remote ∧ (s.conns d).localPort = port)

/-! ## Picked ports -/

/-- No TCP socket but `i` and no connection but `c` has the port. -/
def TcpPortFree (s : Sockets) (i : Fin 64) (c : Slot) (port : UInt16) : Prop :=
  port ≠ 0 ∧ (∀ d, d ≠ c → (s.tcp.conns d).active = true → (s.tcp.conns d).localPort ≠ port) ∧
  ∀ j, j ≠ i → (s.entries j).active = true → (s.entries j).type = .tcp →
    (s.entries j).localPort ≠ port

/-- No UDP socket but `i` has the port. -/
def UdpPortFree (s : Sockets) (i : Fin 64) (port : UInt16) : Prop :=
  port ≠ 0 ∧
  ∀ j, j ≠ i → (s.entries j).active = true → (s.entries j).type = .udp →
    (s.entries j).localPort ≠ port

/-- A port that the step from `s` to `s'` picked is free in `s'`. -/
def PicksFree (s s' : Sockets) : SockAct → Prop
  | .connect fd _ addrlen => ∀ i, fdToIdx s fd = some i → sockaddrInSize ≤ addrlen →
      ∀ c, Owns s.entries i c → (s.tcp.conns c).localPort = 0 →
      TcpPortFree s' i c (s'.tcp.conns c).localPort
  | .autoPort i => (s.entries i).localPort = 0 → UdpPortFree s' i (s'.entries i).localPort
  | _ => True

/-- The port of the connection after `connect`. -/
def portAfter (s : TcpSys) (c : Slot) : UInt16 :=
  if (s.conns c).localPort = 0 then s.nextEphemeralPort else (s.conns c).localPort

/-- What keeps connections apart and the picked ports free. -/
def KeepsApart (s : Sockets) : SockAct → Prop
  | .bind fd sa addrlen => ∀ i, fdToIdx s fd = some i → sockaddrInSize ≤ addrlen →
      ∀ c, Owns s.entries i c → Live (s.tcp.conns c) →
      EndsFree s.tcp c (s.tcp.conns c).remoteIp (s.tcp.conns c).remotePort sa.port
  | .connect fd sa addrlen => ∀ i, fdToIdx s fd = some i → sockaddrInSize ≤ addrlen →
      ∀ c, Owns s.entries i c →
      ((s.tcp.conns c).active = true → EndsFree s.tcp c sa.addr sa.port (portAfter s.tcp c)) ∧
      ((s.tcp.conns c).localPort = 0 → TcpPortFree s i c s.tcp.nextEphemeralPort)
  | .autoPort i => (s.entries i).localPort = 0 → UdpPortFree s i s.nextUdpPort
  | _ => True

instance (c : TcpConnection) : Decidable (Live c) := inferInstanceAs (Decidable (_ ∧ _ ∧ _))

instance (c d : TcpConnection) : Decidable (SameEnds c d) := inferInstanceAs (Decidable (_ ∧ _ ∧ _))

instance (s : TcpSys) (c : Slot) (ip : UInt32) (remote port : UInt16) :
    Decidable (EndsFree s c ip remote port) := inferInstanceAs (Decidable (∀ d, d ≠ c → _))

instance (s : Sockets) (i : Fin 64) (c : Slot) (port : UInt16) :
    Decidable (TcpPortFree s i c port) :=
  inferInstanceAs (Decidable (_ ∧ _ ∧ _))

instance (s : Sockets) (i : Fin 64) (port : UInt16) : Decidable (UdpPortFree s i port) :=
  inferInstanceAs (Decidable (_ ∧ _))

instance (s : Sockets) : (a : SockAct) → Decidable (KeepsApart s a)
  | .bind fd sa addrlen =>
    inferInstanceAs (Decidable (∀ i, fdToIdx s fd = some i → sockaddrInSize ≤ addrlen →
      ∀ c, Owns s.entries i c → Live (s.tcp.conns c) → EndsFree s.tcp c _ _ sa.port))
  | .connect fd sa addrlen =>
    inferInstanceAs (Decidable (∀ i, fdToIdx s fd = some i → sockaddrInSize ≤ addrlen →
      ∀ c, Owns s.entries i c → (_ → EndsFree s.tcp c sa.addr sa.port _) ∧
        (_ → TcpPortFree s i c _)))
  | .autoPort i => inferInstanceAs
      (Decidable ((s.entries i).localPort = 0 → UdpPortFree s i s.nextUdpPort))
  | .net _ | .create _ _ | .listen _ | .accept _ _ | .close _ _ | .packet _ | .udpRead _ _ =>
    .isTrue trivial

/-! ## Steps -/

section
variable {s t : TcpSys} {c : Slot}

theorem KeepsEnds.live {x y : TcpConnection} (h : KeepsEnds x y) (hy : Live y) : Live x :=
  ⟨h.active hy.1, h.peer hy.2⟩

/-- No connection comes into use or gets other ends. -/
theorem Unambiguous.keep (h : Unambiguous s) (hk : ∀ c, KeepsEnds (s.conns c) (t.conns c)) :
    Unambiguous t := by
  intro c d hcd hc hd hsame
  refine h c d hcd ((hk c).live hc) ((hk d).live hd) ?_
  unfold SameEnds at hsame
  rw [(hk c).remoteIp, (hk c).remotePort, (hk c).localPort, (hk d).remoteIp, (hk d).remotePort,
    (hk d).localPort] at hsame
  exact hsame

/-- One connection changes. -/
theorem unambiguous_iff (h : Unambiguous s) (ht : ∀ d, d ≠ c → t.conns d = s.conns d) :
    Unambiguous t ↔ (Live (t.conns c) →
      EndsFree s c (t.conns c).remoteIp (t.conns c).remotePort (t.conns c).localPort) := by
  constructor
  · intro hu hc d hd hlive
    rintro ⟨h1, h2, h3⟩
    rw [← ht d hd] at hlive h1 h2 h3
    exact hu d c hd hlive hc ⟨h1, h2, h3⟩
  · intro hfree d e hde hd he hsame
    by_cases hdc : d = c
    · subst hdc
      rw [ht e (Ne.symm hde)] at he hsame
      exact hfree hd e (Ne.symm hde) he ⟨hsame.1.symm, hsame.2.1.symm, hsame.2.2.symm⟩
    · rw [ht d hdc] at hd hsame
      by_cases hec : e = c
      · subst hec
        exact hfree he d hdc hd hsame
      · rw [ht e hec] at he hsame
        exact h d e hde hd he hsame

/-- A segment that belongs to no connection matches none. -/
theorem scan_none {seg : InSeg} {is : List Slot} {l l' : Option Slot}
    (h : scan s.conns seg is l = (none, l')) {i : Slot} (hi : i ∈ is)
    (ha : (s.conns i).active = true) : ¬ Matches (s.conns i) seg := by
  induction is generalizing l with
  | nil => cases hi
  | cons k is ih =>
    simp only [scan] at h
    split at h
    · rename_i hk
      rcases List.mem_cons.mp hi with rfl | hi
      · exact absurd ha (by simp [hk])
      · exact ih h hi
    · split at h
      · cases h
      · rename_i hm
        rcases List.mem_cons.mp hi with rfl | hi
        · exact hm
        · exact ih h hi

theorem net_apart {f f' : Fine} {a : Act} (h : Unambiguous f.tcp) (ha : netAct a = true)
    (hcode : Demuxed f a) (hstep : f.step a = some f') : Unambiguous f'.tcp := by
  by_cases hp : ∃ c seg, a = .passive c seg
  · obtain ⟨c, seg, rfl⟩ := hp
    obtain ⟨-, l, hscan⟩ := hcode
    obtain ⟨-, rfl⟩ := of_guard hstep
    refine (unambiguous_iff (c := c) h fun d hd => by simp [hd]).mpr fun _ d _ hd hends => ?_
    refine scan_none hscan (List.mem_finRange d) hd.1 ?_
    simp only [mark_conns, update_conns, if_true, passiveConn] at hends
    exact hends
  · exact h.keep fun c => step_ends ha (fun seg e => hp ⟨c, seg, e⟩) hstep

end

/-! ## The calls -/

section
variable {s : Sockets} {i : Fin 64} {c : Slot}

theorem create_apart (h : Unambiguous s.tcp) (domain type : Nat) :
    Unambiguous (create s domain type).1.tcp := by
  have hopen : Unambiguous (openConn s.tcp).1 := by
    unfold openConn
    cases firstFree s.tcp.conns with
    | none => exact h
    | some c =>
      refine (unambiguous_iff (c := c) h fun d hd => by simp [hd]).mpr fun hlive => ?_
      exact absurd hlive.2.1 (by simp [zeroConn])
  unfold Socket.create
  split
  · exact h
  split
  · exact h
  split
  · exact h
  dsimp only
  split
  · split
    all_goals exact hopen
  all_goals exact h

theorem bind_apart (h : Unambiguous s.tcp) (fd : Int) (sa : SockAddr) (addrlen : Nat) :
    Unambiguous (bind s fd sa addrlen).1.tcp ↔ KeepsApart s (.bind fd sa addrlen) := by
  apply (bind_call s fd sa addrlen).holds_iff (Q := fun s' => Unambiguous s'.tcp) h
  · intro i _
    exact h
  intro i c _
  have hbind : ((Tcp.bind s.tcp c sa.port).conns c) =
      { s.tcp.conns c with localPort := sa.port } := by
    simp [Tcp.bind]
  have hiff := unambiguous_iff (t := Tcp.bind s.tcp c sa.port) (c := c) h fun d hd => by
    simp [Tcp.bind, hd]
  rw [hbind] at hiff
  exact hiff

theorem listen_apart (h : Unambiguous s.tcp) (fd : Int) : Unambiguous (listen s fd).1.tcp := by
  unfold Socket.listen
  split
  · exact h
  split
  · exact h
  split
  · exact h
  rename_i c _
  refine (unambiguous_iff (c := c) h fun d hd => by simp [Tcp.listen, hd]).mpr fun hlive => ?_
  exact absurd hlive.2.2 (by simp [Tcp.listen])

theorem accept_apart (s : Sockets) (fd : Int) (early : Bool) :
    (acceptOnce s fd early).tcp = s.tcp := by
  unfold acceptOnce
  split
  · rfl
  split
  · split
    · unfold wrapAccepted
      split <;> rfl
    · rfl
  · rfl

theorem close_apart (h : Unambiguous s.tcp) {fd : Int} {how : Leaving}
    (hfit : ∀ i, fdToIdx s fd = some i → (s.entries i).type = .tcp →
      ∀ c, (s.entries i).tcpConnId = some c → how.Fits s.tcp c) :
      Unambiguous (closeEnd s fd how).tcp := by
  unfold closeEnd
  split
  · exact h
  rename_i i hi
  rw [set_tcp]
  split
  · rename_i c ht hc
    exact h.keep (apply_ends (hfit i hi ht c hc))
  · exact h

/-- The others keep their ports. -/
theorem tcpPortFree_congr {s' : Sockets} (hc : ∀ d, d ≠ c → s'.tcp.conns d = s.tcp.conns d)
    (he : ∀ j, j ≠ i → s'.entries j = s.entries j) (port : UInt16) :
    TcpPortFree s' i c port ↔ TcpPortFree s i c port := by
  refine and_congr_right fun _ => and_congr ?_ ?_
  · exact forall_congr' fun d => forall_congr' fun hd => by rw [hc d hd]
  · exact forall_congr' fun j => forall_congr' fun hj => by rw [he j hj]

theorem connect_apart (h : Unambiguous s.tcp) (fd : Int) (sa : SockAddr) (addrlen : Nat) :
    Unambiguous (connectBegin s fd sa addrlen).tcp ∧
      PicksFree s (connectBegin s fd sa addrlen) (.connect fd sa addrlen) ↔
    KeepsApart s (.connect fd sa addrlen) := by
  have hother : ∀ c d, d ≠ c → (connectInit s.tcp c sa.addr sa.port).conns d = s.tcp.conns d := by
    intro c d hd
    simp [connectInit, hd]
  have hcall := connectBegin_call s fd sa addrlen
  have hapart := hcall.holds_iff (Q := fun s' => Unambiguous s'.tcp) (P := fun _ c =>
      (s.tcp.conns c).active = true → EndsFree s.tcp c sa.addr sa.port (portAfter s.tcp c)) h
        (fun _ _ => h) (by
    intro i c _
    have hlive : Live ((connectInit s.tcp c sa.addr sa.port).conns c) ↔
        (s.tcp.conns c).active = true := by
      simp [Live, HasPeer, connectInit]
    refine (unambiguous_iff h (hother c)).trans ?_
    rw [hlive]
    simp [connectInit, portAfter])
  have hpicks : PicksFree s (connectBegin s fd sa addrlen) (.connect fd sa addrlen) ↔
      ∀ i, fdToIdx s fd = some i → sockaddrInSize ≤ addrlen → ∀ c, Owns s.entries i c →
        (s.tcp.conns c).localPort = 0 → TcpPortFree s i c s.tcp.nextEphemeralPort := by
    refine forall_congr' fun i => forall_congr' fun hi => forall_congr' fun hlen =>
      forall_congr' fun c =>
      forall_congr' fun ho => forall_congr' fun hz => ?_
    have hport : ((connectInit s.tcp c sa.addr sa.port).conns c).localPort =
        s.tcp.nextEphemeralPort := by
      simp [connectInit, hz]
    rw [hcall.eq_owner hi hlen ho, hport]
    exact tcpPortFree_congr (hother c) (fun j hj => by simp [Sockets.set, hj]) _
  rw [hapart, hpicks]
  simp only [KeepsApart, forall_and]

theorem autoPort_apart (s : Sockets) (i : Fin 64) :
    (autoPort s i).tcp = s.tcp ∧ (PicksFree s (autoPort s i) (.autoPort i) ↔
      KeepsApart s (.autoPort i)) := by
  unfold autoPort PicksFree KeepsApart
  split
  · refine ⟨rfl, forall_congr' fun _ => ?_⟩
    rw [set_self]
    refine and_congr_right fun _ => forall_congr' fun j => forall_congr' fun hj => ?_
    simp [Sockets.set, hj]
  · rename_i hz
    exact ⟨rfl, ⟨fun _ hz' => absurd hz' hz, fun _ hz' => absurd hz' hz⟩⟩

theorem packet_tcp (s : Sockets) (d : Datagram) : (socketUdpInput s d).tcp = s.tcp := by
  unfold socketUdpInput
  split <;> rfl

theorem udpRead_tcp (s : Sockets) (i : Fin 64) (len : Nat) : (udpRead s i len).1.tcp = s.tcp := by
  unfold udpRead
  split <;> rfl

end

/-! ## All runs -/

section
variable {w w' : Owners}

/-- A step of the code keeps the connections apart and picks a free port exactly
under the condition. -/
theorem step_apart {a : SockAct} (h : Unambiguous w.fine.tcp) (hcode : Coded w a)
    (hstep : w.step a = some w') :
    Unambiguous w'.fine.tcp ∧ PicksFree w.view w'.view a ↔ KeepsApart w.view a := by
  have hv : Unambiguous w.view.tcp := h
  by_cases hn : ∃ b, a = .net b
  · obtain ⟨b, rfl⟩ := hn
    obtain ⟨hb, f, hf, rfl⟩ := step_net hstep
    exact iff_of_true ⟨net_apart h hb hcode hf, trivial⟩ trivial
  · obtain ⟨-, rfl⟩ := step_call (fun b e => hn ⟨b, e⟩) hstep
    have hview : (w.next w.fine (sockCall w.view a)).view = sockCall w.view a := rfl
    rw [hview]
    show Unambiguous (sockCall w.view a).tcp ∧ _ ↔ _
    cases a with
    | net b => exact absurd ⟨b, rfl⟩ hn
    | create domain type => exact iff_of_true ⟨create_apart hv domain type, trivial⟩ trivial
    | bind fd sa addrlen => exact (and_iff_left trivial).trans (bind_apart hv fd sa addrlen)
    | listen fd => exact iff_of_true ⟨listen_apart hv fd, trivial⟩ trivial
    | accept fd early =>
      exact iff_of_true ⟨(accept_apart w.view fd early).symm ▸ hv, trivial⟩ trivial
    | connect fd sa addrlen => exact connect_apart hv fd sa addrlen
    | close fd how => exact iff_of_true ⟨close_apart hv hcode, trivial⟩ trivial
    | autoPort i =>
      obtain ⟨htcp, hiff⟩ := autoPort_apart w.view i
      exact (and_iff_right (htcp.symm ▸ hv)).trans hiff
    | packet d => exact iff_of_true ⟨(packet_tcp w.view d).symm ▸ hv, trivial⟩ trivial
    | udpRead i len => exact iff_of_true ⟨(udpRead_tcp w.view i len).symm ▸ hv, trivial⟩ trivial

/-- The code, with steps that keep connections apart. -/
def apartLTS : LTS Owners SockAct := ownersLTS fun w a => Coded w a ∧ KeepsApart w.view a

theorem unambiguous_inductive : apartLTS.Inductive fun w => Unambiguous w.fine.tcp where
  init w hw c d hcd hc := by
    obtain ⟨s, hs, -⟩ := hw
    have htcp : w.fine.tcp = s.tcp.init := congrArg Sockets.tcp hs
    exact absurd hc.1 (by simp [htcp, TcpSys.init, zeroConn])
  step _ _ _ h hstep := ((step_apart h hstep.1.1 hstep.2).mpr hstep.1.2).1

/-- In every run whose steps meet the condition the connections are apart; and
there a step keeps them apart and picks a free port exactly if it meets the
condition. -/
theorem demux_iff (hw : apartLTS.Reachable w) :
    Unambiguous w.fine.tcp ∧ ∀ a w', Coded w a → w.step a = some w' →
      (Unambiguous w'.fine.tcp ∧ PicksFree w.view w'.view a ↔ KeepsApart w.view a) := by
  have h := unambiguous_inductive.reachable w hw
  exact ⟨h, fun _ _ hcode hstep => step_apart h hcode hstep⟩

end

/-! ### Clients of one server -/

def toServer (fd : Int) : SockAct := .connect fd ⟨80, 0x0A000202⟩ sockaddrInSize

/-- The first client is connected. -/
def firstClient : List SockAct :=
  [.create afInet sockStream, toServer 100, .net (.control 0 tcpSyn 0),
   .net (.segment 0 (serverSeg 5000 1001 (tcpSyn ||| tcpAck) []))]

/-- A second one gets the next port. -/
theorem demux_two_clients : ∃ w, apartLTS.Reachable w ∧ Live (w.fine.tcp.conns 0) ∧
    Live (w.fine.tcp.conns 1) ∧
    (w.fine.tcp.conns 0).localPort = 49152 ∧ (w.fine.tcp.conns 1).localPort = 49153 ∧
    Unambiguous w.fine.tcp := by
  have h : ((bootOwners.runIf (fun w a => Coded w a ∧ KeepsApart w.view a)
      (firstClient ++ [.create afInet sockStream, toServer 101])).map fun w =>
      decide (Live (w.fine.tcp.conns 0) ∧ Live (w.fine.tcp.conns 1) ∧
        (w.fine.tcp.conns 0).localPort = 49152 ∧ (w.fine.tcp.conns 1).localPort = 49153)) =
            some true := by
    decide +kernel
  obtain ⟨w, hrun, hfacts⟩ := Option.map_eq_some_iff.mp h
  obtain ⟨h0, h1, hp0, hp1⟩ := of_decide_eq_true hfacts
  have hw : apartLTS.Reachable w := Owners.runIf_reachable (fun _ _ h => h) (boot_reachable _) hrun
  exact ⟨w, hw, h0, h1, hp0, hp1, (demux_iff hw).1⟩

/-- A second client that binds the port of the first has the same ends; and where
49152 is bound by another socket, `connect` picks it all the same. -/
theorem connects_collide :
    (∃ w, (ownersLTS Coded).Reachable w ∧ Live (w.fine.tcp.conns 0) ∧ Live (w.fine.tcp.conns 1) ∧
      SameEnds (w.fine.tcp.conns 0) (w.fine.tcp.conns 1) ∧ ¬ Unambiguous w.fine.tcp) ∧
    (∃ w w', (ownersLTS Coded).Reachable w ∧ w.step (toServer 101) = some w' ∧
      (w'.fine.tcp.conns 1).localPort = 49152 ∧ (w'.entries 0).localPort = 49152 ∧
      ¬ PicksFree w.view w'.view (toServer 101)) := by
  have h : ((bootOwners.runIf Coded (firstClient ++
      [.create afInet sockStream, .bind 101 ⟨49152, 0⟩ sockaddrInSize, toServer 101])).map fun w =>
      decide (Live (w.fine.tcp.conns 0) ∧ Live (w.fine.tcp.conns 1) ∧
        SameEnds (w.fine.tcp.conns 0) (w.fine.tcp.conns 1))) = some true := by decide +kernel
  have h' : ((bootOwners.runIf Coded [.create afInet sockStream,
      .bind 100 ⟨49152, 0⟩ sockaddrInSize,
      .create afInet sockStream]).map fun w => (decide (fdToIdx w.view 101 = some 1 ∧
        Owns w.entries 1 1 ∧ (w.fine.tcp.conns 1).localPort = 0),
            (w.step (toServer 101)).map fun w' =>
        decide ((w'.fine.tcp.conns 1).localPort = 49152 ∧ (w'.entries 0).localPort = 49152 ∧
          (w'.entries 0).active = true ∧ (w'.entries 0).type = .tcp))) =
              some (true, some true) := by
    decide +kernel
  constructor
  · obtain ⟨w, hrun, hfacts⟩ := Option.map_eq_some_iff.mp h
    obtain ⟨h0, h1, hsame⟩ := of_decide_eq_true hfacts
    have hw : (ownersLTS Coded).Reachable w :=
      Owners.runIf_reachable (fun _ _ h => h) (boot_reachable _) hrun
    exact ⟨w, hw, h0, h1, hsame, fun hu => hu 0 1 (by decide) h0 h1 hsame⟩
  · obtain ⟨w, hrun, hfacts⟩ := Option.map_eq_some_iff.mp h'
    obtain ⟨hbefore, hafter⟩ := Prod.ext_iff.mp hfacts
    obtain ⟨hfd, ho, hz⟩ := of_decide_eq_true hbefore
    obtain ⟨w', hstep, hafter⟩ := Option.map_eq_some_iff.mp hafter
    obtain ⟨hp, he, hact, ht⟩ := of_decide_eq_true hafter
    have hw : (ownersLTS Coded).Reachable w :=
      Owners.runIf_reachable (fun _ _ h => h) (boot_reachable _) hrun
    refine ⟨w, w', hw, hstep, hp, he, fun hfree => ?_⟩
    obtain ⟨-, -, hother⟩ := hfree 1 hfd (Nat.le_refl _) 1 ho hz
    exact hother 0 (by decide) hact ht (he.trans hp.symm)

end HackersOs.L3.Socket

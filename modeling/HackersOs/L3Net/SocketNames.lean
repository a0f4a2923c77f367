import HackersOs.L3Net.SocketOwners
import HackersOs.L3Net.TcpReceive

/-!
# What `getsockname` and `getpeername` report

The addresses of a TCP socket are kept twice, in its entry and in its
connection. `connect` does not copy a port that `TCP::connect` picks into the
entry, and `accept` does not set the remote address of the new entry at all. The
other ways to a difference need a connection that two sockets share, or a socket
whose slot was given up and taken again.

Result: `names_iff`, in which runs the two agree. `accepted_peer_unknown`: the
socket of an accepted client says 0.0.0.0:0.
-/
namespace HackersOs.L3.Socket
open HackersOs.Core Tcp Net

/-! ## Agreement -/

/-- The connection has a remote end. -/
def HasPeer (c : TcpConnection) : Prop := c.state ≠ .closed ∧ c.state ≠ .listen

def SamePeer (e : SocketEntry) (c : TcpConnection) : Prop :=
  e.remoteIp = c.remoteIp ∧ e.remotePort = c.remotePort

def NamesAgree (e : SocketEntry) (c : TcpConnection) : Prop :=
  e.localPort = c.localPort ∧ (HasPeer c → SamePeer e c)

/-- Every socket agrees with its connection. -/
def TablesAgree (entries : Fin 64 → SocketEntry) (s : TcpSys) : Prop :=
  ∀ i c, Owns entries i c → NamesAgree (entries i) (s.conns c)

/-- The two calls report the ends of every established connection. -/
def ReportsEnds (s : Sockets) : Prop :=
  ∀ i c, Owns s.entries i c → (s.tcp.conns c).state = .established →
    ∀ ip n, sockaddrInSize ≤ n →
      getpeername s (fdOf i) (some n) = .ok ⟨(s.tcp.conns c).remotePort, (s.tcp.conns c).remoteIp⟩ ∧
      getsockname s ip (fdOf i) (some n) = .ok ⟨(s.tcp.conns c).localPort, ip⟩

/-- What keeps the two tables in agreement. -/
def KeepsNames (s : Sockets) : SockAct → Prop
  -- a slot that a socket still names is taken again
  | .net (.passive c seg) => ∀ j, Owns s.entries j c → (s.entries j).localPort = seg.dstPort ∧
      (s.entries j).remoteIp = seg.srcIp ∧ (s.entries j).remotePort = seg.srcPort
  | .create domain type => domain = afInet → type = sockStream → firstEntry s ≠ none →
      ∀ c, firstFree s.tcp.conns = some c → ∀ j, Owns s.entries j c → (s.entries j).localPort = 0
  -- two sockets share the connection
  | .bind fd sa addrlen => ∀ i, fdToIdx s fd = some i → sockaddrInSize ≤ addrlen →
      ∀ c, Owns s.entries i c → ∀ j, j ≠ i → Owns s.entries j c → (s.entries j).localPort = sa.port
  -- a port is picked, or two sockets share the connection
  | .connect fd sa addrlen => ∀ i, fdToIdx s fd = some i → sockaddrInSize ≤ addrlen →
      ∀ c, Owns s.entries i c → ((s.entries i).localPort = 0 → s.tcp.nextEphemeralPort = 0) ∧
      ∀ j, j ≠ i → Owns s.entries j c → (s.entries j).remoteIp = sa.addr ∧
        (s.entries j).remotePort = sa.port
  -- the new entry has the remote address that the last socket in it left
  | .accept fd early => ∀ i, fdToIdx s fd = some i → ∀ l, Owns s.entries i l →
      ∀ c, acceptScan s.tcp l early = some c → ∀ j, firstEntry s = some j →
      SamePeer (s.entries j) (s.tcp.conns c)
  | _ => True

instance (e : SocketEntry) (c : TcpConnection) : Decidable (SamePeer e c) :=
  inferInstanceAs (Decidable (_ ∧ _))

instance (s : Sockets) (a : SockAct) : Decidable (KeepsNames s a) := by
  cases a with
  | net a => cases a <;> (unfold KeepsNames; infer_instance)
  | _ => unfold KeepsNames; infer_instance

/-! ## Steps of the connection table -/

/-- The ends of a connection are the same, and it did not come into use. -/
structure KeepsEnds (c c' : TcpConnection) : Prop where
  localPort : c'.localPort = c.localPort
  remoteIp : c'.remoteIp = c.remoteIp
  remotePort : c'.remotePort = c.remotePort
  peer : HasPeer c' → HasPeer c
  active : c'.active = true → c.active = true

section
variable {f f' : Fine} {s : TcpSys} {c j : Slot} {e : SocketEntry} {conn conn' : TcpConnection}

theorem KeepsEnds.refl (c : TcpConnection) : KeepsEnds c c := ⟨rfl, rfl, rfl, id, id⟩

theorem NamesAgree.keep (h : NamesAgree e conn) (hk : KeepsEnds conn conn') : NamesAgree e conn' := by
  unfold NamesAgree SamePeer
  rw [hk.localPort, hk.remoteIp, hk.remotePort]
  exact ⟨h.1, fun hpeer => h.2 (hk.peer hpeer)⟩

theorem onSegment_ends (conn : TcpConnection) (seg : InSeg) :
    KeepsEnds conn (onSegment conn seg).1 := by
  have hports := onSegment_peer conn seg
  refine ⟨hports.2.2, hports.1, hports.2.1, ?_, ?_⟩ <;> unfold onSegment
  · unfold HasPeer
    cases hst : conn.state <;> simp only
    all_goals (repeat' split) <;> simp [hst]
  · cases hst : conn.state <;> simp only
    all_goals (repeat' split) <;> simp

theorem update_ends {u : TcpConnection → TcpConnection} (hu : ∀ x, KeepsEnds x (u x)) (j c : Slot) :
    KeepsEnds (s.conns c) ((s.update j u).conns c) := by
  rw [update_conns]
  split
  · exact hu _
  · exact .refl _

/-- Only a passive open gives a connection other ends. -/
theorem step_ends {a : Act} (ha : netAct a = true) (hp : ∀ seg, a ≠ .passive c seg)
    (hstep : f.step a = some f') : KeepsEnds (f.tcp.conns c) (f'.tcp.conns c) := by
  have hplace := place_step ha hstep c
  generalize f'.tcp.conns c = conn at hplace
  cases hplace with
  | same _ hs =>
    refine ⟨hs.localPort, hs.remoteIp, hs.remotePort, fun h => ?_, fun h => hs.active ▸ h⟩
    unfold HasPeer at h ⊢
    rwa [hs.state] at h
  | segment _ => exact onSegment_ends _ _
  | passive _ => exact absurd rfl (hp _)
  | giveUp => exact ⟨rfl, rfl, rfl, fun h => absurd rfl h.1, fun h => (nomatch h)⟩

/-- `TCP::close` sends a FIN only for a connection with a peer. -/
theorem apply_ends {how : Leaving} (hfit : how.Fits s j) (c : Slot) :
    KeepsEnds (s.conns c) ((how.apply s j).conns c) := by
  cases how with
  | nothing => exact .refl _
  | finWait1 | lastAck =>
    dsimp only [Leaving.apply]
    rw [update_conns]
    split
    · rename_i hc
      subst hc
      refine ⟨rfl, rfl, rfl, fun _ => ?_, id⟩
      simp only [Leaving.Fits] at hfit
      unfold HasPeer
      grind
    · exact .refl _
  | free =>
    dsimp only [Leaving.apply]
    refine update_ends (fun _ => ?_) _ _
    exact ⟨rfl, rfl, rfl, fun hp => absurd rfl hp.1, fun h => (nomatch h)⟩

end

/-! ## The calls -/

section
variable {s : Sockets} {t : TcpSys} {i : Fin 64} {c : Slot} {e : SocketEntry}

/-- One entry changes. -/
theorem tablesAgree_set : TablesAgree (s.set i e).entries t ↔
    (∀ c, e.active = true → e.type = .tcp → e.tcpConnId = some c → NamesAgree e (t.conns c)) ∧
    ∀ j c, j ≠ i → Owns s.entries j c → NamesAgree (s.entries j) (t.conns c) := by
  have hne : ∀ j, j ≠ i → (s.set i e).entries j = s.entries j := fun j hj => by
    simp [Sockets.set, hj]
  constructor
  · intro h
    refine ⟨fun c ha ht hc => ?_, fun j c hj ho => ?_⟩
    · have := h i c
      rw [set_self] at this
      exact this ⟨by rw [set_self]; exact ha, by rw [set_self]; exact ht, by rw [set_self]; exact hc⟩
    · have := h j c
      rw [hne j hj] at this
      refine this ?_
      unfold Owns at ho ⊢
      rw [hne j hj]
      exact ho
  · rintro ⟨hself, hother⟩ j c ho
    unfold Owns at ho
    by_cases hj : j = i
    · subst hj
      rw [set_self] at ho ⊢
      exact hself c ho.1 ho.2.1 ho.2.2
    · rw [hne j hj] at ho ⊢
      exact hother j c hj ho

/-- A socket and its connection change. -/
theorem tablesAgree_conn (h : TablesAgree s.entries s.tcp) (ho : Owns s.entries i c)
    (he : SameOwner (s.entries i) e) (ht : ∀ d, d ≠ c → t.conns d = s.tcp.conns d) :
    TablesAgree (s.set i e).entries t ↔ NamesAgree e (t.conns c) ∧
      ∀ j, j ≠ i → Owns s.entries j c → NamesAgree (s.entries j) (t.conns c) := by
  rw [tablesAgree_set]
  obtain ⟨ha, htype, hid⟩ := he
  constructor
  · rintro ⟨hself, hother⟩
    exact ⟨hself c (ha.trans ho.1) (htype.trans ho.2.1) (hid.trans ho.2.2), fun j hj => hother j c hj⟩
  rintro ⟨hself, hother⟩
  refine ⟨fun d _ _ hd => ?_, fun j d hj hd => ?_⟩
  · obtain rfl : c = d := Option.some.inj (ho.2.2.symm.trans (hid.symm.trans hd))
    exact hself
  by_cases hdc : d = c
  · subst hdc
    exact hother j hj hd
  · rw [ht d hdc]
    exact h j d hd

/-- Another kind of socket changes. -/
theorem TablesAgree.set_other (h : TablesAgree s.entries s.tcp) (he : SameOwner (s.entries i) e)
    (hno : ∀ c, ¬ Owns s.entries i c) : TablesAgree (s.set i e).entries s.tcp := by
  rw [tablesAgree_set]
  obtain ⟨ha, htype, hid⟩ := he
  exact ⟨fun c h1 h2 h3 => absurd ⟨ha.symm.trans h1, htype.symm.trans h2, hid.symm.trans h3⟩ (hno c),
    fun j c _ ho => h j c ho⟩

theorem owns_iff {d : Slot} (hi : (s.entries i).active = true) (ht : (s.entries i).type = .tcp)
    (hc : (s.entries i).tcpConnId = some c) : Owns s.entries i d ↔ c = d := by
  simp [Owns, hi, ht, hc]

theorem bind_agree (h : TablesAgree s.entries s.tcp) (fd : Int) (sa : SockAddr) (addrlen : Nat) :
    TablesAgree (bind s fd sa addrlen).1.entries (bind s fd sa addrlen).1.tcp ↔
      KeepsNames s (.bind fd sa addrlen) := by
  apply (bind_call s fd sa addrlen).holds_iff (Q := fun s' => TablesAgree s'.entries s'.tcp) h
  · intro i hno
    exact h.set_other ⟨rfl, rfl, rfl⟩ hno
  intro i c ho
  have hbind : ((Tcp.bind s.tcp c sa.port).conns c) =
      { s.tcp.conns c with localPort := sa.port } := by
    simp [Tcp.bind]
  have hiff := tablesAgree_conn (t := Tcp.bind s.tcp c sa.port)
    (e := { s.entries i with localPort := sa.port }) h ho ⟨rfl, rfl, rfl⟩ fun d hd => by
      simp [Tcp.bind, hd]
  rw [hbind] at hiff
  refine hiff.trans ⟨fun hn j hj ho' => (hn.2 j hj ho').1,
    fun hk => ⟨⟨rfl, (h i c ho).2⟩, fun j hj ho' => ?_⟩⟩
  exact ⟨hk j hj ho', (h j c ho').2⟩

theorem connect_agree (h : TablesAgree s.entries s.tcp) (fd : Int) (sa : SockAddr) (addrlen : Nat) :
    TablesAgree (connectBegin s fd sa addrlen).entries (connectBegin s fd sa addrlen).tcp ↔
      KeepsNames s (.connect fd sa addrlen) := by
  apply (connectBegin_call s fd sa addrlen).holds_iff (Q := fun s' => TablesAgree s'.entries s'.tcp) h
  · intro i hno
    exact h.set_other ⟨rfl, rfl, rfl⟩ hno
  intro i c ho
  have hiff := tablesAgree_conn (t := connectInit s.tcp c sa.addr sa.port)
    (e := { s.entries i with remoteIp := sa.addr, remotePort := sa.port }) h ho ⟨rfl, rfl, rfl⟩
    fun d hd => by simp [connectInit, hd]
  refine hiff.trans ?_
  -- all sockets of the connection agreed with it on the port
  have hport : ∀ j, Owns s.entries j c → ((s.entries j).localPort =
      ((connectInit s.tcp c sa.addr sa.port).conns c).localPort ↔
      ((s.entries i).localPort = 0 → s.tcp.nextEphemeralPort = 0)) := by
    intro j hj
    rw [(h j c hj).1, (h i c ho).1]
    by_cases hz : (s.tcp.conns c).localPort = 0 <;> simp [connectInit, hz, eq_comm]
  have hpeer : HasPeer ((connectInit s.tcp c sa.addr sa.port).conns c) := by
    simp [HasPeer, connectInit]
  have hremote : ∀ e : SocketEntry, SamePeer e ((connectInit s.tcp c sa.addr sa.port).conns c) ↔
      e.remoteIp = sa.addr ∧ e.remotePort = sa.port := by
    simp [SamePeer, connectInit]
  simp only [NamesAgree, hpeer, forall_true_left, hremote, and_self, and_true]
  refine ⟨fun hn => ⟨(hport i ho).mp hn.1, fun j hj hj' => (hn.2 j hj hj').2⟩, fun hk => ?_⟩
  exact ⟨(hport i ho).mpr hk.1, fun j hj hj' => ⟨(hport j hj').mpr hk.1, hk.2 j hj hj'⟩⟩

theorem listen_agree (h : TablesAgree s.entries s.tcp) (fd : Int) :
    TablesAgree (listen s fd).1.entries (listen s fd).1.tcp := by
  unfold Socket.listen
  split
  · exact h
  rename_i i hi
  split
  · exact h
  rename_i ht
  split
  · exact h
  rename_i c hc
  have hport := (h i c ⟨fdToIdx_active hi, not_not.mp ht, hc⟩).1
  intro j d ho
  have hj := h j d ho
  dsimp only [Tcp.listen, mark_conns]
  rw [update_conns]
  split
  · rename_i hd
    subst hd
    exact ⟨hj.1.trans hport.symm, fun hp => absurd rfl hp.2⟩
  · exact hj

theorem wrapAccepted_agree (h : TablesAgree s.entries s.tcp) {l : Slot} {early : Bool}
    (ho : Owns s.entries i l) (hscan : acceptScan s.tcp l early = some c) :
    TablesAgree (wrapAccepted s i c).1.entries (wrapAccepted s i c).1.tcp ↔
      ∀ j, firstEntry s = some j → SamePeer (s.entries j) (s.tcp.conns c) := by
  unfold wrapAccepted
  cases hj : firstEntry s with
  | none => simpa using h
  | some j =>
    have hc := List.find?_some hscan
    simp only [Bool.and_eq_true, decide_eq_true_eq, Bool.or_eq_true] at hc
    obtain ⟨⟨-, hport⟩, hst⟩ := hc
    have hpeer : HasPeer (s.tcp.conns c) := by
      rcases hst with hst | ⟨-, hst⟩ <;> simp [HasPeer, hst]
    simp only [Option.some.injEq, forall_eq']
    rw [set_tcp, tablesAgree_set]
    constructor
    · intro hn
      exact (hn.1 c rfl rfl rfl).2 hpeer
    · intro hs
      refine ⟨fun d _ _ hd => ?_, fun k d _ hk => h k d hk⟩
      obtain rfl : c = d := Option.some.inj hd
      exact ⟨(h i l ho).1.trans hport.symm, fun _ => hs⟩

theorem accept_agree (h : TablesAgree s.entries s.tcp) (fd : Int) (early : Bool) :
    TablesAgree (acceptOnce s fd early).entries (acceptOnce s fd early).tcp ↔
      KeepsNames s (.accept fd early) := by
  unfold acceptOnce KeepsNames
  cases hi : fdToIdx s fd with
  | none => simpa [hi] using h
  | some i =>
    have hact := fdToIdx_active hi
    simp only [hi, Option.some.injEq, forall_eq']
    split
    · rename_i l ht hl
      simp only [owns_iff hact ht hl, forall_eq']
      cases hc : acceptScan s.tcp l early with
      | none => simpa [hc] using h
      | some c =>
        simp only [Option.some.injEq, forall_eq']
        exact wrapAccepted_agree h ⟨hact, ht, hl⟩ hc
    · rename_i hno
      exact ⟨fun _ l ho => absurd ho.2.2 (hno l ho.2.1), fun _ => h⟩

theorem sockTypeOf_tcp (type : Nat) : sockTypeOf type = some .tcp ↔ type = sockStream := by
  unfold sockTypeOf
  repeat' split
  all_goals simp_all

theorem openConn_snd (t : TcpSys) : (openConn t).2 = firstFree t.conns := by
  unfold openConn
  cases firstFree t.conns <;> rfl

/-- `TCP::open` for a new socket in entry `i`. -/
theorem open_agree (h : TablesAgree s.entries s.tcp) (hi : firstEntry s = some i)
    (he : e.localPort = 0) (hc : (openConn s.tcp).2 = some c) (hid : e.tcpConnId = some c) :
    TablesAgree (s.set i e).entries (openConn s.tcp).1 ↔
      ∀ j, Owns s.entries j c → (s.entries j).localPort = 0 := by
  obtain ⟨hnew, -, hother⟩ := openConn_some hc
  have hiff : ∀ e : SocketEntry, NamesAgree e ((openConn s.tcp).1.conns c) ↔ e.localPort = 0 :=
    fun e => by
    simp [NamesAgree, HasPeer, hnew, zeroConn]
  rw [tablesAgree_set]
  constructor
  · intro hn j hj
    refine (hiff _).mp (hn.2 j c (fun hji => ?_) hj)
    exact absurd hj.1 (by simp [hji, firstEntry_free hi])
  · intro hk
    refine ⟨fun d _ _ hd => ?_, fun j d _ hj => ?_⟩
    · obtain rfl : c = d := Option.some.inj (hid.symm.trans hd)
      exact (hiff _).mpr he
    by_cases hd : d = c
    · subst hd
      exact (hiff _).mpr (hk j hj)
    · rw [hother d hd]
      exact h j d hj

theorem create_agree (h : TablesAgree s.entries s.tcp) (domain type : Nat) :
    TablesAgree (create s domain type).1.entries (create s domain type).1.tcp ↔
      KeepsNames s (.create domain type) := by
  rw [KeepsNames]
  unfold Socket.create
  split
  · rename_i hd
    exact ⟨fun _ hd' => absurd hd' hd, fun _ => h⟩
  rename_i hd
  rw [forall_prop_of_true (not_not.mp hd), ← sockTypeOf_tcp]
  cases ht : sockTypeOf type with
  | none => simpa using h
  | some st =>
    cases hi : firstEntry s with
    | none => simpa using h
    | some i =>
      -- an entry that is no TCP socket
      have hother : ∀ e : SocketEntry, ¬ (e.active = true ∧ e.type = .tcp) →
          TablesAgree (s.set i e).entries s.tcp := fun e he =>
        tablesAgree_set.mpr ⟨fun _ ha ht _ => absurd ⟨ha, ht⟩ he, fun j c _ hj => h j c hj⟩
      cases st with
      | tcp =>
        simp only [ne_eq, reduceCtorEq, not_false_eq_true, forall_true_left]
        cases hc : (openConn s.tcp).2 with
        | none =>
          have hfree : firstFree s.tcp.conns = none := (openConn_snd s.tcp).symm.trans hc
          simp only [hfree, reduceCtorEq, false_implies, implies_true, iff_true]
          rw [set_tcp, openConn_none hc]
          exact hother _ (by simp)
        | some c =>
          have hfree : firstFree s.tcp.conns = some c := (openConn_snd s.tcp).symm.trans hc
          simp only [hfree, Option.some.injEq, forall_eq']
          exact open_agree (e :=
            { zeroEntry with active := true, type := .tcp, domain := domain, tcpConnId := some c })
            h hi rfl hc rfl
      | udp | raw | none =>
        simp only [Option.some.injEq, reduceCtorEq, false_implies, iff_true]
        exact hother _ (by simp)

theorem close_agree (h : TablesAgree s.entries s.tcp) {fd : Int} {how : Leaving}
    (hfit : ∀ i, fdToIdx s fd = some i → (s.entries i).type = .tcp →
      ∀ c, (s.entries i).tcpConnId = some c → how.Fits s.tcp c) :
    TablesAgree (closeEnd s fd how).entries (closeEnd s fd how).tcp := by
  unfold closeEnd
  split
  · exact h
  rename_i i hi
  rw [set_tcp, tablesAgree_set]
  refine ⟨fun _ ha => (nomatch ha), fun j d _ hj => ?_⟩
  split
  · rename_i c ht hc
    exact (h j d hj).keep (apply_ends (hfit i hi ht c hc) d)
  · exact h j d hj

theorem autoPort_agree (h : TablesAgree s.entries s.tcp) (hi : (s.entries i).type = .udp) :
    TablesAgree (autoPort s i).entries (autoPort s i).tcp := by
  unfold autoPort
  split
  · rw [set_tcp, tablesAgree_set]
    exact ⟨fun c _ ht _ => absurd (hi.symm.trans ht) (by simp), fun j c _ hj => h j c hj⟩
  · exact h

theorem packet_agree (h : TablesAgree s.entries s.tcp) (d : Datagram) :
    TablesAgree (socketUdpInput s d).entries (socketUdpInput s d).tcp := by
  unfold socketUdpInput
  split
  · exact h
  · rename_i i _ _
    exact tablesAgree_set.mpr ⟨fun c ha ht hc => h i c ⟨ha, ht, hc⟩, fun j c _ hj => h j c hj⟩

theorem udpRead_agree (h : TablesAgree s.entries s.tcp) (i : Fin 64) (len : Nat) :
    TablesAgree (udpRead s i len).1.entries (udpRead s i len).1.tcp := by
  unfold udpRead
  split
  · exact h
  · exact tablesAgree_set.mpr ⟨fun c ha ht hc => h i c ⟨ha, ht, hc⟩, fun j c _ hj => h j c hj⟩

theorem net_agree {f f' : Fine} {a : Act} (h : TablesAgree s.entries f.tcp) (ha : netAct a = true)
    (hstep : f.step a = some f') : TablesAgree s.entries f'.tcp ↔ KeepsNames s (.net a) := by
  by_cases hp : ∃ c seg, a = .passive c seg
  · obtain ⟨c, seg, rfl⟩ := hp
    have hsame : ∀ d, d ≠ c → f'.tcp.conns d = f.tcp.conns d := by
      obtain ⟨-, rfl⟩ := of_guard hstep
      intro d hd
      simp [hd]
    have hiff : ∀ e : SocketEntry, NamesAgree e (f'.tcp.conns c) ↔
        e.localPort = seg.dstPort ∧ e.remoteIp = seg.srcIp ∧ e.remotePort = seg.srcPort := by
      obtain ⟨-, rfl⟩ := of_guard hstep
      simp [NamesAgree, HasPeer, SamePeer, passiveConn]
    refine ⟨fun hn j hj => (hiff _).mp (hn j c hj), fun hk j d hj => ?_⟩
    by_cases hd : d = c
    · subst hd
      exact (hiff _).mpr (hk j hj)
    · rw [hsame d hd]
      exact h j d hj
  · have hk : KeepsNames s (.net a) := by
      unfold KeepsNames
      split <;> simp_all
    refine ⟨fun _ => hk, fun _ i c hi => (h i c hi).keep ?_⟩
    exact step_ends ha (fun seg e => hp ⟨c, seg, e⟩) hstep

end

/-! ## All runs -/

section
variable {w w' : Owners}

/-- A step of the code keeps the agreement exactly under the condition. -/
theorem step_agree {a : SockAct} (h : TablesAgree w.entries w.fine.tcp) (hcode : Coded w a)
    (hstep : w.step a = some w') : TablesAgree w'.entries w'.fine.tcp ↔ KeepsNames w.view a := by
  by_cases hn : ∃ b, a = .net b
  · obtain ⟨b, rfl⟩ := hn
    obtain ⟨hb, f, hf, rfl⟩ := step_net hstep
    exact net_agree (s := w.view) h hb hf
  · obtain ⟨-, rfl⟩ := step_call (fun b e => hn ⟨b, e⟩) hstep
    have hv : TablesAgree w.view.entries w.view.tcp := h
    cases a with
    | net b => exact absurd ⟨b, rfl⟩ hn
    | create domain type => exact create_agree hv domain type
    | bind fd sa addrlen => exact bind_agree hv fd sa addrlen
    | listen fd => exact iff_of_true (listen_agree hv fd) trivial
    | accept fd early => exact accept_agree hv fd early
    | connect fd sa addrlen => exact connect_agree hv fd sa addrlen
    | close fd how => exact iff_of_true (close_agree hv hcode) trivial
    | autoPort i => exact iff_of_true (autoPort_agree hv hcode) trivial
    | packet d => exact iff_of_true (packet_agree hv d) trivial
    | udpRead i len => exact iff_of_true (udpRead_agree hv i len) trivial

/-- The code, with steps that keep the two tables in agreement. -/
def namesLTS : LTS Owners SockAct := ownersLTS fun w a => Coded w a ∧ KeepsNames w.view a

theorem tablesAgree_inductive : namesLTS.Inductive fun w => TablesAgree w.entries w.fine.tcp where
  init w hw i c ho := by
    obtain ⟨s, hs, -⟩ := hw
    have he : w.entries = fun _ => zeroEntry := congrArg Sockets.entries hs
    exact absurd ho.1 (by simp [he, zeroEntry])
  step _ _ _ h hstep := (step_agree h hstep.1.1 hstep.2).mpr hstep.1.2

theorem TablesAgree.reports {s : Sockets} (h : TablesAgree s.entries s.tcp) : ReportsEnds s := by
  intro i c ho hst ip n hn
  have hfd : fdToIdx s (fdOf i) = some i := fdToIdx_eq_some.mpr ⟨rfl, ho.1⟩
  obtain ⟨hport, hpeer⟩ := h i c ho
  obtain ⟨hip, hrp⟩ := hpeer (by simp [HasPeer, hst])
  have hlen : ¬ n < sockaddrInSize := Nat.not_lt.mpr hn
  simp [getpeername, getsockname, addrCall, hfd, hlen, hport, hip, hrp]

/-- In every run whose steps meet the condition the two calls report the ends of
every established connection, and a step keeps the tables in agreement exactly
if it meets the condition. -/
theorem names_iff (hw : namesLTS.Reachable w) :
    ReportsEnds w.view ∧ ∀ a w', Coded w a → w.step a = some w' →
      (TablesAgree w'.entries w'.fine.tcp ↔ KeepsNames w.view a) := by
  have h := tablesAgree_inductive.reachable w hw
  exact ⟨TablesAgree.reports (s := w.view) h, fun _ _ hcode hstep => step_agree h hcode hstep⟩

end

/-! ### A client that binds, one that does not, and a server -/

/-- Port 49152, and the server answers. -/
def boundDial : List SockAct :=
  [.create afInet sockStream, .bind 100 ⟨49152, 0⟩ sockaddrInSize,
   .connect 100 ⟨80, 0x0A000202⟩ sockaddrInSize, .net (.control 0 tcpSyn 0),
   .net (.segment 0 (serverSeg 5000 1001 (tcpSyn ||| tcpAck) []))]

theorem names_bound : ∃ w, namesLTS.Reachable w ∧ (w.fine.tcp.conns 0).state = .established ∧
    ReportsEnds w.view := by
  have h : ((bootOwners.runIf (fun w a => Coded w a ∧ KeepsNames w.view a) boundDial).map fun w =>
      (w.fine.tcp.conns 0).state) = some .established := by decide +kernel
  obtain ⟨w, hrun, hst⟩ := Option.map_eq_some_iff.mp h
  have hw : namesLTS.Reachable w := Owners.runIf_reachable (fun _ _ h => h) (boot_reachable _) hrun
  exact ⟨w, hw, hst, (names_iff hw).1⟩

/-- A client that does not bind. -/
def dialled : Sockets :=
  (connect (create bootSockets afInet sockStream).1 100 ⟨80, 0x0A000202⟩ sockaddrInSize (sentAt 0)
    [.cons (serverSeg 5000 1001 (tcpSyn ||| tcpAck) []) (sentAt 0) .nil]).1

theorem dialled_steps : Steps bootOwners dialled none none := by
  refine (create_steps boot_idle afInet sockStream).trans fun w hw hs hf => ?_
  have h := connect_steps (w := w) ⟨hs, hf⟩ 100 ⟨80, 0x0A000202⟩ sockaddrInSize (sentAt 0)
    [.cons (serverSeg 5000 1001 (tcpSyn ||| tcpAck) []) (sentAt 0) .nil]
  rw [hw] at h
  exact h

/-- The socket of the accepted client 10.0.2.3:4000 says that its peer is
0.0.0.0:0; the client that did not bind says that its port is 0. -/
theorem accepted_peer_unknown : (∃ w, (ownersLTS Coded).Reachable w ∧ w.view = servingOne ∧
      getpeername servingOne 101 (some sockaddrInSize) = .ok ⟨0, 0⟩ ∧
      ((servingOne.tcp.conns 1).remotePort, (servingOne.tcp.conns 1).remoteIp) = (4000, 0x0A000203) ∧
      ¬ ReportsEnds servingOne) ∧ (∃ w, (ownersLTS Coded).Reachable w ∧ w.view = dialled ∧
      getsockname dialled 0x0A00020F 100 (some sockaddrInSize) = .ok ⟨0, 0x0A00020F⟩ ∧
      (dialled.tcp.conns 0).localPort = 49152 ∧ ¬ ReportsEnds dialled) := by
  have hserve : getpeername servingOne 101 (some sockaddrInSize) = .ok ⟨0, 0⟩ ∧
      ((servingOne.tcp.conns 1).remotePort, (servingOne.tcp.conns 1).remoteIp) = (4000, 0x0A000203) ∧
      Owns servingOne.entries 1 1 ∧ (servingOne.tcp.conns 1).state = .established := by decide +kernel
  have hdial : getsockname dialled 0x0A00020F 100 (some sockaddrInSize) = .ok ⟨0, 0x0A00020F⟩ ∧
      (dialled.tcp.conns 0).localPort = 49152 ∧ Owns dialled.entries 0 0 ∧
      (dialled.tcp.conns 0).state = .established := by decide +kernel
  obtain ⟨hname, hpeer, ho, hst⟩ := hserve
  obtain ⟨hname', hport, ho', hst'⟩ := hdial
  obtain ⟨w, hw, hview⟩ := servingOne_steps.reachable (fun _ _ h => h) (boot_reachable _)
  obtain ⟨w', hw', hview'⟩ := dialled_steps.reachable (fun _ _ h => h) (boot_reachable _)
  refine ⟨⟨w, hw, hview, hname, hpeer, fun h => ?_⟩, ⟨w', hw', hview', hname', hport, fun h => ?_⟩⟩
  · have hrep : getpeername servingOne 101 (some sockaddrInSize) = _ :=
      (h 1 1 ho hst 0 sockaddrInSize (Nat.le_refl _)).1
    rw [hname] at hrep
    injection hpeer with hp
    injection hrep with hrep
    injection hrep with hz
    exact absurd (hz.trans hp) (by decide)
  · have hrep : getsockname dialled 0x0A00020F 100 (some sockaddrInSize) = _ :=
      (h 0 0 ho' hst' 0x0A00020F sockaddrInSize (Nat.le_refl _)).2
    rw [hname'] at hrep
    injection hrep with hrep
    injection hrep with hz
    exact absurd (hz.trans hport) (by decide)

end HackersOs.L3.Socket

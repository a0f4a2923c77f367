import HackersOs.L3Net.Sockets
import HackersOs.L3Net.TcpFine

/-!
# The socket calls in single steps

The socket table and the connection table together: the steps of `TcpFine`
inside the calls and polls, and the parts of the socket calls that change the
tables at once. A monitor counts how often each connection slot became inactive
and notes the count when a socket gets its connection, so that "active ever
since" is a property of a state.

Every call of `socket.cpp` is a sequence of these steps: `create_steps`,
`bind_steps`, `listen_steps`, `accept_steps`, `connect_steps`, `sendto_steps`,
`recvfrom_steps`, `close_steps`.
-/
namespace HackersOs.L3.Socket
open HackersOs.Core Tcp Net Relation

variable {a : Act} {f : Fine} {fd : Int}

structure Owners where
  fine : Fine
  entries : Fin 64 → SocketEntry
  nextUdpPort : UInt16
  /-- ghost: how often the slot became inactive -/
  closes : Slot → Nat
  /-- ghost: that count when the socket got its connection -/
  since : Fin 64 → Nat

def Owners.view (w : Owners) : Sockets := ⟨w.fine.tcp, w.entries, w.nextUdpPort⟩

/-- The monitor sees the tables change. -/
def Owners.next (w : Owners) (fine : Fine) (s : Sockets) : Owners :=
  let closes := fun c => w.closes c +
    if (w.fine.tcp.conns c).active && !(s.tcp.conns c).active then 1 else 0
  { fine := { fine with tcp := s.tcp }
    entries := s.entries
    nextUdpPort := s.nextUdpPort
    closes := closes
    since := fun i =>
      if (w.entries i).active then w.since i
      else match (s.entries i).tcpConnId with
        | some c => closes c
        | none => 0 }

/-! ## Steps -/

/-- `connect` up to its first segment. -/
def connectBegin (s : Sockets) (fd : Int) (sa : SockAddr) (addrlen : Nat) : Sockets :=
  match fdToIdx s fd with
  | none => s
  | some i =>
    if addrlen < sockaddrInSize then s
    else
      let s' := s.set i { s.entries i with remoteIp := sa.addr, remotePort := sa.port }
      match (s.entries i).type, (s.entries i).tcpConnId with
      | .tcp, some c => { s' with tcp := connectInit s.tcp c sa.addr sa.port }
      | _, _ => s'

/-- One scan of `accept` and, if it finds a connection, the new socket. -/
def acceptOnce (s : Sockets) (fd : Int) (early : Bool) : Sockets :=
  match fdToIdx s fd with
  | none => s
  | some i =>
    match (s.entries i).type, (s.entries i).tcpConnId with
    | .tcp, some l =>
      match acceptScan s.tcp l early with
      | some c => (wrapAccepted s i c).1
      | none => s
    | _, _ => s

/-- What `TCP::close` does to the connection at its end. -/
inductive Leaving where
  | nothing | finWait1 | lastAck | free

def Leaving.apply (s : TcpSys) (c : Slot) : Leaving → TcpSys
  | .nothing => s
  | .finWait1 => s.update c fun conn => { conn with state := .finWait1 }
  | .lastAck => s.update c fun conn => { conn with state := .lastAck }
  | .free => s.update c fun conn => { conn with active := false, state := .closed }

/-- `TCP::close` leaves the connection in this way. -/
def Leaving.Fits (s : TcpSys) (c : Slot) : Leaving → Prop
  | .nothing => (s.conns c).active = false
  | .finWait1 => (s.conns c).active = true ∧
      ((s.conns c).state = .established ∨ (s.conns c).state = .closeWait)
  | .lastAck => (s.conns c).active = true ∧ (s.conns c).state = .closeWait
  | .free => (s.conns c).state ≠ .established ∧ (s.conns c).state ≠ .closeWait

instance (s : TcpSys) (c : Slot) : (how : Leaving) → Decidable (how.Fits s c)
  | .nothing => inferInstanceAs (Decidable (_ = _))
  | .finWait1 => inferInstanceAs (Decidable (_ ∧ _))
  | .lastAck => inferInstanceAs (Decidable (_ ∧ _))
  | .free => inferInstanceAs (Decidable (_ ∧ _))

/-- The end of `close`. -/
def closeEnd (s : Sockets) (fd : Int) (how : Leaving) : Sockets :=
  match fdToIdx s fd with
  | none => s
  | some i =>
    let tcp := match (s.entries i).type, (s.entries i).tcpConnId with
      | .tcp, some c => how.apply s.tcp c
      | _, _ => s.tcp
    { s with tcp := tcp }.set i { s.entries i with active := false }

inductive SockAct where
  /-- a step inside a call, or of a poll -/
  | net (a : Act)
  | create (domain type : Nat)
  | bind (fd : Int) (sa : SockAddr) (addrlen : Nat)
  | listen (fd : Int)
  | accept (fd : Int) (early : Bool)
  | connect (fd : Int) (sa : SockAddr) (addrlen : Nat)
  | close (fd : Int) (how : Leaving)
  | autoPort (i : Fin 64)
  | packet (d : Datagram)
  | udpRead (i : Fin 64) (len : Nat)

/-- The table steps that socket calls leave to `TCP::send` and `TCP::recv`. -/
def netAct (a : Act) : Bool :=
  a.inner || match a with
    | .sendBegin _ _ | .drain _ _ => true
    | _ => false

/-- The tables after a step that is no table step. -/
def sockCall (s : Sockets) : SockAct → Sockets
  | .net _ => s
  | .create domain type => (create s domain type).1
  | .bind fd sa addrlen => (bind s fd sa addrlen).1
  | .listen fd => (listen s fd).1
  | .accept fd early => acceptOnce s fd early
  | .connect fd sa addrlen => connectBegin s fd sa addrlen
  | .close fd how => closeEnd s fd how
  | .autoPort i => autoPort s i
  | .packet d => socketUdpInput s d
  | .udpRead i len => (udpRead s i len).1

def Owners.step (w : Owners) : SockAct → Option Owners
  | .net a => if netAct a then (w.fine.step a).map fun f =>
    w.next f { w.view with tcp := f.tcp } else none
  | a => if w.fine.idle then some (w.next w.fine (sockCall w.view a)) else none
section
variable {w w' : Owners} {s : Sockets} {t : TcpSys} {c : Slot} {i : Fin 64}

theorem step_net (hstep : w.step (.net a) = some w') :
    netAct a = true ∧ ∃ f, w.fine.step a = some f ∧ w' = w.next f { w.view with tcp := f.tcp } := by
  obtain ⟨ha, hs⟩ := Option.ite_none_right_eq_some.mp hstep
  obtain ⟨f, hf, rfl⟩ := Option.map_eq_some_iff.mp hs
  exact ⟨ha, f, hf, rfl⟩

theorem step_call {a : SockAct} (hn : ∀ b, a ≠ .net b) (hstep : w.step a = some w') :
    w.fine.idle = true ∧ w' = w.next w.fine (sockCall w.view a) := by
  have hs : w.step a = if w.fine.idle then some (w.next w.fine (sockCall w.view a)) else none := by
    cases a <;> first | rfl | exact absurd rfl (hn _)
  rw [hs] at hstep
  obtain ⟨hi, rfl⟩ := of_guard hstep
  exact ⟨hi, rfl⟩

/-! ## What a step does to one connection -/

/-- Nothing that the lookup of segments and the socket calls depend on. -/
structure SamePlace (c c' : TcpConnection) : Prop where
  active : c'.active = c.active
  state : c'.state = c.state
  localPort : c'.localPort = c.localPort
  remoteIp : c'.remoteIp = c.remoteIp
  remotePort : c'.remotePort = c.remotePort

/-- The slot that a step inside a call or of a poll opens, moves on or frees. -/
def touches : Act → Option Slot
  | .segment c _ | .passive c _ | .giveUp c _ => some c
  | _ => none

/-- Connection `c` after a step. -/
inductive PlaceStep (f : Fine) (c : Slot) : Act → TcpConnection → Prop where
  | same {a : Act} {conn : TcpConnection} : touches a ≠ some c → SamePlace (f.tcp.conns c) conn →
      PlaceStep f c a conn
  | segment {seg : InSeg} : (f.tcp.conns c).active = true →
      PlaceStep f c (.segment c seg) (onSegment (f.tcp.conns c) seg).1
  | passive {seg : InSeg} : (f.tcp.conns c).active = false →
      PlaceStep f c (.passive c seg) (passiveConn f.tcp.localIp seg (f.tcp.conns c))
  | giveUp {now : UInt64} : PlaceStep f c (.giveUp c now)
      { f.tcp.conns c with state := .closed, active := false }

theorem SamePlace.refl (c : TcpConnection) : SamePlace c c := ⟨rfl, rfl, rfl, rfl, rfl⟩

theorem afterSend_place (flags : UInt8) (data : List UInt8) (tick : UInt64) (conn : TcpConnection) :
    SamePlace conn (afterSend flags data tick conn) := by
  unfold afterSend
  repeat' split
  all_goals exact ⟨rfl, rfl, rfl, rfl, rfl⟩

theorem update_place {u : TcpConnection → TcpConnection} (hu : ∀ x, SamePlace x (u x)) (j : Slot) :
    SamePlace (t.conns c) ((t.update j u).conns c) := by
  rw [update_conns]
  split
  · exact hu _
  · exact .refl _

theorem land_place (f : Fine) (fl : Flight) (ok : Option UInt64) (c : Slot) :
    SamePlace (f.tcp.conns c) ((f.land fl ok).tcp.conns c) := by
  have ha : SamePlace (f.tcp.conns c) ((fl.account f.tcp ok).conns c) := by
    cases ok with
    | none => exact .refl _
    | some tick => exact update_place (afterSend_place _ _ _) _
  unfold Fine.land
  split
  · rw [update_conns]
    split
    · exact ⟨ha.active, ha.state, ha.localPort, ha.remoteIp, ha.remotePort⟩
    · exact ha
  · split <;> exact ha

/-- Slot `j` was changed: for slot `j` itself the new connection is left to look at. -/
theorem placeStep_update {j : Slot} {u : TcpConnection → TcpConnection}
    (hno : c ≠ j → touches a ≠ some c) (h : c = j → PlaceStep f c a (u (f.tcp.conns c))) :
    PlaceStep f c a ((f.tcp.update j u).conns c) := by
  rw [update_conns]
  split
  · rename_i hc
    exact h hc
  · rename_i hc
    exact .same (hno hc) (.refl _)

theorem place_step {f' : Fine} (ha : netAct a = true) (hstep : f.step a = some f') (c : Slot) :
    PlaceStep f c a (f'.tcp.conns c) := by
  have hno : none ≠ some c := (Option.some_ne_none c).symm
  cases a with
  | segment j seg =>
    obtain ⟨hg, rfl⟩ := of_guard hstep
    dsimp only
    refine placeStep_update (fun hc e => hc (Option.some.inj e).symm) fun hc => ?_
    subst hc
    exact .segment hg.1
  | passive j seg =>
    obtain ⟨hg, rfl⟩ := of_guard hstep
    refine placeStep_update (fun hc e => hc (Option.some.inj e).symm) fun hc => ?_
    subst hc
    exact .passive hg.1
  | giveUp j now =>
    obtain ⟨-, rfl⟩ := of_guard hstep
    dsimp only
    refine placeStep_update (fun hc e => hc (Option.some.inj e).symm) fun hc => ?_
    subst hc
    exact .giveUp
  | control j flags tick =>
    cases hstep
    exact .same hno (update_place (afterSend_place _ _ _) _)
  | answer j sg | sendBegin j data | sendEnd =>
    obtain ⟨-, rfl⟩ := of_guard hstep
    exact .same hno (.refl _)
  | chunk =>
    simp only [Fine.step] at hstep
    split at hstep <;> cases hstep
    exact .same hno (.refl _)
  | synAck j | resend j now =>
    obtain ⟨-, rfl⟩ := of_guard hstep
    dsimp only
    exact placeStep_update (fun _ => hno) fun _ => .same hno ⟨rfl, rfl, rfl, rfl, rfl⟩
  | drain j len =>
    obtain ⟨-, rfl⟩ := of_guard hstep
    dsimp only [recvDrain, mark_conns]
    exact placeStep_update (fun _ => hno) fun _ => .same hno ⟨rfl, rfl, rfl, rfl, rfl⟩
  | handed =>
    obtain ⟨fl, -, rfl⟩ := Option.map_eq_some_iff.mp hstep
    exact .same hno (.refl _)
  | landed ok =>
    obtain ⟨fl, -, rfl⟩ := Option.map_eq_some_iff.mp hstep
    exact .same hno (land_place f fl ok c)
  | cleared j | backoff j now =>
    cases hstep
    dsimp only
    exact placeStep_update (fun _ => hno) fun _ => .same hno ⟨rfl, rfl, rfl, rfl, rfl⟩
  | openConn | bind | listen | connectInit | closing | free => simp [netAct, Act.inner] at ha

/-! ## The calls are steps -/

/-- What the code does where `Owners.step` leaves it open. -/
def Coded (w : Owners) : SockAct → Prop
  | .net a => Demuxed w.fine a
  | .close fd how => ∀ i, fdToIdx w.view fd = some i → (w.entries i).type = .tcp →
      ∀ c, (w.entries i).tcpConnId = some c → how.Fits w.fine.tcp c
  | .autoPort i => (w.entries i).type = .udp
  | _ => True

instance (w : Owners) : (a : SockAct) → Decidable (Coded w a)
  | .net a => inferInstanceAs (Decidable (Demuxed w.fine a))
  | .close fd how => inferInstanceAs (Decidable (∀ i, fdToIdx w.view fd = some i →
      (w.entries i).type = .tcp → ∀ c, (w.entries i).tcpConnId = some c → how.Fits w.fine.tcp c))
  | .autoPort i => inferInstanceAs (Decidable ((w.entries i).type = .udp))
  | .create _ _ | .bind _ _ _ | .listen _ | .accept _ _ | .connect _ _ _ | .packet _ | .udpRead _ _ =>
    .isTrue trivial

def CodeStep (w w' : Owners) : Prop := ∃ act : SockAct, Coded w act ∧ w.step act = some w'

/-- Steps from `w` lead to the tables `s`, the rest of a send and the data
segment in hand. -/
def Steps (w : Owners) (s : Sockets) (sending : Option (Slot × List UInt8))
    (flight : Option Flight) : Prop :=
  ∃ w', ReflTransGen CodeStep w w' ∧
    w'.view = s ∧ w'.fine.sending = sending ∧ w'.fine.flight = flight

theorem Steps.refl (w : Owners) : Steps w w.view w.fine.sending w.fine.flight :=
  ⟨w, .refl, rfl, rfl, rfl⟩

theorem Steps.trans {s' : Sockets} {snd snd' : Option (Slot × List UInt8)} {fl fl' : Option Flight}
    (h : Steps w s snd fl)
    (h' : ∀ v : Owners, v.view = s → v.fine.sending = snd → v.fine.flight = fl →
      Steps v s' snd' fl') : Steps w s' snd' fl' := by
  obtain ⟨v, hv, hs, hsnd, hfl⟩ := h
  obtain ⟨v', hv', h'⟩ := h' v hs hsnd hfl
  exact ⟨v', hv.trans hv', h'⟩

theorem Steps.net (ha : netAct a = true) (hd : Demuxed w.fine a) (h : w.fine.step a = some f) :
    Steps w { w.view with tcp := f.tcp } f.sending f.flight :=
  ⟨w.next f { w.view with tcp := f.tcp }, .single ⟨.net a, hd, by simp [Owners.step, ha, h]⟩, rfl,
    rfl, rfl⟩

theorem inner_steps (h : ReflTransGen InnerStep w.fine f) :
    ∃ w', ReflTransGen CodeStep w w' ∧ w'.fine = f ∧ w'.view = { w.view with tcp := f.tcp } := by
  induction h with
  | refl => exact ⟨w, .refl, rfl, rfl⟩
  | tail _ hstep ih =>
    obtain ⟨a, ha, hd, hstep⟩ := hstep
    obtain ⟨v, hv, rfl, hview⟩ := ih
    rename_i f _
    refine ⟨v.next f { v.view with tcp := f.tcp }, hv.tail ⟨.net a, hd, ?_⟩, rfl, ?_⟩
    · simp [Owners.step, netAct, ha, hstep]
    · show { v.view with tcp := f.tcp } = _
      rw [hview]

theorem Steps.inner {snd : Option (Slot × List UInt8)} {fl : Option Flight}
    (h : Inner w.fine t snd fl) : Steps w { w.view with tcp := t } snd fl := by
  obtain ⟨f, hsteps, rfl, rfl, rfl⟩ := h
  obtain ⟨w', hw', rfl, hview⟩ := inner_steps hsteps
  exact ⟨w', hw', hview, rfl, rfl⟩

/-- No call is running. -/
def Owners.Idle (w : Owners) : Prop := w.fine.sending = none ∧ w.fine.flight = none

theorem Owners.Idle.idle (h : w.Idle) : w.fine.idle = true := by
  simp [Fine.idle, h.1, h.2]

theorem Owners.Idle.refl (h : w.Idle) : Steps w w.view none none := by
  have := Steps.refl w
  rwa [h.1, h.2] at this

theorem Owners.Idle.inner (h : w.Idle) (hi : Inner w.fine t w.fine.sending w.fine.flight) :
    Steps w { w.view with tcp := t } none none := by
  rw [h.1, h.2] at hi
  exact Steps.inner hi

/-- A part of a call that changes the tables at once. -/
theorem Owners.Idle.call (h : w.Idle) (a : SockAct) (hn : ∀ b, a ≠ .net b) (hc : Coded w a) :
    Steps w (sockCall w.view a) none none := by
  refine ⟨w.next w.fine (sockCall w.view a), .single ⟨a, hc, ?_⟩, rfl, h.1, h.2⟩
  cases a <;> first | exact if_pos h.idle | exact absurd rfl (hn _)

theorem create_steps (h : w.Idle) (domain type : Nat) :
    Steps w (create w.view domain type).1 none none :=
  h.call (.create domain type) nofun trivial

theorem bind_steps (h : w.Idle) (fd : Int) (sa : SockAddr) (addrlen : Nat) :
    Steps w (bind w.view fd sa addrlen).1 none none :=
  h.call (.bind fd sa addrlen) nofun trivial

theorem listen_steps (h : w.Idle) (fd : Int) : Steps w (listen w.view fd).1 none none :=
  h.call (.listen fd) nofun trivial

/-- What `accept` does with the result of its wait. -/
def accepted (s : Sockets) (i : Fin 64) (r : TcpSys × Option Slot) : Sockets :=
  match r.2 with
  | none => { s with tcp := r.1 }
  | some c => (wrapAccepted { s with tcp := r.1 } i c).1

theorem scan_steps (h : w.Idle) {l : Slot} {early : Bool} (hi : fdToIdx w.view fd = some i)
    (ht : (w.entries i).type = .tcp) (hl : (w.entries i).tcpConnId = some l)
    (hc : acceptScan w.view.tcp l early = some c) :
    Steps w (accepted w.view i (w.view.tcp, some c)) none none := by
  have hs : Steps w (acceptOnce w.view fd early) none none := h.call (.accept fd early) nofun trivial
  have ht' : (w.view.entries i).type = .tcp := ht
  have hl' : (w.view.entries i).tcpConnId = some l := hl
  simp only [acceptOnce, hi, ht', hl', hc] at hs
  exact hs

theorem acceptWait_steps {l : Slot} (polls : List Polled) (h : w.Idle)
    (hi : fdToIdx w.view fd = some i) (ht : (w.entries i).type = .tcp)
    (hl : (w.entries i).tcpConnId = some l) :
    Steps w (accepted w.view i (acceptWait l w.view.tcp polls)) none none := by
  induction polls generalizing w with
  | nil => exact h.refl
  | cons p ps ih =>
    refine (h.inner (pollSegs_inner w.fine p)).trans fun v hv hsnd hfl => ?_
    have he : v.entries = w.entries := congrArg Sockets.entries hv
    have htcp : v.view.tcp = pollSegs w.view.tcp p := congrArg Sockets.tcp hv
    have hi' : fdToIdx v.view fd = some i := by
      rw [hv]
      exact hi
    have ht' : (v.entries i).type = .tcp := he ▸ ht
    have hl' : (v.entries i).tcpConnId = some l := he ▸ hl
    have hacc : ∀ r, accepted w.view i r = accepted v.view i r := fun r => by
      rw [hv]
      rfl
    rw [hacc, acceptWait, ← htcp]
    split
    · rename_i c hc
      exact scan_steps ⟨hsnd, hfl⟩ hi' ht' hl' hc
    · exact ih ⟨hsnd, hfl⟩ hi' ht' hl'

theorem accept_steps (h : w.Idle) (fd : Int) (polls : List Polled) :
    Steps w (accept w.view fd polls).1 none none := by
  unfold Socket.accept
  split
  · exact h.refl
  rename_i i hi
  split
  · exact h.refl
  rename_i htype
  have ht : (w.entries i).type = .tcp := not_not.mp htype
  split
  · exact h.refl
  rename_i l hl
  have hres : Steps w (accepted w.view i (tcpAccept w.view.tcp l polls)) none none := by
    unfold tcpAccept
    split
    · rename_i c hc
      exact scan_steps h hi ht hl hc
    · exact acceptWait_steps polls h hi ht hl
  unfold accepted at hres
  dsimp only
  split
  · rename_i hr
    rwa [hr] at hres
  · rename_i c hr
    rwa [hr] at hres

theorem connect_steps (h : w.Idle) (fd : Int) (sa : SockAddr) (addrlen : Nat) (run : IpRun)
    (polls : List Polled) : Steps w (connect w.view fd sa addrlen run polls).1 none none := by
  have hb : Steps w (connectBegin w.view fd sa addrlen) none none :=
    h.call (.connect fd sa addrlen) nofun trivial
  unfold connectBegin at hb
  unfold Socket.connect
  split
  · exact h.refl
  rename_i i hi
  rw [hi] at hb
  dsimp only at hb
  split
  · exact h.refl
  rename_i hlen
  rw [if_neg hlen] at hb
  generalize w.view.set i { w.view.entries i with remoteIp := sa.addr, remotePort := sa.port } =
    s' at hb ⊢
  split at hb
  · rename_i c ht hc
    rw [ht, hc]
    refine hb.trans fun v hv hsnd hfl => ?_
    have hidle : v.Idle := ⟨hsnd, hfl⟩
    have htcp : v.fine.tcp = connectInit w.view.tcp c sa.addr sa.port := congrArg Sockets.tcp hv
    refine (hidle.inner (control_inner v.fine c tcpSyn run)).trans fun u hu hsnd hfl => ?_
    have hidle' : u.Idle := ⟨hsnd, hfl⟩
    have hutcp : u.fine.tcp = connectStart w.view.tcp c sa.addr sa.port run := by
      rw [connectStart, ← htcp]
      exact congrArg Sockets.tcp hu
    have hres := hidle'.inner (connectWait_inner u.fine c polls)
    rw [hu, hv, hutcp] at hres
    exact hres
  · rename_i hno
    split
    · rename_i c ht hc
      exact absurd hc (hno c ht)
    all_goals exact hb

theorem send_steps (h : w.Idle) (c : Slot) (buf : List UInt8) (env : List (IpRun × List Round)) :
    Steps w { w.view with tcp := (Tcp.send w.view.tcp c buf env).1 } none none := by
  unfold Tcp.send
  split
  · exact h.refl
  rename_i hst
  have hb := Steps.net (a := .sendBegin c buf) rfl trivial (if_pos ⟨h.idle, not_not.mp hst⟩)
  refine hb.trans fun v hv hsnd hfl => ?_
  have htcp : v.fine.tcp = w.view.tcp := congrArg Sockets.tcp hv
  have hloop : Inner v.fine (sendLoop c buf v.fine.tcp 0 env).1 none none :=
    sendLoop_inner (hfl.trans h.2) hsnd env
  have hres := Steps.inner hloop
  rw [hv, htcp] at hres
  exact hres

theorem sendto_steps (h : w.Idle) (fd : Int) (buf : List UInt8) (dest : Option (SockAddr × Nat))
    (env : SendEnv) : Steps w (sendto w.view fd buf dest env).1 none none := by
  unfold sendto
  split
  · exact h.refl
  rename_i i hi
  split
  · split
    · exact h.refl
    · exact send_steps h _ buf env.tcp
  · rename_i ht
    refine (h.call (.autoPort i) nofun ht).trans fun v hv hsnd hfl => ?_
    have hidle : v.Idle := ⟨hsnd, hfl⟩
    rw [show autoPort w.view i = v.view from hv.symm]
    dsimp only
    unfold sendIp
    split
    split
    · exact hidle.refl
    · exact hidle.inner (pollSegs_inner v.fine _)
  · exact h.refl

theorem packets_steps (h : w.Idle) (ds : List Datagram) :
    Steps w (ds.foldl socketUdpInput w.view) none none := by
  induction ds generalizing w with
  | nil => exact h.refl
  | cons d ds ih =>
    refine (h.call (.packet d) nofun trivial).trans fun v hv hsnd hfl => ?_
    rw [List.foldl_cons, show socketUdpInput w.view d = v.view from hv.symm]
    exact ih ⟨hsnd, hfl⟩

theorem udpWait_steps (h : w.Idle) (i : Fin 64) (ps : List UdpPoll) :
    Steps w (udpWait i w.view ps) none none := by
  induction ps generalizing w with
  | nil => exact h.refl
  | cons p ps ih =>
    unfold udpWait
    split
    · exact h.refl
    split
    · refine (h.inner (pollSegs_inner w.fine p.segs)).trans fun v hv hsnd hfl => ?_
      have hv' : udpPoll w.view p = p.packets.foldl socketUdpInput v.view := by rw [hv]; rfl
      refine (packets_steps ⟨hsnd, hfl⟩ p.packets).trans fun u hu hsnd hfl => ?_
      rw [hv', ← hu]
      exact ih ⟨hsnd, hfl⟩
    · exact h.refl

theorem recv_steps (h : w.Idle) (c : Slot) (len : Nat) (rs : List Round) :
    Steps w { w.view with tcp := (Tcp.recv w.view.tcp c len rs).1 } none none := by
  have hwait := recvWait_inner h.2 c rs
  rw [h.1] at hwait
  unfold Tcp.recv
  dsimp only
  split
  · refine (Steps.inner hwait).trans fun v hv hsnd hfl => ?_
    have htcp : v.fine.tcp = (recvWait c w.view.tcp rs).1 := congrArg Sockets.tcp hv
    have hidle : v.Idle := ⟨hsnd, hfl⟩
    have hd := Steps.net (a := .drain c len) rfl trivial (if_pos hidle.idle)
    rw [hsnd, hfl, hv, htcp] at hd
    exact hd
  · exact Steps.inner hwait

theorem recvfrom_steps (h : w.Idle) (fd : Int) (len : Nat) (env : RecvEnv) :
    Steps w (recvfrom w.view fd len env).1 none none := by
  unfold recvfrom
  split
  · exact h.refl
  rename_i i hi
  split
  · split
    · exact h.refl
    · exact recv_steps h _ len env.tcp
  · split
    · exact h.refl
    refine (udpWait_steps h i env.udp).trans fun v hv hsnd hfl => ?_
    have hidle : v.Idle := ⟨hsnd, hfl⟩
    rw [← hv]
    dsimp only
    split
    · exact hidle.refl
    · exact hidle.call (.udpRead i len) nofun trivial
  · exact h.refl

/-- Received segments leave a connection that is open for sending open, and one
that the peer has closed closed by the peer. -/
theorem quiet_keeps_open {P : InSeg → Prop} {s s' : TcpSys} (h : Quiet P s s')
    (ha : (s.conns c).active = true)
    (hst : (s.conns c).state = .established ∨ (s.conns c).state = .closeWait) :
    (s'.conns c).active = true ∧
    ((s'.conns c).state = .established ∨ (s'.conns c).state = .closeWait) ∧
    ((s.conns c).state = .closeWait → (s'.conns c).state = .closeWait) := by
  induction h with
  | refl => exact ⟨ha, hst, id⟩
  | tail _ hstep ih =>
    obtain ⟨ha', hst', hcw⟩ := ih
    cases hstep with
    | @segment j seg _ _ _ _ =>
      rw [update_conns]
      split
      · rename_i hj
        subst hj
        unfold onSegment
        rcases hst' with he | hc
        · simp only [he]
          repeat' split
          all_goals simp_all
        · simp [hc, ha']
      · exact ⟨ha', hst', hcw⟩
    | @passive j seg _ hj _ _ _ =>
      have hcj : c ≠ j := fun e => absurd ha' (by simp [e, hj])
      rw [mark_conns, update_conns, if_neg hcj]
      exact ⟨ha', hst', hcw⟩
    | record => exact ⟨ha', hst', hcw⟩
    | synAck =>
      rw [update_conns]
      split <;> exact ⟨ha', hst', hcw⟩

/-- So does a send. -/
theorem send_keeps_open (s : TcpSys) (flags : UInt8) (data : List UInt8) (run : IpRun)
    (ha : (s.conns c).active = true)
    (hst : (s.conns c).state = .established ∨ (s.conns c).state = .closeWait) :
    ((sendTcpSegment s c flags data run).1.conns c).active = true ∧
    (((sendTcpSegment s c flags data run).1.conns c).state = .established ∨
      ((sendTcpSegment s c flags data run).1.conns c).state = .closeWait) ∧
    ((s.conns c).state = .closeWait →
      ((sendTcpSegment s c flags data run).1.conns c).state = .closeWait) := by
  obtain ⟨s₁, hq, hres⟩ := sendTcpSegment_cases (fun _ => True) s c flags data run fun _ _ => trivial
  have h := quiet_keeps_open hq ha hst
  rcases hres with e | ⟨-, e⟩ | ⟨-, -, tick, e⟩ <;> rw [e]
  · exact h
  · exact h
  · rw [update_conns, if_pos rfl, record_conns, (afterSend_place _ _ _ _).active,
      (afterSend_place _ _ _ _).state]
    exact h

/-- `TCP::close` sends, if at all, before it leaves the connection. -/
theorem tcpClose_eq (s : TcpSys) (c : Slot) (run : IpRun) : ∃ how : Leaving,
    (how.Fits s c ∧ Tcp.close s c run = how.apply s c) ∨
      (how.Fits (sendTcpSegment s c (tcpFin ||| tcpAck) [] run).1 c ∧
        Tcp.close s c run = how.apply (sendTcpSegment s c (tcpFin ||| tcpAck) [] run).1 c) := by
  unfold Tcp.close
  split
  · rename_i ha
    exact ⟨.nothing, .inl ⟨ha, rfl⟩⟩
  rename_i ha
  have hact : (s.conns c).active = true := by simpa using ha
  split
  · rename_i he
    obtain ⟨ha', hst, -⟩ := send_keeps_open s (tcpFin ||| tcpAck) [] run hact (.inl he)
    exact ⟨.finWait1, .inr ⟨⟨ha', hst⟩, rfl⟩⟩
  split
  · rename_i hcw
    obtain ⟨ha', -, hst⟩ := send_keeps_open s (tcpFin ||| tcpAck) [] run hact (.inr hcw)
    exact ⟨.lastAck, .inr ⟨⟨ha', hst hcw⟩, rfl⟩⟩
  · rename_i he hcw
    exact ⟨.free, .inl ⟨⟨he, hcw⟩, rfl⟩⟩

theorem closeEnd_eq (hi : fdToIdx s fd = some i) (ht : (s.entries i).type = .tcp)
    (hc : (s.entries i).tcpConnId = some c) (how : Leaving) : closeEnd s fd how =
      { s with tcp := how.apply s.tcp c }.set i { s.entries i with active := false } := by
  simp only [closeEnd, hi, ht, hc]

theorem close_steps (h : w.Idle) (fd : Int) (run : IpRun) :
    Steps w (close w.view fd run).1 none none := by
  -- the end of the call, for the connection of the socket
  have hend : ∀ {v : Owners} {i : Fin 64} {c : Slot}, v.Idle → fdToIdx v.view fd = some i →
      (v.entries i).tcpConnId = some c → ∀ how : Leaving, how.Fits v.fine.tcp c →
      Steps v (closeEnd v.view fd how) none none := by
    intro v i c hv hi hc how hfit
    refine hv.call (.close fd how) nofun fun i' hi' _ c' hc' => ?_
    obtain rfl : i = i' := Option.some.inj (hi.symm.trans hi')
    obtain rfl : c = c' := Option.some.inj (hc.symm.trans hc')
    exact hfit
  unfold Socket.close
  split
  · exact h.refl
  rename_i i hi
  dsimp only
  split
  · rename_i c ht hc
    obtain ⟨how, ⟨hfit, he⟩ | ⟨hfit, he⟩⟩ := tcpClose_eq w.view.tcp c run <;> rw [he]
    · rw [← closeEnd_eq hi ht hc how]
      exact hend h hi hc how hfit
    refine (h.inner (control_inner w.fine c (tcpFin ||| tcpAck) run)).trans fun v hv hsnd hfl => ?_
    have hcl := closeEnd_eq (s := { w.view with
      tcp := (sendTcpSegment w.fine.tcp c (tcpFin ||| tcpAck) [] run).1 }) hi ht hc how
    have he' : v.entries = w.entries := congrArg Sockets.entries hv
    have htcp : v.fine.tcp = (sendTcpSegment w.fine.tcp c (tcpFin ||| tcpAck) [] run).1 :=
      congrArg Sockets.tcp hv
    have hs := hend (v := v) (i := i) (c := c) ⟨hsnd, hfl⟩ (by rw [hv]; exact hi)
      (by rw [he']; exact hc)
      how (by rw [htcp]; exact hfit)
    rw [hv, hcl] at hs
    exact hs
  · rename_i hno
    have hcl : Steps w (closeEnd w.view fd .nothing) none none := by
      refine h.call (.close fd .nothing) nofun fun i' hi' ht c hc => ?_
      obtain rfl : i = i' := Option.some.inj (hi.symm.trans hi')
      exact absurd hc (hno c ht)
    unfold closeEnd at hcl
    rw [hi] at hcl
    dsimp only at hcl
    split at hcl
    · rename_i c ht hc
      exact absurd hc (hno c ht)
    · exact hcl

end

end HackersOs.L3.Socket

import HackersOs.L3Net.SocketNames

/-!
# Connection slots that are never freed

A connection that is closed by us first ends in TIME_WAIT, and nothing takes it
out of there. One that the peer closes first ends in LAST_ACK and is freed by the
ACK. A connection that was opened passively and never accepted has no socket that
could close it.

`SlotRun` notes for each slot how its connection came about and was closed, and
the segments it was given. Once all sockets are closed and all peers have done
their part, the slots in use are exactly those of connections that we closed
first or that were never accepted.

Results: `slot_free_iff`; `sixteen_visits`: sixteen connections closed by us
first, and no socket can be opened any more.
-/
namespace HackersOs.L3.Socket
open HackersOs.Core Tcp Net

variable {a : SockAct} {fd : Int} {how : Leaving} {s' : Sockets}

/-! ## The history of a slot -/

inductive Fate where
  | unused
  /-- it has a socket -/
  | held
  | unaccepted
  /-- closed in ESTABLISHED -/
  | weFirst
  /-- closed in CLOSE_WAIT -/
  | peerFirst
  /-- freed by `close` or given up -/
  | dropped
  deriving DecidableEq, Repr

structure SlotLog where
  fate : Fate
  /-- the segments the connection was given -/
  given : List InSeg
  /-- those since it was closed -/
  later : List InSeg

structure SlotRun where
  owners : Owners
  logs : Slot → SlotLog

/-- The slot that `create` opens. -/
def opens (s : Sockets) (domain type : Nat) : Option Slot :=
  if domain = afInet ∧ type = sockStream ∧ firstEntry s ≠ none then firstFree s.tcp.conns else none

/-- The connection of a socket. -/
def connOf (s : Sockets) (fd : Int) : Option Slot :=
  match fdToIdx s fd with
  | none => none
  | some i => if (s.entries i).type = .tcp then (s.entries i).tcpConnId else none

/-- The connection that a scan of `accept` takes. -/
def takes (s : Sockets) (fd : Int) (early : Bool) : Option Slot :=
  match connOf s fd with
  | none => none
  | some l => if firstEntry s ≠ none then acceptScan s.tcp l early else none

def SlotLog.close (l : SlotLog) : Leaving → SlotLog
  | .nothing => l
  | .finWait1 => { l with fate := .weFirst, later := [] }
  | .lastAck => { l with fate := .peerFirst, later := [] }
  | .free => { l with fate := .dropped }

/-- The slot whose log a step changes, and how. -/
def event (s : Sockets) : SockAct → Option (Slot × (SlotLog → SlotLog))
  | .net (.segment c seg) =>
    some (c, fun l => { l with given := l.given ++ [seg], later := l.later ++ [seg] })
  | .net (.passive c _) => some (c, fun _ => ⟨.unaccepted, [], []⟩)
  | .net (.giveUp c _) => some (c, fun l => { l with fate := .dropped })
  | .create domain type => (opens s domain type).map fun c => (c, fun _ => ⟨.held, [], []⟩)
  | .accept fd early => (takes s fd early).map fun c => (c, fun l => { l with fate := .held })
  | .close fd how => (connOf s fd).map fun c => (c, fun l => l.close how)
  | _ => none

def logsAfter (s : Sockets) (logs : Slot → SlotLog) (a : SockAct) : Slot → SlotLog :=
  match event s a with
  | some (c, u) => Function.update logs c (u (logs c))
  | none => logs

def SlotRun.step (r : SlotRun) (a : SockAct) : Option SlotRun :=
  (r.owners.step a).map fun w => ⟨w, logsAfter r.owners.view r.logs a⟩

def slotLTS : LTS SlotRun SockAct where
  init r := (∃ s : Sockets, r.owners.view = s.init ∧ r.owners.fine.idle = true) ∧
    r.logs = fun _ => ⟨.unused, [], []⟩
  step r a r' := Coded r.owners a ∧ r.step a = some r'

/-- Every socket is closed, every connection left has got the FIN of its peer,
and if we sent one ours is acknowledged. -/
structure Settled (r : SlotRun) : Prop where
  closed : ∀ i, (r.owners.entries i).active = false
  fin : ∀ c, (r.owners.fine.tcp.conns c).active = true →
    ∃ seg ∈ (r.logs c).given, has seg.flags tcpFin = true
  ack : ∀ c, (r.owners.fine.tcp.conns c).active = true →
    (r.logs c).fate = .weFirst ∨ (r.logs c).fate = .peerFirst →
    ∃ seg ∈ (r.logs c).later, has seg.flags tcpAck = true ∧
      seg.ack = (r.owners.fine.tcp.conns c).sndNxt

/-! ## What a slot in use is used for -/

/-- The log of slot `c` fits its connection. -/
structure SlotOk (entries : Fin 64 → SocketEntry) (c : Slot) (conn : TcpConnection) (l : SlotLog) :
    Prop where
  live : l.fate = .held ∨ l.fate = .unaccepted ∨ l.fate = .weFirst → conn.active = true
  dead : l.fate = .unused ∨ l.fate = .dropped → conn.active = false
  owned : l.fate = .held → ∃ i, Owns entries i c
  last : conn.active = true → conn.state = .lastAck →
    l.fate = .peerFirst ∧ ∀ seg ∈ l.later, has seg.flags tcpAck = false
  first : conn.active = true → l.fate = .peerFirst → conn.state = .lastAck ∨ ∃ i, Owns entries i c

def SlotsOk (s : Sockets) (logs : Slot → SlotLog) : Prop :=
  ∀ c, SlotOk s.entries c (s.tcp.conns c) (logs c)

section
variable {e e' : Fin 64 → SocketEntry} {c : Slot} {conn conn' : TcpConnection} {l : SlotLog}

/-- The connection keeps its state, and an owner if it has one. -/
theorem SlotOk.same (h : SlotOk e c conn l) (ha : conn'.active = conn.active)
    (hs : conn'.state = conn.state)
    (ho : ∀ i, Owns e i c → ∃ i, Owns e' i c) : SlotOk e' c conn' l := by
  have hown : (∃ i, Owns e i c) → ∃ i, Owns e' i c := fun ⟨i, hi⟩ => ho i hi
  refine ⟨fun hf => ha.trans (h.live hf), fun hf => ha.trans (h.dead hf),
    fun hf => hown (h.owned hf), ?_, ?_⟩
  · rw [ha, hs]
    exact h.last
  · rw [ha, hs]
    exact fun hact hf => (h.first hact hf).imp_right hown

/-- A socket that has the connection sets its state. -/
theorem SlotOk.set (h : SlotOk e c conn l) (ha : conn'.active = conn.active)
    (hs : conn'.state ≠ .lastAck) (ho : ∃ i, Owns e' i c) : SlotOk e' c conn' l :=
  ⟨fun hf => ha.trans (h.live hf), fun hf => ha.trans (h.dead hf), fun _ => ho,
    fun _ hl => absurd hl hs, fun _ _ => .inr ho⟩

theorem onSegment_active (conn : TcpConnection) (seg : InSeg) :
    ((onSegment conn seg).1.active = conn.active ∨ conn.state = .lastAck) ∧
    ((onSegment conn seg).1.state = .lastAck → conn.state = .lastAck ∧ has seg.flags tcpAck = false) ∧
    (conn.state = .lastAck → (onSegment conn seg).1.active = false ∨
      (onSegment conn seg).1.state = .lastAck) := by
  unfold onSegment
  cases hst : conn.state <;> simp only
  all_goals (repeat' split) <;> simp_all

theorem SlotOk.segment (h : SlotOk e c conn l) (ha : conn.active = true) (seg : InSeg) :
    SlotOk e c (onSegment conn seg).1
      { l with given := l.given ++ [seg], later := l.later ++ [seg] } := by
  obtain ⟨hact, hlast, hleave⟩ := onSegment_active conn seg
  have hpeer : conn.state = .lastAck → l.fate = .peerFirst := fun hs => (h.last ha hs).1
  refine ⟨fun hf => ?_, fun hf => ?_, h.owned, fun _ hs => ?_, fun ha' hf => ?_⟩
  · rcases hact with hact | hs
    · exact hact.trans ha
    · simp [hpeer hs] at hf
  · exact absurd (h.dead hf) (by simp [ha])
  · obtain ⟨hs', hno⟩ := hlast hs
    obtain ⟨hf, hall⟩ := h.last ha hs'
    refine ⟨hf, fun x hx => ?_⟩
    rcases List.mem_append.mp hx with hx | hx
    · exact hall x hx
    · rw [List.mem_singleton.mp hx]
      exact hno
  · rcases h.first ha hf with hs | ho
    · exact .inl ((hleave hs).resolve_left (by simp [ha']))
    · exact .inr ho

theorem SlotOk.close {s : TcpSys} (h : SlotOk e c (s.conns c) l) (hfit : how.Fits s c) :
    SlotOk e' c ((how.apply s c).conns c) (l.close how) := by
  cases how with
  | nothing =>
    have hdead : (s.conns c).active = false := hfit
    refine ⟨h.live, h.dead, fun hf => ?_, fun ha => ?_, fun ha => ?_⟩
    · exact absurd (h.live (.inl hf)) (by simp [hdead])
    all_goals exact absurd ha (by simp [Leaving.apply, hdead])
  | finWait1 =>
    have ha : (s.conns c).active = true := hfit.1
    constructor <;> simp [SlotLog.close, Leaving.apply, ha]
  | lastAck =>
    constructor <;> simp [SlotLog.close, Leaving.apply]
  | free => constructor <;> simp [SlotLog.close, Leaving.apply]

end

/-! ## Steps -/

section
variable {s : Sockets} {c : Slot} {i : Fin 64}

theorem connOf_owns : connOf s fd = some c ↔ ∃ i, fdToIdx s fd = some i ∧ Owns s.entries i c := by
  unfold connOf
  cases hi : fdToIdx s fd with
  | none => simp
  | some i =>
    have hact := fdToIdx_active hi
    simp [Owns, hact]

theorem connOf_none (hi : fdToIdx s fd = some i) (hno : ∀ c, ¬ Owns s.entries i c) :
    connOf s fd = none := by
  rw [Option.eq_none_iff_forall_ne_some]
  intro c hc
  obtain ⟨j, hj, ho⟩ := connOf_owns.mp hc
  obtain rfl : i = j := Option.some.inj (hi.symm.trans hj)
  exact hno c ho

/-- An entry that was not in use changes: every owner stays. -/
theorem Owns.set_free {e : SocketEntry} (hi : firstEntry s = some i) {j : Fin 64}
    (ho : Owns s.entries j c) : Owns (s.set i e).entries j c := by
  have hj : j ≠ i := by
    rintro rfl
    exact absurd ho.1 (by simp [firstEntry_free hi])
  unfold Owns
  simp only [Sockets.set, Function.update_of_ne hj]
  exact ho

/-- A change that has nothing to do with ownership. -/
theorem owns_set {e : SocketEntry} (he : SameOwner (s.entries i) e) (j : Fin 64) (c : Slot)
    (ho : Owns s.entries j c) : Owns (s.set i e).entries j c := by
  obtain ⟨ha, ht, hid⟩ := set_same he j
  exact ⟨ha.trans ho.1, ht.trans ho.2.1, hid.trans ho.2.2⟩

end

section
variable {s : Sockets} {logs : Slot → SlotLog} {c : Slot} {i : Fin 64}

theorem logsAfter_none (h : event s a = none) : logsAfter s logs a = logs := by
  unfold logsAfter
  rw [h]

theorem logsAfter_some {u : SlotLog → SlotLog} (h : event s a = some (c, u)) :
    logsAfter s logs a = Function.update logs c (u (logs c)) := by
  unfold logsAfter
  rw [h]

theorem logsAfter_net {a : Act} (h : touches a ≠ some c) : logsAfter s logs (.net a) c = logs c := by
  cases a <;> try rfl
  all_goals
    refine Function.update_of_ne (fun hd => h ?_) _ _
    rw [hd]
    rfl

theorem SlotsOk.net {f f' : Fine} {a : Act} (h : SlotsOk { s with tcp := f.tcp } logs)
    (ha : netAct a = true)
    (hstep : f.step a = some f') : SlotsOk { s with tcp := f'.tcp } (logsAfter s logs (.net a)) := by
  intro c
  have hc := h c
  have hplace := place_step ha hstep c
  generalize f'.tcp.conns c = conn at hplace
  cases hplace with
  | same hno hs =>
    rw [logsAfter_net hno]
    exact hc.same hs.active hs.state fun i hi => ⟨i, hi⟩
  | segment hact =>
    rw [logsAfter_some rfl, Function.update_self]
    exact hc.segment hact _
  | passive _ =>
    rw [logsAfter_some rfl, Function.update_self]
    constructor <;> simp [passiveConn]
  | giveUp =>
    rw [logsAfter_some rfl, Function.update_self]
    constructor <;> simp

/-- The connections keep their states, and every owner stays. -/
theorem SlotsOk.keep (h : SlotsOk s logs)
    (hc : ∀ c, (s'.tcp.conns c).active = (s.tcp.conns c).active ∧
      (s'.tcp.conns c).state = (s.tcp.conns c).state)
    (ho : ∀ i c, Owns s.entries i c → Owns s'.entries i c) : SlotsOk s' logs :=
  fun c => (h c).same (hc c).1 (hc c).2 fun i hi => ⟨i, ho i c hi⟩

/-- One connection changes, and its log or not; every owner of another stays. -/
theorem SlotsOk.change (h : SlotsOk s logs) {l : SlotLog} (c : Slot)
    (hc : SlotOk s'.entries c (s'.tcp.conns c) l) (hd : ∀ d, d ≠ c → s'.tcp.conns d = s.tcp.conns d)
    (ho : ∀ i d, d ≠ c → Owns s.entries i d → Owns s'.entries i d) :
    SlotsOk s' (Function.update logs c l) := by
  intro d
  by_cases hdc : d = c
  · subst hdc
    rw [Function.update_self]
    exact hc
  · rw [Function.update_of_ne hdc, hd d hdc]
    exact (h d).same rfl rfl fun i hi => ⟨i, ho i d hdc hi⟩

theorem SlotsOk.create (h : SlotsOk s logs) (domain type : Nat) :
    SlotsOk (create s domain type).1 (logsAfter s logs (.create domain type)) := by
  have hev : event s (.create domain type) =
      (opens s domain type).map fun c => (c, fun _ => ⟨.held, [], []⟩) := rfl
  unfold Socket.create
  by_cases hd : domain = afInet
  swap
  · rw [if_pos hd, logsAfter_none (by simp [hev, opens, hd])]
    exact h
  rw [if_neg (not_not.mpr hd)]
  cases ht : sockTypeOf type with
  | none =>
    have htype : type ≠ sockStream := fun e => by
      rw [(sockTypeOf_tcp type).mpr e] at ht
      cases ht
    rw [logsAfter_none (by simp [hev, opens, htype])]
    exact h
  | some st =>
    dsimp only
    cases hi : firstEntry s with
    | none =>
      rw [logsAfter_none (by simp [hev, opens, hi])]
      exact h
    | some i =>
      cases st with
      | tcp =>
        have htype := (sockTypeOf_tcp type).mp ht
        have hopens : opens s domain type = firstFree s.tcp.conns := by simp [opens, hd, htype, hi]
        cases hc : (openConn s.tcp).2 with
        | none =>
          rw [logsAfter_none (by rw [hev, hopens, ← openConn_snd, hc]; rfl)]
          refine h.keep (fun c => ?_) fun j c ho => ho.set_free hi
          rw [set_tcp, openConn_none hc]
          exact ⟨rfl, rfl⟩
        | some c =>
          rw [logsAfter_some (by rw [hev, hopens, ← openConn_snd, hc]; rfl)]
          obtain ⟨hnew, -, hother⟩ := openConn_some hc
          refine h.change c ?_ hother fun j d _ ho => ho.set_free hi
          rw [set_tcp, hnew]
          constructor <;> simp [zeroConn, Owns]
          exact ⟨i, by simp⟩
      | udp | raw | none =>
        have htype : type ≠ sockStream := fun e => by
          rw [(sockTypeOf_tcp type).mpr e] at ht
          cases ht
        rw [logsAfter_none (by simp [hev, opens, htype])]
        exact h.keep (fun _ => ⟨rfl, rfl⟩) fun j c ho => ho.set_free hi

theorem SlotsOk.bind (h : SlotsOk s logs) (fd : Int) (sa : SockAddr) (addrlen : Nat) :
    SlotsOk (bind s fd sa addrlen).1 logs := by
  apply (bind_call s fd sa addrlen).keeps (Q := fun s' => SlotsOk s' logs) h
  · intro i
    exact h.keep (fun _ => ⟨rfl, rfl⟩) (owns_set ⟨rfl, rfl, rfl⟩)
  intro i c _
  refine h.keep (fun d => ?_) (owns_set ⟨rfl, rfl, rfl⟩)
  dsimp only [Tcp.bind, mark_conns]
  rw [update_conns]
  split <;> exact ⟨rfl, rfl⟩

/-- A socket that has connection `c` sets its state. -/
theorem SlotsOk.set_state (h : SlotsOk s logs) (ho : Owns s.entries i c)
    (ha : (s'.tcp.conns c).active = (s.tcp.conns c).active) (hs : (s'.tcp.conns c).state ≠ .lastAck)
    (hd : ∀ d, d ≠ c → s'.tcp.conns d = s.tcp.conns d)
    (hown : ∀ i d, Owns s.entries i d → Owns s'.entries i d) : SlotsOk s' logs := by
  have hch := h.change c ((h c).set ha hs ⟨i, hown i c ho⟩) hd fun i d _ => hown i d
  rwa [Function.update_eq_self] at hch

theorem SlotsOk.listen (h : SlotsOk s logs) (fd : Int) : SlotsOk (listen s fd).1 logs := by
  unfold Socket.listen
  split
  · exact h
  rename_i i hi
  split
  · exact h
  rename_i ht
  split
  · exact h
  rename_i c hc
  exact h.set_state ⟨fdToIdx_active hi, not_not.mp ht, hc⟩ (by simp [Tcp.listen])
    (by simp [Tcp.listen])
    (fun d hd => by simp [Tcp.listen, hd]) fun _ _ ho => ho

theorem SlotsOk.connect (h : SlotsOk s logs) (fd : Int) (sa : SockAddr) (addrlen : Nat) :
    SlotsOk (connectBegin s fd sa addrlen) logs := by
  apply (connectBegin_call s fd sa addrlen).keeps (Q := fun s' => SlotsOk s' logs) h
  · intro i
    exact h.keep (fun _ => ⟨rfl, rfl⟩) (owns_set ⟨rfl, rfl, rfl⟩)
  · intro i c ho
    exact h.set_state ho (by simp [connectInit]) (by simp [connectInit])
      (fun d hd => by simp [connectInit, hd]) (owns_set ⟨rfl, rfl, rfl⟩)

theorem SlotsOk.accept (h : SlotsOk s logs) (fd : Int) (early : Bool) :
    SlotsOk (acceptOnce s fd early) (logsAfter s logs (.accept fd early)) := by
  have hev : event s (.accept fd early) =
      (takes s fd early).map fun c => (c, fun l => { l with fate := .held }) := rfl
  unfold acceptOnce
  cases hi : fdToIdx s fd with
  | none =>
    rw [logsAfter_none (by simp [hev, takes, connOf, hi])]
    exact h
  | some i =>
    have hact := fdToIdx_active hi
    dsimp only
    split
    · rename_i l ht hl
      have hconn : connOf s fd = some l := connOf_owns.mpr ⟨i, hi, hact, ht, hl⟩
      cases hscan : acceptScan s.tcp l early with
      | none =>
        rw [logsAfter_none (by simp [hev, takes, hconn, hscan])]
        exact h
      | some c =>
        unfold wrapAccepted
        cases hj : firstEntry s with
        | none =>
          rw [logsAfter_none (by simp [hev, takes, hconn, hj])]
          exact h
        | some j =>
          rw [logsAfter_some (c := c) (u := fun l => { l with fate := .held })
            (by simp [hev, takes, hconn, hj, hscan])]
          obtain ⟨ha, hs⟩ := acceptScan_held hscan
          refine h.change c ?_ (fun _ _ => rfl) fun k d _ ho => ho.set_free hj
          rw [set_tcp]
          refine ⟨fun _ => ha, by simp, fun _ => ⟨j, by simp [Owns]⟩, fun _ hl => absurd hl hs,
            by simp⟩
    · rename_i hno
      have hconn := connOf_none hi fun c ho => hno c ho.2.1 ho.2.2
      rw [logsAfter_none (by simp [hev, takes, hconn])]
      exact h

theorem SlotsOk.close (h : SlotsOk s logs)
    (hfit : ∀ i, fdToIdx s fd = some i → (s.entries i).type = .tcp →
      ∀ c, (s.entries i).tcpConnId = some c → how.Fits s.tcp c) :
    SlotsOk (closeEnd s fd how) (logsAfter s logs (.close fd how)) := by
  have hev : event s (.close fd how) = (connOf s fd).map fun c => (c, fun l => l.close how) := rfl
  unfold closeEnd
  cases hi : fdToIdx s fd with
  | none =>
    rw [logsAfter_none (by simp [hev, connOf, hi])]
    exact h
  | some i =>
    have hact := fdToIdx_active hi
    -- the other sockets keep theirs
    have hother : ∀ j d, Owns s.entries j d → ¬ Owns s.entries i d →
        Owns (s.set i { s.entries i with active := false }).entries j d := by
      intro j d ho hno
      have hj : j ≠ i := fun e => hno (e ▸ ho)
      unfold Owns
      simp only [Sockets.set, Function.update_of_ne hj]
      exact ho
    dsimp only
    split
    · rename_i c ht hc
      have hconn : connOf s fd = some c := connOf_owns.mpr ⟨i, hi, hact, ht, hc⟩
      rw [logsAfter_some (by rw [hev, hconn]; rfl)]
      refine h.change c ((h c).close (hfit i hi ht c hc))
        (fun d hd => ?_) fun j d hd ho => hother j d ho fun hid => ?_
      · rw [set_tcp]
        cases how <;> simp [Leaving.apply, hd]
      · exact hd (Option.some.inj (hid.2.2.symm.trans hc))
    · rename_i hno
      have hnone : ∀ d, ¬ Owns s.entries i d := fun d ho => hno d ho.2.1 ho.2.2
      have hconn := connOf_none hi hnone
      rw [logsAfter_none (by rw [hev, hconn]; rfl)]
      exact h.keep (fun _ => ⟨rfl, rfl⟩) fun j d ho => hother j d ho (hnone d)

theorem SlotsOk.autoPort (h : SlotsOk s logs) (i : Fin 64) : SlotsOk (autoPort s i) logs := by
  unfold Socket.autoPort
  split
  · refine h.keep (fun _ => ⟨rfl, rfl⟩) (owns_set (s := s) ?_)
    exact ⟨rfl, rfl, rfl⟩
  · exact h

theorem SlotsOk.packet (h : SlotsOk s logs) (d : Datagram) : SlotsOk (socketUdpInput s d) logs := by
  unfold socketUdpInput
  split
  · exact h
  · refine h.keep (fun _ => ⟨rfl, rfl⟩) (owns_set ?_)
    exact ⟨rfl, rfl, rfl⟩

theorem SlotsOk.udpRead (h : SlotsOk s logs) (i : Fin 64) (len : Nat) :
    SlotsOk (udpRead s i len).1 logs := by
  unfold Socket.udpRead
  split
  · exact h
  · refine h.keep (fun _ => ⟨rfl, rfl⟩) (owns_set ?_)
    exact ⟨rfl, rfl, rfl⟩

theorem SlotsOk.call (h : SlotsOk s logs) {w : Owners} (hw : w.view = s) {a : SockAct}
    (hcode : Coded w a) (hn : ∀ b, a ≠ .net b) : SlotsOk (sockCall s a) (logsAfter s logs a) := by
  subst hw
  cases a with
  | net b => exact absurd rfl (hn b)
  | create domain type => exact h.create domain type
  | bind fd sa addrlen => exact h.bind fd sa addrlen
  | listen fd => exact h.listen fd
  | accept fd early => exact h.accept fd early
  | connect fd sa addrlen => exact h.connect fd sa addrlen
  | close fd how => exact h.close hcode
  | autoPort i => exact h.autoPort i
  | packet d => exact h.packet d
  | udpRead i len => exact h.udpRead i len

end

/-! ## All runs -/

section
variable {r : SlotRun}

theorem slotsOk_inductive : slotLTS.Inductive fun r => SlotsOk r.owners.view r.logs where
  init r hr c := by
    obtain ⟨⟨s, hs, -⟩, hlogs⟩ := hr
    rw [hs, hlogs]
    constructor <;> simp [Sockets.init, TcpSys.init, zeroConn]
  step r a r' h hstep := by
    obtain ⟨hcode, hstep⟩ := hstep
    obtain ⟨w, hw, rfl⟩ := Option.map_eq_some_iff.mp hstep
    by_cases hn : ∃ b, a = .net b
    · obtain ⟨b, rfl⟩ := hn
      obtain ⟨hb, f, hf, rfl⟩ := step_net hw
      exact SlotsOk.net (s := r.owners.view) h hb hf
    · obtain ⟨-, rfl⟩ := step_call (fun b e => hn ⟨b, e⟩) hw
      exact h.call rfl hcode fun b e => hn ⟨b, e⟩

/-- A slot in use with all sockets closed. -/
theorem SlotOk.settled {e : Fin 64 → SocketEntry} {c : Slot} {conn : TcpConnection} {l : SlotLog}
    (h : SlotOk e c conn l) (hno : ∀ i, ¬ Owns e i c)
    (hack : conn.active = true → l.fate = .peerFirst → ∃ seg ∈ l.later, has seg.flags tcpAck = true) :
    conn.active = true ↔ l.fate = .weFirst ∨ l.fate = .unaccepted := by
  constructor
  · intro ha
    cases hf : l.fate with
    | unused => exact absurd (h.dead (.inl hf)) (by simp [ha])
    | dropped => exact absurd (h.dead (.inr hf)) (by simp [ha])
    | held =>
      obtain ⟨i, hi⟩ := h.owned hf
      exact absurd hi (hno i)
    | unaccepted => exact .inr rfl
    | weFirst => exact .inl rfl
    | peerFirst =>
      -- the ACK has freed it
      obtain ⟨seg, hseg, hflag⟩ := hack ha hf
      rcases h.first ha hf with hs | ⟨i, hi⟩
      · exact absurd ((h.last ha hs).2 seg hseg) (by simp [hflag])
      · exact absurd hi (hno i)
  · rintro (hf | hf)
    · exact h.live (.inr (.inr hf))
    · exact h.live (.inr (.inl hf))

/-- With all sockets closed and all peers done, `TCP::open` returns a slot
exactly if some slot's connection was neither closed by us first nor left
unaccepted. -/
theorem slot_free_iff (hr : slotLTS.Reachable r) (hs : Settled r) :
    (openConn r.owners.fine.tcp).2 ≠ none ↔
      ∃ c, (r.logs c).fate ≠ .weFirst ∧ (r.logs c).fate ≠ .unaccepted := by
  have hok := slotsOk_inductive.reachable r hr
  have huse : ∀ c, (r.owners.fine.tcp.conns c).active = true ↔
      (r.logs c).fate = .weFirst ∨ (r.logs c).fate = .unaccepted := by
    intro c
    refine SlotOk.settled (hok c) (fun i ho => ?_) fun ha hf => ?_
    · exact absurd ho.1 (by simp [Owners.view, hs.closed i])
    · obtain ⟨seg, hseg, hflag, -⟩ := hs.ack c ha (.inr hf)
      exact ⟨seg, hseg, hflag⟩
  rw [openConn_snd]
  unfold firstFree
  rw [ne_eq, List.find?_eq_none]
  simp only [List.mem_finRange, forall_true_left, Bool.not_eq_true, not_forall, Bool.not_eq_false',
    huse, not_or]

end

/-! ### Visits to a server -/

def bootSlots : SlotRun := ⟨bootOwners, fun _ => ⟨.unused, [], []⟩⟩

def SlotRun.run : SlotRun → List SockAct → Option SlotRun
  | r, [] => some r
  | r, a :: as => if Coded r.owners a then (r.step a).bind fun r' => r'.run as else none

theorem SlotRun.run_reachable {r r' : SlotRun} {as : List SockAct} (hr : slotLTS.Reachable r)
    (h : r.run as = some r') : slotLTS.Reachable r' := by
  induction as generalizing r with
  | nil => exact Option.some.inj h ▸ hr
  | cons a as ih =>
    obtain ⟨ha, hs⟩ := Option.ite_none_right_eq_some.mp h
    obtain ⟨v, hv, hrest⟩ := Option.bind_eq_some_iff.mp hs
    exact ih (hr.step ⟨ha, hv⟩) hrest

theorem bootSlots_reachable : slotLTS.Reachable bootSlots :=
  ⟨bootSlots, [], ⟨⟨bootSockets, rfl, rfl⟩, rfl⟩, .nil _⟩

/-- A segment of the server to the client in slot `c`. -/
def toClient (c : Slot) (seq ack : UInt32) (flags : UInt8) : InSeg :=
  { serverSeg seq ack flags [] with dstPort := 49152 + UInt16.ofNat c.val }

/-- `socket`, `connect`, and the connection is in slot `c`. -/
def visit (c : Slot) : List SockAct :=
  [.create afInet sockStream, .connect 100 ⟨80, 0x0A000202⟩ sockaddrInSize,
   .net (.control c tcpSyn 0),
   .net (.segment c (toClient c 5000 1001 (tcpSyn ||| tcpAck)))]

/-- `close`, and the server closes too. -/
def leaveFirst (c : Slot) : List SockAct :=
  [.net (.control c (tcpFin ||| tcpAck) 0), .close 100 .finWait1,
   .net (.segment c (toClient c 5001 1002 (tcpFin ||| tcpAck)))]

/-- The server closes, then `close`. -/
def leaveLast (c : Slot) : List SockAct :=
  [.net (.segment c (toClient c 5001 1001 (tcpFin ||| tcpAck))),
   .net (.control c (tcpFin ||| tcpAck) 0),
   .close 100 .lastAck, .net (.segment c (toClient c 5002 1002 tcpAck))]

instance (r : SlotRun) : Decidable (Settled r) :=
  decidable_of_iff (_ ∧ _ ∧ _)
    ⟨fun h => ⟨h.1, h.2.1, h.2.2⟩, fun h => ⟨h.closed, h.fin, h.ack⟩⟩

/-- A connection that the server closes first is freed. -/
theorem slot_freed : ∃ r, slotLTS.Reachable r ∧ Settled r ∧ (r.logs 0).fate = .peerFirst ∧
    (openConn r.owners.fine.tcp).2 ≠ none := by
  have h : ((bootSlots.run (visit 0 ++ leaveLast 0)).map fun r =>
      decide (Settled r ∧ (r.logs 0).fate = .peerFirst)) = some true := by decide +kernel
  obtain ⟨r, hrun, hfacts⟩ := Option.map_eq_some_iff.mp h
  obtain ⟨hs, hf⟩ := of_decide_eq_true hfacts
  have hr := SlotRun.run_reachable bootSlots_reachable hrun
  exact ⟨r, hr, hs, hf, (slot_free_iff hr hs).mpr ⟨0, by simp [hf]⟩⟩

/-- A visit that we end first, as the calls and the poll after them. -/
def visitCalls (s : Sockets) (c : Slot) : Sockets :=
  let s := (create s afInet sockStream).1
  let s := (connect s 100 ⟨80, 0x0A000202⟩ sockaddrInSize (sentAt 0)
    [.cons (toClient c 5000 1001 (tcpSyn ||| tcpAck)) (sentAt 0) .nil]).1
  let s := (close s 100 (sentAt 0)).1
  { s with tcp := pollSegs s.tcp (.cons (toClient c 5001 1002 (tcpFin ||| tcpAck)) (sentAt 0) .nil) }

/-- Sixteen visits that we end first: all slots are in TIME_WAIT, and `socket`
fails. -/
theorem sixteen_visits :
    (∃ r, slotLTS.Reachable r ∧ Settled r ∧ (∀ c, (r.owners.fine.tcp.conns c).state = .timeWait) ∧
      (openConn r.owners.fine.tcp).2 = none) ∧
    (create ((List.finRange 16).foldl visitCalls bootSockets) afInet sockStream).2 = linuxEnomem := by
  have h : ((bootSlots.run ((List.finRange 16).flatMap fun c => visit c ++ leaveFirst c)).map fun r =>
      decide (Settled r ∧ (∀ c, (r.owners.fine.tcp.conns c).state = .timeWait) ∧
        (openConn r.owners.fine.tcp).2 = none)) = some true := by decide +kernel
  obtain ⟨r, hrun, hfacts⟩ := Option.map_eq_some_iff.mp h
  exact ⟨⟨r, SlotRun.run_reachable bootSlots_reachable hrun, of_decide_eq_true hfacts⟩,
    by decide +kernel⟩

end HackersOs.L3.Socket

import Mathlib.Logic.Relation
import HackersOs.Core.LTS
import HackersOs.L3Net.Tcp

/-!
# What the TCP code can do, step by step

`Atom P` lists the indivisible updates that handling received segments is made
of (all segments satisfying `P`): a matched connection takes a segment, a free
slot is opened passively, an answer without data is handed to the device, the
SYN of a passive open is counted. `pollSegs_quiet`: a poll, with everything it
sends and polls in turn, is a sequence of atoms. `sendTcpSegment_cases`: a send
is such a sequence, then the segment handed to the device, then the
bookkeeping. Invariants of the runs are proved per atom.

`tcpLTS` is the system: the calls of `tcp.cpp` in pieces between which other
pieces may run.
-/
namespace HackersOs.L3.Tcp
open HackersOs.Core Relation

/-! ## Atoms -/

mutual
/-- All segments handled during a send. -/
def IpRun.segs : IpRun → List InSeg
  | .mk polled _ _ => polled.segs
/-- All segments of a poll, with those handled while it answers. -/
def Polled.segs : Polled → List InSeg
  | .nil => []
  | .cons seg reply rest => seg :: (reply.segs ++ rest.segs)
end

def IpRun.res : IpRun → SendRes
  | .mk _ res _ => res

/-- The segment belongs to the connection. -/
def Matches (c : TcpConnection) (seg : InSeg) : Prop :=
  c.remoteIp = seg.srcIp ∧ c.remotePort = seg.srcPort ∧ c.localPort = seg.dstPort

inductive Atom (P : InSeg → Prop) : TcpSys → TcpSys → Prop where
  | segment {s : TcpSys} {i : Slot} {seg : InSeg} : P seg → (s.conns i).active = true →
      Matches (s.conns i) seg → (∃ l, scan s.conns seg (List.finRange 16) none = (some i, l)) →
      Atom P s (s.update i fun _ => (onSegment (s.conns i) seg).1)
  | passive {s : TcpSys} {i : Slot} {seg : InSeg} : P seg → (s.conns i).active = false →
      has seg.flags tcpSyn = true → firstFree s.conns = some i →
      (∃ l, scan s.conns seg (List.finRange 16) none = (none, some l)) →
      Atom P s ((s.update i (passiveConn s.localIp seg)).mark i fun _ => ⟨.accepted, [], [], []⟩)
  | record {s : TcpSys} {i : Slot} {sg : Segment} : sg.data = [] →
      Atom P s (s.record i sg)
  | synAck {s : TcpSys} {i : Slot} : (s.ghost i).phase = .accepted →
      Atom P s (s.update i fun c => { c with sndNxt := c.sndNxt + 1 })

abbrev Quiet (P : InSeg → Prop) : TcpSys → TcpSys → Prop := ReflTransGen (Atom P)

section
variable {P : InSeg → Prop} {s s' : TcpSys} {i j : Slot}

@[simp] theorem update_conns (f : TcpConnection → TcpConnection) :
    (s.update i f).conns j = if j = i then f (s.conns j) else s.conns j := rfl

@[simp] theorem update_ghost (f : TcpConnection → TcpConnection) :
    (s.update i f).ghost = s.ghost := rfl

@[simp] theorem mark_conns (f : Ghost → Ghost) : (s.mark i f).conns = s.conns := rfl

@[simp] theorem record_conns (sg : Segment) : (s.record i sg).conns = s.conns := rfl

@[simp] theorem record_ghost (sg : Segment) : (s.record i sg).ghost j =
    if j = i then { s.ghost j with sent := (s.ghost j).sent ++ [sg] } else s.ghost j := rfl

@[simp] theorem mark_ghost (f : Ghost → Ghost) :
    (s.mark i f).ghost j = if j = i then f (s.ghost j) else s.ghost j := rfl

theorem update_self {f : TcpConnection → TcpConnection} (h : ∀ c, c = s.conns i → f c = c) :
    s.update i f = s := by
  obtain ⟨conns, port, ip, ghost⟩ := s
  simp only [TcpSys.update, TcpSys.mk.injEq, and_true]
  funext j
  split
  · rename_i hj
    subst hj
    exact h _ rfl
  · rfl

theorem scan_some {seg : InSeg} {is : List Slot} {l l' : Option Slot}
    (h : scan s.conns seg is l = (some i, l')) :
    (s.conns i).active = true ∧ Matches (s.conns i) seg := by
  induction is generalizing l with
  | nil => cases h
  | cons k is ih =>
    simp only [scan] at h
    split at h
    · exact ih h
    rename_i ha
    split at h
    · rename_i hm
      cases h
      exact ⟨by simpa using ha, hm⟩
    · exact ih h

theorem firstFree_some (h : firstFree s.conns = some i) : (s.conns i).active = false := by
  simpa using List.find?_some h

/-- `tcp_input` up to its answer is at most one atom; what it answers is an ACK,
or the SYN of a passive open. -/
theorem react_cases (s : TcpSys) (seg : InSeg) (hP : P seg) :
    ((react s seg).2 = none ∧ Quiet P s (react s seg).1) ∨
    ∃ i flags, (react s seg).2 = some (i, flags) ∧ Atom P s (react s seg).1 ∧
      (flags = tcpAck ∨ (flags = tcpSyn ||| tcpAck ∧
        ((react s seg).1.ghost i).phase = .accepted)) := by
  unfold react
  split
  · rename_i i l hscan
    obtain ⟨ha, hm⟩ := scan_some hscan
    have hatom : Atom P s (s.update i fun _ => (onSegment (s.conns i) seg).1) :=
      .segment hP ha hm ⟨l, hscan⟩
    dsimp only
    split
    · exact .inr ⟨i, tcpAck, rfl, hatom, .inl rfl⟩
    · exact .inl ⟨rfl, .single hatom⟩
  · rename_i l hscan
    split
    · rename_i hsyn
      split
      · rename_i i hfree
        have hatom := Atom.passive hP (firstFree_some hfree) hsyn hfree ⟨l, hscan⟩
        exact .inr ⟨i, _, rfl, hatom, .inr ⟨rfl, by simp⟩⟩
      · exact .inl ⟨rfl, .refl⟩
    · exact .inl ⟨rfl, .refl⟩
  · exact .inl ⟨rfl, .refl⟩

theorem Atom.accepted (h : Atom P s s') (hi : (s.ghost i).phase = .accepted) :
    (s'.ghost i).phase = .accepted := by
  cases h with
  | segment => exact hi
  | passive =>
    simp only [mark_ghost, update_ghost]
    split
    · rfl
    · exact hi
  | record =>
    simp only [record_ghost]
    split <;> exact hi
  | synAck => exact hi

theorem Quiet.accepted (h : Quiet P s s') (hi : (s.ghost i).phase = .accepted) :
    (s'.ghost i).phase = .accepted := by
  induction h with
  | refl => exact hi
  | tail _ hstep ih => exact hstep.accepted ih

/-- A poll opens no slot with `TCP::open`. -/
theorem Quiet.opened (h : Quiet P s s')
    (hi : (s'.ghost i).phase = .opened) : (s.ghost i).phase = .opened := by
  induction h with
  | refl => exact hi
  | tail _ hstep ih =>
    refine ih ?_
    cases hstep with
    | segment => exact hi
    | passive =>
      simp only [mark_ghost, update_ghost] at hi
      split at hi
      · cases hi
      · exact hi
    | record =>
      simp only [record_ghost] at hi
      split at hi <;> exact hi
    | synAck => exact hi

/-- What is left of an answer after its polls: hand it to the device and count
a SYN. -/
theorem answer_quiet {flags : UInt8} {sg : Segment} {tick : UInt64} (hsg : sg.data = [])
    (hflags : flags = tcpAck ∨ (flags = tcpSyn ||| tcpAck ∧ (s.ghost i).phase = .accepted)) :
    Quiet P s ((s.record i sg).update i (afterSend flags [] tick)) := by
  have hrec : Atom P s (s.record i sg) := .record hsg
  rcases hflags with rfl | ⟨rfl, hacc⟩
  · have hid : (s.record i sg).update i (afterSend tcpAck [] tick) = s.record i sg :=
      update_self fun c _ => rfl
    rw [hid]
    exact .single hrec
  · exact .head hrec (.single (.synAck (by simpa using hacc)))

mutual
theorem answer_send_quiet (P : InSeg → Prop) (s : TcpSys) (i : Slot) (flags : UInt8) :
    ∀ run : IpRun, (∀ seg ∈ run.segs, P seg) →
    (flags = tcpAck ∨ (flags = tcpSyn ||| tcpAck ∧ (s.ghost i).phase = .accepted)) →
    Quiet P s (sendTcpSegment s i flags [] run).1
  | .mk polled res tick, hP, hflags => by
    have hpoll := pollSegs_quiet P s polled hP
    have hflags' : flags = tcpAck ∨ (flags = tcpSyn ||| tcpAck ∧
        ((pollSegs s polled).ghost i).phase = .accepted) :=
      hflags.imp_right fun h => ⟨h.1, hpoll.accepted h.2⟩
    rw [sendTcpSegment, if_neg (by decide)]
    cases res with
    | noFrame => exact hpoll
    | timeout => exact hpoll.tail (.record rfl)
    | ok => exact hpoll.trans (answer_quiet rfl hflags')

/-- A poll is a sequence of atoms. -/
theorem pollSegs_quiet (P : InSeg → Prop) (s : TcpSys) :
    ∀ p : Polled, (∀ seg ∈ p.segs, P seg) → Quiet P s (pollSegs s p)
  | .nil, _ => .refl
  | .cons seg reply rest, hP => by
    have hseg : P seg := hP seg List.mem_cons_self
    have hreply : ∀ x ∈ reply.segs, P x := fun x hx =>
      hP x (List.mem_cons_of_mem _ (List.mem_append_left _ hx))
    have hrest : ∀ x ∈ rest.segs, P x := fun x hx =>
      hP x (List.mem_cons_of_mem _ (List.mem_append_right _ hx))
    rw [pollSegs]
    rcases react_cases s seg hseg with ⟨hnone, hq⟩ | ⟨i, flags, hsome, hatom, hflags⟩
    · rw [hnone]
      exact hq.trans (pollSegs_quiet P _ rest hrest)
    · rw [hsome]
      exact (ReflTransGen.head hatom (answer_send_quiet P _ i flags reply hreply hflags)).trans
        (pollSegs_quiet P _ rest hrest)
end

/-- How a send ends whose polls have led to `s₁`: it hands over the segment it built before,
unless no frame went out, and does its bookkeeping if the frame was sent. -/
def Sends (s s₁ : TcpSys) (i : Slot) (flags : UInt8) (data : List UInt8) (run : IpRun) : Prop :=
  sendTcpSegment s i flags data run = (s₁, false) ∨
  (run.res = .timeout ∧ sendTcpSegment s i flags data run =
    (s₁.record i (buildSegment (s.conns i) flags data), false)) ∨
  (run.res = .ok ∧ data.length ≤ 1464 ∧ ∃ tick, sendTcpSegment s i flags data run =
    ((s₁.record i (buildSegment (s.conns i) flags data)).update i (afterSend flags data tick), true))

theorem sendTcpSegment_polls (s : TcpSys) (i : Slot) (flags : UInt8) (data : List UInt8)
    (run : IpRun) : ∃ p : Polled, p.segs ⊆ run.segs ∧ Sends s (pollSegs s p) i flags data run := by
  obtain ⟨polled, res, tick⟩ := run
  unfold Sends
  rw [sendTcpSegment]
  split
  · exact ⟨.nil, List.nil_subset _, .inl rfl⟩
  rename_i hlen
  refine ⟨polled, List.Subset.refl _, ?_⟩
  simp only [headersLen, maxPacket] at hlen
  cases res with
  | noFrame => exact .inl rfl
  | timeout => exact .inr (.inl ⟨rfl, rfl⟩)
  | ok => exact .inr (.inr ⟨rfl, by omega, tick, rfl⟩)

theorem sendTcpSegment_cases (P : InSeg → Prop) (s : TcpSys) (i : Slot) (flags : UInt8)
    (data : List UInt8) (run : IpRun) (hP : ∀ seg ∈ run.segs, P seg) :
    ∃ s₁, Quiet P s s₁ ∧ Sends s s₁ i flags data run := by
  obtain ⟨p, hp, hsends⟩ := sendTcpSegment_polls s i flags data run
  exact ⟨_, pollSegs_quiet P s p fun seg hseg => hP seg (hp hseg), hsends⟩

theorem record_phase (sg : Segment) : ((s.record j sg).ghost i).phase = (s.ghost i).phase := by
  simp only [record_ghost]
  split <;> rfl

theorem send_opened {flags : UInt8} {data : List UInt8} {run : IpRun}
    (h : ((sendTcpSegment s j flags data run).1.ghost i).phase = .opened) :
    (s.ghost i).phase = .opened := by
  obtain ⟨s₁, hq, hres⟩ := sendTcpSegment_cases (fun _ => True) s j flags data run
    fun _ _ => trivial
  refine hq.opened ?_
  rcases hres with e | ⟨-, e⟩ | ⟨-, -, tick, e⟩ <;> rw [e] at h
  · exact h
  · rwa [record_phase] at h
  · rwa [update_ghost, record_phase] at h

/-- What `check_retransmit` does to one connection. -/
theorem retransmitOne_cases (s : TcpSys) (i : Slot) (now : UInt64) (run : IpRun) :
    retransmitOne s i now run = s ∨ ((s.conns i).state = .established ∧ (s.conns i).txLen ≠ 0 ∧
      (s.conns i).sndUna ≥ (s.conns i).txSeq + (s.conns i).txLen ∧
      retransmitOne s i now run = s.update i fun c => { c with txLen := 0 }) ∨
    (due (s.conns i) now = true ∧
      ((maxRetransmits ≤ (s.conns i).retransmitCount ∧ retransmitOne s i now run =
        s.update i fun c => { c with state := .closed, active := false }) ∨
       ((s.conns i).retransmitCount < maxRetransmits ∧
        retransmitOne s i now run = (resend s i run).update i (backoff now)))) := by
  unfold retransmitOne
  dsimp only
  split
  · exact .inl rfl
  rename_i hopen
  simp only [not_or, Bool.not_eq_false, not_not] at hopen
  split
  · exact .inl rfl
  rename_i hlen
  split
  · rename_i hcov
    exact .inr (.inl ⟨hopen.2, hlen, hcov, rfl⟩)
  rename_i hcov
  split
  · rename_i htick
    have hdue : due (s.conns i) now = true := by
      simp only [due, hopen.1, hopen.2, bne_iff_ne, decide_true, Bool.and_self, Bool.true_and,
        Bool.and_eq_true, decide_eq_true_eq]
      exact ⟨⟨hlen, UInt32.not_le.mp hcov⟩, htick⟩
    split
    · rename_i hcount
      exact .inr (.inr ⟨hdue, .inl ⟨hcount, rfl⟩⟩)
    · rename_i hcount
      exact .inr (.inr ⟨hdue, .inr ⟨UInt8.not_le.mp hcount, rfl⟩⟩)
  · exact .inl rfl

end

/-! ## The system -/

/-- The calls in pieces: `connect` up to its wait, one chunk of `send`, one
poll, one connection of `check_retransmit`, the copy of `recv`. (`TCP::send`
looks at the state once, before its first chunk.) -/
inductive TcpCall where
  | openConn
  | bind (id : Slot) (port : UInt16)
  | listen (id : Slot) (port : UInt16)
  | connect (id : Slot) (addr : UInt32) (port : UInt16) (run : IpRun)
  | close (id : Slot) (run : IpRun)
  | chunk (id : Slot) (data : List UInt8) (run : IpRun)
  | poll (polled : Polled)
  | retransmit (id : Slot) (now : UInt64) (run : IpRun)
  | drain (id : Slot) (len : Nat)

def call (s : TcpSys) : TcpCall → TcpSys
  | .openConn => (openConn s).1
  | .bind id port => bind s id port
  | .listen id port => listen s id port
  | .connect id addr port run => connectStart s id addr port run
  | .close id run => close s id run
  | .chunk id data run => (sendChunk s id data run).1
  | .poll polled => pollSegs s polled
  | .retransmit id now run => retransmitOne s id now run
  | .drain id len => (recvDrain s id len).1

/-- The segments that arrive during a call. -/
def TcpCall.segs : TcpCall → List InSeg
  | .connect _ _ _ run => run.segs
  | .close _ run => run.segs
  | .chunk _ _ run => run.segs
  | .poll polled => polled.segs
  | .retransmit _ _ run => run.segs
  | _ => []

/-- From any table whose connections are older than the run, calls that meet
the guard `G`. -/
def tcpLTS (G : TcpSys → TcpCall → Prop) : LTS TcpSys TcpCall where
  init s := ∀ i, (s.ghost i).phase = .stale
  step s c s' := G s c ∧ s' = call s c

/-- `TCP::send` starts in ESTABLISHED, so no chunk goes out on a slot that is
only opened. -/
def Started (s : TcpSys) : TcpCall → Prop
  | .chunk id _ _ => (s.ghost id).phase ≠ .opened
  | _ => True

instance (s : TcpSys) (c : TcpCall) : Decidable (Started s c) := by
  unfold Started; split <;> infer_instance

/-! ## A connection -/

/-- Calls that meet a guard in every state are a run. -/
theorem run_calls {G : TcpSys → TcpCall → Prop} (s : TcpSys) (cs : List TcpCall)
    (h : ∀ s, ∀ c ∈ cs, G s c) : (tcpLTS G).Run s cs (cs.foldl call s) := by
  induction cs generalizing s with
  | nil => exact .nil s
  | cons c cs ih =>
    refine .cons ⟨h s c List.mem_cons_self, rfl⟩ (ih _ fun s c' hc' => ?_)
    exact h s c' (List.mem_cons_of_mem _ hc')

/-- The table after `init`. -/
def bootTcp : TcpSys where
  conns := fun _ => zeroConn
  nextEphemeralPort := 49152
  localIp := 0x0A00020F
  ghost := fun _ => ⟨.stale, [], [], []⟩

/-- A send during which nothing arrives. -/
def sentAt (tick : UInt64) : IpRun := .mk .nil .ok tick

/-- A segment of the server 10.0.2.2:80 to the first ephemeral port. -/
def serverSeg (seq ack : UInt32) (flags : UInt8) (data : List UInt8) : InSeg where
  srcIp := 0x0A000202
  srcPort := 80
  dstPort := 49152
  seq := seq
  ack := ack
  flags := flags
  dataLen := UInt32.ofNat data.length
  data := fun i => data.getD i 0

/-- One segment arrives. -/
def arrives (seg : InSeg) : TcpCall := .poll (.cons seg (sentAt 0) .nil)

/-- `open`, `connect` and the SYN|ACK of the server, whose initial sequence
number is 5000. -/
def dial : List TcpCall :=
  [.openConn, .connect 0 0x0A000202 80 (sentAt 0),
   arrives (serverSeg 5000 1001 (tcpSyn ||| tcpAck) [])]

end HackersOs.L3.Tcp

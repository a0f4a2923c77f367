import HackersOs.L3Net.TcpSteps

/-!
# The sending side of a connection, step by step

`TxView` is the part of a slot that sending depends on, with the bytes `send`
accepted and the segments handed to the device. `TxStep` lists what one call
can do to it; `call_tx` is the inversion: every call, with everything polled
and answered during it, is one of these. Invariants of the sending side are
proved per `TxStep`.

`connect`, `send`, `recv` and `check_retransmit` are runs of `tcpLTS`
(`connect_run`, `send_run`, `recv_run`, `checkRetransmit_run`).
-/
namespace HackersOs.L3.Tcp
open HackersOs.Core Relation

variable {data : List UInt8} {f : TcpConnection → TcpConnection} {flags : UInt8}

structure TxView where
  phase : Phase
  sndNxt : UInt32
  txBuf : Nat → UInt8
  txLen : UInt32
  txSeq : UInt32
  accepted : List UInt8
  sent : List Segment

def txView (c : TcpConnection) (g : Ghost) : TxView where
  phase := g.phase
  sndNxt := c.sndNxt
  txBuf := c.txBuf
  txLen := c.txLen
  txSeq := c.txSeq
  accepted := g.accepted
  sent := g.sent

def TcpSys.tx (s : TcpSys) (i : Slot) : TxView := txView (s.conns i) (s.ghost i)

/-- Segments without data. -/
def Dataless (l : List Segment) : Prop := ∀ sg ∈ l, sg.data = []

theorem Dataless.append {l l' : List Segment} (h : Dataless l) (h' : Dataless l') :
    Dataless (l ++ l') := by
  intro sg hsg
  rcases List.mem_append.mp hsg with hsg | hsg
  · exact h sg hsg
  · exact h' sg hsg

theorem Dataless.single {sg : Segment} (h : sg.data = []) : Dataless [sg] := by
  intro sg' hsg'
  rwa [List.mem_singleton.mp hsg']

def TxView.emit (v : TxView) (l : List Segment) : TxView := { v with sent := v.sent ++ l }

/-- The bookkeeping of `send_tcp_segment` behind a data segment. -/
def TxView.advance (v : TxView) (data : List UInt8) : TxView :=
  if data = [] then v
  else { v with txBuf := copyIn v.txBuf data, txLen := UInt32.ofNat data.length,
                txSeq := v.sndNxt - UInt32.ofNat data.length,
                sndNxt := v.sndNxt + UInt32.ofNat data.length }

/-- A connection that received segments do not end, so that its slot is not taken. -/
def Alive (c : TcpConnection) : Prop := c.active = true ∧ c.state ≠ .lastAck

/-- A passive open has taken the slot, and its SYN is counted or not. -/
structure Reopened (v : TxView) : Prop where
  phase : v.phase = .accepted
  none : v.accepted = []
  nxt : v.sndNxt = isn ∨ v.sndNxt = isn + 1

/-- Answers without data were sent, or a passive open has taken the slot. -/
inductive Answers (s : TcpSys) (i : Slot) : TxView → Prop where
  | sent {acks : List Segment} : Dataless acks → Answers s i ((s.tx i).emit acks)
  | reopened {v : TxView} : ¬ Alive (s.conns i) → Reopened v → Answers s i v

/-- What polls leave of slot `i`. -/
inductive Answered (i : Slot) (s s' : TcpSys) : Prop where
  | sent {acks : List Segment} : Dataless acks → s'.tx i = (s.tx i).emit acks →
      (Alive (s.conns i) → Alive (s'.conns i)) → Answered i s s'
  | reopened : ¬ Alive (s.conns i) → Reopened (s'.tx i) → Alive (s'.conns i) → Answered i s s'

section
variable {s s' s'' : TcpSys} {i j : Slot} {v : TxView}

theorem emit_nil (v : TxView) : v.emit [] = v := by
  simp only [TxView.emit, List.append_nil]

theorem emit_emit (v : TxView) (l l' : List Segment) : (v.emit l).emit l' = v.emit (l ++ l') := by
  simp only [TxView.emit, List.append_assoc]

theorem advance_of_ne_nil (h : data ≠ []) (v : TxView) : v.advance data = { v with
      txBuf := copyIn v.txBuf data, txLen := UInt32.ofNat data.length,
      txSeq := v.sndNxt - UInt32.ofNat data.length,
      sndNxt := v.sndNxt + UInt32.ofNat data.length } := if_neg h

theorem advance_keeps (v : TxView) (data : List UInt8) : (v.advance data).phase = v.phase ∧
    (v.advance data).accepted = v.accepted ∧ (v.advance data).sent = v.sent := by
  unfold TxView.advance
  split <;> exact ⟨rfl, rfl, rfl⟩

theorem advance_sndNxt (v : TxView) (data : List UInt8) :
    (v.advance data).sndNxt = v.sndNxt + UInt32.ofNat data.length := by
  unfold TxView.advance
  split
  · rename_i h
    simp [h]
  · rfl

theorem dataless_nil : Dataless [] := fun _ h => by cases h

theorem Reopened.emit (h : Reopened v) (l : List Segment) : Reopened (v.emit l) :=
  ⟨h.phase, h.none, h.nxt⟩

theorem onSegment_tx (c : TcpConnection) (g : Ghost) (seg : InSeg) :
    txView (onSegment c seg).1 g = txView c g := by
  unfold onSegment
  dsimp only
  repeat' split
  all_goals rfl

theorem tx_update_ne (h : i ≠ j) : (s.update j f).tx i = s.tx i := by
  simp only [TcpSys.tx, update_conns, update_ghost, if_neg h]

theorem tx_mark_ne {f : Ghost → Ghost} (h : i ≠ j) : (s.mark j f).tx i = s.tx i := by
  simp only [TcpSys.tx, mark_conns, mark_ghost, if_neg h]

theorem tx_record_ne {sg : Segment} (h : i ≠ j) : (s.record j sg).tx i = s.tx i := by
  simp only [TcpSys.tx, record_conns, record_ghost, if_neg h]

theorem tx_record (s : TcpSys) (i : Slot) (sg : Segment) :
    (s.record i sg).tx i = (s.tx i).emit [sg] := by
  simp only [TcpSys.tx, record_conns, record_ghost, if_true]
  rfl

theorem tx_update_self : (s.update i f).tx i = txView (f (s.conns i)) (s.ghost i) := by
  simp only [TcpSys.tx, update_conns, update_ghost, if_true]

/-- An update that leaves the sending side of every connection alone. -/
theorem tx_update (hf : ∀ c g, txView (f c) g = txView c g) : (s.update j f).tx i = s.tx i := by
  simp only [TcpSys.tx, update_conns, update_ghost]
  split
  · exact hf _ _
  · rfl

theorem Answers.emit {l : List Segment} (h : Answers s i v) (hd : Dataless l) :
    Answers s i (v.emit l) := by
  cases h with
  | sent hd' => exact emit_emit (s.tx i) _ _ ▸ .sent (hd'.append hd)
  | reopened hdead hre => exact .reopened hdead (hre.emit l)

theorem Answers.of_alive (h : Answers s i v) (ha : Alive (s.conns i)) :
    ∃ acks, Dataless acks ∧ v = (s.tx i).emit acks := by
  cases h with
  | sent hd => exact ⟨_, hd, rfl⟩
  | reopened hdead _ => exact absurd ha hdead

theorem Answered.answers (h : Answered i s s') : Answers s i (s'.tx i) := by
  cases h with
  | sent hd htx _ => exact htx ▸ .sent hd
  | reopened hdead hre _ => exact .reopened hdead hre

theorem Answered.of_tx (htx : s'.tx i = s.tx i) (ha : Alive (s.conns i) → Alive (s'.conns i)) :
    Answered i s s' :=
  .sent dataless_nil (htx.trans (emit_nil _).symm) ha

theorem Answered.refl (s : TcpSys) : Answered i s s := .of_tx rfl id

theorem Answered.trans (h : Answered i s s') (h' : Answered i s' s'') : Answered i s s'' := by
  cases h with
  | sent hd htx ha =>
    cases h' with
    | sent hd' htx' ha' =>
      exact .sent (hd.append hd') (by rw [htx', htx, emit_emit]) fun h => ha' (ha h)
    | reopened hdead hre ha' => exact .reopened (fun h => hdead (ha h)) hre ha'
  | reopened hdead hre ha =>
    cases h' with
    | sent _ htx' ha' => exact .reopened hdead (htx' ▸ hre.emit _) (ha' ha)
    | reopened hdead' => exact absurd ha hdead'

theorem Answered.record {sg : Segment} (hsg : sg.data = []) : Answered i s (s.record j sg) := by
  by_cases hij : i = j
  · subst hij
    exact .sent (.single hsg) (tx_record s i sg) id
  · exact .of_tx (tx_record_ne hij) id

theorem Answered.update_ne (hij : i ≠ j) : Answered i s (s.update j f) := by
  refine .of_tx (tx_update_ne hij) fun h => ?_
  rwa [update_conns, if_neg hij]

theorem Answered.mark_ne {f : Ghost → Ghost} (hij : i ≠ j) : Answered i s (s.mark j f) :=
  .of_tx (tx_mark_ne hij) id

/-- No segment makes a connection inactive that is not in LAST_ACK. -/
theorem onSegment_alive {c : TcpConnection} (h : Alive c) (seg : InSeg) :
    Alive (onSegment c seg).1 := by
  obtain ⟨ha, hst⟩ := h
  unfold onSegment
  dsimp only
  repeat' split
  all_goals first
    | exact ⟨ha, hst⟩
    | exact ⟨ha, by simp⟩
    | contradiction

theorem segment_answered (i j : Slot) (s : TcpSys) (seg : InSeg) :
    Answered i s (s.update j fun _ => (onSegment (s.conns j) seg).1) := by
  by_cases hij : i = j
  · subst hij
    refine .of_tx (by rw [tx_update_self, onSegment_tx]; rfl) fun h => ?_
    rw [update_conns, if_pos rfl]
    exact onSegment_alive h seg
  · exact .update_ne hij

section
variable {polled : Polled} {res : SendRes} {tick : UInt64}

/-- A send without data, for another slot or without a SYN. -/
theorem answer_answered (hpoll : Answered i s (pollSegs s polled)) (hf : i = j → flags = tcpAck) :
    Answered i s (sendTcpSegment s j flags [] (.mk polled res tick)).1 := by
  rw [sendTcpSegment, if_neg (by decide)]
  refine hpoll.trans ?_
  cases res with
  | noFrame => exact .refl _
  | timeout => exact .record rfl
  | ok =>
    have hdata : (buildSegment (s.conns j) flags []).data = [] := rfl
    refine (Answered.record (j := j) hdata).trans ?_
    by_cases hij : i = j
    · have hid : ∀ t : TcpSys, t.update j (afterSend flags [] tick) = t := fun t =>
        update_self fun c _ => by rw [hf hij]; rfl
      dsimp only
      rw [hid]
      exact .refl _
    · exact .update_ne hij

/-- A passive open in the slot itself, with the SYN it answers. -/
theorem passive_answered {seg : InSeg} {t : TcpSys} (hdead : (s.conns i).active = false)
    (ht : t = (s.update i (passiveConn s.localIp seg)).mark i fun _ => ⟨.accepted, [], [], []⟩)
    (hpoll : Answered i t (pollSegs t polled)) :
    Answered i s (sendTcpSegment t i (tcpSyn ||| tcpAck) [] (.mk polled res tick)).1 := by
  have halive : Alive (t.conns i) := by simp [ht, Alive, passiveConn]
  cases hpoll with
  | reopened h => exact absurd halive h
  | @sent acks _ htx ha =>
    have hview : (t.tx i).phase = .accepted ∧ (t.tx i).accepted = [] ∧ (t.tx i).sndNxt = isn := by
      simp [ht, TcpSys.tx, txView, passiveConn]
    have hre : Reopened ((t.tx i).emit acks) := ⟨hview.1, hview.2.1, .inl hview.2.2⟩
    have hdead' : ¬ Alive (s.conns i) := fun h => by simp [Alive, hdead] at h
    rw [sendTcpSegment, if_neg (by decide)]
    rw [← htx] at hre
    cases res with
    | noFrame => exact .reopened hdead' hre (ha halive)
    | timeout => exact .reopened hdead' (by rw [tx_record]; exact hre.emit _) (ha halive)
    | ok =>
      refine .reopened hdead' ?_ ?_
      · have hnxt : ((pollSegs t polled).conns i).sndNxt = isn :=
          (congrArg TxView.sndNxt htx).trans hview.2.2
        rw [tx_update_self]
        refine ⟨(record_phase _).trans hre.phase, ?_, .inr (congrArg (· + 1) hnxt)⟩
        rw [record_ghost, if_pos rfl]
        exact hre.none
      · rw [update_conns, if_pos rfl]
        exact ha halive

end

/-- `tcp_input` up to its answer: an ACK or none, or the SYN of a passive open. -/
theorem react_answered (i : Slot) (s : TcpSys) (seg : InSeg) : (Answered i s (react s seg).1 ∧
      ((react s seg).2 = none ∨ ∃ j, (react s seg).2 = some (j, tcpAck))) ∨
    ∃ j, (s.conns j).active = false ∧ react s seg =
      ((s.update j (passiveConn s.localIp seg)).mark j fun _ => ⟨.accepted, [], [], []⟩,
        some (j, tcpSyn ||| tcpAck)) := by
  unfold react
  split
  · rename_i j l _
    refine .inl ⟨segment_answered i j s seg, ?_⟩
    dsimp only
    split
    · exact .inr ⟨j, rfl⟩
    · exact .inl rfl
  · split
    · split
      · rename_i j hfree
        exact .inr ⟨j, firstFree_some hfree, rfl⟩
      · exact .inl ⟨.refl s, .inl rfl⟩
    · exact .inl ⟨.refl s, .inl rfl⟩
  · exact .inl ⟨.refl s, .inl rfl⟩

theorem pollSegs_answered (i : Slot) (s : TcpSys) : ∀ p : Polled, Answered i s (pollSegs s p)
  | .nil => .refl s
  | .cons seg (.mk polled res tick) rest => by
    rw [pollSegs]
    rcases react_answered i s seg with ⟨hr, hnone | ⟨j, hack⟩⟩ | ⟨j, hfree, hr⟩
    · rw [hnone]
      exact hr.trans (pollSegs_answered i _ rest)
    · rw [hack]
      exact (hr.trans (answer_answered (pollSegs_answered i _ polled) fun _ => rfl)).trans
        (pollSegs_answered i _ rest)
    · rw [hr]
      dsimp only
      refine Answered.trans ?_ (pollSegs_answered i _ rest)
      by_cases hij : i = j
      · subst hij
        exact passive_answered hfree rfl (pollSegs_answered i _ polled)
      · exact (Answered.update_ne hij).trans ((Answered.mark_ne hij).trans
          (answer_answered (pollSegs_answered i _ polled) fun h => absurd h hij))

/-! ## Sends -/

theorem txView_afterSend_data (hlen : data.length ≤ tcpBufSize) (tick : UInt64) (c : TcpConnection)
    (g : Ghost) :
    txView (afterSend (tcpAck ||| tcpPsh) data tick c) g = (txView c g).advance data := by
  have hsyn : has (tcpAck ||| tcpPsh) tcpSyn = false := by decide
  have hfin : has (tcpAck ||| tcpPsh) tcpFin = false := by decide
  unfold afterSend TxView.advance
  simp only [hsyn, hfin, Bool.false_eq_true, if_false, hlen, if_true]
  cases data with
  | nil => rfl
  | cons b bs => rfl

/-- What a send does to the slots it is not for. -/
theorem send_other (hij : i ≠ j) (flags : UInt8) (data : List UInt8) (run : IpRun) :
    Answered i s (sendTcpSegment s j flags data run).1 := by
  obtain ⟨p, -, hres⟩ := sendTcpSegment_polls s j flags data run
  refine (pollSegs_answered i s p).trans ?_
  rcases hres with e | ⟨-, e⟩ | ⟨-, -, tick, e⟩ <;> rw [e]
  · exact .refl _
  · exact .of_tx (tx_record_ne hij) id
  · exact .trans (.of_tx (tx_record_ne hij) id) (.update_ne hij)

/-- A segment without data counts at most one sequence number: SYN or FIN. -/
theorem txView_afterSend_control (h : (has flags tcpSyn && has flags tcpFin) = false)
    (tick : UInt64) (c : TcpConnection) (g : Ghost) : ∃ n, (n = c.sndNxt ∨ n = c.sndNxt + 1) ∧
      txView (afterSend flags [] tick c) g = { txView c g with sndNxt := n } := by
  unfold afterSend
  by_cases hs : has flags tcpSyn = true
  · have hf : has flags tcpFin = false := by simpa [hs] using h
    exact ⟨c.sndNxt + 1, .inr rfl, by simp [hs, hf, txView]⟩
  · by_cases hf : has flags tcpFin = true
    · exact ⟨c.sndNxt + 1, .inr rfl, by simp [hs, hf, txView]⟩
    · exact ⟨c.sndNxt, .inl rfl, by simp [hs, hf, txView]⟩

/-- A send on the slot itself: no frame, a frame that is not reported, or a frame
that `afterSend` accounts for; what arrives meanwhile is answered first. -/
theorem send_tx {run : IpRun} {r : TcpSys × Bool} (h : sendTcpSegment s i flags data run = r) :
    ∃ w, Answers s i w ∧ (r.2 = false ∧ r.1.tx i = w ∨ r.2 = false ∧ run.res = .timeout ∧
        r.1.tx i = w.emit [buildSegment (s.conns i) flags data] ∨
       r.2 = true ∧ run.res = .ok ∧ data.length ≤ 1464 ∧ ∃ tick c g,
        txView c g = w.emit [buildSegment (s.conns i) flags data] ∧
        r.1.tx i = txView (afterSend flags data tick c) g) := by
  obtain ⟨p, -, hres⟩ := sendTcpSegment_polls s i flags data run
  unfold Sends at hres
  rw [h] at hres
  refine ⟨_, (pollSegs_answered i s p).answers, ?_⟩
  rcases hres with rfl | ⟨hr, rfl⟩ | ⟨hr, hlen, tick, rfl⟩
  · exact .inl ⟨rfl, rfl⟩
  · exact .inr (.inl ⟨rfl, hr, tx_record ..⟩)
  · exact .inr (.inr ⟨rfl, hr, hlen, tick, _, _, tx_record .., tx_update_self⟩)

theorem send_control (s : TcpSys) (i : Slot) (flags : UInt8) (run : IpRun)
    (h : (has flags tcpSyn && has flags tcpFin) = false) :
    ∃ w n, Answers s i w ∧ (n = w.sndNxt ∨ n = w.sndNxt + 1) ∧
      (sendTcpSegment s i flags [] run).1.tx i = { w with sndNxt := n } := by
  have hsg : Dataless [buildSegment (s.conns i) flags []] := .single rfl
  obtain ⟨w, hw, ⟨-, hv⟩ | ⟨-, -, hv⟩ | ⟨-, -, -, tick, c, g, hc, hv⟩⟩ :=
    send_tx (rfl : sendTcpSegment s i flags [] run = _)
  · exact ⟨w, _, hw, .inl rfl, hv⟩
  · exact ⟨_, _, hw.emit hsg, .inl rfl, hv⟩
  · obtain ⟨n, hn, hafter⟩ := txView_afterSend_control h tick c g
    have hnxt : c.sndNxt = w.sndNxt := congrArg TxView.sndNxt hc
    rw [hnxt] at hn
    exact ⟨_, n, hw.emit hsg, hn, by rw [hv, hafter, hc]⟩

/-- A data segment: not sent, sent but not reported, or sent. -/
theorem send_data {run : IpRun} {r : TcpSys × Bool}
    (h : sendTcpSegment s i (tcpAck ||| tcpPsh) data run = r) : ∃ w, Answers s i w ∧
      (r.2 = false ∧ r.1.tx i = w ∨ r.2 = false ∧ run.res = .timeout ∧
        r.1.tx i = w.emit [buildSegment (s.conns i) (tcpAck ||| tcpPsh) data] ∨
       r.2 = true ∧ run.res = .ok ∧ data.length ≤ 1464 ∧ r.1.tx i =
        (w.emit [buildSegment (s.conns i) (tcpAck ||| tcpPsh) data]).advance data) := by
  obtain ⟨w, hw, hnone | hlost | ⟨hr, hok, hlen, tick, c, g, hc, hv⟩⟩ := send_tx h
  · exact ⟨w, hw, .inl hnone⟩
  · exact ⟨w, hw, .inr (.inl hlost)⟩
  · have hbuf : data.length ≤ tcpBufSize := by unfold tcpBufSize; omega
    refine ⟨w, hw, .inr (.inr ⟨hr, hok, hlen, ?_⟩)⟩
    rw [hv, txView_afterSend_data hbuf, hc]

end

/-! ## Calls -/

/-- The connection a call is for. -/
def TcpCall.slot : TcpCall → Option Slot
  | .bind id _ => some id
  | .listen id _ => some id
  | .connect id _ _ _ => some id
  | .close id _ => some id
  | .chunk id _ _ => some id
  | .retransmit id _ _ => some id
  | .drain id _ => some id
  | _ => none

/-- The segment a retransmission hands to the device: the rest of `tx_buf`
under `snd_una`. -/
def resentData (c : TcpConnection) : List UInt8 :=
  (List.range (c.txLen - ackedLen c).toNat).map fun k => c.txBuf ((ackedLen c).toNat + k)

def resentSegment (c : TcpConnection) : Segment :=
  buildSegment { c with sndNxt := c.sndUna } (tcpAck ||| tcpPsh) (resentData c)

/-- What a call can do to the sending side of slot `i`. -/
inductive TxStep (i : Slot) (s : TcpSys) : TcpCall → TxView → Prop where
  /-- calls in an order the code does not guard -/
  | left {c : TcpCall} {v : TxView} : v.phase = .stale → TxStep i s c v
  | answers {c : TcpCall} {v : TxView} : Answers s i v → TxStep i s c v
  | opened {v : TxView} : v.phase = .opened → v.accepted = [] → v.sent = [] → v.txLen = 0 →
      TxStep i s .openConn v
  | connected {acks : List Segment} {n : UInt32} {addr : UInt32} {port : UInt16} {run : IpRun} :
      (s.ghost i).phase = .opened → Dataless acks → n = isn ∨ n = isn + 1 →
      TxStep i s (.connect i addr port run)
        { (s.tx i).emit acks with phase := .connected, sndNxt := n }
  /-- a passive open takes the slot while `connect` sends -/
  | redialed {w : TxView} {n : UInt32} {addr : UInt32} {port : UInt16} {run : IpRun} :
      Reopened w → n = w.sndNxt ∨ n = w.sndNxt + 1 →
      TxStep i s (.connect i addr port run) { w with sndNxt := n }
  | closed {acks : List Segment} {n : UInt32} {run : IpRun} : Dataless acks →
      TxStep i s (.close i run) { (s.tx i).emit acks with sndNxt := n }
  /-- a chunk goes out, its send is not reported -/
  | lost {w : TxView} {data : List UInt8} {run : IpRun} : Answers s i w →
      run.res = .timeout → TxStep i s (.chunk i data run)
        (w.emit [buildSegment (s.conns i) (tcpAck ||| tcpPsh) data])
  | sent {w : TxView} {data : List UInt8} {run : IpRun} : Answers s i w →
      run.res = .ok → data.length ≤ 1464 → TxStep i s (.chunk i data run)
        { (w.emit [buildSegment (s.conns i) (tcpAck ||| tcpPsh) data]).advance data
          with accepted := w.accepted ++ data }
  | cleared {now : UInt64} {run : IpRun} :
      TxStep i s (.retransmit i now run) { s.tx i with txLen := 0 }
  | resentLost {acks : List Segment} {now : UInt64} {run : IpRun} : Dataless acks →
      due (s.conns i) now = true → (s.conns i).retransmitCount < maxRetransmits →
      run.res = .timeout →
      TxStep i s (.retransmit i now run) ((s.tx i).emit (acks ++ [resentSegment (s.conns i)]))
  | resent {acks : List Segment} {now : UInt64} {run : IpRun} : Dataless acks →
      due (s.conns i) now = true → (s.conns i).retransmitCount < maxRetransmits →
      run.res = .ok → 0 < (resentData (s.conns i)).length →
      (resentData (s.conns i)).length ≤ 1464 →
      TxStep i s (.retransmit i now run)
        { (s.tx i).emit (acks ++ [resentSegment (s.conns i)]) with
          txBuf := copyIn (s.conns i).txBuf (resentData (s.conns i)),
          txLen := UInt32.ofNat (resentData (s.conns i)).length,
          txSeq := (s.conns i).sndUna - UInt32.ofNat (resentData (s.conns i)).length }

section
variable {s : TcpSys} {i j : Slot} {c : TcpCall} {v : TxView}

theorem TxStep.of_eq (h : v = s.tx i) : TxStep i s c v := by
  rw [h, ← emit_nil (s.tx i)]
  exact .answers (.sent dataless_nil)

/-- A retransmission on another connection. -/
theorem resend_other (hij : i ≠ j) (run : IpRun) : Answered i s (resend s j run) := by
  unfold resend
  dsimp only
  generalize ackedLen (s.conns j) = acked
  split
  · exact (Answered.update_ne hij).trans ((send_other hij _ _ run).trans (.update_ne hij))
  · exact .refl _

theorem call_other (hc : c.slot ≠ some i) (hopen : c ≠ .openConn) : Answered i s (call s c) := by
  have hne : ∀ {id}, c.slot = some id → i ≠ id := fun hid h => hc (h ▸ hid)
  cases c with
  | openConn => exact absurd rfl hopen
  | poll polled => exact pollSegs_answered i s polled
  | bind id port | listen id port | drain id len =>
    have hij := hne rfl
    simp only [call, bind, listen, recvDrain]
    exact (Answered.update_ne hij).trans (.mark_ne hij)
  | connect id addr port run =>
    have hij := hne rfl
    refine Answered.trans ?_ (send_other hij _ _ run)
    refine .of_tx ?_ fun h => ?_
    · simp only [TcpSys.tx, connectInit, mark_conns, mark_ghost, update_conns, update_ghost,
        if_neg hij]
    · simpa only [connectInit, mark_conns, update_conns, if_neg hij] using h
  | close id run =>
    have hij := hne rfl
    simp only [call, close]
    repeat' split
    · exact .refl _
    · exact (send_other hij _ _ run).trans (.update_ne hij)
    · exact (send_other hij _ _ run).trans (.update_ne hij)
    · exact .update_ne hij
  | chunk id data run =>
    have hij := hne rfl
    have hsend := send_other (s := s) hij (tcpAck ||| tcpPsh) data run
    simp only [call, sendChunk]
    split
    · exact hsend.trans (.mark_ne hij)
    · exact hsend
  | retransmit id now run =>
    have hij := hne rfl
    simp only [call]
    rcases retransmitOne_cases s id now run with e | ⟨-, -, -, e⟩ | ⟨-, ⟨-, e⟩ | ⟨-, e⟩⟩ <;> rw [e]
    · exact .refl _
    · exact .update_ne hij
    · exact .update_ne hij
    · exact (resend_other hij run).trans (.update_ne hij)

/-! ### Calls for the slot itself -/

theorem open_tx (s : TcpSys) (i : Slot) : TxStep i s .openConn ((call s .openConn).tx i) := by
  simp only [call, openConn]
  split
  · rename_i j _
    by_cases hij : i = j
    · subst hij
      exact .opened (by simp [TcpSys.tx, txView]) (by simp [TcpSys.tx, txView])
        (by simp [TcpSys.tx, txView]) (by simp [TcpSys.tx, txView, zeroConn])
    · refine .of_eq ?_
      rw [tx_mark_ne hij, tx_update_ne hij]
  · exact .of_eq rfl

theorem connect_tx (s : TcpSys) (i : Slot) (addr : UInt32) (port : UInt16) (run : IpRun) :
    TxStep i s (.connect i addr port run) ((call s (.connect i addr port run)).tx i) := by
  have hinit : (connectInit s i addr port).tx i = { s.tx i with
      phase := if (s.ghost i).phase = .opened then .connected else .stale, sndNxt := isn } := by
    simp [TcpSys.tx, txView, connectInit]
  have hnxt : ((connectInit s i addr port).conns i).sndNxt = isn := congrArg TxView.sndNxt hinit
  obtain ⟨w, n, hw, hn, hv⟩ := send_control (connectInit s i addr port) i tcpSyn run (by decide)
  change TxStep i s _ ((sendTcpSegment (connectInit s i addr port) i tcpSyn [] run).1.tx i)
  rw [hv]
  cases hw with
  | reopened _ hre => exact .redialed hre hn
  | sent hd =>
    have hn' : n = isn ∨ n = isn + 1 := by
      rw [← hnxt]
      exact hn
    rw [hinit]
    by_cases ho : (s.ghost i).phase = .opened
    · rw [if_pos ho]
      exact .connected ho hd hn'
    · rw [if_neg ho]
      exact .left rfl

theorem close_tx (s : TcpSys) (i : Slot) (run : IpRun) :
    TxStep i s (.close i run) ((call s (.close i run)).tx i) := by
  have hsend : ∀ st : TcpState, Alive (s.conns i) →
      TxStep i s (.close i run) (((sendTcpSegment s i (tcpFin ||| tcpAck) [] run).1.update i
        fun c => { c with state := st }).tx i) := by
    intro st ha
    have hst : ((sendTcpSegment s i (tcpFin ||| tcpAck) [] run).1.update i fun c =>
        { c with state := st }).tx i = (sendTcpSegment s i (tcpFin ||| tcpAck) [] run).1.tx i :=
      tx_update fun _ _ => rfl
    obtain ⟨w, n, hw, -, hv⟩ := send_control s i (tcpFin ||| tcpAck) run (by decide)
    obtain ⟨acks, hd, rfl⟩ := hw.of_alive ha
    rw [hst, hv]
    exact .closed hd
  simp only [call, close]
  split
  · exact .of_eq rfl
  rename_i hact
  have hact : (s.conns i).active = true := by simpa using hact
  split
  · rename_i hst
    exact hsend _ ⟨hact, by simp [hst]⟩
  split
  · rename_i hst
    exact hsend _ ⟨hact, by simp [hst]⟩
  · exact .of_eq (tx_update fun _ _ => rfl)

theorem chunk_tx (s : TcpSys) (i : Slot) (data : List UInt8) (run : IpRun) :
    TxStep i s (.chunk i data run) ((call s (.chunk i data run)).tx i) := by
  simp only [call, sendChunk]
  generalize hr : sendTcpSegment s i (tcpAck ||| tcpPsh) data run = r
  have hmark : ∀ t : TcpSys, (t.mark i fun g => { g with accepted := g.accepted ++ data }).tx i =
      { t.tx i with accepted := (t.tx i).accepted ++ data } := by
    intro t
    simp [TcpSys.tx, txView]
  obtain ⟨w, hw, ⟨h2, hv⟩ | ⟨h2, ht, hv⟩ | ⟨h2, hok, hlen, hv⟩⟩ := send_data hr
  · simp only [h2, Bool.false_eq_true, if_false, hv]
    exact .answers hw
  · simp only [h2, Bool.false_eq_true, if_false, hv]
    exact .lost hw ht
  · simp only [h2, if_true, hmark, hv, (advance_keeps _ _).2.1]
    exact .sent hw hok hlen

theorem due_alive {c : TcpConnection} {now : UInt64} (h : due c now = true) : Alive c := by
  simp only [due, Bool.and_eq_true, decide_eq_true_eq] at h
  exact ⟨h.1.1.1.1, by rw [h.1.1.1.2]; decide⟩

theorem resend_tx (s : TcpSys) (i : Slot) (now : UInt64) (run : IpRun)
    (hdue : due (s.conns i) now = true) (hcount : (s.conns i).retransmitCount < maxRetransmits) :
    TxStep i s (.retransmit i now run) ((resend s i run).tx i) := by
  unfold resend
  dsimp only
  split
  · rename_i hrem
    generalize hr : sendTcpSegment (s.update i fun c => { c with sndNxt := c.sndUna }) i
      (tcpAck ||| tcpPsh) ((List.range ((s.conns i).txLen - ackedLen (s.conns i)).toNat).map fun k =>
        (s.conns i).txBuf ((ackedLen (s.conns i)).toNat + k)) run = r
    have hback : (r.1.update i fun c => { c with sndNxt := (s.conns i).sndNxt }).tx i =
        { r.1.tx i with sndNxt := (s.conns i).sndNxt } := by
      rw [tx_update_self]
      rfl
    have hrewind : (s.update i fun c => { c with sndNxt := c.sndUna }).tx i =
        { s.tx i with sndNxt := (s.conns i).sndUna } := by
      rw [tx_update_self]
      rfl
    have hseg : buildSegment ((s.update i fun c => { c with sndNxt := c.sndUna }).conns i)
        (tcpAck ||| tcpPsh) (resentData (s.conns i)) = resentSegment (s.conns i) := by
      simp only [update_conns, if_true]
      rfl
    have hpos : 0 < (resentData (s.conns i)).length := by
      rw [resentData, List.length_map, List.length_range]
      exact UInt32.lt_iff_toNat_lt.mp hrem.1
    have halive : Alive ((s.update i fun c => { c with sndNxt := c.sndUna }).conns i) := by
      rw [update_conns, if_pos rfl]
      exact due_alive hdue
    rw [hback]
    obtain ⟨w, hw, hres⟩ := send_data hr
    obtain ⟨acks, hd, rfl⟩ := hw.of_alive halive
    rw [emit_emit] at hres
    rcases hres with ⟨-, hv⟩ | ⟨-, ht, hv⟩ | ⟨-, hok, hlen, hv⟩
    · rw [hv, hrewind]
      exact .answers (.sent hd)
    · rw [hv, hrewind]
      exact hseg ▸ .resentLost hd hdue hcount ht
    have hne : resentData (s.conns i) ≠ [] := List.ne_nil_of_length_pos hpos
    rw [hv, hrewind]
    have hstep := TxStep.resent hd hdue hcount hok hpos hlen
    rw [← hseg] at hstep
    change TxStep i s _ { TxView.advance _ (resentData (s.conns i)) with sndNxt := _ }
    rw [advance_of_ne_nil hne]
    exact hstep
  · exact .of_eq rfl

theorem retransmit_tx (s : TcpSys) (i : Slot) (now : UInt64) (run : IpRun) :
    TxStep i s (.retransmit i now run) ((call s (.retransmit i now run)).tx i) := by
  simp only [call]
  rcases retransmitOne_cases s i now run with e | ⟨-, -, -, e⟩ | ⟨hdue, ⟨-, e⟩ | ⟨hcount, e⟩⟩ <;> rw [e]
  · exact .of_eq rfl
  · rw [tx_update_self]
    exact .cleared
  · exact .of_eq (tx_update fun _ _ => rfl)
  · have hback : ((resend s i run).update i (backoff now)).tx i = (resend s i run).tx i :=
      tx_update fun _ _ => rfl
    rw [hback]
    exact resend_tx s i now run hdue hcount

/-- Every call does one of the things `TxStep` lists. -/
theorem call_tx (s : TcpSys) (c : TcpCall) (i : Slot) : TxStep i s c ((call s c).tx i) := by
  by_cases hopen : c = .openConn
  · subst hopen
    exact open_tx s i
  by_cases hslot : c.slot = some i
  · cases c with
    | openConn => exact absurd rfl hopen
    | poll polled => cases hslot
    | bind id port =>
      cases hslot
      by_cases ho : (s.ghost i).phase = .opened
      · exact .of_eq (by simp [call, bind, TcpSys.tx, txView, ho])
      · exact .left (by simp [call, bind, TcpSys.tx, txView, ho])
    | listen id port =>
      cases hslot
      exact .left (by simp [call, listen, TcpSys.tx, txView])
    | connect id addr port run => cases hslot; exact connect_tx s i addr port run
    | close id run => cases hslot; exact close_tx s i run
    | chunk id data run => cases hslot; exact chunk_tx s i data run
    | retransmit id now run => cases hslot; exact retransmit_tx s i now run
    | drain id len =>
      cases hslot
      exact .of_eq (by simp [call, recvDrain, TcpSys.tx, txView])
  · exact .answers (call_other hslot hopen).answers

end

/-! ## Runs -/

theorem Answers.opened {s : TcpSys} {i : Slot} {v : TxView} (h : Answers s i v)
    (ho : v.phase = .opened) : (s.ghost i).phase = .opened := by
  cases h with
  | sent => exact ho
  | reopened _ hre => exact nomatch hre.phase.symm.trans ho

/-- Only `TCP::open` makes a slot opened. -/
theorem call_opened {s : TcpSys} {c : TcpCall} {i : Slot} (hc : c ≠ .openConn)
    (h : ((call s c).ghost i).phase = .opened) : (s.ghost i).phase = .opened := by
  have hstep := call_tx s c i
  change ((call s c).tx i).phase = .opened at h
  generalize (call s c).tx i = v at h hstep
  cases hstep with
  | left hst => exact nomatch hst.symm.trans h
  | answers hw | lost hw => exact hw.opened h
  | opened => exact absurd rfl hc
  | connected => cases h
  | redialed hre => exact nomatch hre.phase.symm.trans h
  | closed | cleared | resentLost | resent => exact h
  | @sent w _ _ hw =>
    have hkeep : w.phase = .opened := (advance_keeps (w.emit _) _).1.symm.trans h
    exact hw.opened hkeep

/-- Some sequence of pieces, none of them a `TCP::open`, leads from `s` to `s'`. -/
def Runs (s s' : TcpSys) : Prop := ∃ cs, .openConn ∉ cs ∧ (tcpLTS Started).Run s cs s'

section
variable {s s' s'' : TcpSys} {i : Slot}

theorem Runs.refl (s : TcpSys) : Runs s s := ⟨[], List.not_mem_nil, .nil s⟩

theorem Runs.trans (h : Runs s s') (h' : Runs s' s'') : Runs s s'' := by
  obtain ⟨cs, hcs, h⟩ := h
  obtain ⟨cs', hcs', h'⟩ := h'
  exact ⟨cs ++ cs', by simp [hcs, hcs'], h.append h'⟩

theorem Runs.call {c : TcpCall} (hc : c ≠ .openConn) (hs : Started s c) : Runs s (call s c) :=
  ⟨[c], by simpa using hc.symm, .cons ⟨hs, rfl⟩ (.nil _)⟩

theorem Runs.opened (h : Runs s s') (hi : (s'.ghost i).phase = .opened) :
    (s.ghost i).phase = .opened := by
  obtain ⟨cs, hcs, h⟩ := h
  induction h with
  | nil => exact hi
  | cons hstep _ ih =>
    obtain ⟨-, rfl⟩ := hstep
    simp only [List.mem_cons, not_or] at hcs
    exact call_opened (Ne.symm hcs.1) (ih hi hcs.2)

theorem Runs.poll (s : TcpSys) (p : Polled) : Runs s (pollSegs s p) :=
  Runs.call (c := .poll p) (by simp) trivial

theorem checkRetransmit_run (s : TcpSys) (now : UInt64) (runs : Slot → IpRun) :
    Runs s (checkRetransmit s now runs) := by
  unfold checkRetransmit
  generalize List.finRange 16 = is
  induction is generalizing s with
  | nil => exact .refl s
  | cons i is ih =>
    exact (Runs.call (c := .retransmit i now (runs i)) (by simp) trivial).trans (ih _)

theorem round_run (s : TcpSys) (r : Round) :
    Runs s (checkRetransmit (pollSegs s r.polled) r.now r.runs) :=
  (Runs.poll s r.polled).trans (checkRetransmit_run _ r.now r.runs)

theorem rounds_run (s : TcpSys) (rs : List Round) : Runs s (rounds s rs) := by
  induction rs generalizing s with
  | nil => exact .refl s
  | cons r rs ih => exact (round_run s r).trans (ih _)

theorem connect_run (s : TcpSys) (id : Slot) (addr : UInt32) (port : UInt16) (run : IpRun)
    (polls : List Polled) : Runs s (connect s id addr port run polls).1 := by
  refine (Runs.call (c := .connect id addr port run) (by simp) trivial).trans ?_
  change Runs (connectStart s id addr port run)
    (connectWait (connectStart s id addr port run) id polls).1
  generalize connectStart s id addr port run = t
  induction polls generalizing t with
  | nil => exact .refl t
  | cons p ps ih =>
    refine (Runs.poll t p).trans ?_
    simp only [connectWait]
    split
    · exact .refl _
    · split
      · exact .refl _
      · exact ih _

theorem sendLoop_run (id : Slot) (data : List UInt8) (s : TcpSys) (sent : Nat)
    (env : List (IpRun × List Round)) (h : (s.ghost id).phase ≠ .opened) :
    Runs s (sendLoop id data s sent env).1 := by
  induction env generalizing s sent with
  | nil => exact .refl s
  | cons e env ih =>
    obtain ⟨run, rs⟩ := e
    simp only [sendLoop]
    split
    · have hchunk : Runs s (sendChunk s id ((data.drop sent).take mss) run).1 :=
        Runs.call (c := .chunk id ((data.drop sent).take mss) run) (by simp) h
      split
      · have hround := hchunk.trans (rounds_run _ rs)
        exact hround.trans (ih _ _ fun ho => h (hround.opened ho))
      · exact hchunk
    · exact .refl s

theorem send_run (s : TcpSys) (id : Slot) (data : List UInt8) (env : List (IpRun × List Round))
    (h : (s.ghost id).phase ≠ .opened) : Runs s (send s id data env).1 := by
  unfold send
  split
  · exact .refl s
  · exact sendLoop_run id data s 0 env h

theorem recv_run (s : TcpSys) (id : Slot) (len : Nat) (rs : List Round) :
    Runs s (recv s id len rs).1 := by
  have hwait : Runs s (recvWait id s rs).1 := by
    induction rs generalizing s with
    | nil => exact .refl s
    | cons r rs ih =>
      simp only [recvWait]
      split
      · split
        · exact round_run s r
        · exact (round_run s r).trans (ih _)
      · exact .refl s
  unfold recv
  dsimp only
  split
  · exact hwait.trans (Runs.call (c := .drain id len) (by simp) trivial)
  · exact hwait

end

end HackersOs.L3.Tcp

import HackersOs.L3Net.TcpTransmit

/-!
# What the sender transmits and what it can retransmit

`SentByte` collects the data bytes handed to the device under their sequence
numbers, first transmissions and retransmissions alike.

`send_tcp_segment` computes `tx_seq = snd_nxt - data_len` before it advances
`snd_nxt`, so `[tx_seq, tx_seq + tx_len)` ends where the chunk in `tx_buf`
begins. Results:
* `byte_consistency`: in a run without a retransmission, and without a data
  segment whose send is not reported, every byte sent under `q` is the byte of
  the accepted stream at `q - (ISN + 1)`.
* `retransmit_wrong_byte` (**Counterexample**): two one-byte sends without an
  acknowledgement put different bytes under one sequence number.
* `covered_iff`: the retransmission buffer covers the unacknowledged bytes of a
  connection, opened actively or passively, only when there are none.
* `unacked_forgotten` (**Counterexample**): the first check behind a one-byte
  send drops the buffer although nothing was acknowledged.
-/
namespace HackersOs.L3.Tcp
open HackersOs.Core Relation List

variable {accepted : List UInt8} {k n : Nat} {seg : Segment}

variable {c : TcpCall} {data : List UInt8} {i : Slot} {now : UInt64} {s : TcpSys} {una : UInt32}

/-- Byte `b` was handed to the device under sequence number `q`. -/
def SentByte (sent : List Segment) (q : UInt32) (b : UInt8) : Prop :=
  ∃ seg ∈ sent, ∃ k, seg.data[k]? = some b ∧ q = seg.seq + UInt32.ofNat k

/-- Every byte sent under `q` is the byte at offset `q - (ISN + 1)` of the
accepted data. -/
def Consistent (accepted : List UInt8) (sent : List Segment) : Prop :=
  ∀ q b, SentByte sent q b → accepted[(q - (isn + 1)).toNat]? = some b

/-- A slot between `open` and `connect`. -/
def FreshTx (v : TxView) : Prop := v.accepted = [] ∧ Dataless v.sent ∧ v.txLen = 0

section
variable {sent acks : List Segment} {q : UInt32} {b : UInt8} {v v' : TxView}

theorem SentByte.append_left (h : SentByte sent q b) : SentByte (sent ++ acks) q b := by
  obtain ⟨seg, hseg, k, hk⟩ := h
  exact ⟨seg, mem_append_left _ hseg, k, hk⟩

theorem SentByte.append_right (h : SentByte acks q b) : SentByte (sent ++ acks) q b := by
  obtain ⟨seg, hseg, k, hk⟩ := h
  exact ⟨seg, mem_append_right _ hseg, k, hk⟩

theorem SentByte.cases_append (h : SentByte (sent ++ acks) q b) :
    SentByte sent q b ∨ SentByte acks q b := by
  obtain ⟨seg, hseg, k, hk⟩ := h
  rcases mem_append.mp hseg with hseg | hseg
  · exact .inl ⟨seg, hseg, k, hk⟩
  · exact .inr ⟨seg, hseg, k, hk⟩

theorem Dataless.not_sentByte (h : Dataless sent) : ¬ SentByte sent q b := by
  intro hb
  obtain ⟨seg, hseg, k, hk, -⟩ := hb
  rw [h seg hseg] at hk
  cases hk

theorem Consistent.emit (h : Consistent accepted sent) (hd : Dataless acks) :
    Consistent accepted (sent ++ acks) := by
  intro q b hb
  rcases hb.cases_append with hb | hb
  · exact h q b hb
  · exact absurd hb hd.not_sentByte

theorem FreshTx.emit (h : FreshTx v) (hd : Dataless acks) : FreshTx (v.emit acks) :=
  ⟨h.1, h.2.1.append hd, h.2.2⟩

/-- A fresh slot has nothing to retransmit. -/
theorem FreshTx.not_due (h : FreshTx (s.tx i)) : due (s.conns i) now ≠ true := by
  have hlen : (s.conns i).txLen = 0 := h.2.2
  simp [due, hlen]

theorem Answers.of_phase (h : Answers s i v) (hp : v.phase ≠ .accepted) :
    ∃ acks, Dataless acks ∧ v = (s.tx i).emit acks := by
  cases h with
  | sent hd => exact ⟨_, hd, rfl⟩
  | reopened _ hre => exact absurd hre.phase hp

/-- A slot is fresh until `connect`: no data goes out before. -/
theorem TxStep.fresh (hstep : TxStep i s c v) (h : (s.tx i).phase = .opened → FreshTx (s.tx i))
    (hstart : Started s c) (ho : v.phase = .opened) : FreshTx v := by
  cases hstep with
  | left hp => exact absurd (hp.symm.trans ho) (by decide)
  | answers hw =>
    obtain ⟨acks, hd, rfl⟩ := hw.of_phase (by simp [ho])
    exact (h ho).emit hd
  | opened hp hacc hsent hlen =>
    refine ⟨hacc, ?_, hlen⟩
    rw [hsent]
    exact dataless_nil
  | connected => cases ho
  | redialed hw => exact absurd (hw.phase.symm.trans ho) (by decide)
  | closed hd => exact (h ho).emit hd
  | lost hw =>
    obtain ⟨acks, hd, rfl⟩ := hw.of_phase (ne_of_eq_of_ne ho (by decide))
    exact absurd ho hstart
  | sent hw =>
    have ho := (advance_keeps _ _).1.symm.trans ho
    obtain ⟨acks, hd, rfl⟩ := hw.of_phase (ne_of_eq_of_ne ho (by decide))
    exact absurd ho hstart
  | cleared => exact ⟨(h ho).1, (h ho).2.1, rfl⟩
  | resentLost hd hdue hcount hres => exact absurd hdue (h ho).not_due
  | resent hd hdue hcount hres => exact absurd hdue (h ho).not_due

end

/-! ## Sequence numbers of the stream -/

theorem offset_toNat {a : UInt32} (h : n + k < 2 ^ 32) :
    (a + UInt32.ofNat n + UInt32.ofNat k - a).toNat = n + k := by
  have ha := a.toNat_lt
  rw [UInt32.toNat_sub, UInt32.toNat_add, UInt32.toNat_add, UInt32.toNat_ofNat',
    UInt32.toNat_ofNat']
  omega

/-- A chunk sent at the end of the accepted data. -/
theorem Consistent.chunk {sent : List Segment} (h : Consistent accepted sent)
    (hdata : seg.data = data) (hseq : seg.seq = isn + 1 + UInt32.ofNat accepted.length)
    (hlen : accepted.length + data.length ≤ 2 ^ 32) :
    Consistent (accepted ++ data) (sent ++ [seg]) := by
  intro q b hb
  rcases hb.cases_append with hb | ⟨seg', hseg', k, hk, hq⟩
  · obtain ⟨hlt, hget⟩ := List.getElem?_eq_some_iff.mp (h q b hb)
    rw [List.getElem?_append_left hlt]
    exact h q b hb
  · rw [mem_singleton.mp hseg', hdata] at hk
    rw [mem_singleton.mp hseg', hseq] at hq
    have hlt : k < data.length := (List.getElem?_eq_some_iff.mp hk).1
    rw [hq, offset_toNat (by omega), List.getElem?_append_right (Nat.le_add_right _ _),
      Nat.add_sub_cancel_left]
    exact hk

/-! ## Byte consistency -/

/-- The step sends no data of slot `c` in a way the code gets wrong: a chunk
that goes out is reported as sent, the SYN was counted before the first one,
the stream fits the sequence numbers, and `check_retransmit` retransmits
nothing. The run of the connection has no `close`. -/
def Faithful (c : Slot) (s : TcpSys) : TcpCall → Prop
  | .chunk id data run => id = c → (s.ghost c).phase = .connected → run.res ≠ .noFrame →
      run.res = .ok ∧ ((s.ghost c).accepted = [] → (s.conns c).sndNxt = isn + 1) ∧
        (s.ghost c).accepted.length + data.length ≤ 2 ^ 32
  | .close id _ => id = c → (s.ghost c).phase ≠ .connected
  | .retransmit id now run => id = c → (s.ghost c).phase = .connected →
      due (s.conns c) now = true → (s.conns c).retransmitCount < maxRetransmits →
      run.res = .noFrame
  | _ => True

def SendInv (v : TxView) : Prop :=
  (v.phase = .opened → FreshTx v) ∧
  (v.phase = .connected → Consistent v.accepted v.sent ∧
    (v.sndNxt = isn + 1 + UInt32.ofNat v.accepted.length ∨ v.accepted = [] ∧ v.sndNxt = isn))

theorem SendInv.step {v : TxView} (h : SendInv (s.tx i)) (hstart : Started s c)
    (hf : Faithful i s c) (hstep : TxStep i s c v) : SendInv v := by
  refine ⟨hstep.fresh h.1 hstart, fun ho => ?_⟩
  cases hstep with
  | left hp => exact absurd (hp.symm.trans ho) (by decide)
  | answers hw =>
    obtain ⟨acks, hd, rfl⟩ := hw.of_phase (by simp [ho])
    exact ⟨(h.2 ho).1.emit hd, (h.2 ho).2⟩
  | opened hp hacc hsent hlen =>
    rw [hp] at ho
    cases ho
  | connected hopen hd hn =>
    have hfresh := (h.1 hopen).emit hd
    refine ⟨fun q b hb => absurd hb hfresh.2.1.not_sentByte, ?_⟩
    rcases hn with rfl | rfl
    · exact .inr ⟨hfresh.1, rfl⟩
    · refine .inl ?_
      have hacc : (s.ghost i).accepted = [] := hfresh.1
      simp [TcpSys.tx, txView, TxView.emit, hacc]
  | redialed hw => exact absurd (hw.phase.symm.trans ho) (by decide)
  | closed hd => exact absurd ho (hf rfl)
  | lost hw hres =>
    obtain ⟨acks, hd, rfl⟩ := hw.of_phase (ne_of_eq_of_ne ho (by decide))
    obtain ⟨hok, -⟩ := hf rfl ho (by rw [hres]; decide)
    rw [hres] at hok
    cases hok
  | @sent _ data run hw hres hlen =>
    have ho := (advance_keeps _ _).1.symm.trans ho
    obtain ⟨acks, hd, rfl⟩ := hw.of_phase (ne_of_eq_of_ne ho (by decide))
    have hconn : (s.ghost i).phase = .connected := ho
    obtain ⟨hcons, hnxt⟩ := h.2 hconn
    obtain ⟨-, hsyn, hbound⟩ := hf rfl hconn (by rw [hres]; decide)
    have hseq : (s.conns i).sndNxt = isn + 1 + UInt32.ofNat (s.ghost i).accepted.length := by
      rcases hnxt with hnxt | ⟨hacc, -⟩
      · exact hnxt
      · have hacc' : (s.ghost i).accepted = [] := hacc
        rw [hsyn hacc', hacc']
        rfl
    refine ⟨?_, .inl ?_⟩
    · have hnew : Consistent _ (_ ++ [buildSegment (s.conns i) (tcpAck ||| tcpPsh) data]) :=
        (hcons.emit hd).chunk rfl hseq hbound
      simp only [(advance_keeps _ _).2.2]
      exact hnew
    · simp only [advance_sndNxt]
      change (s.conns i).sndNxt + _ = _
      rw [hseq, length_append, UInt32.ofNat_add]
      simp only [UInt32.add_assoc]
      rfl
  | cleared => exact h.2 ho
  | resentLost hd hdue hcount hres =>
    have hnone := hf rfl ho hdue hcount
    rw [hres] at hnone
    cases hnone
  | resent hd hdue hcount hres =>
    have hnone := hf rfl ho hdue hcount
    rw [hres] at hnone
    cases hnone

theorem sendInv_inductive (i : Slot) :
    (tcpLTS fun s c => Started s c ∧ Faithful i s c).Inductive fun s => SendInv (s.tx i) where
  init s h := by
    have hstale : (s.tx i).phase = .stale := h i
    refine ⟨fun ho => ?_, fun ho => ?_⟩ <;> rw [hstale] at ho <;> cases ho
  step s c s' h hstep := by
    obtain ⟨⟨hstart, hf⟩, rfl⟩ := hstep
    exact h.step hstart hf (call_tx s c i)

/-- In every run whose steps are `Faithful` for a connection made by `open` and
`connect`, each byte it ever sent under `q` is the byte of the accepted stream
at offset `q - (ISN + 1)`; so no sequence number carries two different bytes. -/
theorem byte_consistency {s : TcpSys} {id : Slot}
    (hs : (tcpLTS fun s c => Started s c ∧ Faithful id s c).Reachable s)
    (hphase : (s.ghost id).phase = .connected) :
    Consistent (s.ghost id).accepted (s.ghost id).sent ∧
      ∀ q b b', SentByte (s.ghost id).sent q b → SentByte (s.ghost id).sent q b' → b = b' := by
  have hcons : Consistent (s.ghost id).accepted (s.ghost id).sent :=
    (((sendInv_inductive id).reachable s hs).2 hphase).1
  refine ⟨hcons, fun q b b' hb hb' => ?_⟩
  have hsame := (hcons q b hb).symm.trans (hcons q b' hb')
  exact Option.some.inj hsame

/-- Two chunks behind each other. -/
def twoChunks : List TcpCall := dial ++ [.chunk 0 [1] (sentAt 0), .chunk 0 [2, 3] (sentAt 0)]

theorem twoChunks_reachable :
    (tcpLTS fun s c => Started s c ∧ Faithful 0 s c).Reachable (twoChunks.foldl call bootTcp) := by
  refine ⟨bootTcp, twoChunks, fun _ => rfl, ?_⟩
  refine .cons ⟨⟨trivial, trivial⟩, rfl⟩ (.cons ⟨⟨trivial, trivial⟩, rfl⟩
    (.cons ⟨⟨trivial, trivial⟩, rfl⟩ (.cons ⟨⟨?_, fun _ _ _ => ⟨rfl, fun _ => ?_, ?_⟩⟩, rfl⟩
      (.cons ⟨⟨?_, fun _ _ _ => ⟨rfl, fun h => absurd h ?_, ?_⟩⟩, rfl⟩ (.nil _)))))
  all_goals decide +kernel

theorem byte_consistency_twoChunks :
    Consistent [1, 2, 3] ((twoChunks.foldl call bootTcp).ghost 0).sent ∧
      ∀ q b b', SentByte ((twoChunks.foldl call bootTcp).ghost 0).sent q b →
        SentByte ((twoChunks.foldl call bootTcp).ghost 0).sent q b' → b = b' := by
  have hacc : ((twoChunks.foldl call bootTcp).ghost 0).accepted = [1, 2, 3] := by decide +kernel
  rw [← hacc]
  exact byte_consistency twoChunks_reachable (by decide +kernel)

/-! ## Idle rounds -/

/-- A round of the loop behind a chunk in which nothing arrives. -/
def idle (now : UInt64) : Round := ⟨.nil, now, fun _ => sentAt now⟩

/-- No connection has anything to retransmit. -/
def Settled (s : TcpSys) : Prop := ∀ i, (s.conns i).active = false ∨ (s.conns i).txLen = 0

instance (s : TcpSys) : Decidable (Settled s) :=
  inferInstanceAs (Decidable (∀ i, (s.conns i).active = false ∨ (s.conns i).txLen = 0))

theorem checkRetransmit_settled (h : Settled s) (now : UInt64) (runs : Slot → IpRun) :
    checkRetransmit s now runs = s := by
  have hone : ∀ i, retransmitOne s i now (runs i) = s := by
    intro i
    unfold retransmitOne
    rcases h i with ha | hl
    · rw [if_pos (.inl ha)]
    · simp [hl]
  unfold checkRetransmit
  generalize List.finRange 16 = is
  induction is with
  | nil => rfl
  | cons i is ih => rw [foldl_cons, hone i, ih]

theorem rounds_settled (h : Settled s) (now : UInt64) (n : Nat) :
    rounds s (List.replicate n (idle now)) = s := by
  induction n with
  | zero => rfl
  | succ n ih =>
    have hround : checkRetransmit (pollSegs s (idle now).polled) (idle now).now (idle now).runs = s :=
      checkRetransmit_settled h _ _
    rw [replicate_succ, rounds, foldl_cons, hround]
    exact ih

theorem rounds_replicate (hk : k ≤ n) (h : Settled (rounds s (List.replicate k (idle now)))) :
    rounds s (List.replicate n (idle now)) = rounds s (List.replicate k (idle now)) := by
  obtain ⟨m, rfl⟩ := Nat.exists_eq_add_of_le hk
  rw [← replicate_append_replicate, rounds, foldl_append]
  exact rounds_settled h now m

/-- A `TCP::send` of one chunk. -/
theorem send_one {id : Slot} {run : IpRun} {rs : List Round}
    (hst : (s.conns id).state = .established) (hpos : 0 < data.length) (hlen : data.length ≤ mss)
    (hok : (sendChunk s id data run).2 = true) :
    (send s id data [(run, rs)]).1 = rounds (sendChunk s id data run).1 rs := by
  have hchunk : (data.drop 0).take mss = data := by
    rw [drop_zero, take_of_length_le hlen]
  simp only [send, hst, ne_eq, not_true_eq_false, if_false, sendLoop, hpos, if_true, hchunk, hok]

/-- `open` and `connect` to the server, which answers at once. -/
def dialed : TcpSys :=
  (connect (openConn bootTcp).1 0 0x0A000202 80 (sentAt 0)
    [.cons (serverSeg 5000 1001 (tcpSyn ||| tcpAck) []) (sentAt 0) .nil]).1

/-- `send` of one byte at tick 0 with the 10000 rounds behind it, all at tick
`now` and without an acknowledgement. -/
def sendByte (s : TcpSys) (b : UInt8) (now : UInt64) : TcpSys :=
  (send s 0 [b] [(sentAt 0, List.replicate 10000 (idle now))]).1

theorem sendByte_eq {b : UInt8} (k : Nat) (hk : k ≤ 10000) (hst : (s.conns 0).state = .established)
    (hok : (sendChunk s 0 [b] (sentAt 0)).2 = true)
    (h : Settled (rounds (sendChunk s 0 [b] (sentAt 0)).1 (List.replicate k (idle now)))) :
    sendByte s b now = rounds (sendChunk s 0 [b] (sentAt 0)).1 (List.replicate k (idle now)) := by
  have hpos : 0 < [b].length := Nat.succ_pos _
  have hlen : [b].length ≤ mss := by rw [length_singleton]; decide
  rw [sendByte, send_one hst hpos hlen hok, rounds_replicate hk h]

theorem sendByte_first : sendByte dialed 1 0 =
    rounds (sendChunk dialed 0 [1] (sentAt 0)).1 (List.replicate 1 (idle 0)) :=
  sendByte_eq 1 (by decide) (by decide +kernel) (by decide +kernel) (by decide +kernel)

/-- **Counterexample.** Two sends of one byte each, no acknowledgement: the
retransmission behind the second one resends its byte under the sequence
number of the first. -/
theorem retransmit_wrong_byte :
    ((sendByte (sendByte dialed 1 0) 2 200).ghost 0).phase = .connected ∧
    ((sendByte (sendByte dialed 1 0) 2 200).ghost 0).accepted = [1, 2] ∧
    SentByte ((sendByte (sendByte dialed 1 0) 2 200).ghost 0).sent 1001 1 ∧
    SentByte ((sendByte (sendByte dialed 1 0) 2 200).ghost 0).sent 1001 2 ∧
    ¬ Consistent ((sendByte (sendByte dialed 1 0) 2 200).ghost 0).accepted
      ((sendByte (sendByte dialed 1 0) 2 200).ghost 0).sent := by
  have hrun : sendByte (sendByte dialed 1 0) 2 200 = rounds (sendChunk (rounds (sendChunk dialed 0
      [1] (sentAt 0)).1 (List.replicate 1 (idle 0))) 0 [2] (sentAt 0)).1
      (List.replicate 2 (idle 200)) := by
    rw [sendByte_first]
    exact sendByte_eq 2 (by decide) (by decide +kernel) (by decide +kernel) (by decide +kernel)
  have hghost : ((sendByte (sendByte dialed 1 0) 2 200).ghost 0).phase = .connected ∧
      ((sendByte (sendByte dialed 1 0) 2 200).ghost 0).accepted = [1, 2] ∧
      ((sendByte (sendByte dialed 1 0) 2 200).ghost 0).sent.map (fun seg => (seg.seq, seg.data)) =
        [(1000, []), (1001, []), (1001, [1]), (1002, [2]), (1001, [2])] := by
    rw [hrun]
    decide +kernel
  generalize (sendByte (sendByte dialed 1 0) 2 200).ghost 0 = g at hghost
  obtain ⟨hphase, hacc, hsent⟩ := hghost
  have hbyte : ∀ b : UInt8, (1001, [b]) ∈ g.sent.map (fun seg => (seg.seq, seg.data)) →
      SentByte g.sent 1001 b := by
    intro b hb
    obtain ⟨seg, hseg, he⟩ := mem_map.mp hb
    obtain ⟨hseq, hdata⟩ := Prod.mk.inj he
    exact ⟨seg, hseg, 0, by rw [hdata]; rfl, by rw [hseq]; rfl⟩
  have h2 := hbyte 2 (by rw [hsent]; decide)
  refine ⟨hphase, hacc, hbyte 1 (by rw [hsent]; decide), h2, fun hc => ?_⟩
  have hget := hc 1001 2 h2
  rw [hacc] at hget
  exact absurd hget (by decide)

/-! ## What can be retransmitted -/

/-- A data byte sent and not yet acknowledged. -/
def Outstanding (c : TcpConnection) (g : Ghost) (q : UInt32) (b : UInt8) : Prop :=
  SentByte g.sent q b ∧ q - c.sndUna < c.sndNxt - c.sndUna

/-- Every unacknowledged byte is in the retransmission buffer. -/
def Covered (c : TcpConnection) (g : Ghost) : Prop :=
  ∀ q b, Outstanding c g q b → q - c.txSeq < c.txLen ∧ c.txBuf (q - c.txSeq).toNat = b

/-- The stream of slot `c` stays below the 2^32 sequence numbers; the run of
the connection has no `close`. -/
def Small (c : Slot) (s : TcpSys) : TcpCall → Prop
  | .chunk id data _ => id = c → (s.ghost c).accepted.length + data.length + 2466 ≤ 2 ^ 32
  | .close id _ => id = c → (s.ghost c).phase ≠ .connected ∧ (s.ghost c).phase ≠ .accepted
  | _ => True

/-- The buffer ends below `snd_nxt`, and the byte below `snd_nxt` was sent. A connection that
was opened passively has whatever the slot held before until its first chunk; a chunk that
was being sent when it took the slot counts as its own, under other numbers. -/
structure Behind (v : TxView) : Prop where
  nxt_le : v.sndNxt.toNat ≤ 1002 + v.accepted.length
  small : v.accepted.length + 2466 ≤ 2 ^ 32
  last : v.accepted ≠ [] → (∃ b, SentByte v.sent (v.sndNxt - 1) b) ∨
    v.phase = .accepted ∧ (v.txLen = 0 ∨ (v.txSeq + v.txLen).toNat ≤ 1001)
  none : v.phase = .connected → v.accepted = [] → v.txLen = 0
  buffer : v.accepted ≠ [] →
    v.txLen = 0 ∨ v.txSeq + v.txLen < v.sndNxt ∧ v.txLen.toNat ≤ 1464

/-- The slot holds a connection. -/
def Joined (v : TxView) : Prop := v.phase = .connected ∨ v.phase = .accepted

def BufferInv (v : TxView) : Prop := (v.phase = .opened → FreshTx v) ∧ (Joined v → Behind v)

theorem Behind.emit {v : TxView} (h : Behind v) (l : List Segment) : Behind (v.emit l) :=
  ⟨h.nxt_le, h.small, fun hne => (h.last hne).imp_left fun ⟨b, hb⟩ => ⟨b, hb.append_left⟩, h.none,
    h.buffer⟩

/-- A passive connection without accepted data. -/
theorem behind_of_accepted {v : TxView} (hp : v.phase = .accepted) (hacc : v.accepted = [])
    (hnxt : v.sndNxt.toNat ≤ 1002) : Behind v where
  nxt_le := Nat.le_add_right_of_le hnxt
  small := by rw [hacc]; decide
  last hne := absurd hacc hne
  none hc := absurd (hp.symm.trans hc) (by decide)
  buffer hne := absurd hacc hne

theorem Reopened.nxt_le {v : TxView} (h : Reopened v) : v.sndNxt.toNat ≤ 1001 := by
  rcases h.nxt with e | e <;> rw [e] <;> decide

theorem Answers.behind {s : TcpSys} {i : Slot} {v : TxView} (hw : Answers s i v)
    (h : BufferInv (s.tx i)) (ho : Joined v) : Behind v := by
  cases hw with
  | sent hd => exact (h.2 ho).emit _
  | reopened _ hre => exact behind_of_accepted hre.phase hre.none (Nat.le_succ_of_le hre.nxt_le)

/-- A chunk, accepted: the buffer ends where the chunk begins. -/
theorem Behind.chunk {v : TxView} (h : Behind v)
    (hsmall : v.accepted.length + data.length + 2466 ≤ 2 ^ 32) (hlen : data.length ≤ 1464)
    (hseq : seg.seq = v.sndNxt ∨ v.phase = .accepted ∧ v.sndNxt.toNat ≤ 1001)
    (hdata : seg.data = data) :
    Behind { (v.emit [seg]).advance data with accepted := v.accepted ++ data } := by
  have hnxt := h.nxt_le
  by_cases h0 : data = []
  · have hadv : (v.emit [seg]).advance data = v.emit [seg] := if_pos h0
    rw [hadv, h0, append_nil]
    exact h.emit [seg]
  · have hpos : 0 < data.length := length_pos_iff.mpr h0
    have hn : (UInt32.ofNat data.length).toNat = data.length := by
      rw [UInt32.toNat_ofNat']; omega
    have hsum : (v.sndNxt + UInt32.ofNat data.length).toNat = v.sndNxt.toNat + data.length := by
      rw [UInt32.toNat_add, hn]; omega
    rw [advance_of_ne_nil h0]
    refine ⟨?_, ?_, fun _ => ?_, fun _ hnil => ?_, fun _ => .inr ⟨?_, ?_⟩⟩
    · rw [length_append]
      change (v.sndNxt + UInt32.ofNat data.length).toNat ≤ _
      omega
    · rw [length_append]
      omega
    · rcases hseq with hseq | ⟨hp, hle⟩
      · -- the last byte of the chunk
        obtain ⟨b, hb⟩ : ∃ b, data[data.length - 1]? = some b :=
          ⟨_, List.getElem?_eq_getElem (by omega)⟩
        refine .inl ⟨b, .append_right ⟨seg, mem_singleton_self _, data.length - 1,
          hdata ▸ hb, ?_⟩⟩
        rw [hseq]
        change v.sndNxt + UInt32.ofNat data.length - 1 = _
        apply UInt32.toNat_inj.mp
        rw [UInt32.toNat_sub, hsum, UInt32.toNat_add, UInt32.toNat_ofNat', UInt32.toNat_one]
        omega
      · refine .inr ⟨hp, .inr ?_⟩
        rwa [UInt32.sub_add_cancel]
    · simp [h0] at hnil
    · change v.sndNxt - UInt32.ofNat data.length + UInt32.ofNat data.length <
        v.sndNxt + UInt32.ofNat data.length
      rw [UInt32.sub_add_cancel, UInt32.lt_iff_toNat_lt, hsum]
      omega
    · rw [hn]
      exact hlen

/-- A retransmission: the buffer now ends at `snd_una`. -/
theorem Behind.resent {v : TxView} {r : UInt32} {buf : Nat → UInt8} (h : Behind v)
    (hdue : v.txLen ≠ 0) (hlt : una < v.txSeq + v.txLen) (hr : r.toNat ≤ 1464) :
    Behind { v with txBuf := buf, txLen := r, txSeq := una - r } := by
  refine ⟨h.nxt_le, h.small, fun hne => (h.last hne).imp_right fun ⟨hp, hend⟩ => ⟨hp, .inr ?_⟩,
    fun hc hnil => absurd (h.none hc hnil) hdue, fun hne => .inr ⟨?_, hr⟩⟩
  · rw [UInt32.sub_add_cancel]
    exact UInt32.lt_trans hlt ((h.buffer hne).resolve_left hdue).1
  · rw [UInt32.sub_add_cancel]
    exact Nat.le_trans (Nat.le_of_lt (UInt32.lt_iff_toNat_lt.mp hlt)) (hend.resolve_left hdue)

theorem due_fields {c : TcpConnection} (h : due c now = true) :
    c.txLen ≠ 0 ∧ c.sndUna < c.txSeq + c.txLen := by
  simp only [due, Bool.and_eq_true, decide_eq_true_eq, bne_iff_ne] at h
  exact ⟨h.1.1.2, h.1.2⟩

theorem BufferInv.step {v : TxView} (h : BufferInv (s.tx i)) (hstart : Started s c)
    (hf : Small i s c) (hstep : TxStep i s c v) : BufferInv v := by
  refine ⟨hstep.fresh h.1 hstart, fun ho => ?_⟩
  cases hstep with
  | left hp => simp [Joined, hp] at ho
  | answers hw => exact hw.behind h ho
  | opened hp => simp [Joined, hp] at ho
  | @connected acks n _ _ _ hopen hd hn =>
    have hfresh := h.1 hopen
    have hacc : (s.ghost i).accepted = [] := hfresh.1
    have hn' : n.toNat ≤ 1002 := by rcases hn with rfl | rfl <;> decide
    refine ⟨Nat.le_add_right_of_le hn', ?_, fun hne => absurd hacc hne, fun _ _ => hfresh.2.2,
      fun hne => absurd hacc hne⟩
    change (s.ghost i).accepted.length + 2466 ≤ _
    rw [hacc]
    decide
  | @redialed w n _ _ _ hre hn =>
    have hn' : n.toNat ≤ 1002 := by
      rcases hre.nxt with e | e <;> rw [e] at hn <;> rcases hn with rfl | rfl <;> decide
    exact behind_of_accepted hre.phase hre.none hn'
  | closed hd => exact absurd ho (not_or.mpr (hf rfl))
  | lost hw hres => exact (hw.behind h ho).emit _
  | @sent w data run hw hres hlen =>
    have hjoined : Joined w := by
      simp only [Joined, (advance_keeps _ _).1] at ho
      exact ho
    have hb := hw.behind h hjoined
    have hsmall := hf rfl
    cases hw with
    | sent hd => exact hb.chunk hsmall hlen (.inl rfl) rfl
    | reopened _ hre =>
      refine hb.chunk ?_ hlen (.inr ⟨hre.phase, hre.nxt_le⟩) rfl
      rw [hre.none, length_nil]
      omega
  | cleared =>
    have hb := h.2 ho
    exact ⟨hb.nxt_le, hb.small, fun hne => (hb.last hne).imp_right fun hp => ⟨hp.1, .inl rfl⟩,
      fun _ _ => rfl, fun _ => .inl rfl⟩
  | resentLost hd hdue hcount hres => exact (h.2 ho).emit _
  | resent hd hdue hcount hres hpos hlen =>
    obtain ⟨hne, hlt⟩ := due_fields hdue
    have hr : (UInt32.ofNat (resentData (s.conns i)).length).toNat ≤ 1464 := by
      rw [UInt32.toNat_ofNat']
      exact Nat.le_trans (Nat.mod_le _ _) hlen
    exact ((h.2 ho).emit _).resent hne hlt hr

theorem bufferInv_inductive (i : Slot) :
    (tcpLTS fun s c => Started s c ∧ Small i s c).Inductive fun s => BufferInv (s.tx i) where
  init s h := by
    have hstale : (s.tx i).phase = .stale := h i
    exact ⟨fun ho => absurd (hstale.symm.trans ho) (by decide),
      fun ho => by simp [Joined, hstale] at ho⟩
  step s c s' h hstep := by
    obtain ⟨⟨hstart, hf⟩, rfl⟩ := hstep
    exact h.step hstart hf (call_tx s c i)

/-- The byte below `snd_nxt` is not in the buffer. -/
theorem Behind.not_in_buffer {v : TxView} (h : Behind v) (hne : v.accepted ≠ []) :
    ¬ v.sndNxt - 1 - v.txSeq < v.txLen := by
  intro hlt
  rcases h.buffer hne with h0 | ⟨hend, hlen⟩
  · rw [h0] at hlt
    exact absurd hlt UInt32.not_lt_zero
  have hnxt := h.nxt_le
  have hsmall := h.small
  have hseq := v.txSeq.toNat_lt
  rw [UInt32.lt_iff_toNat_lt, UInt32.toNat_sub, UInt32.toNat_sub, UInt32.toNat_one] at hlt
  rw [UInt32.lt_iff_toNat_lt, UInt32.toNat_add] at hend
  omega

/-- Nor is any byte from the first data number on, if the buffer ends at or before it. -/
theorem Behind.not_below {v : TxView} {q : UInt32} (h : Behind v) (hne : v.accepted ≠ [])
    (hend : (v.txSeq + v.txLen).toNat ≤ 1001) (hsyn : isn < una) (hle : una ≤ v.sndNxt)
    (hq : q - una < v.sndNxt - una) : ¬ q - v.txSeq < v.txLen := by
  intro hlt
  rcases h.buffer hne with h0 | ⟨-, hlen⟩
  · rw [h0] at hlt
    exact absurd hlt UInt32.not_lt_zero
  have hnxt := h.nxt_le
  have hsmall := h.small
  have h1 := v.txSeq.toNat_lt
  have hsyn' : 1000 < una.toNat := UInt32.lt_iff_toNat_lt.mp hsyn
  have hle' := UInt32.le_iff_toNat_le.mp hle
  rw [UInt32.lt_iff_toNat_lt, UInt32.toNat_sub] at hlt
  rw [UInt32.lt_iff_toNat_lt, UInt32.toNat_sub, UInt32.toNat_sub] at hq
  rw [UInt32.toNat_add] at hend
  omega

theorem last_in_window {q nxt : UInt32} (h : q - una < nxt - una) : nxt - 1 - una < nxt - una := by
  rw [UInt32.lt_iff_toNat_lt, UInt32.toNat_sub, UInt32.toNat_sub] at h
  rw [UInt32.lt_iff_toNat_lt, UInt32.toNat_sub, UInt32.toNat_sub, UInt32.toNat_sub, UInt32.toNat_one]
  omega

/-- `snd_una` as the ACKs of an honest peer leave it: the SYN is acknowledged, and so is
nothing beyond `snd_nxt`; everything is, before data is accepted. -/
structure PeerAcked (c : TcpConnection) (g : Ghost) : Prop where
  syn : isn < c.sndUna
  le : c.sndUna ≤ c.sndNxt
  all : g.accepted = [] → c.sndUna = c.sndNxt

/-- In every run, whichever sends fail and whenever `check_retransmit` runs: the
retransmission buffer holds the unacknowledged bytes of a connection only if there are none.
For a connection of `connect` this is so whatever the peer acknowledges. -/
theorem covered_iff {s : TcpSys} {id : Slot}
    (hs : (tcpLTS fun s c => Started s c ∧ Small id s c).Reachable s)
    (hphase : (s.ghost id).phase = .connected ∨
      (s.ghost id).phase = .accepted ∧ PeerAcked (s.conns id) (s.ghost id)) :
    Covered (s.conns id) (s.ghost id) ↔ ∀ q b, ¬ Outstanding (s.conns id) (s.ghost id) q b := by
  have hb : Behind (s.tx id) :=
    ((bufferInv_inductive id).reachable s hs).2 (hphase.imp_right And.left)
  refine ⟨fun hcov q b hout => ?_, fun hnone q b hout => absurd hout (hnone q b)⟩
  have hin := (hcov q b hout).1
  by_cases hacc : (s.ghost id).accepted = []
  · rcases hphase with hc | ⟨-, hack⟩
    · -- nothing was accepted, so nothing is buffered
      have hlen : (s.conns id).txLen = 0 := hb.none hc hacc
      rw [hlen] at hin
      exact UInt32.not_lt_zero hin
    · -- nothing was accepted, so the window is empty
      have hwin := hout.2
      rw [hack.all hacc, UInt32.sub_self] at hwin
      exact UInt32.not_lt_zero hwin
  · rcases hb.last hacc with ⟨b', hlast⟩ | ⟨hp, hend⟩
    · -- some byte is outstanding, so the window is not empty and the last byte is in it
      have hwin := last_in_window hout.2
      exact hb.not_in_buffer hacc (hcov _ b' ⟨hlast, hwin⟩).1
    · have hack := (hphase.resolve_left fun hc => absurd (hp.symm.trans hc) (by decide)).2
      rcases hend with h0 | hend
      · have hlen : (s.conns id).txLen = 0 := h0
        rw [hlen] at hin
        exact UInt32.not_lt_zero hin
      · exact hb.not_below hacc hend hack.syn hack.le hout.2 hin

/-- A table in which an earlier connection has left bytes in slot 1. -/
def usedTcp : TcpSys := bootTcp.update 1 fun c => { c with txLen := 3, txSeq := 999 }

/-- A passive open in slot 1 for the listener in slot 0, and a chunk. -/
def passiveChunk : List TcpCall :=
  [.openConn, .listen 0 49152, arrives (serverSeg 5000 0 tcpSyn []),
   arrives (serverSeg 5001 1001 tcpAck []), .chunk 1 [1, 2] (sentAt 0)]

theorem covered_iff_twoChunks :
    (Covered ((twoChunks.foldl call bootTcp).conns 0) ((twoChunks.foldl call bootTcp).ghost 0) ↔
      ∀ q b, ¬ Outstanding ((twoChunks.foldl call bootTcp).conns 0)
        ((twoChunks.foldl call bootTcp).ghost 0) q b) ∧
    (Covered ((passiveChunk.foldl call usedTcp).conns 1) ((passiveChunk.foldl call usedTcp).ghost 1) ↔
      ∀ q b, ¬ Outstanding ((passiveChunk.foldl call usedTcp).conns 1)
        ((passiveChunk.foldl call usedTcp).ghost 1) q b) := by
  constructor
  · refine covered_iff ⟨bootTcp, twoChunks, fun _ => rfl, ?_⟩ (.inl (by decide +kernel))
    refine .cons ⟨⟨trivial, trivial⟩, rfl⟩ (.cons ⟨⟨trivial, trivial⟩, rfl⟩
      (.cons ⟨⟨trivial, trivial⟩, rfl⟩ (.cons ⟨⟨?_, fun _ => ?_⟩, rfl⟩
        (.cons ⟨⟨?_, fun _ => ?_⟩, rfl⟩ (.nil _)))))
    all_goals decide +kernel
  · refine covered_iff ⟨usedTcp, passiveChunk, fun _ => rfl, ?_⟩ (.inr ⟨?_, ?_, ?_, ?_⟩)
    · refine .cons ⟨⟨trivial, trivial⟩, rfl⟩ (.cons ⟨⟨trivial, trivial⟩, rfl⟩
        (.cons ⟨⟨trivial, trivial⟩, rfl⟩ (.cons ⟨⟨trivial, trivial⟩, rfl⟩
          (.cons ⟨⟨?_, fun _ => ?_⟩, rfl⟩ (.nil _)))))
      all_goals decide +kernel
    all_goals decide +kernel

/-- **Counterexample.** One byte is sent and nothing is acknowledged; the
rounds of `send` drop the retransmission buffer. -/
theorem unacked_forgotten : ((sendByte dialed 1 0).ghost 0).phase = .connected ∧
    ((sendByte dialed 1 0).conns 0).state = .established ∧
    ((sendByte dialed 1 0).conns 0).sndUna = 1001 ∧ ((sendByte dialed 1 0).conns 0).sndNxt = 1002 ∧
    ((sendByte dialed 1 0).conns 0).txLen = 0 ∧
    ¬ Covered ((sendByte dialed 1 0).conns 0) ((sendByte dialed 1 0).ghost 0) := by
  rw [sendByte_first]
  refine ⟨by decide +kernel, by decide +kernel, by decide +kernel, by decide +kernel,
    by decide +kernel, fun hcov => ?_⟩
  have hsent : ∃ seg ∈ ((rounds (sendChunk dialed 0 [1] (sentAt 0)).1
      (List.replicate 1 (idle 0))).ghost 0).sent, seg.seq = 1001 ∧ seg.data = [1] := by
    decide +kernel
  obtain ⟨seg, hseg, hseq, hdata⟩ := hsent
  have hout := hcov 1001 1 ⟨⟨seg, hseg, 0, by rw [hdata]; rfl, by rw [hseq]; rfl⟩, by decide +kernel⟩
  exact absurd hout.1 (by decide +kernel)

end HackersOs.L3.Tcp

import HackersOs.L3Net.TcpReceive
import HackersOs.L3Net.TcpReuse

/-!
# The end of a stream

The peer sends the stream `S` and then FIN, perhaps on a segment with data.
`tcp_input` takes a FIN in ESTABLISHED, FIN_WAIT_1 and FIN_WAIT_2 without a
look at its sequence number, and drops the data of the segment. So a FIN ends
the stream truthfully exactly when as many bytes are in as come before it
(`end_of_stream_iff`); in ESTABLISHED that is `seq + data_len = rcv_nxt`
(`finDue_established`).

The receiving side is as in `TcpReceive`; `SlotInv` is carried over to the
single steps here.
-/
namespace HackersOs.L3.Tcp
open HackersOs.Core List

variable {a : Act} {j : Slot} {s : TcpSys} {u : TcpConnection → TcpConnection} {v : RxView}

/-- Honest data, and a FIN right behind the stream. -/
def HonestEnd (irs : UInt32) (S : List UInt8) (seg : InSeg) : Prop :=
  Honest irs S seg ∧ (has seg.flags tcpFin = true →
    has seg.flags tcpSyn = false ∧ seg.seq + seg.dataLen = irs + 1 + UInt32.ofNat S.length)

/-- What the peer sends is honest. -/
def HonestStep (t : Peer) (irs : UInt32) (S : List UInt8) : Act → Prop
  | .segment _ seg | .passive _ seg => FromPeer t seg → HonestEnd irs S seg
  | _ => True

section
variable {t : Peer} {irs : UInt32} {S : List UInt8} {f f' : Fine} {i : Slot} {c : TcpConnection}
  {g : Ghost} {seg : InSeg}

/-! ## The receiving side in single steps -/

def TcpSys.rxOf (s : TcpSys) (i : Slot) : RxView := rxView (s.conns i) (s.ghost i)

theorem rxOf_update_keep (hu : ∀ c g, rxView (u c) g = rxView c g) :
    (s.update j u).rxOf i = s.rxOf i := by
  unfold TcpSys.rxOf
  simp only [update_conns, update_ghost]
  split
  · exact hu _ _
  · rfl

theorem rxOf_mark_keep {u : Ghost → Ghost} (hu : ∀ c g, rxView c (u g) = rxView c g) :
    (s.mark j u).rxOf i = s.rxOf i := by
  unfold TcpSys.rxOf
  simp only [mark_conns, mark_ghost]
  split
  · exact hu _ _
  · rfl

/-- The actions of the sending side. -/
def Act.sends : Act → Bool
  | .answer _ _ | .synAck _ | .control _ _ _ | .sendBegin _ _ | .sendEnd | .chunk | .resend _ _
  | .handed | .landed _ | .cleared _ | .backoff _ _ => true
  | _ => false

theorem rxOf_sends (ha : a.sends = true) (hstep : f.step a = some f') (i : Slot) :
    f'.tcp.rxOf i = f.tcp.rxOf i := by
  cases a with
  | answer j sg =>
    obtain ⟨-, rfl⟩ := of_guard hstep
    dsimp only [TcpSys.record]
    exact rxOf_mark_keep fun _ _ => rfl
  | synAck j | resend j now =>
    obtain ⟨-, rfl⟩ := of_guard hstep
    dsimp only
    exact rxOf_update_keep fun _ _ => rfl
  | control j flags tick =>
    cases hstep
    exact rxOf_update_keep (rxView_afterSend _ _ _)
  | sendBegin j data | sendEnd =>
    obtain ⟨-, rfl⟩ := of_guard hstep
    rfl
  | chunk =>
    simp only [Fine.step] at hstep
    split at hstep <;> cases hstep
    rfl
  | handed =>
    obtain ⟨fl, -, rfl⟩ := Option.map_eq_some_iff.mp hstep
    dsimp only [TcpSys.record]
    exact rxOf_mark_keep fun _ _ => rfl
  | landed ok =>
    obtain ⟨fl, -, rfl⟩ := Option.map_eq_some_iff.mp hstep
    have hacc : (fl.account f.tcp ok).rxOf i = f.tcp.rxOf i := by
      cases ok with
      | none => rfl
      | some tick => exact rxOf_update_keep (rxView_afterSend _ _ _)
    refine Eq.trans ?_ hacc
    unfold Fine.land
    cases fl.saved with
    | some n => exact rxOf_update_keep (u := fun c => { c with sndNxt := n }) fun _ _ => rfl
    | none =>
      dsimp only
      split
      · exact rxOf_mark_keep fun _ _ => rfl
      · rfl
  | cleared j | backoff j now =>
    cases hstep
    dsimp only
    exact rxOf_update_keep fun _ _ => rfl
  | segment | passive | openConn | bind | listen | connectInit | closing | free | giveUp | drain =>
    cases ha

theorem SlotInv.fine_step (hS : S.length < 2 ^ 32 - 1) (h : ∀ i, SlotInv t irs S f.tcp i)
    (ha : HonestStep t irs S a) (hstep : f.step a = some f') (i : Slot) :
    SlotInv t irs S f'.tcp i := by
  cases a with
  | segment j seg =>
    obtain ⟨hg, rfl⟩ := of_guard hstep
    exact (h i).segment hS (fun hp => (ha hp).1) hg.2
  | passive j seg =>
    obtain ⟨hg, rfl⟩ := of_guard hstep
    exact (h i).passive (fun hp => (ha hp).1) hg.2 j
  | openConn =>
    obtain ⟨-, hstep⟩ := Option.ite_none_right_eq_some.mp hstep
    have hopen := SlotInv.call hS h .openConn (by simp [HonestPeer, TcpCall.segs]) i
    split at hstep <;> cases hstep
    · exact hopen
    · exact h i
  | bind j port =>
    obtain ⟨-, rfl⟩ := of_guard hstep
    exact SlotInv.call hS h (.bind j port) (by simp [HonestPeer, TcpCall.segs]) i
  | listen j port =>
    obtain ⟨-, rfl⟩ := of_guard hstep
    exact SlotInv.call hS h (.listen j port) (by simp [HonestPeer, TcpCall.segs]) i
  | connectInit j addr port =>
    obtain ⟨-, rfl⟩ := of_guard hstep
    exact (h i).connectInit j addr port
  | closing j passive =>
    obtain ⟨hg, rfl⟩ := of_guard hstep
    have hopen := (h j).open_not_opened (by rcases hg.2 with hst | ⟨-, hst⟩ <;> rw [hst] <;> decide)
    dsimp only
    cases passive <;> exact (h i).setState (fun ho => absurd ho hopen) (by decide) fun _ _ => rfl
  | free j | giveUp j now =>
    obtain ⟨-, rfl⟩ := of_guard hstep
    dsimp only
    exact (h i).setState (fun _ => rfl) (by decide) fun _ _ => rfl
  | drain j len =>
    obtain ⟨-, rfl⟩ := of_guard hstep
    exact SlotInv.call hS h (.drain j len) (by simp [HonestPeer, TcpCall.segs]) i
  | answer | synAck | control | sendBegin | sendEnd | chunk | resend | handed | landed | cleared | backoff =>
    show RxInv t irs S (f'.tcp.rxOf i)
    rw [rxOf_sends rfl hstep i]
    exact h i

/-! ## What a step does to one receiver -/

/-- The receiving side of slot `i` after a step. -/
inductive RxStep (f : Fine) (i : Slot) : Act → RxView → Prop where
  | same {a : Act} {v : RxView} : v = f.tcp.rxOf i → RxStep f i a v
  /-- the state was set, to one in which no FIN was taken -/
  | set {a : Act} {v : RxView} : v.state ≠ .closeWait → v.state ≠ .timeWait → RxStep f i a v
  | untracked {a : Act} {v : RxView} : v.phase ≠ .connected → v.phase ≠ .accepted → RxStep f i a v
  | segment {seg : InSeg} {v : RxView} :
      v = rxView (onSegment (f.tcp.conns i) seg).1 (f.tcp.ghost i) →
      RxStep f i (.segment i seg) v
  | drained {a : Act} {v : RxView} (len : Nat) : v = { f.tcp.rxOf i with
        rx := ((f.tcp.rxOf i).rx.drain len).2
        returned := (f.tcp.rxOf i).returned ++ ((f.tcp.rxOf i).rx.drain len).1 } → RxStep f i a v

/-- Slot `j` was changed: for slot `j` itself the new view is left to look at. -/
theorem rxStep_mark {a : Act} {j : Slot} {u : TcpConnection → TcpConnection} {w : Ghost → Ghost}
    (h : i = j → RxStep f i a (rxView (u (f.tcp.conns i)) (w (f.tcp.ghost i)))) :
    RxStep f i a (((f.tcp.update j u).mark j w).rxOf i) := by
  by_cases hij : i = j
  · have hview : ((f.tcp.update j u).mark j w).rxOf i =
        rxView (u (f.tcp.conns i)) (w (f.tcp.ghost i)) := by
      simp only [TcpSys.rxOf, mark_conns, mark_ghost, update_conns, update_ghost, if_pos hij]
    rw [hview]
    exact h hij
  · refine .same ?_
    simp only [TcpSys.rxOf, mark_conns, mark_ghost, update_conns, update_ghost, if_neg hij]

theorem rxStep_update (h : i = j → RxStep f i a (rxView (u (f.tcp.conns i)) (f.tcp.ghost i))) :
    RxStep f i a ((f.tcp.update j u).rxOf i) := by
  have hmark := @rxStep_mark f i a j u (fun g => g) h
  rwa [rxOf_mark_keep fun _ _ => rfl] at hmark

theorem fine_rx (hstep : f.step a = some f') (i : Slot) : RxStep f i a (f'.tcp.rxOf i) := by
  cases a with
  | segment j seg =>
    obtain ⟨-, rfl⟩ := of_guard hstep
    dsimp only
    refine rxStep_update fun hij => ?_
    subst hij
    exact .segment rfl
  | passive j seg =>
    obtain ⟨-, rfl⟩ := of_guard hstep
    dsimp only
    exact rxStep_mark fun _ => .set (by simp [rxView, passiveConn]) (by simp [rxView, passiveConn])
  | openConn =>
    obtain ⟨-, hstep⟩ := Option.ite_none_right_eq_some.mp hstep
    split at hstep <;> cases hstep
    · rename_i j hj
      simp only [openConn, hj]
      exact rxStep_mark fun _ => .set (by simp [rxView, zeroConn]) (by simp [rxView, zeroConn])
    · exact .same rfl
  | bind j port =>
    obtain ⟨-, rfl⟩ := of_guard hstep
    dsimp only [Tcp.bind]
    refine rxStep_mark fun _ => .untracked ?_ ?_ <;> simp only [rxView] <;> split <;> decide
  | listen j port =>
    obtain ⟨-, rfl⟩ := of_guard hstep
    dsimp only [Tcp.listen]
    exact rxStep_mark fun _ => .set (by simp [rxView]) (by simp [rxView])
  | connectInit j addr port =>
    obtain ⟨-, rfl⟩ := of_guard hstep
    by_cases hij : i = j
    · subst hij
      exact .set (by simp [TcpSys.rxOf, rxView, connectInit])
        (by simp [TcpSys.rxOf, rxView, connectInit])
    · refine .same ?_
      simp only [TcpSys.rxOf, connectInit, mark_conns, mark_ghost, update_conns, update_ghost,
        if_neg hij]
  | closing j passive =>
    obtain ⟨-, rfl⟩ := of_guard hstep
    dsimp only
    refine rxStep_update fun _ => ?_
    cases passive <;> exact .set (by simp [rxView]) (by simp [rxView])
  | free j | giveUp j now =>
    obtain ⟨-, rfl⟩ := of_guard hstep
    dsimp only
    exact rxStep_update fun _ => .set (by simp [rxView]) (by simp [rxView])
  | drain j len =>
    obtain ⟨-, rfl⟩ := of_guard hstep
    dsimp only [recvDrain]
    refine rxStep_mark fun hij => ?_
    subst hij
    exact .drained len (by simp [TcpSys.rxOf, rxView])
  | answer | synAck | control | sendBegin | sendEnd | chunk | resend | handed | landed | cleared | backoff =>
    exact .same (rxOf_sends rfl hstep i)

/-! ## Taking a FIN -/

/-- A FIN that `tcp_input` acts on. -/
def TakesFin (c : TcpConnection) (seg : InSeg) : Prop :=
  has seg.flags tcpFin = true ∧ (c.state = .established ∨ c.state = .finWait2 ∨
    (c.state = .finWait1 ∧ has seg.flags tcpAck = true))

instance (c : TcpConnection) (seg : InSeg) : Decidable (TakesFin c seg) := by
  unfold TakesFin; infer_instance

/-- A connection to the peer, opened in the run. -/
def Tracked (t : Peer) (v : RxView) : Prop :=
  (v.phase = .connected ∨ v.phase = .accepted) ∧ v.peer = t

/-- Everything before the FIN of the segment is in: as many bytes were put into
the ring as its sequence number says. -/
def FinDue (irs : UInt32) (v : RxView) (seg : InSeg) : Prop :=
  irs + 1 + UInt32.ofNat (v.returned.length + v.rx.count) = seg.seq + seg.dataLen

/-- The peer is honest, and a FIN is taken only with everything before it in. -/
def FinInOrder (t : Peer) (irs : UInt32) (S : List UInt8) (f : Fine) (a : Act) : Prop :=
  HonestStep t irs S a ∧ match a with
    | .segment i seg => Tracked t (f.tcp.rxOf i) → TakesFin (f.tcp.conns i) seg →
        FinDue irs (f.tcp.rxOf i) seg
    | _ => True

/-- The states a taken FIN leads to. -/
def Ended (v : RxView) : Prop := v.state = .closeWait ∨ v.state = .timeWait

/-- A segment leads into such a state by its FIN only, and then leaves the ring
alone. -/
theorem onSegment_ended (h : Ended (rxView (onSegment c seg).1 g)) :
    (onSegment c seg).1 = c ∨ TakesFin c seg ∧ (onSegment c seg).1.rx = c.rx := by
  unfold onSegment at h ⊢
  cases hst : c.state <;> simp only [hst] at h ⊢
  case established =>
    split
    · rename_i hf
      exact .inr ⟨⟨hf, .inl hst⟩, rfl⟩
    rename_i hf
    rw [if_neg hf] at h
    exfalso
    revert h
    repeat' split
    all_goals simp [Ended, rxView, hst]
  case finWait1 =>
    split
    · rename_i ha
      rw [if_pos ha] at h
      split
      · rename_i hf
        exact .inr ⟨⟨hf, .inr (.inr ⟨hst, ha⟩)⟩, rfl⟩
      · rename_i hf
        rw [if_neg hf] at h
        simp [Ended, rxView] at h
    · exact .inl rfl
  case finWait2 =>
    split
    · rename_i hf
      exact .inr ⟨⟨hf, .inr (.inl hst)⟩, rfl⟩
    · exact .inl rfl
  case synSent | synReceived | lastAck =>
    split
    · rename_i hf
      rw [if_pos hf] at h
      simp [Ended, rxView] at h
    · exact .inl rfl
  all_goals exact .inl trivial

theorem length_taken {n : Nat} (hn : n ≤ S.length) (he : v.returned ++ v.rx.toList = S.take n) :
    v.returned.length + v.rx.count = n := by
  have := congrArg List.length he
  rwa [length_append, Ring.length_toList, length_take, Nat.min_eq_left hn] at this

/-- With a prefix of the stream in, the FIN is due exactly when all of it is. -/
theorem finDue_iff (hS : S.length < 2 ^ 32 - 1) (hp : Prefix S v) (hseg : HonestEnd irs S seg)
    (hf : has seg.flags tcpFin = true) :
    FinDue irs v seg ↔ v.returned ++ v.rx.toList = S := by
  obtain ⟨n, hn, he⟩ := hp
  unfold FinDue
  rw [(hseg.2 hf).2, length_taken hn he, he]
  constructor
  · intro h
    rw [seq_inj (by omega) (by omega) h, take_length]
  · intro h
    have := congrArg List.length h
    rw [length_take, Nat.min_eq_left hn] at this
    rw [this]

theorem finDue_established (h : SlotInv t irs S f.tcp i) (ht : Tracked t (f.tcp.rxOf i))
    (hst : (f.tcp.conns i).state = .established) :
    FinDue irs (f.tcp.rxOf i) seg ↔ seg.seq + seg.dataLen = (f.tcp.conns i).rcvNxt := by
  have hinv : StateInv irs S (f.tcp.rxOf i) := h.2 ht.1 ht.2
  simp only [StateInv, show (f.tcp.rxOf i).state = .established from hst] at hinv
  obtain ⟨n, hn, he, hnxt⟩ := hinv
  rw [FinDue, length_taken hn he, show (f.tcp.conns i).rcvNxt = _ from hnxt]
  exact eq_comm

/-! ## Runs -/

/-- Where a FIN was taken, the whole stream is in. -/
def EndInv (t : Peer) (irs : UInt32) (S : List UInt8) (f : Fine) : Prop :=
  (∀ i, SlotInv t irs S f.tcp i) ∧
  ∀ i, Tracked t (f.tcp.rxOf i) → Ended (f.tcp.rxOf i) →
    (f.tcp.ghost i).returned ++ (f.tcp.conns i).rx.toList = S

theorem tracked_fromPeer (ht : Tracked t (f.tcp.rxOf i)) (hm : Matches (f.tcp.conns i) seg) :
    FromPeer t seg := by
  obtain ⟨m1, m2, m3⟩ := hm
  rw [← ht.2]
  exact ⟨m1.symm, m2.symm, m3.symm⟩

theorem EndInv.step (hS : S.length < 2 ^ 32 - 1) (h : EndInv t irs S f)
    (ha : FinInOrder t irs S f a) (hstep : f.step a = some f') : EndInv t irs S f' := by
  refine ⟨SlotInv.fine_step hS h.1 ha.1 hstep, fun i ht he => ?_⟩
  change (f'.tcp.rxOf i).returned ++ (f'.tcp.rxOf i).rx.toList = S
  have hrx := fine_rx hstep i
  generalize f'.tcp.rxOf i = v at ht he hrx
  cases hrx with
  | same e =>
    rw [e] at ht he ⊢
    exact h.2 i ht he
  | set h1 h2 => exact (he.elim h1 h2).elim
  | untracked h1 h2 => exact (ht.1.elim h1 h2).elim
  | @segment seg _ e =>
    obtain ⟨⟨-, hm⟩, -⟩ := of_guard hstep
    obtain ⟨e1, e2, e3⟩ := onSegment_peer (f.tcp.conns i) seg
    rw [e] at ht he ⊢
    have ht' : Tracked t (f.tcp.rxOf i) :=
      ⟨ht.1, by rw [← ht.2]; simp only [TcpSys.rxOf, rxView, e1, e2, e3]⟩
    rcases onSegment_ended he with hsame | ⟨hfin, hrx⟩
    · rw [hsame] at he ⊢
      exact h.2 i ht' he
    have hdue := ha.2 ht' hfin
    have hpre : Prefix S (f.tcp.rxOf i) := ((h.1 i).2 ht'.1 ht'.2).pre
    have hall := (finDue_iff hS hpre (ha.1 (tracked_fromPeer ht' hm)) hfin.1).mp hdue
    simp only [rxView, hrx]
    exact hall
  | drained len e =>
    rw [e] at ht he ⊢
    have := h.2 i ht he
    simp only [append_assoc, Ring.toList_drain]
    exact this

theorem endInv_inductive (hS : S.length < 2 ^ 32 - 1) :
    (fineLTS (FinInOrder t irs S)).Inductive (EndInv t irs S) where
  init f h := by
    obtain ⟨s, rfl⟩ := h
    exact ⟨fun i => RxInv.stale rfl, fun i ht => (by rcases ht.1 with h | h <;> cases h)⟩
  step f a f' h hstep := h.step hS hstep.1 hstep.2

/-- In a run in which FINs are taken in order, a connection in CLOSE_WAIT or
TIME_WAIT has put all of the stream into its ring, and in CLOSE_WAIT with an
empty ring `recv` has returned all of it; and a FIN taken next leaves it so
exactly when everything before it is in. -/
theorem end_of_stream_iff (hS : S.length < 2 ^ 32 - 1)
    (hr : (fineLTS (FinInOrder t irs S)).Reachable f) (ht : Tracked t (f.tcp.rxOf i)) :
    ((f.tcp.conns i).state = .closeWait ∨ (f.tcp.conns i).state = .timeWait →
      (f.tcp.ghost i).returned ++ (f.tcp.conns i).rx.toList = S) ∧
    ((f.tcp.conns i).state = .closeWait → (f.tcp.conns i).rx.count = 0 →
      (f.tcp.ghost i).returned = S) ∧
    ∀ seg f', HonestStep t irs S (.segment i seg) → TakesFin (f.tcp.conns i) seg →
      f.step (.segment i seg) = some f' →
      ((f'.tcp.ghost i).returned ++ (f'.tcp.conns i).rx.toList = S ↔
        FinDue irs (f.tcp.rxOf i) seg) := by
  obtain ⟨hslots, hend⟩ := (endInv_inductive hS).reachable f hr
  refine ⟨hend i ht, fun hst h0 => ?_, fun seg f' hseg hfin hstep => ?_⟩
  · have := hend i ht (.inl hst)
    have hnil : (f.tcp.conns i).rx.toList = [] :=
      length_eq_zero_iff.mp (by rw [Ring.length_toList, h0])
    rwa [hnil, append_nil] at this
  · obtain ⟨⟨-, hm⟩, rfl⟩ := of_guard hstep
    have hpre : Prefix S (f.tcp.rxOf i) := ((hslots i).2 ht.1 ht.2).pre
    have hrx : (onSegment (f.tcp.conns i) seg).1.rx = (f.tcp.conns i).rx := by
      obtain ⟨hf, hst⟩ := hfin
      unfold onSegment
      rcases hst with hst | hst | ⟨hst, hack⟩
      · simp [hst, hf]
      · simp [hst, hf]
      · simp [hst, hf, hack]
    rw [finDue_iff hS hpre (hseg (tracked_fromPeer ht hm)) hfin.1]
    simp [TcpSys.rxOf, rxView, hrx]

end

/-- The check of the code that `FinInOrder` asks for, on every connection. -/
def FinChecked (irs : UInt32) (f : Fine) : Act → Prop
  | .segment i seg => TakesFin (f.tcp.conns i) seg → FinDue irs (f.tcp.rxOf i) seg
  | _ => True

instance (irs : UInt32) (f : Fine) : DecidablePred (FinChecked irs f) :=
  Act.decideTaken (fun i seg => inferInstanceAs (Decidable (TakesFin (f.tcp.conns i) seg → _ = _)))
    (fun _ _ => .isTrue trivial) fun a h => by cases a <;> simp_all [FinChecked]

/-- `open`, `connect` and the answer of the server. -/
def dialFine : List Act :=
  [.openConn, .connectInit 0 0x0A000202 80, .control 0 tcpSyn 0,
   .segment 0 (serverSeg 5000 1001 (tcpSyn ||| tcpAck) [])]

theorem dialFine_honest (t : Peer) (S : List UInt8) : ∀ a ∈ dialFine, HonestStep t 5000 S a := by
  intro a ha
  simp only [dialFine, mem_cons, not_mem_nil, or_false] at ha
  rcases ha with rfl | rfl | rfl | rfl
  · trivial
  · trivial
  · trivial
  · exact fun _ => ⟨⟨fun _ => rfl, fun h => absurd h (by decide)⟩, fun h => absurd h (by decide)⟩

/-- The FIN of the stream 7, 8, after the data. -/
def finSeg : InSeg := serverSeg 5003 1001 (tcpFin ||| tcpAck) []

/-- The FIN on the segment with the data. -/
def dataFinSeg : InSeg := serverSeg 5001 1001 (tcpFin ||| tcpAck) [7, 8]

theorem finSeg_honest : HonestEnd 5000 [7, 8] finSeg :=
  ⟨⟨fun h => absurd h (by decide), fun _ h => absurd h (by decide)⟩, fun _ => by decide⟩

theorem dataFinSeg_honest : HonestEnd 5000 [7, 8] dataFinSeg :=
  ⟨⟨fun h => absurd h (by decide), fun _ _ => ⟨0, rfl, by decide, by decide⟩⟩, fun _ => by decide⟩

/-- The stream is over for the application, and nothing of it was received. -/
def Truncated (f : Fine) : Prop :=
  Tracked ⟨0x0A000202, 80, 49152⟩ (f.tcp.rxOf 0) ∧ (f.tcp.conns 0).state = .closeWait ∧
    (f.tcp.conns 0).rx.count = 0 ∧ (f.tcp.ghost 0).returned = []

theorem truncated_of_run {seg : InSeg} (hseg : HonestEnd 5000 [7, 8] seg)
    (h : ((bootFine.run (fun _ _ => True) (dialFine ++ [.segment 0 seg])).map fun f =>
      ((f.tcp.rxOf 0).phase, ((f.tcp.conns 0).remoteIp, (f.tcp.conns 0).remotePort,
        (f.tcp.conns 0).localPort), (f.tcp.conns 0).state,
        (f.tcp.conns 0).rx.count + (f.tcp.ghost 0).returned.length)) =
      some (.connected, (0x0A000202, 80, 49152), .closeWait, 0)) :
    ∃ f, bootFine.run (fun _ _ => True) (dialFine ++ [.segment 0 seg]) = some f ∧
      (fineLTS fun _ a => HonestStep ⟨0x0A000202, 80, 49152⟩ 5000 [7, 8] a).Reachable f ∧
        Truncated f := by
  obtain ⟨f, hf, he⟩ := Option.map_eq_some_iff.mp h
  simp only [Prod.mk.injEq] at he
  obtain ⟨h1, ⟨h2, h3, h4⟩, h5, h6⟩ := he
  refine ⟨f, hf, Fine.run_reachable (fun _ a ha _ => ?_) hf, ⟨.inl h1, ?_⟩, h5, by omega,
    length_eq_zero_iff.mp (by omega)⟩
  · rcases mem_append.mp ha with ha | ha
    · exact dialFine_honest _ _ a ha
    · rw [mem_singleton.mp ha]
      exact fun _ => hseg
  · simp only [TcpSys.rxOf, rxView, h2, h3, h4]

/-- **Counterexample**: the FIN of the stream 7, 8 overtakes its data, or comes
with it; the connection is in CLOSE_WAIT with an empty ring, and `recv` has
returned nothing. -/
theorem fin_truncates :
    (∃ f, bootFine.run (fun _ _ => True) (dialFine ++ [.segment 0 finSeg]) = some f ∧
      (fineLTS fun _ a => HonestStep ⟨0x0A000202, 80, 49152⟩ 5000 [7, 8] a).Reachable f ∧
        Truncated f) ∧
    ∃ f, bootFine.run (fun _ _ => True) (dialFine ++ [.segment 0 dataFinSeg]) = some f ∧
      (fineLTS fun _ a => HonestStep ⟨0x0A000202, 80, 49152⟩ 5000 [7, 8] a).Reachable f ∧
        Truncated f := by
  constructor
  · exact truncated_of_run finSeg_honest (by decide +kernel)
  · exact truncated_of_run dataFinSeg_honest (by decide +kernel)

/-- The data, then the FIN twice, the second time with the data; one byte is
read. -/
def orderly : List Act := dialFine ++
  [.segment 0 (serverSeg 5001 1001 tcpAck [7, 8]), .drain 0 1, .segment 0 dataFinSeg,
    .segment 0 finSeg]

theorem end_of_stream_orderly :
    ∃ f, bootFine.run (FinChecked 5000) orderly = some f ∧ (f.tcp.conns 0).state = .closeWait ∧
      (f.tcp.ghost 0).returned ++ (f.tcp.conns 0).rx.toList = [7, 8] := by
  have h : ((bootFine.run (FinChecked 5000) orderly).map fun f =>
      ((f.tcp.rxOf 0).phase, ((f.tcp.conns 0).remoteIp, (f.tcp.conns 0).remotePort,
        (f.tcp.conns 0).localPort), (f.tcp.conns 0).state)) =
      some (.connected, (0x0A000202, 80, 49152), .closeWait) := by decide +kernel
  obtain ⟨f, hf, he⟩ := Option.map_eq_some_iff.mp h
  simp only [Prod.mk.injEq] at he
  obtain ⟨h1, ⟨h2, h3, h4⟩, h5⟩ := he
  have hr : (fineLTS (FinInOrder ⟨0x0A000202, 80, 49152⟩ 5000 [7, 8])).Reachable f := by
    refine Fine.run_reachable (fun f a ha hc => ⟨?_, ?_⟩) hf
    · rcases mem_append.mp ha with ha | ha
      · exact dialFine_honest _ _ a ha
      simp only [mem_cons, not_mem_nil, or_false] at ha
      rcases ha with rfl | rfl | rfl | rfl
      · exact fun _ => ⟨⟨fun h => absurd h (by decide), fun _ _ => ⟨0, rfl, by decide, by decide⟩⟩,
          fun h => absurd h (by decide)⟩
      · trivial
      · exact fun _ => dataFinSeg_honest
      · exact fun _ => finSeg_honest
    · cases a with
      | segment i seg => exact fun _ => hc
      | _ => trivial
  refine ⟨f, hf, h5, (end_of_stream_iff (by decide) hr ⟨.inl h1, ?_⟩).1 (.inl h5)⟩
  simp only [TcpSys.rxOf, rxView, h2, h3, h4]

end HackersOs.L3.Tcp

import HackersOs.L3Net.TcpSteps

/-!
# In-order delivery

A peer sends a byte stream `S` from initial sequence number `irs` in honest
segments; the network loses, duplicates and reorders them. `RxView` is the
part of a slot that receiving depends on, `RxInv` its invariant: in
ESTABLISHED, what `recv` returned followed by what is in the ring is a prefix
of `S`, and `rcv_nxt` is the sequence number of the byte after it.

Result:
* `in_order_delivery`: in every run with an honest peer, for every connection
  that was opened in the run, actively or passively, towards that peer.
-/
namespace HackersOs.L3.Tcp
open HackersOs.Core Relation List

variable {f : TcpConnection → TcpConnection} {j : Slot} {s' : TcpSys} {seg : InSeg} {st : TcpState}

variable {i : Slot} {n : Nat} {s : TcpSys}

/-- Address and port of the peer, and the local port. -/
structure Peer where
  ip : UInt32
  port : UInt16
  localPort : UInt16

def FromPeer (t : Peer) (seg : InSeg) : Prop :=
  seg.srcIp = t.ip ∧ seg.srcPort = t.port ∧ seg.dstPort = t.localPort

/-- A SYN carries the initial sequence number; other data carries the stream
at its offset. -/
def Honest (irs : UInt32) (S : List UInt8) (seg : InSeg) : Prop :=
  (has seg.flags tcpSyn = true → seg.seq = irs) ∧
  (has seg.flags tcpSyn = false → 0 < seg.dataLen →
    ∃ o, seg.seq = irs + 1 + UInt32.ofNat o ∧ o + seg.dataLen.toNat ≤ S.length ∧
      ∀ i, i < seg.dataLen.toNat → S[o + i]? = some (seg.data i))

/-- Every segment of the peer that arrives during the call is honest. -/
def HonestPeer (t : Peer) (irs : UInt32) (S : List UInt8) (_ : TcpSys) (c : TcpCall) : Prop :=
  ∀ seg ∈ c.segs, FromPeer t seg → Honest irs S seg

/-! ## The view of the receiver -/

structure RxView where
  phase : Phase
  state : TcpState
  peer : Peer
  rcvNxt : UInt32
  rx : Ring UInt8 tcpBufSize
  returned : List UInt8

def rxView (c : TcpConnection) (g : Ghost) : RxView where
  phase := g.phase
  state := c.state
  peer := ⟨c.remoteIp, c.remotePort, c.localPort⟩
  rcvNxt := c.rcvNxt
  rx := c.rx
  returned := g.returned

/-- What was received so far is a prefix of the stream. -/
def Prefix (S : List UInt8) (v : RxView) : Prop :=
  ∃ n, n ≤ S.length ∧ v.returned ++ v.rx.toList = S.take n

/-- The receiving side of a connection, by state. -/
def StateInv (irs : UInt32) (S : List UInt8) (v : RxView) : Prop :=
  match v.state with
  | .synSent => v.returned ++ v.rx.toList = []
  | .synReceived => v.returned ++ v.rx.toList = [] ∧ v.rcvNxt = irs + 1
  | .established => ∃ n, n ≤ S.length ∧ v.returned ++ v.rx.toList = S.take n ∧
      v.rcvNxt = irs + 1 + UInt32.ofNat n
  | _ => Prefix S v

def RxInv (t : Peer) (irs : UInt32) (S : List UInt8) (v : RxView) : Prop :=
  (v.phase = .opened → v.state = .closed ∧ v.returned ++ v.rx.toList = []) ∧
  (v.phase = .connected ∨ v.phase = .accepted → v.peer = t → StateInv irs S v)

section
variable {t : Peer} {irs : UInt32} {S : List UInt8} {v : RxView}

theorem StateInv.pre (h : StateInv irs S v) : Prefix S v := by
  have none : v.returned ++ v.rx.toList = [] → Prefix S v := fun h0 =>
    ⟨0, Nat.zero_le _, by rw [h0, take_zero]⟩
  unfold StateInv at h
  split at h
  · exact none h
  · exact none h.1
  · obtain ⟨n, hn, hpre, -⟩ := h
    exact ⟨n, hn, hpre⟩
  · exact h

theorem RxInv.stale (h : v.phase = .stale) : RxInv t irs S v := by
  refine ⟨fun h' => ?_, fun h' => ?_⟩
  · rw [h] at h'; cases h'
  · rw [h] at h'; rcases h' with h' | h' <;> cases h'

/-- Leaving the receiving states keeps the prefix. -/
theorem RxInv.setState (h : RxInv t irs S v) (ho : v.phase = .opened → st = .closed)
    (hst : st ≠ .synSent ∧ st ≠ .synReceived ∧ st ≠ .established) :
    RxInv t irs S { v with state := st } := by
  refine ⟨fun hp => ⟨ho hp, (h.1 hp).2⟩, fun hp ht => ?_⟩
  have hpre : Prefix S { v with state := st } := (h.2 hp ht).pre
  unfold StateInv
  split
  · exact absurd ‹_› hst.1
  · exact absurd ‹_› hst.2.1
  · exact absurd ‹_› hst.2.2
  · exact hpre

/-- Reading from the ring moves bytes, it does not change their order. -/
theorem RxInv.drain (h : RxInv t irs S v) (len : Nat) :
    RxInv t irs S { v with
      rx := (v.rx.drain len).2, returned := v.returned ++ (v.rx.drain len).1 } := by
  have hsame : v.returned ++ (v.rx.drain len).1 ++ (v.rx.drain len).2.toList =
      v.returned ++ v.rx.toList := by
    rw [append_assoc, Ring.toList_drain]
  refine ⟨fun hp => ⟨(h.1 hp).1, hsame.trans (h.1 hp).2⟩, fun hp ht => ?_⟩
  have hinv := h.2 hp ht
  simp only [StateInv, Prefix] at hinv ⊢
  rw [hsame]
  exact hinv

/-! ## A segment -/

/-- Offsets below 2^32 have different sequence numbers. -/
theorem seq_inj {a : UInt32} {x y : Nat} (hx : x < 2 ^ 32) (hy : y < 2 ^ 32)
    (h : a + UInt32.ofNat x = a + UInt32.ofNat y) : x = y := by
  have h' := congrArg UInt32.toNat h
  rw [UInt32.toNat_add, UInt32.toNat_add, UInt32.toNat_ofNat', UInt32.toNat_ofNat'] at h'
  omega

theorem seq_ne_irs (hn : n < 2 ^ 32 - 1) : irs ≠ irs + 1 + UInt32.ofNat n := by
  intro h
  have h' := congrArg UInt32.toNat h
  rw [UInt32.toNat_add, UInt32.toNat_add, UInt32.toNat_ofNat', UInt32.toNat_one] at h'
  omega

/-- The bytes of an honest segment that starts at offset `n` extend the prefix. -/
theorem take_append_segment {data : Nat → UInt8} {len k : Nat}
    (hdata : ∀ i, i < len → S[n + i]? = some (data i)) (hk : k ≤ len) :
    S.take n ++ (List.range k).map data = S.take (n + k) := by
  induction k with
  | zero => simp
  | succ k ih =>
    have hget := hdata k (by omega)
    rw [range_succ, map_append, ← append_assoc, ih (by omega), ← Nat.add_assoc,
      take_add_one, hget]
    rfl

/-- Data in ESTABLISHED: only the byte after the prefix is taken. -/
theorem established_data {rx : Ring UInt8 tcpBufSize} {returned : List UInt8} {rcvNxt : UInt32}
    (hS : S.length < 2 ^ 32 - 1) (hn : n ≤ S.length) (hpre : returned ++ rx.toList = S.take n)
    (hnxt : rcvNxt = irs + 1 + UInt32.ofNat n) (hseg : Honest irs S seg) (hlen : 0 < seg.dataLen)
    (hseq : seg.seq = rcvNxt) :
    ∃ n', n' ≤ S.length ∧ returned ++ (rx.fill seg.data seg.dataLen.toNat).toList = S.take n' ∧
      rcvNxt + UInt32.ofNat (rx.room seg.dataLen.toNat) = irs + 1 + UInt32.ofNat n' := by
  have hsyn : has seg.flags tcpSyn = false := by
    cases hb : has seg.flags tcpSyn
    · rfl
    · exact absurd ((hseg.1 hb).symm.trans (hseq.trans hnxt)) (seq_ne_irs (by omega))
  obtain ⟨o, ho, hbound, hdata⟩ := hseg.2 hsyn hlen
  obtain rfl : n = o := seq_inj (by omega) (by omega) (hnxt.symm.trans (hseq.symm.trans ho))
  obtain ⟨hroom, -⟩ := rx.room_le seg.dataLen.toNat
  refine ⟨n + rx.room seg.dataLen.toNat, by omega, ?_, ?_⟩
  · rw [Ring.toList_fill, ← append_assoc, hpre, take_append_segment hdata hroom]
  · rw [hnxt, UInt32.ofNat_add, UInt32.add_assoc]

theorem has_syn_of_synAck {f : UInt8} (h : f &&& (tcpSyn ||| tcpAck) = tcpSyn ||| tcpAck) :
    has f tcpSyn = true := by
  have h' : f &&& tcpSyn = tcpSyn := by
    have := congrArg (· &&& tcpSyn) h
    rwa [UInt8.and_assoc] at this
  rw [has, h']
  decide

theorem StateInv.onSegment (hS : S.length < 2 ^ 32 - 1) {c : TcpConnection} {g : Ghost}
    (h : StateInv irs S (rxView c g)) (hseg : Honest irs S seg) :
    StateInv irs S (rxView (onSegment c seg).1 g) := by
  have hpre := h.pre
  unfold Tcp.onSegment
  split <;> rename_i hst
  · -- SYN_SENT: a SYN starts the stream
    split
    · rename_i hf
      have hsyn : has seg.flags tcpSyn = true := has_syn_of_synAck hf
      have h0 : g.returned ++ c.rx.toList = [] := by simpa [StateInv, rxView, hst] using h
      exact ⟨0, Nat.zero_le _, by simpa [rxView] using h0, by simp [rxView, hseg.1 hsyn]⟩
    · exact h
  · split
    · have h0 : g.returned ++ c.rx.toList = [] ∧ c.rcvNxt = irs + 1 := by
        simpa [StateInv, rxView, hst] using h
      exact ⟨0, Nat.zero_le _, by simpa [rxView] using h0.1, by simp [rxView, h0.2]⟩
    · exact h
  · obtain ⟨n, hn, htake, hnxt⟩ : ∃ n, n ≤ S.length ∧ g.returned ++ c.rx.toList = S.take n ∧
        c.rcvNxt = irs + 1 + UInt32.ofNat n := by simpa [StateInv, rxView, hst] using h
    split
    · exact hpre
    -- the acknowledgement does not touch the receiving side
    have hack : ∀ c' : TcpConnection, (c' = c ∨ c' = { c with sndUna := seg.ack }) →
        StateInv irs S (rxView (if 0 < seg.dataLen ∧ seg.seq = c'.rcvNxt then
          ({ c' with rx := c'.rx.fill seg.data seg.dataLen.toNat,
                     rcvNxt := c'.rcvNxt + UInt32.ofNat (c'.rx.room seg.dataLen.toNat) }, true)
          else (c', false)).1 g) := by
      intro c' hc'
      have hst' : c'.state = .established := by rcases hc' with rfl | rfl <;> exact hst
      have hrx : c'.rx = c.rx ∧ c'.rcvNxt = c.rcvNxt := by
        rcases hc' with rfl | rfl <;> exact ⟨rfl, rfl⟩
      rw [hrx.1, hrx.2]
      split
      · rename_i hd
        have := established_data hS hn htake hnxt hseg hd.1 hd.2
        simpa [StateInv, rxView, hst'] using this
      · simpa [StateInv, rxView, hst', hrx.1, hrx.2] using ⟨n, hn, htake, hnxt⟩
    split
    · exact hack _ (.inr rfl)
    · exact hack _ (.inl rfl)
  · split
    · split <;> exact hpre
    · exact h
  · split
    · exact hpre
    · exact h
  · split
    · exact hpre
    · exact h
  · exact h

theorem onSegment_peer (c : TcpConnection) (seg : InSeg) :
    (onSegment c seg).1.remoteIp = c.remoteIp ∧ (onSegment c seg).1.remotePort = c.remotePort ∧
      (onSegment c seg).1.localPort = c.localPort := by
  unfold onSegment
  dsimp only
  repeat' split
  all_goals exact ⟨rfl, rfl, rfl⟩

/-! ## Atoms and calls -/

def SlotInv (t : Peer) (irs : UInt32) (S : List UInt8) (s : TcpSys) (i : Slot) : Prop :=
  RxInv t irs S (rxView (s.conns i) (s.ghost i))

/-- A segment for connection `j`. -/
theorem SlotInv.segment (hS : S.length < 2 ^ 32 - 1) {s : TcpSys} {i j : Slot} {seg : InSeg}
    (h : SlotInv t irs S s i) (hP : FromPeer t seg → Honest irs S seg)
    (hm : Matches (s.conns j) seg) :
    SlotInv t irs S (s.update j fun _ => (onSegment (s.conns j) seg).1) i := by
  unfold SlotInv at *
  simp only [update_conns, update_ghost]
  split
  · rename_i hij
    subst hij
    obtain ⟨e1, e2, e3⟩ := onSegment_peer (s.conns i) seg
    refine ⟨fun hp => ?_, fun hp ht => ?_⟩
    · -- an opened slot is CLOSED and takes nothing
      have hst : (s.conns i).state = .closed := (h.1 hp).1
      have hsame : (onSegment (s.conns i) seg).1 = s.conns i := by simp [onSegment, hst]
      rw [hsame]
      exact h.1 hp
    · have ht' : (rxView (s.conns i) (s.ghost i)).peer = t := by
        rw [← ht]; simp only [rxView, e1, e2, e3]
      have hfrom : FromPeer t seg := by
        obtain ⟨m1, m2, m3⟩ := hm
        rw [← ht']
        exact ⟨m1.symm, m2.symm, m3.symm⟩
      exact (h.2 hp ht').onSegment hS (hP hfrom)
  · exact h

/-- A passive open in slot `j`. -/
theorem SlotInv.passive {s : TcpSys} {i : Slot} {seg : InSeg} (h : SlotInv t irs S s i)
    (hP : FromPeer t seg → Honest irs S seg) (hsyn : has seg.flags tcpSyn = true) (j : Slot) :
    SlotInv t irs S ((s.update j (passiveConn s.localIp seg)).mark j fun _ =>
      ⟨.accepted, [], [], []⟩) i := by
  unfold SlotInv at *
  simp only [mark_conns, update_conns, mark_ghost, update_ghost]
  split
  · -- a passive open starts with an empty ring at the peer's SYN
    refine ⟨fun hp => (by cases hp), fun _ ht => ?_⟩
    have hfrom : FromPeer t seg := by rw [← ht]; exact ⟨rfl, rfl, rfl⟩
    have hseq := (hP hfrom).1 hsyn
    exact ⟨by simp [rxView, passiveConn], by simp [rxView, passiveConn, hseq]⟩
  · exact h

theorem SlotInv.atom (hS : S.length < 2 ^ 32 - 1) (h : SlotInv t irs S s i)
    (hatom : Atom (fun seg => FromPeer t seg → Honest irs S seg) s s') : SlotInv t irs S s' i := by
  cases hatom with
  | segment hP _ hm => exact h.segment hS hP hm
  | passive hP _ hsyn => exact h.passive hP hsyn _
  | record hsg =>
    unfold SlotInv at *
    simp only [record_conns, record_ghost]
    split <;> exact h
  | synAck hacc =>
    unfold SlotInv at *
    simp only [update_conns, update_ghost]
    split <;> exact h

theorem SlotInv.quiet (hS : S.length < 2 ^ 32 - 1) (h : SlotInv t irs S s i)
    (hq : Quiet (fun seg => FromPeer t seg → Honest irs S seg) s s') : SlotInv t irs S s' i := by
  induction hq with
  | refl => exact h
  | tail _ hstep ih => exact ih.atom hS hstep

theorem rxView_afterSend (flags : UInt8) (data : List UInt8) (tick : UInt64) (c : TcpConnection)
    (g : Ghost) : rxView (afterSend flags data tick c) g = rxView c g := by
  unfold afterSend
  repeat' split
  all_goals rfl

/-- A slot whose view is kept keeps the invariant. -/
theorem SlotInv.update (h : SlotInv t irs S s i) (hf : ∀ c g, rxView (f c) g = rxView c g) :
    SlotInv t irs S (s.update j f) i := by
  unfold SlotInv at *
  simp only [update_conns, update_ghost]
  split
  · rwa [hf]
  · exact h

theorem SlotInv.record {s : TcpSys} {i j : Slot} {sg : Segment} (h : SlotInv t irs S s i) :
    SlotInv t irs S (s.record j sg) i := by
  unfold SlotInv at *
  simp only [record_conns, record_ghost]
  split <;> exact h

theorem SlotInv.send (hS : S.length < 2 ^ 32 - 1) (h : SlotInv t irs S s i) (j : Slot)
    (flags : UInt8) (data : List UInt8) (run : IpRun)
    (hP : ∀ seg ∈ run.segs, FromPeer t seg → Honest irs S seg) :
    SlotInv t irs S (sendTcpSegment s j flags data run).1 i := by
  obtain ⟨s₁, hq, hres⟩ := sendTcpSegment_cases _ s j flags data run hP
  have h₁ := h.quiet hS hq
  rcases hres with e | ⟨-, e⟩ | ⟨-, -, tick, e⟩ <;> rw [e]
  · exact h₁
  · exact h₁.record
  · exact h₁.record.update (rxView_afterSend _ _ _)

/-- After a send that started outside an opened slot, a final state. -/
theorem SlotInv.setState (h : SlotInv t irs S s i) (ho : (s.ghost j).phase = .opened → st = .closed)
    (hst : st ≠ .synSent ∧ st ≠ .synReceived ∧ st ≠ .established)
    (hf : ∀ c g, rxView (f c) g = { rxView c g with state := st }) :
    SlotInv t irs S (s.update j f) i := by
  unfold SlotInv at *
  simp only [update_conns, update_ghost]
  split
  · rename_i hij
    rw [hf]
    exact h.setState (hij ▸ ho) hst
  · exact h

/-- The `close` of an open connection, or the end of a retransmission. -/
theorem SlotInv.open_not_opened (h : SlotInv t irs S s i) (hst : (s.conns i).state ≠ .closed) :
    (s.ghost i).phase ≠ .opened := fun hp =>
  hst (h.1 hp).1

theorem SlotInv.connectInit (h : SlotInv t irs S s i) (j : Slot) (addr : UInt32) (port : UInt16) :
    SlotInv t irs S (connectInit s j addr port) i := by
  unfold SlotInv Tcp.connectInit at *
  simp only [mark_conns, update_conns, mark_ghost, update_ghost]
  split
  · refine ⟨fun hp => ?_, fun hp _ => ?_⟩
    · simp only [rxView] at hp
      split at hp <;> cases hp
    · by_cases ho : (s.ghost i).phase = .opened
      · exact (h.1 ho).2
      · simp [rxView, ho] at hp
  · exact h

theorem SlotInv.close (hS : S.length < 2 ^ 32 - 1) (h : ∀ i, SlotInv t irs S s i) (j : Slot)
    (run : IpRun) (hP : ∀ seg ∈ run.segs, FromPeer t seg → Honest irs S seg) (i : Slot) :
    SlotInv t irs S (close s j run) i := by
  have hsend := fun i => (h i).send hS j (tcpFin ||| tcpAck) [] run hP
  unfold Tcp.close
  split
  · exact h i
  split
  · rename_i hst
    have hopen := (h j).open_not_opened (by rw [hst]; decide)
    exact (hsend i).setState (fun ho => absurd (send_opened ho) hopen) (by decide) fun _ _ => rfl
  split
  · rename_i hst
    have hopen := (h j).open_not_opened (by rw [hst]; decide)
    exact (hsend i).setState (fun ho => absurd (send_opened ho) hopen) (by decide) fun _ _ => rfl
  · exact (h i).setState (fun _ => rfl) (by decide) fun _ _ => rfl

theorem SlotInv.resend (hS : S.length < 2 ^ 32 - 1) (h : SlotInv t irs S s i) (j : Slot)
    (run : IpRun) (hP : ∀ seg ∈ run.segs, FromPeer t seg → Honest irs S seg) :
    SlotInv t irs S (resend s j run) i := by
  unfold Tcp.resend
  dsimp only
  generalize ackedLen (s.conns j) = acked
  split
  · have hrewind : SlotInv t irs S (s.update j fun c => { c with sndNxt := c.sndUna }) i :=
      h.update fun _ _ => rfl
    exact (hrewind.send hS j _ _ run hP).update fun _ _ => rfl
  · exact h

theorem SlotInv.retransmitOne (hS : S.length < 2 ^ 32 - 1) (h : SlotInv t irs S s i) (j : Slot)
    (now : UInt64) (run : IpRun) (hP : ∀ seg ∈ run.segs, FromPeer t seg → Honest irs S seg) :
    SlotInv t irs S (retransmitOne s j now run) i := by
  rcases retransmitOne_cases s j now run with e | ⟨-, -, -, e⟩ | ⟨-, ⟨-, e⟩ | ⟨-, e⟩⟩ <;> rw [e]
  · exact h
  · exact h.update fun _ _ => rfl
  · exact h.setState (fun _ => rfl) (by decide) fun _ _ => rfl
  · exact (h.resend hS j run hP).update fun _ _ => rfl

/-- Every call keeps the invariant of every slot. -/
theorem SlotInv.call (hS : S.length < 2 ^ 32 - 1) {s : TcpSys} (h : ∀ i, SlotInv t irs S s i)
    (c : TcpCall) (hc : HonestPeer t irs S s c) (i : Slot) : SlotInv t irs S (call s c) i := by
  cases c with
  | openConn =>
    simp only [Tcp.call, Tcp.openConn]
    split
    · unfold SlotInv
      simp only [mark_conns, update_conns, mark_ghost, update_ghost]
      split
      · exact ⟨fun _ => ⟨rfl, rfl⟩, fun hp => (by rcases hp with hp | hp <;> cases hp)⟩
      · exact h i
    · exact h i
  | bind id port =>
    have hi := h i
    simp only [Tcp.call, Tcp.bind, SlotInv, mark_conns, update_conns, mark_ghost,
      update_ghost] at hi ⊢
    split
    · by_cases ho : (s.ghost i).phase = .opened
      · exact ⟨fun _ => hi.1 ho, fun hp => (by simp [rxView, ho] at hp)⟩
      · exact RxInv.stale (by simp [rxView, ho])
    · exact hi
  | listen id port =>
    have hi := h i
    simp only [Tcp.call, Tcp.listen, SlotInv, mark_conns, update_conns, mark_ghost,
      update_ghost] at hi ⊢
    split
    · exact RxInv.stale rfl
    · exact hi
  | connect id addr port run => exact ((h i).connectInit id addr port).send hS id _ _ run hc
  | close id run => exact SlotInv.close hS h id run hc i
  | chunk id data run =>
    have hsend := (h i).send hS id (tcpAck ||| tcpPsh) data run hc
    simp only [Tcp.call, sendChunk]
    split
    · unfold SlotInv at hsend ⊢
      simp only [mark_conns, mark_ghost]
      split <;> exact hsend
    · exact hsend
  | poll polled => exact (h i).quiet hS (pollSegs_quiet _ s polled hc)
  | retransmit id now run => exact (h i).retransmitOne hS id now run hc
  | drain id len =>
    have hi := h i
    simp only [Tcp.call, recvDrain, SlotInv, mark_conns, update_conns, mark_ghost,
      update_ghost] at hi ⊢
    split
    · rename_i hij
      subst hij
      exact hi.drain len
    · exact hi

theorem slotInv_inductive (hS : S.length < 2 ^ 32 - 1) :
    (tcpLTS (HonestPeer t irs S)).Inductive fun s => ∀ i, SlotInv t irs S s i where
  init s h i := RxInv.stale (h i)
  step s c s' h hstep := by
    obtain ⟨hc, rfl⟩ := hstep
    exact SlotInv.call hS h c hc

end

/-- For every connection to the peer, opened actively or passively in a run
in which the peer's segments are honest and arrive in any order, any number of
times or not at all: what `recv` returned followed by what is in the ring is a
prefix of the stream, and in ESTABLISHED `rcv_nxt` is its end. -/
theorem in_order_delivery {t : Peer} {irs : UInt32} {S : List UInt8} (hS : S.length < 2 ^ 32 - 1)
    {s : TcpSys} (hs : (tcpLTS (HonestPeer t irs S)).Reachable s) {id : Slot}
    (hphase : (s.ghost id).phase = .connected ∨ (s.ghost id).phase = .accepted)
    (hip : (s.conns id).remoteIp = t.ip) (hport : (s.conns id).remotePort = t.port)
    (hlocal : (s.conns id).localPort = t.localPort) :
    ∃ n, n ≤ S.length ∧ (s.ghost id).returned ++ (s.conns id).rx.toList = S.take n ∧
      ((s.conns id).state = .established → (s.conns id).rcvNxt = irs + 1 + UInt32.ofNat n) := by
  have hpeer : (rxView (s.conns id) (s.ghost id)).peer = t := by
    cases t
    simp only [rxView, hip, hport, hlocal]
  have hinv := ((slotInv_inductive hS).reachable s hs id).2 hphase hpeer
  by_cases hst : (s.conns id).state = .established
  · obtain ⟨n, hn, hpre, hnxt⟩ : ∃ n, n ≤ S.length ∧
        (s.ghost id).returned ++ (s.conns id).rx.toList = S.take n ∧
        (s.conns id).rcvNxt = irs + 1 + UInt32.ofNat n := by
      simpa [StateInv, rxView, hst] using hinv
    exact ⟨n, hn, hpre, fun _ => hnxt⟩
  · obtain ⟨n, hn, hpre⟩ := hinv.pre
    exact ⟨n, hn, hpre, fun h => absurd h hst⟩

/-- The server sends two bytes, the second one first and the rest twice; one
is read. -/
def twoBytes : List TcpCall := dial ++
  [arrives (serverSeg 5002 1001 tcpAck [8]), arrives (serverSeg 5001 1001 tcpAck [7, 8]),
   arrives (serverSeg 5001 1001 tcpAck [7]), .drain 0 1]

theorem in_order_delivery_twoBytes :
    ∃ n, n ≤ 2 ∧ ((twoBytes.foldl call bootTcp).ghost 0).returned ++
        ((twoBytes.foldl call bootTcp).conns 0).rx.toList = [7, 8].take n ∧
      (((twoBytes.foldl call bootTcp).conns 0).state = .established →
        ((twoBytes.foldl call bootTcp).conns 0).rcvNxt = 5000 + 1 + UInt32.ofNat n) := by
  have honest : ∀ s, ∀ c ∈ twoBytes, HonestPeer ⟨0x0A000202, 80, 49152⟩ 5000 [7, 8] s c := by
    intro s c hc seg hseg _
    simp only [twoBytes, dial, cons_append, nil_append, mem_cons, not_mem_nil,
      or_false] at hc
    have htwo : ∀ i, i < 2 → [7, 8][0 + i]? = some (([7, 8] : List UInt8).getD i 0) := by decide
    rcases hc with rfl | rfl | rfl | rfl | rfl | rfl | rfl <;>
      simp only [TcpCall.segs, arrives, Polled.segs, IpRun.segs, sentAt, append_nil,
        mem_cons, not_mem_nil, or_false] at hseg
    · subst hseg
      exact ⟨fun _ => rfl, fun h => absurd h (by decide)⟩
    · subst hseg
      exact ⟨fun h => absurd h (by decide), fun _ _ => ⟨1, rfl, by decide, by decide⟩⟩
    · subst hseg
      exact ⟨fun h => absurd h (by decide), fun _ _ => ⟨0, rfl, by decide, htwo⟩⟩
    · subst hseg
      exact ⟨fun h => absurd h (by decide), fun _ _ => ⟨0, rfl, by decide, by decide⟩⟩
  have hrun := run_calls bootTcp twoBytes honest
  exact in_order_delivery (by decide) ⟨bootTcp, twoBytes, fun _ => rfl, hrun⟩
    (.inl (by decide +kernel)) (by decide +kernel) (by decide +kernel) (by decide +kernel)

end HackersOs.L3.Tcp

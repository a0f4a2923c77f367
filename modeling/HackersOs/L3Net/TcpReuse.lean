import HackersOs.L3Net.TcpFine

/-!
# Slots and the connections that use them in turn

A slot is used again by `TCP::open`, which clears it, or by a passive open,
which sets fields one by one and leaves the transmit buffer. `OwnInv`: what a
connection transmits, holds for retransmission or has in hand was passed to
`TCP::send` on it, and what its ring and `recv` give out came in segments it
was given. A passive open keeps that when the slot it takes has no transmit
data left and no send running on it (`own_bytes`).
-/
namespace HackersOs.L3.Tcp
open HackersOs.Core

variable {G G' : Fine → Act → Prop} {now : UInt64} {u : TcpConnection → TcpConnection}

/-- Runs of the single steps from `TCP::init` on, all of them meeting `G`. -/
def fineLTS (G : Fine → Act → Prop) : LTS Fine Act where
  init f := ∃ s : TcpSys, f = ⟨s.init, none, none, fun _ => [], fun _ => []⟩
  step f a f' := G f a ∧ f.step a = some f'

/-- The run of a list of steps, if each is possible and meets `G`. -/
def Fine.run (G : Fine → Act → Prop) [∀ f a, Decidable (G f a)] : Fine → List Act → Option Fine
  | f, [] => some f
  | f, a :: as => if G f a then (f.step a).bind fun f' => run G f' as else none

theorem Fine.run_run [∀ f a, Decidable (G f a)] {f f' : Fine} {as : List Act}
    (hG : ∀ f, ∀ a ∈ as, G f a → G' f a) (h : f.run G as = some f') :
    (fineLTS G').Run f as f' := by
  induction as generalizing f with
  | nil => cases h; exact .nil _
  | cons a as ih =>
    obtain ⟨hg, h⟩ := Option.ite_none_right_eq_some.mp h
    obtain ⟨f1, hf1, h⟩ := Option.bind_eq_some_iff.mp h
    exact .cons ⟨hG f a List.mem_cons_self hg, hf1⟩
      (ih (fun f b hb => hG f b (List.mem_cons_of_mem _ hb)) h)

/-- The table of `bootTcp`, nothing running. -/
def bootFine : Fine := ⟨bootTcp, none, none, fun _ => [], fun _ => []⟩

theorem Fine.run_reachable [∀ f a, Decidable (G f a)] {f : Fine} {as : List Act}
    (hG : ∀ f, ∀ a ∈ as, G f a → G' f a) (h : bootFine.run G as = some f) :
    (fineLTS G').Reachable f :=
  ⟨bootFine, as, ⟨bootTcp, rfl⟩, Fine.run_run hG h⟩

/-! ## Whose bytes -/

/-- `l` is part of the data of one of the calls `ds`. -/
def Own (l : List UInt8) (ds : List (List UInt8)) : Prop := l = [] ∨ ∃ d ∈ ds, l <:+: d

/-- `bs` is put together from a beginning of each of the segments, in their
order. -/
inductive Received : List InSeg → List UInt8 → Prop where
  | nil : Received [] []
  | snoc {segs : List InSeg} {bs : List UInt8} {seg : InSeg} {n : Nat} : Received segs bs →
      n ≤ seg.dataLen.toNat → Received (segs ++ [seg]) (bs ++ (List.range n).map seg.data)

/-- The data held for retransmission. -/
def txData (c : TcpConnection) : List UInt8 := (List.range c.txLen.toNat).map c.txBuf

section
variable {l l' : List UInt8} {ds : List (List UInt8)} {c : TcpConnection} {g : Ghost} {f f' : Fine}
  {s : TcpSys} {i j : Slot} {ps : Slot → List (List UInt8)} {as : Slot → List InSeg}

theorem Own.mono (h : Own l ds) (h' : l' <:+: l) : Own l' ds := by
  rcases h with rfl | ⟨d, hd, hl⟩
  · exact .inl (List.infix_nil.mp h')
  · exact .inr ⟨d, hd, h'.trans hl⟩

theorem Own.append (h : Own l ds) (d : List UInt8) : Own l (ds ++ [d]) := by
  rcases h with rfl | ⟨d', hd, hl⟩
  · exact .inl rfl
  · exact .inr ⟨d', List.mem_append_left _ hd, hl⟩

theorem ackedLen_le (h : due c now = true) : (ackedLen c).toNat ≤ c.txLen.toNat := by
  simp only [due, Bool.and_eq_true, decide_eq_true_eq] at h
  have hlt := UInt32.lt_iff_toNat_lt.mp h.1.2
  rw [UInt32.toNat_add] at hlt
  have := c.txLen.toNat_lt
  have := c.sndUna.toNat_lt
  unfold ackedLen
  split
  · rename_i hgt
    rw [UInt32.toNat_sub_of_le _ _ (UInt32.le_of_lt hgt)]
    omega
  · exact Nat.zero_le _

/-- What is resent is the end of what is held. -/
theorem resentData_suffix (h : due c now = true) : resentData c <:+ txData c := by
  have hle := ackedLen_le h
  have hlen : (c.txLen - ackedLen c).toNat = c.txLen.toNat - (ackedLen c).toNat :=
    UInt32.toNat_sub_of_le _ _ (UInt32.le_iff_toNat_le.mpr hle)
  have heq : resentData c = (txData c).drop (ackedLen c).toNat := by
    unfold resentData txData
    rw [hlen]
    refine List.ext_getElem (by simp) fun n h1 h2 => ?_
    simp
  rw [heq]
  exact List.drop_suffix _ _

theorem map_copyIn (buf : Nat → UInt8) (data : List UInt8) :
    (List.range data.length).map (copyIn buf data) = data := by
  refine List.ext_getElem (by simp) fun n h1 h2 => ?_
  simp [copyIn, h2]

theorem afterSend_tx (flags : UInt8) (data : List UInt8) (tick : UInt64) (c : TcpConnection) :
    ((afterSend flags data tick c).txBuf = copyIn c.txBuf data ∧
      (afterSend flags data tick c).txLen = UInt32.ofNat data.length ∧ data.length ≤ tcpBufSize) ∨
    ((afterSend flags data tick c).txBuf = c.txBuf ∧
      (afterSend flags data tick c).txLen = c.txLen) := by
  unfold afterSend
  repeat' split
  all_goals first
    | exact .inr ⟨rfl, rfl⟩
    | exact .inl ⟨rfl, rfl, ‹_›⟩

/-- A reported send holds its data for retransmission, if it has any. -/
theorem txData_afterSend (flags : UInt8) (data : List UInt8) (tick : UInt64) (c : TcpConnection) :
    txData (afterSend flags data tick c) = data ∨
      txData (afterSend flags data tick c) = txData c := by
  unfold txData
  rcases afterSend_tx flags data tick c with ⟨hb, hl, hlen⟩ | ⟨hb, hl⟩ <;> rw [hb, hl]
  · left
    have h32 : data.length < 2 ^ 32 := by simp only [tcpBufSize] at hlen; omega
    rw [UInt32.toNat_ofNat_of_lt' h32, map_copyIn]
  · exact .inr rfl

theorem afterSend_rx (flags : UInt8) (data : List UInt8) (tick : UInt64) (c : TcpConnection) :
    (afterSend flags data tick c).rx = c.rx := by
  unfold afterSend
  repeat' split
  all_goals rfl

theorem onSegment_rx (c : TcpConnection) (seg : InSeg) :
    (onSegment c seg).1.rx = c.rx ∨
      (onSegment c seg).1.rx = c.rx.fill seg.data seg.dataLen.toNat := by
  unfold onSegment
  dsimp only
  repeat' split
  all_goals first | exact .inl rfl | exact .inr rfl

/-! ## The invariant -/

/-- The data and the bytes of one slot belong to its connection. -/
structure SlotOwn (c : TcpConnection) (g : Ghost) (passed : List (List UInt8))
    (arrived : List InSeg) :
    Prop where
  held : Own (txData c) passed
  sent : ∀ sg ∈ g.sent, Own sg.data passed
  received : Received arrived (g.returned ++ c.rx.toList)

def AllOwn (s : TcpSys) (passed : Slot → List (List UInt8)) (arrived : Slot → List InSeg) : Prop :=
  ∀ i, SlotOwn (s.conns i) (s.ghost i) (passed i) (arrived i)

structure OwnInv (f : Fine) : Prop where
  slots : AllOwn f.tcp f.passed f.arrived
  sending : ∀ i rest, f.sending = some (i, rest) → Own rest (f.passed i)
  flight : ∀ fl, f.flight = some fl → Own fl.seg.data (f.passed fl.slot)

theorem SlotOwn.empty (hd : txData c = []) (hs : g.sent = []) (hr : g.returned ++ c.rx.toList = []) :
    SlotOwn c g [] [] :=
  ⟨.inl hd, by simp [hs], hr ▸ .nil⟩

/-- An update of one connection, with the data it holds and its ring. -/
theorem AllOwn.update (h : AllOwn s ps as) (hd : Own (txData (u (s.conns i))) (ps i))
    (hr : (u (s.conns i)).rx = (s.conns i).rx) :
    AllOwn (s.update i u) ps as := by
  intro j
  obtain ⟨h1, h2, h3⟩ := h j
  by_cases hij : j = i
  · subst hij
    refine ⟨?_, h2, ?_⟩
    · simpa using hd
    · simpa [hr] using h3
  · refine ⟨?_, h2, ?_⟩ <;> simpa [hij]

/-- An update that leaves the data held and the ring alone. -/
theorem AllOwn.update_keep (h : AllOwn s ps as) (hd : ∀ c, txData (u c) = txData c)
    (hr : ∀ c, (u c).rx = c.rx) : AllOwn (s.update i u) ps as :=
  h.update (by rw [hd]; exact (h i).held) (hr _)

theorem AllOwn.mark (h : AllOwn s ps as) {u : Ghost → Ghost} (hs : ∀ g, (u g).sent = g.sent)
    (hr : ∀ g, (u g).returned = g.returned) : AllOwn (s.mark i u) ps as := by
  intro j
  obtain ⟨h1, h2, h3⟩ := h j
  by_cases hij : j = i
  · subst hij
    refine ⟨h1, ?_, ?_⟩
    · simpa [hs] using h2
    · simpa [hr] using h3
  · exact ⟨h1, by simpa [hij] using h2, by simpa [hij] using h3⟩

theorem AllOwn.record (h : AllOwn s ps as) {sg : Segment} (hsg : Own sg.data (ps i)) :
    AllOwn (s.record i sg) ps as := by
  intro j
  obtain ⟨h1, h2, h3⟩ := h j
  by_cases hij : j = i
  · subst hij
    refine ⟨h1, fun sg' hsg' => ?_, by simpa using h3⟩
    simp only [record_ghost, if_true, List.mem_append, List.mem_singleton] at hsg'
    rcases hsg' with hsg' | rfl
    · exact h2 sg' hsg'
    · exact hsg
  · exact ⟨h1, by simpa [hij] using h2, by simpa [hij] using h3⟩

/-- A reported send of data that belongs to the connection. -/
theorem AllOwn.afterSend (h : AllOwn s ps as) {data : List UInt8} (hd : Own data (ps i))
    (flags : UInt8)
    (tick : UInt64) : AllOwn (s.update i (Tcp.afterSend flags data tick)) ps as := by
  refine h.update ?_ (afterSend_rx ..)
  rcases txData_afterSend flags data tick (s.conns i) with e | e <;> rw [e]
  · exact hd
  · exact (h i).held

theorem AllOwn.segment (h : AllOwn s ps as) (i : Slot) (seg : InSeg) :
    AllOwn (s.update i fun _ => (onSegment (s.conns i) seg).1) ps
      (Function.update as i (as i ++ [seg])) := by
  intro j
  obtain ⟨h1, h2, h3⟩ := h j
  by_cases hij : j = i
  · subst hij
    have htx := onSegment_tx (s.conns j) (s.ghost j) seg
    have hd : txData (onSegment (s.conns j) seg).1 = txData (s.conns j) := by
      unfold txData
      rw [show (onSegment (s.conns j) seg).1.txLen = _ from congrArg TxView.txLen htx,
        show (onSegment (s.conns j) seg).1.txBuf = _ from congrArg TxView.txBuf htx]
      rfl
    refine ⟨?_, h2, ?_⟩
    · simpa [hd] using h1
    simp only [update_conns, if_true, update_ghost, Function.update_self]
    rcases onSegment_rx (s.conns j) seg with e | e <;> rw [e]
    · simpa using h3.snoc (Nat.zero_le _)
    · rw [Ring.toList_fill, ← List.append_assoc]
      exact h3.snoc ((s.conns j).rx.room_le _).1
  · refine ⟨?_, h2, ?_⟩ <;> simpa [hij]

theorem AllOwn.drain (h : AllOwn s ps as) (i : Slot) (len : Nat) :
    AllOwn (recvDrain s i len).1 ps as := by
  intro j
  obtain ⟨h1, h2, h3⟩ := h j
  by_cases hij : j = i
  · subst hij
    refine ⟨by simpa [recvDrain, txData] using h1, by simpa [recvDrain] using h2, ?_⟩
    simpa [recvDrain, List.append_assoc, Ring.toList_drain] using h3
  · refine ⟨?_, ?_, ?_⟩ <;> simpa [recvDrain, hij]

/-- A new connection without transmit data in a slot nothing is in hand for. -/
theorem OwnInv.fresh (h : OwnInv f) (hs : f.sending.map Prod.fst ≠ some i)
    (hf : f.flight.map Flight.slot ≠ some i)
    (hother : ∀ j, j ≠ i → s.conns j = f.tcp.conns j ∧ s.ghost j = f.tcp.ghost j)
    (hself : txData (s.conns i) = [] ∧ (s.ghost i).sent = [] ∧
      (s.ghost i).returned ++ (s.conns i).rx.toList = []) : OwnInv { f.fresh i with tcp := s } := by
  refine ⟨fun j => ?_, fun j rest hj => ?_, fun fl hfl => ?_⟩
  · by_cases hij : j = i
    · subst hij
      simpa [Fine.fresh] using SlotOwn.empty hself.1 hself.2.1 hself.2.2
    · simpa [Fine.fresh, hij, hother j hij] using h.slots j
  · have hij : j ≠ i := fun e => hs (by rw [show f.sending = _ from hj, e]; rfl)
    simpa [Fine.fresh, hij] using h.sending j rest hj
  · have hij : fl.slot ≠ i := fun e => hf (by rw [show f.flight = _ from hfl, ← e]; rfl)
    simpa [Fine.fresh, hij] using h.flight fl hfl

/-! ## Steps -/

/-- A passive open takes a slot without transmit data, and none that a running
send uses. -/
def CleanReuse (f : Fine) : Act → Prop
  | .passive i _ => (f.tcp.conns i).txLen = 0 ∧ f.sending.map Prod.fst ≠ some i ∧
      f.flight.map Flight.slot ≠ some i
  | _ => True

theorem txData_of_len (h : c.txLen = 0) : txData c = [] := by
  unfold txData
  rw [h]
  rfl

theorem Fine.idle_iff : f.idle = true ↔ f.sending = none ∧ f.flight = none := by
  simp [Fine.idle]

theorem OwnInv.table (h : OwnInv f) (hs : AllOwn s f.passed f.arrived) :
    OwnInv { f with tcp := s } :=
  ⟨hs, h.sending, h.flight⟩

theorem OwnInv.land (h : OwnInv f) {fl : Flight} (hfl : f.flight = some fl) (ok : Option UInt64) :
    OwnInv (f.land fl ok) := by
  have hs : AllOwn (fl.account f.tcp ok) f.passed f.arrived := by
    cases ok with
    | none => exact h.slots
    | some tick => exact h.slots.afterSend (h.flight fl hfl) _ _
  unfold Fine.land
  generalize fl.account f.tcp ok = s at hs
  cases fl.saved with
  | some n =>
    exact ⟨hs.update_keep (u := fun c => { c with sndNxt := n }) (fun _ => rfl) fun _ => rfl,
      h.sending,
      fun _ h0 => (by cases h0)⟩
  | none =>
    refine ⟨?_, fun i rest hsnd => ?_, fun _ h0 => (by cases h0)⟩
    · dsimp only
      split
      · exact hs.mark (fun _ => rfl) fun _ => rfl
      · exact hs
    · dsimp only at hsnd
      split at hsnd
      · obtain ⟨⟨i', rest'⟩, hp, he⟩ := Option.map_eq_some_iff.mp hsnd
        cases he
        exact (h.sending _ _ hp).mono (List.drop_suffix _ _).isInfix
      · cases hsnd

theorem OwnInv.openConn (h : OwnInv f) (hidle : f.idle = true) (hi : firstFree f.tcp.conns = some i) :
    OwnInv { f.fresh i with tcp := (Tcp.openConn f.tcp).1 } := by
  obtain ⟨hsnd, hfl⟩ := Fine.idle_iff.mp hidle
  refine h.fresh (by simp [hsnd]) (by simp [hfl]) (fun j hj => ?_) ?_
  · simp [Tcp.openConn, hi, hj]
  · simp [Tcp.openConn, hi, txData, zeroConn]

theorem OwnInv.connectInit (h : OwnInv f) (i : Slot) (addr : UInt32) (port : UInt16) :
    AllOwn (Tcp.connectInit f.tcp i addr port) f.passed f.arrived := by
  intro j
  obtain ⟨h1, h2, h3⟩ := h.slots j
  by_cases hij : j = i
  · subst hij
    refine ⟨?_, ?_, ?_⟩ <;> simpa [Tcp.connectInit, txData]
  · refine ⟨?_, ?_, ?_⟩ <;> simpa [Tcp.connectInit, hij]

theorem OwnInv.sendBegin (h : OwnInv f) (hidle : f.idle = true) (i : Slot) (data : List UInt8) :
    OwnInv { f with
      sending := some (i, data)
      passed := Function.update f.passed i (f.passed i ++ [data]) } := by
  obtain ⟨-, hfl⟩ := Fine.idle_iff.mp hidle
  refine ⟨fun j => ?_, fun j rest hj => ?_, fun fl h0 => (by rw [hfl] at h0; cases h0)⟩
  · obtain ⟨h1, h2, h3⟩ := h.slots j
    by_cases hij : j = i
    · subst hij
      simp only [Function.update_self]
      exact ⟨h1.append data, fun sg hsg => (h2 sg hsg).append data, h3⟩
    · simpa [hij] using h.slots j
  · cases hj
    exact .inr ⟨data, by simp, List.infix_rfl⟩

theorem OwnInv.step {a : Act} (h : OwnInv f) (hc : CleanReuse f a) (hstep : f.step a = some f') :
    OwnInv f' := by
  cases a with
  | segment i seg =>
    obtain ⟨-, rfl⟩ := of_guard hstep
    exact ⟨h.slots.segment i seg, h.sending, h.flight⟩
  | passive i seg =>
    obtain ⟨-, rfl⟩ := of_guard hstep
    exact h.fresh hc.2.1 hc.2.2 (fun j hj => by simp [hj])
      ⟨by simpa using txData_of_len (c := passiveConn f.tcp.localIp seg (f.tcp.conns i)) hc.1,
        by simp, by simp [passiveConn]⟩
  | answer i sg =>
    obtain ⟨hsg, rfl⟩ := of_guard hstep
    exact h.table (h.slots.record (.inl hsg))
  | synAck i | closing i passive | free i | giveUp i now =>
    obtain ⟨-, rfl⟩ := of_guard hstep
    exact h.table (h.slots.update_keep (fun _ => rfl) fun _ => rfl)
  | openConn =>
    obtain ⟨hidle, hstep⟩ := Option.ite_none_right_eq_some.mp hstep
    cases hi : firstFree f.tcp.conns with
    | some i =>
      rw [hi] at hstep
      cases hstep
      exact h.openConn hidle hi
    | none =>
      rw [hi] at hstep
      cases hstep
      exact h
  | bind i port =>
    obtain ⟨-, rfl⟩ := of_guard hstep
    exact h.table ((h.slots.update_keep (u := fun c => { c with localPort := port }) (fun _ => rfl)
      fun _ => rfl).mark (fun _ => rfl) fun _ => rfl)
  | listen i port =>
    obtain ⟨-, rfl⟩ := of_guard hstep
    exact h.table ((h.slots.update_keep (u := fun c => { c with localPort := port, state := .listen })
      (fun _ => rfl) fun _ => rfl).mark (fun _ => rfl) fun _ => rfl)
  | connectInit i addr port =>
    obtain ⟨-, rfl⟩ := of_guard hstep
    exact h.table (h.connectInit i addr port)
  | control i flags tick =>
    cases hstep
    exact h.table (h.slots.afterSend (.inl rfl) _ _)
  | sendBegin i data =>
    obtain ⟨hg, rfl⟩ := of_guard hstep
    exact h.sendBegin hg.1 i data
  | sendEnd =>
    obtain ⟨-, rfl⟩ := of_guard hstep
    exact ⟨h.slots, fun _ _ h0 => (by cases h0), h.flight⟩
  | chunk =>
    simp only [Fine.step] at hstep
    split at hstep
    · rename_i i rest hsnd _
      cases hstep
      refine ⟨h.slots, h.sending, fun fl h0 => ?_⟩
      cases h0
      exact (h.sending i rest hsnd).mono (List.take_prefix _ _).isInfix
    · cases hstep
  | resend i now =>
    obtain ⟨hg, rfl⟩ := of_guard hstep
    refine ⟨h.slots.update_keep (u := fun c => { c with sndNxt := c.sndUna })
      (fun _ => rfl) fun _ => rfl,
      h.sending, fun fl h0 => ?_⟩
    cases h0
    exact (h.slots i).held.mono (resentData_suffix hg.2.1).isInfix
  | handed =>
    obtain ⟨fl, hfl, rfl⟩ := Option.map_eq_some_iff.mp hstep
    exact h.table (h.slots.record (h.flight fl hfl))
  | landed ok =>
    obtain ⟨fl, hfl, rfl⟩ := Option.map_eq_some_iff.mp hstep
    exact h.land hfl ok
  | cleared i =>
    cases hstep
    exact h.table (h.slots.update (.inl rfl) rfl)
  | backoff i now =>
    cases hstep
    exact h.table (h.slots.update_keep (fun _ => rfl) fun _ => rfl)
  | drain i len =>
    obtain ⟨-, rfl⟩ := of_guard hstep
    exact h.table (h.slots.drain i len)

theorem ownInv_inductive : (fineLTS CleanReuse).Inductive OwnInv where
  init f h := by
    obtain ⟨s, rfl⟩ := h
    exact ⟨fun i => .empty rfl rfl rfl, fun _ _ h0 => (by cases h0), fun _ h0 => (by cases h0)⟩
  step f a f' h hstep := h.step hstep.1 hstep.2

/-- Every byte a connection put into a segment was passed to `TCP::send` on it
after it was opened, and every byte its `recv` returned, or will return from
the ring, came in a segment it was given: in every run in which passive opens
take clean slots. -/
theorem own_bytes (hr : (fineLTS CleanReuse).Reachable f) (i : Slot) :
    (∀ sg ∈ (f.tcp.ghost i).sent, sg.data = [] ∨ ∃ d ∈ f.passed i, sg.data <:+: d) ∧
      Received (f.arrived i) ((f.tcp.ghost i).returned ++ (f.tcp.conns i).rx.toList) := by
  obtain ⟨-, hsent, hrx⟩ := (ownInv_inductive.reachable f hr).slots i
  exact ⟨hsent, hrx⟩

instance (f : Fine) : DecidablePred (CleanReuse f) :=
  Act.decideTaken (fun _ _ => .isTrue trivial) (fun _ _ => inferInstanceAs (Decidable (_ ∧ _)))
    fun a h => by cases a <;> simp_all [CleanReuse]

end

/-- A segment of a client to port 80. -/
def clientSeg (ip : UInt32) (seq ack : UInt32) (flags : UInt8) (data : List UInt8) : InSeg where
  srcIp := ip
  srcPort := 4000
  dstPort := 80
  seq := seq
  ack := ack
  flags := flags
  dataLen := UInt32.ofNat data.length
  data := fun i => data.getD i 0

/-- A listener in slot 0 and a client's connection in slot 1. -/
def serve (ip : UInt32) : List Act :=
  [.openConn, .bind 0 80, .listen 0 80, .passive 1 (clientSeg ip 7000 0 tcpSyn []), .synAck 1,
   .segment 1 (clientSeg ip 7001 1001 tcpAck [])]

/-- `TCP::send` of data that fits one segment, sent at tick 0. -/
def sendAll (i : Slot) (data : List UInt8) : List Act :=
  [.sendBegin i data, .chunk, .handed, .landed (some 0), .sendEnd]

/-- The first client is sent two bytes in two calls and acknowledges none; it
closes, `close` is called and its last ACK frees the slot. A second client
connects, and the timer is due. -/
def leak : List Act :=
  serve 0x0A000203 ++ sendAll 1 [1] ++ sendAll 1 [2] ++
  [.segment 1 (clientSeg 0x0A000203 7001 1001 (tcpFin ||| tcpAck) []),
   .control 1 (tcpFin ||| tcpAck) 0,
   .closing 1 true, .segment 1 (clientSeg 0x0A000203 7002 1001 tcpAck []),
   .passive 1 (clientSeg 0x0A000204 9000 0 tcpSyn []), .synAck 1,
   .segment 1 (clientSeg 0x0A000204 9001 1001 tcpAck []), .resend 1 200, .handed, .landed (some 200)]

/-- **Counterexample**: the second client is sent the byte for the first one;
nothing was passed to `TCP::send` on its connection. -/
theorem stale_byte_resent : ∃ f, (fineLTS fun _ _ => True).Reachable f ∧ f.passed 1 = [] ∧
      ∃ sg ∈ (f.tcp.ghost 1).sent, sg.dst = 0x0A000204 ∧ sg.data = [2] := by
  have h : ((bootFine.run (fun _ _ => True) leak).map fun f =>
      (f.passed 1, (f.tcp.ghost 1).sent.map fun sg => (sg.dst, sg.data))) =
      some ([], [(0x0A000204, [2])]) := by decide +kernel
  obtain ⟨f, hf, he⟩ := Option.map_eq_some_iff.mp h
  obtain ⟨hp, hs⟩ := Prod.mk.inj he
  refine ⟨f, Fine.run_reachable (fun _ _ _ h => h) hf, hp, ?_⟩
  obtain ⟨sg, hsg, hd⟩ := List.mem_map.mp (hs ▸ List.mem_singleton_self _)
  obtain ⟨h1, h2⟩ := Prod.mk.inj hd
  exact ⟨sg, hsg, h1, h2⟩

/-- A client is sent three bytes and acknowledges them; it closes, and its slot is freed. A
second client gets the slot: two bytes out, two bytes in, one of them read. -/
def served : List Act :=
  serve 0x0A000203 ++ sendAll 1 [1, 2, 3] ++
  [.segment 1 (clientSeg 0x0A000203 7001 1004 (tcpFin ||| tcpAck) []), .cleared 1,
   .control 1 (tcpFin ||| tcpAck) 0, .closing 1 true,
     .segment 1 (clientSeg 0x0A000203 7002 1004 tcpAck []),
   .passive 1 (clientSeg 0x0A000204 9000 0 tcpSyn []), .synAck 1,
   .segment 1 (clientSeg 0x0A000204 9001 1001 tcpAck [])] ++ sendAll 1 [4, 5] ++
  [.segment 1 (clientSeg 0x0A000204 9001 1003 tcpAck [8, 9]), .drain 1 1]

theorem own_bytes_served : ∃ f, bootFine.run CleanReuse served = some f ∧
      (f.tcp.ghost 1).sent.map (fun sg => (sg.dst, sg.data)) = [(0x0A000204, [4, 5])] ∧
      f.passed 1 = [[4, 5]] ∧ (f.tcp.ghost 1).returned = [8] ∧
      Received (f.arrived 1) ((f.tcp.ghost 1).returned ++ (f.tcp.conns 1).rx.toList) := by
  have h : ((bootFine.run CleanReuse served).map fun f =>
      ((f.tcp.ghost 1).sent.map (fun sg => (sg.dst, sg.data)), f.passed 1,
        (f.tcp.ghost 1).returned)) =
      some ([(0x0A000204, [4, 5])], [[4, 5]], [8]) := by decide +kernel
  obtain ⟨f, hf, he⟩ := Option.map_eq_some_iff.mp h
  simp only [Prod.mk.injEq] at he
  exact ⟨f, hf, he.1, he.2.1, he.2.2, (own_bytes (Fine.run_reachable (fun _ _ _ h => h) hf) 1).2⟩

end HackersOs.L3.Tcp

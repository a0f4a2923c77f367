import HackersOs.Core.SeqNum
import HackersOs.L3Net.TcpReuse

/-!
# Acknowledgements

`tcp_input` stores the number of every ACK in `snd_una`, and leaves FIN_WAIT_1
and LAST_ACK on every ACK, whatever its number is. A delayed or duplicated ACK
moves `snd_una` back and ends a connection whose FIN the peer has not seen; an
ACK for a segment whose send timed out, or one that comes while
`check_retransmit` has rewound `snd_nxt`, moves it past `snd_nxt`.

The peer receives segments that were handed to the device, in any order and any
number of times, and acknowledges only numbers it has received. Its segments
arrive in any order and any number of times too.

Result: `acks_sound`, which ACKs do no harm. `old_ack_taken`: runs in which one
does.
-/
namespace HackersOs.L3.Tcp
open HackersOs.Core

variable {c' : TcpConnection} {seg : InSeg}

/-! ## The connection and its peer -/

structure AckRun where
  fine : Fine
  /-- ghost: what the connection in the slot handed to the device -/
  out : Slot → List Segment
  /-- ghost: what its peer received -/
  received : Slot → List Segment

inductive AckAct where
  | act (a : Act)
  /-- the peer receives a segment -/
  | deliver (i : Slot) (sg : Segment)

/-- The slot in which a step starts a connection. -/
def startsIn (f : Fine) : Act → Option Slot
  | .passive i _ | .connectInit i _ _ => some i
  | .openConn => firstFree f.tcp.conns
  | _ => none

/-- The segment that a step hands to the device. -/
def hands (f : Fine) : Act → Option (Slot × Segment)
  | .answer i sg => some (i, sg)
  | .handed => f.flight.map fun fl => (fl.slot, fl.seg)
  | _ => none

def outAfter (f : Fine) (a : Act) (i : Slot) (out : List Segment) : List Segment :=
  if startsIn f a = some i then []
  else out ++ ((hands f a).filter fun p => p.1 = i).toList.map (·.2)

def AckRun.step (r : AckRun) : AckAct → Option AckRun
  | .act a => (r.fine.step a).map fun f =>
    ⟨f, fun i => outAfter r.fine a i (r.out i),
      fun i => if startsIn r.fine a = some i then [] else r.received i⟩
  | .deliver i sg =>
    if sg ∈ r.out i then
      some { r with received := Function.update r.received i (r.received i ++ [sg]) }
    else none

/-- How many sequence numbers SYN and FIN take. -/
def flagLen (flags : UInt8) : Nat :=
  (if has flags tcpSyn then 1 else 0) + if has flags tcpFin then 1 else 0

def seqLen (sg : Segment) : Nat := flagLen sg.flags + sg.data.length

/-- The peer acknowledges only what it has received. -/
def HonestAck (r : AckRun) : AckAct → Prop
  | .act (.segment i seg) => has seg.flags tcpAck = true → ∀ p, p < offset isn seg.ack →
      ∃ sg ∈ r.received i, Covers sg.seq (seqLen sg) (isn + UInt32.ofNat p)
  | _ => True

def ackLTS (G : AckRun → AckAct → Prop) : LTS AckRun AckAct where
  init r := ∃ s : TcpSys, r =
    ⟨⟨s.init, none, none, fun _ => [], fun _ => []⟩, fun _ => [], fun _ => []⟩
  step r a r' := HonestAck r a ∧ G r a ∧ r.step a = some r'

/-! ## Sound acknowledgements -/

/-- `snd_una` is between the initial sequence number and `snd_nxt`. -/
def Window (c : TcpConnection) : Prop := offset isn c.sndUna ≤ offset isn c.sndNxt

def FinReceived (r : AckRun) (i : Slot) : Prop := ∃ sg ∈ r.received i, has sg.flags tcpFin = true

/-- FIN_WAIT_1 is left by an ACK, or LAST_ACK for CLOSED. -/
def Leaves (c c' : TcpConnection) : Prop :=
  c.state = .finWait1 ∧ (c'.state = .finWait2 ∨ c'.state = .timeWait) ∨
  c.state = .lastAck ∧ c'.state = .closed

/-- What a step may do to a connection that it does not start. -/
def StepSound (r : AckRun) (a : AckAct) (r' : AckRun) : Prop :=
  ∀ i, (∀ b, a = .act b → startsIn r.fine b ≠ some i) →
    offset isn (r.fine.tcp.conns i).sndUna ≤ offset isn (r'.fine.tcp.conns i).sndUna ∧
    (Leaves (r.fine.tcp.conns i) (r'.fine.tcp.conns i) → FinReceived r i)

/-- The segment sets `snd_una`. -/
def TakesAck (c : TcpConnection) (seg : InSeg) : Prop :=
  match c.state with
  | .synSent => seg.flags &&& (tcpSyn ||| tcpAck) = tcpSyn ||| tcpAck
  | .established => has seg.flags tcpFin = false ∧ has seg.flags tcpAck = true
  | .synReceived | .finWait1 => has seg.flags tcpAck = true
  | _ => False

def AckInWindow (c : TcpConnection) (ack : UInt32) : Prop :=
  offset isn c.sndUna ≤ offset isn ack ∧ offset isn ack ≤ offset isn c.sndNxt

/-- The last number that is acknowledged was handed over with a FIN, and with
nothing else. -/
def AcksFin (out : List Segment) (ack : UInt32) : Prop :=
  0 < offset isn ack ∧ ∀ sg ∈ out, Covers sg.seq (seqLen sg) (ack - 1) → has sg.flags tcpFin = true

/-- How many sequence numbers a step counts for a connection. -/
def counted (f : Fine) : Act → Option (Slot × Nat)
  | .control i flags _ => some (i, flagLen flags)
  | .synAck i => some (i, 1)
  | .landed (some _) => f.flight.bind fun fl =>
      if fl.saved = none then some (fl.slot, seqLen fl.seg) else none
  | _ => none

def SoundAck (r : AckRun) : AckAct → Prop
  | .act (.segment i seg) =>
    (TakesAck (r.fine.tcp.conns i) seg → AckInWindow (r.fine.tcp.conns i) seg.ack) ∧
    ((r.fine.tcp.conns i).state = .finWait1 ∨ (r.fine.tcp.conns i).state = .lastAck →
      has seg.flags tcpAck = true → AcksFin (r.out i) seg.ack)
  -- `close` once more
  | .act (.free i) => (r.fine.tcp.conns i).state ≠ .lastAck
  -- fewer than 2^32 sequence numbers are used; and none is counted on a slot while
  -- `check_retransmit` has its `snd_nxt` rewound, as no call or passive open on it runs then
  | .act a => ∀ p ∈ counted r.fine a, offset isn (r.fine.tcp.conns p.1).sndNxt + p.2 < 2 ^ 32 ∧
      ∀ fl ∈ r.fine.flight, fl.slot = p.1 → fl.saved = none
  | .deliver _ _ => True

/-! ## What a step does to the sequence numbers -/

/-- Of the sequence numbers and the state, only `snd_nxt` changed. -/
structure NewNxt (c c' : TcpConnection) (n : UInt32) : Prop where
  sndUna : c'.sndUna = c.sndUna
  sndNxt : c'.sndNxt = n
  state : c'.state = c.state

/-- Connection `i` after a step. -/
inductive SeqStep (f : Fine) (i : Slot) : Act → TcpConnection → Prop where
  | same {a : Act} {conn : TcpConnection} : NewNxt (f.tcp.conns i) conn (f.tcp.conns i).sndNxt →
      SeqStep f i a conn
  | segment {seg : InSeg} : SeqStep f i (.segment i seg) (onSegment (f.tcp.conns i) seg).1
  | starts {a : Act} {conn : TcpConnection} : startsIn f a = some i → conn.sndUna = conn.sndNxt →
      f.flight = none ∨ conn.sndNxt = isn → SeqStep f i a conn
  | frees {conn : TcpConnection} : conn.sndUna = (f.tcp.conns i).sndUna →
      conn.sndNxt = (f.tcp.conns i).sndNxt → conn.state = .closed → SeqStep f i (.free i) conn
  /-- `close`, `listen`, and `check_retransmit` giving up -/
  | moves {a : Act} {conn : TcpConnection} : conn.sndUna = (f.tcp.conns i).sndUna →
      conn.sndNxt = (f.tcp.conns i).sndNxt → ¬Leaves (f.tcp.conns i) conn → SeqStep f i a conn
  | counts {a : Act} {conn : TcpConnection} {m : Nat} {k : UInt32} : counted f a = some (i, m) →
      k.toNat ≤ m → NewNxt (f.tcp.conns i) conn ((f.tcp.conns i).sndNxt + k) → SeqStep f i a conn
  | rewinds {now : UInt64} {conn : TcpConnection} : f.flight = none →
      NewNxt (f.tcp.conns i) conn (f.tcp.conns i).sndUna → SeqStep f i (.resend i now) conn
  | restores {ok : Option UInt64} {conn : TcpConnection} {fl : Flight} {n : UInt32} :
      f.flight = some fl → fl.slot = i → fl.saved = some n → NewNxt (f.tcp.conns i) conn n →
      SeqStep f i (.landed ok) conn

section
variable {f f' : Fine} {a : Act} {i j : Slot} {c : TcpConnection}

theorem NewNxt.refl (c : TcpConnection) : NewNxt c c c.sndNxt := ⟨rfl, rfl, rfl⟩

/-- A reported send counts what it has sent. -/
theorem afterSend_nxt (flags : UInt8) (data : List UInt8) (tick : UInt64) (c : TcpConnection) :
    NewNxt c (afterSend flags data tick c)
      (c.sndNxt + UInt32.ofNat (flagLen flags + data.length)) := by
  have hadd : c.sndNxt + UInt32.ofNat (flagLen flags + data.length) =
      c.sndNxt + (if has flags tcpSyn then 1 else 0) + (if has flags tcpFin then 1 else 0) +
        UInt32.ofNat data.length := by
    rw [UInt32.ofNat_add, ← UInt32.add_assoc]
    unfold flagLen
    split <;> split <;> simp [UInt32.add_assoc]
  rw [hadd]
  unfold afterSend
  repeat' split
  all_goals refine ⟨rfl, ?_, rfl⟩
  all_goals simp_all

theorem seqStep_update {u : TcpConnection → TcpConnection}
    (h : i = j → SeqStep f i a (u (f.tcp.conns i))) : SeqStep f i a ((f.tcp.update j u).conns i) := by
  rw [update_conns]
  split
  · rename_i hi
    exact h hi
  · exact .same (.refl _)

theorem toNat_ofNat_le (n : Nat) : (UInt32.ofNat n).toNat ≤ n := by
  rw [UInt32.toNat_ofNat']
  exact Nat.mod_le _ _

theorem seq_landed {fl : Flight} (hfl : f.flight = some fl) (ok : Option UInt64) (i : Slot) :
    SeqStep f i (.landed ok) ((f.land fl ok).tcp.conns i) := by
  unfold Fine.land
  cases hs : fl.saved with
  | some n =>
    rw [update_conns]
    split
    · rename_i hi
      refine .restores hfl hi.symm hs ?_
      cases ok with
      | none => exact ⟨rfl, rfl, rfl⟩
      | some tick =>
        have h := afterSend_nxt fl.seg.flags fl.seg.data tick (f.tcp.conns i)
        simp only [Flight.account, update_conns, hi, if_true]
        rw [hi] at h
        exact ⟨h.sndUna, rfl, h.state⟩
    · rename_i hi
      cases ok with
      | none => exact .same (.refl _)
      | some tick =>
        simp only [Flight.account, update_conns, hi, if_false]
        exact .same (.refl _)
  | none =>
    cases ok with
    | none => exact .same (.refl _)
    | some tick =>
      refine seqStep_update fun hi => ?_
      refine .counts ?_ (toNat_ofNat_le _) (afterSend_nxt _ _ _ _)
      simp only [counted, hfl, Option.bind_some, hs, if_true, seqLen, hi]

theorem not_leaves_to (h : c'.state = .finWait1 ∨ c'.state = .lastAck ∨ c'.state = .listen) :
    ¬Leaves c c' := by
  unfold Leaves
  rcases h with h | h | h <;> simp [h]

theorem not_leaves_established (h : c.state = .established) : ¬Leaves c c' := by
  simp [Leaves, h]

theorem idle_flight (h : f.idle = true) : f.flight = none := by
  simp only [Fine.idle, Bool.and_eq_true, Option.isNone_iff_eq_none] at h
  exact h.2

theorem seq_step (hstep : f.step a = some f') (i : Slot) : SeqStep f i a (f'.tcp.conns i) := by
  cases a with
  | segment j seg =>
    obtain ⟨-, rfl⟩ := of_guard hstep
    dsimp only
    refine seqStep_update fun hi => ?_
    subst hi
    exact .segment
  | passive j seg =>
    obtain ⟨-, rfl⟩ := of_guard hstep
    exact seqStep_update fun hi => .starts (congrArg some hi.symm) rfl (.inr rfl)
  | openConn =>
    obtain ⟨hidle, hstep⟩ := Option.ite_none_right_eq_some.mp hstep
    cases hfree : firstFree f.tcp.conns with
    | none =>
      simp only [hfree] at hstep
      cases hstep
      exact .same (.refl _)
    | some j =>
      simp only [hfree, openConn] at hstep
      cases hstep
      dsimp only [mark_conns]
      refine seqStep_update fun hi => .starts ?_ rfl (.inl (idle_flight hidle))
      rw [startsIn, hfree, hi]
  | connectInit j addr port =>
    obtain ⟨hidle, rfl⟩ := of_guard hstep
    dsimp only [L3.Tcp.connectInit, mark_conns]
    exact seqStep_update fun hi => .starts (congrArg some hi.symm) rfl (.inl (idle_flight hidle))
  | free j =>
    obtain ⟨-, rfl⟩ := of_guard hstep
    dsimp only
    refine seqStep_update fun hi => ?_
    subst hi
    exact .frees rfl rfl rfl
  | closing j passive =>
    obtain ⟨-, rfl⟩ := of_guard hstep
    dsimp only
    refine seqStep_update fun _ => .moves rfl rfl ?_
    cases passive with
    | false => exact not_leaves_to (.inl rfl)
    | true => exact not_leaves_to (.inr (.inl rfl))
  | listen j port =>
    obtain ⟨-, rfl⟩ := of_guard hstep
    dsimp only [L3.Tcp.listen, mark_conns]
    exact seqStep_update fun _ => .moves rfl rfl (not_leaves_to (.inr (.inr rfl)))
  | giveUp j now =>
    obtain ⟨⟨hdue, -⟩, rfl⟩ := of_guard hstep
    dsimp only
    refine seqStep_update fun hi => .moves rfl rfl (not_leaves_established ?_)
    simp only [due, Bool.and_eq_true, decide_eq_true_eq] at hdue
    rw [hi]
    simp [hdue]
  | synAck j =>
    obtain ⟨-, rfl⟩ := of_guard hstep
    dsimp only
    exact seqStep_update fun hi => .counts (congrArg (fun x => some (x, 1)) hi.symm)
      (k := 1) (Nat.le_refl 1) ⟨rfl, rfl, rfl⟩
  | control j flags tick =>
    cases hstep
    exact seqStep_update fun hi => .counts (congrArg (fun x => some (x, flagLen flags)) hi.symm)
      (toNat_ofNat_le _) (afterSend_nxt flags [] tick _)
  | resend j now =>
    obtain ⟨⟨hfl, -⟩, rfl⟩ := of_guard hstep
    dsimp only
    refine seqStep_update fun hi => ?_
    subst hi
    exact .rewinds (Option.isNone_iff_eq_none.mp hfl) ⟨rfl, rfl, rfl⟩
  | landed ok =>
    obtain ⟨fl, hfl, rfl⟩ := Option.map_eq_some_iff.mp hstep
    exact seq_landed hfl ok i
  | handed =>
    obtain ⟨fl, -, rfl⟩ := Option.map_eq_some_iff.mp hstep
    exact .same (.refl _)
  | answer j sg | sendBegin j data | sendEnd =>
    obtain ⟨-, rfl⟩ := of_guard hstep
    exact .same (.refl _)
  | chunk =>
    simp only [Fine.step] at hstep
    split at hstep <;> cases hstep
    exact .same (.refl _)
  | bind j port =>
    obtain ⟨-, rfl⟩ := of_guard hstep
    dsimp only [L3.Tcp.bind, mark_conns]
    exact seqStep_update fun _ => .same ⟨rfl, rfl, rfl⟩
  | drain j len =>
    obtain ⟨-, rfl⟩ := of_guard hstep
    dsimp only [recvDrain, mark_conns]
    exact seqStep_update fun _ => .same ⟨rfl, rfl, rfl⟩
  | cleared j | backoff j now =>
    cases hstep
    dsimp only
    exact seqStep_update fun _ => .same ⟨rfl, rfl, rfl⟩

/-- A resend in hand was there before, or has just been built. -/
theorem resend_in_hand (hstep : f.step a = some f') {fl : Flight} {n : UInt32}
    (hfl : f'.flight = some fl) (hn : fl.saved = some n) :
    (f.flight = some fl ∧ ∀ ok, a ≠ .landed ok) ∨
      ∃ now, a = .resend fl.slot now ∧ n = (f.tcp.conns fl.slot).sndNxt := by
  cases a with
  | resend j now =>
    obtain ⟨-, rfl⟩ := of_guard hstep
    cases hfl
    cases hn
    exact .inr ⟨now, rfl, rfl⟩
  | chunk =>
    simp only [Fine.step] at hstep
    split at hstep <;> cases hstep
    cases hfl
    cases hn
  | landed ok =>
    obtain ⟨fl', -, rfl⟩ := Option.map_eq_some_iff.mp hstep
    unfold Fine.land at hfl
    split at hfl <;> cases hfl
  | handed =>
    obtain ⟨fl', -, rfl⟩ := Option.map_eq_some_iff.mp hstep
    exact .inl ⟨hfl, fun _ h => by cases h⟩
  | openConn =>
    obtain ⟨-, hstep⟩ := Option.ite_none_right_eq_some.mp hstep
    split at hstep <;> cases hstep <;> exact .inl ⟨hfl, fun _ h => by cases h⟩
  | control | cleared | backoff =>
    cases hstep
    exact .inl ⟨hfl, fun _ h => by cases h⟩
  | segment | passive | answer | synAck | bind | listen | connectInit | closing | free | sendBegin
  | sendEnd | giveUp | drain =>
    obtain ⟨-, rfl⟩ := of_guard hstep
    exact .inl ⟨hfl, fun _ h => by cases h⟩

theorem onSegment_nxt (c : TcpConnection) (seg : InSeg) : (onSegment c seg).1.sndNxt = c.sndNxt := by
  unfold onSegment
  repeat' split
  all_goals first
    | rfl
    | (dsimp only; repeat' split <;> rfl)

theorem onSegment_una (c : TcpConnection) (seg : InSeg) :
    TakesAck c seg ∧ (onSegment c seg).1.sndUna = seg.ack ∨
      ¬TakesAck c seg ∧ (onSegment c seg).1.sndUna = c.sndUna := by
  unfold TakesAck onSegment
  cases c.state <;> dsimp only
  case synSent | synReceived | finWait1 => split <;> simp_all <;> split <;> rfl
  case established =>
    split
    · simp_all
    · split <;> split <;> simp_all
  case finWait2 | lastAck => split <;> simp
  all_goals simp

theorem not_leaves_of_same (h : c'.state = c.state) : ¬Leaves c c' := by
  rintro (⟨h1, h2 | h2⟩ | ⟨h1, h2⟩) <;> rw [h, h1] at h2 <;> cases h2

/-- A segment takes a connection out of FIN_WAIT_1, or out of LAST_ACK, by any
ACK. -/
theorem onSegment_leaves : Leaves c (onSegment c seg).1 ↔
    (c.state = .finWait1 ∨ c.state = .lastAck) ∧ has seg.flags tcpAck = true := by
  constructor
  · intro h
    have hst : c.state = .finWait1 ∨ c.state = .lastAck := h.imp And.left And.left
    refine ⟨hst, ?_⟩
    by_contra hno
    have hsame : (onSegment c seg).1 = c := by
      unfold onSegment
      rcases hst with hst | hst <;> simp [hst, hno]
    exact not_leaves_of_same (congrArg TcpConnection.state hsame) h
  · rintro ⟨hst | hst, ha⟩
    · refine .inl ⟨hst, ?_⟩
      cases hf : has seg.flags tcpFin <;> simp [onSegment, hst, ha, hf]
    · refine .inr ⟨hst, ?_⟩
      simp [onSegment, hst, ha]

end

/-! ## The invariant -/

/-- A resend in hand puts back a number that is not behind `snd_nxt`. -/
def SavedAhead (f : Fine) : Prop :=
  ∀ fl n, f.flight = some fl → fl.saved = some n →
    offset isn (f.tcp.conns fl.slot).sndNxt ≤ offset isn n

structure AckInv (r : AckRun) : Prop where
  window : ∀ i, Window (r.fine.tcp.conns i)
  savedAhead : SavedAhead r.fine
  fromOut : ∀ i, ∀ sg ∈ r.received i, sg ∈ r.out i

section
variable {r r' : AckRun} {f f' : Fine} {a : Act} {i : Slot}

theorem step_act (hstep : r.step (.act a) = some r') :
    ∃ f', r.fine.step a = some f' ∧ r' = ⟨f', fun i => outAfter r.fine a i (r.out i),
      fun i => if startsIn r.fine a = some i then [] else r.received i⟩ := by
  obtain ⟨f', hf, rfl⟩ := Option.map_eq_some_iff.mp hstep
  exact ⟨f', hf, rfl⟩

theorem step_deliver {sg : Segment} (hstep : r.step (.deliver i sg) = some r') :
    sg ∈ r.out i ∧
      r' = { r with received := Function.update r.received i (r.received i ++ [sg]) } := by
  obtain ⟨hsg, rfl⟩ := of_guard hstep
  exact ⟨hsg, rfl⟩

theorem SoundAck.counts {p : Slot × Nat} (h : SoundAck r (.act a)) (hp : counted r.fine a = some p) :
    offset isn (r.fine.tcp.conns p.1).sndNxt + p.2 < 2 ^ 32 ∧
      ∀ fl ∈ r.fine.flight, fl.slot = p.1 → fl.saved = none := by
  cases a <;> first | exact h p hp | cases hp

theorem AckInv.window_step (h : AckInv r) (hG : SoundAck r (.act a)) (hstep : r.fine.step a = some f')
    (i : Slot) : Window (f'.tcp.conns i) := by
  have hw := h.window i
  unfold Window at hw ⊢
  have hseq := seq_step hstep i
  generalize f'.tcp.conns i = conn at hseq
  cases hseq with
  | same hs => rw [hs.sndUna, hs.sndNxt]; exact hw
  | segment =>
    rw [onSegment_nxt]
    rcases onSegment_una (r.fine.tcp.conns i) _ with ⟨ht, e⟩ | ⟨-, e⟩ <;> rw [e]
    · exact (hG.1 ht).2
    · exact hw
  | starts _ he _ => rw [he]
  | frees hu hn _ | moves hu hn _ => rw [hu, hn]; exact hw
  | counts hm hk hn =>
    have hlt := (hG.counts hm).1
    rw [hn.sndUna, hn.sndNxt, offset_add (Nat.lt_of_le_of_lt (Nat.add_le_add_left hk _) hlt)]
    exact Nat.le_add_right_of_le hw
  | rewinds _ hn => rw [hn.sndUna, hn.sndNxt]
  | restores hfl hi hsaved hn =>
    subst hi
    rw [hn.sndUna, hn.sndNxt]
    exact hw.trans (h.savedAhead _ _ hfl hsaved)

theorem AckInv.saved_step (h : AckInv r) (hG : SoundAck r (.act a))
    (hstep : r.fine.step a = some f') : SavedAhead f' := by
  intro fl n hfl hn
  have hseq := seq_step hstep fl.slot
  generalize f'.tcp.conns fl.slot = conn at hseq
  rcases resend_in_hand hstep hfl hn with ⟨hold, hland⟩ | ⟨now, rfl, rfl⟩
  · have hle := h.savedAhead fl n hold hn
    cases hseq with
    | same hs => rw [hs.sndNxt]; exact hle
    | segment => rw [onSegment_nxt]; exact hle
    | starts _ _ he =>
      rcases he with he | he
      · rw [hold] at he; cases he
      · rw [he, offset_self]; exact Nat.zero_le _
    | frees _ e _ | moves _ e _ => rw [e]; exact hle
    | counts hm _ _ =>
      have hnone := (hG.counts hm).2 fl hold rfl
      rw [hn] at hnone
      cases hnone
    | rewinds hnone _ => rw [hold] at hnone; cases hnone
    | restores => exact absurd rfl (hland _)
  · -- the resend has just rewound `snd_nxt` to `snd_una`
    cases hseq with
    | same hs => rw [hs.sndNxt]
    | starts hs _ _ => cases hs
    | moves _ e _ => rw [e]
    | counts hm _ _ => cases hm
    | rewinds _ hs => rw [hs.sndNxt]; exact h.window fl.slot

theorem AckInv.step {b : AckAct} (h : AckInv r) (hG : SoundAck r b) (hstep : r.step b = some r') :
    AckInv r' := by
  cases b with
  | act a =>
    obtain ⟨f', hf, rfl⟩ := step_act hstep
    refine ⟨h.window_step hG hf, h.saved_step hG hf, fun i sg hsg => ?_⟩
    dsimp only [outAfter] at hsg ⊢
    split
    · rename_i hs
      rw [if_pos hs] at hsg
      exact hsg
    · rename_i hs
      rw [if_neg hs] at hsg
      exact List.mem_append_left _ (h.fromOut i sg hsg)
  | deliver j sg =>
    obtain ⟨hout, rfl⟩ := step_deliver hstep
    refine ⟨h.window, h.savedAhead, fun i sg' hsg => ?_⟩
    dsimp only at hsg ⊢
    by_cases hi : i = j
    · subst hi
      rw [Function.update_self] at hsg
      rcases List.mem_append.mp hsg with hsg | hsg
      · exact h.fromOut i sg' hsg
      · rw [List.mem_singleton.mp hsg]; exact hout
    · rw [Function.update_of_ne hi] at hsg
      exact h.fromOut i sg' hsg

theorem ackInv_reachable (hr : (ackLTS SoundAck).Reachable r) : AckInv r := by
  refine LTS.Inductive.reachable ⟨?_, ?_⟩ r hr
  · rintro _ ⟨s, rfl⟩
    exact ⟨fun _ => Nat.le_refl _, nofun, nofun⟩
  · rintro r b r' h ⟨-, hG, hstep⟩
    exact h.step hG hstep

/-! ## Which ACKs do no harm -/

/-- An honest peer that acknowledges a FIN has received it. -/
theorem AckInv.finReceived (h : AckInv r) (hh : HonestAck r (.act (.segment i seg)))
    (ha : has seg.flags tcpAck = true) (hf : AcksFin (r.out i) seg.ack) : FinReceived r i := by
  obtain ⟨hpos, honly⟩ := hf
  obtain ⟨sg, hsg, hc⟩ := hh ha (offset isn seg.ack - 1) (Nat.sub_one_lt_of_lt hpos)
  rw [add_offset_pred hpos] at hc
  exact ⟨sg, hsg, honly sg (h.fromOut i sg hsg) hc⟩

theorem AckInv.sound {b : AckAct} (h : AckInv r) (hh : HonestAck r b) (hG : SoundAck r b)
    (hstep : r.step b = some r') : StepSound r b r' := by
  intro i hs
  cases b with
  | deliver j sg =>
    obtain ⟨-, rfl⟩ := step_deliver hstep
    exact ⟨Nat.le_refl _, fun hl => absurd hl (not_leaves_of_same rfl)⟩
  | act a =>
    obtain ⟨f', hf, rfl⟩ := step_act hstep
    have hseq := seq_step hf i
    generalize f'.tcp.conns i = conn at hseq
    cases hseq with
    | same e => exact ⟨e.sndUna ▸ Nat.le_refl _, fun hl => absurd hl (not_leaves_of_same e.state)⟩
    | segment =>
      refine ⟨?_, fun hl => ?_⟩
      · rcases onSegment_una (r.fine.tcp.conns i) _ with ⟨ht, e⟩ | ⟨-, e⟩ <;> rw [e]
        exact (hG.1 ht).1
      · obtain ⟨hst, ha⟩ := onSegment_leaves.mp hl
        exact h.finReceived hh ha (hG.2 hst ha)
    | starts hst _ _ => exact absurd hst (hs _ rfl)
    | frees e _ hc =>
      refine ⟨e ▸ Nat.le_refl _, ?_⟩
      rintro (⟨-, hl | hl⟩ | ⟨hl, -⟩)
      · rw [hc] at hl; cases hl
      · rw [hc] at hl; cases hl
      · exact absurd hl hG
    | moves e _ hl => exact ⟨e ▸ Nat.le_refl _, fun hl' => absurd hl' hl⟩
    | counts _ _ e | rewinds _ e | restores _ _ _ e =>
      exact ⟨e.sndUna ▸ Nat.le_refl _, fun hl => absurd hl (not_leaves_of_same e.state)⟩

theorem step_segment (hstep : r.step (.act (.segment i seg)) = some r') :
    r'.fine.tcp.conns i = (onSegment (r.fine.tcp.conns i) seg).1 := by
  obtain ⟨f', hf, rfl⟩ := step_act hstep
  obtain ⟨-, rfl⟩ := of_guard hf
  rw [update_conns, if_pos rfl]

/-- What a segment does to its own connection. -/
theorem AckInv.segment_iff (h : AckInv r) (hstep : r.step (.act (.segment i seg)) = some r') :
    (Window (r'.fine.tcp.conns i) ∧
      offset isn (r.fine.tcp.conns i).sndUna ≤ offset isn (r'.fine.tcp.conns i).sndUna ∧
      (Leaves (r.fine.tcp.conns i) (r'.fine.tcp.conns i) → FinReceived r i)) ↔
    (TakesAck (r.fine.tcp.conns i) seg → AckInWindow (r.fine.tcp.conns i) seg.ack) ∧
      ((r.fine.tcp.conns i).state = .finWait1 ∨ (r.fine.tcp.conns i).state = .lastAck →
        has seg.flags tcpAck = true → FinReceived r i) := by
  have hw := h.window i
  unfold Window at hw ⊢
  rw [step_segment hstep, onSegment_nxt, onSegment_leaves, ← and_assoc, and_imp]
  refine and_congr_left fun _ => ?_
  rcases onSegment_una (r.fine.tcp.conns i) seg with ⟨ht, e⟩ | ⟨ht, e⟩ <;> rw [e]
  · simp only [ht, forall_const, AckInWindow]
    exact and_comm
  · simp only [ht, false_imp_iff, iff_true]
    exact ⟨hw, Nat.le_refl _⟩

end

/-- **Result**: with an honest peer, in every run whose ACKs are new, for what
was sent and counted, and in FIN_WAIT_1 and LAST_ACK for the FIN, `snd_una`
stays in the window and does not move back, and the two states are left when
the peer has the FIN. A segment keeps that exactly when the number it sets
`snd_una` to is in the window, and the peer has the FIN that it is taken to
acknowledge. -/
theorem acks_sound {r : AckRun} (hr : (ackLTS SoundAck).Reachable r) :
    (∀ i, Window (r.fine.tcp.conns i)) ∧
    (∀ b r', (ackLTS SoundAck).step r b r' → StepSound r b r') ∧
    ∀ i seg r', r.step (.act (.segment i seg)) = some r' → ((Window (r'.fine.tcp.conns i) ∧
        offset isn (r.fine.tcp.conns i).sndUna ≤ offset isn (r'.fine.tcp.conns i).sndUna ∧
        (Leaves (r.fine.tcp.conns i) (r'.fine.tcp.conns i) → FinReceived r i)) ↔
      (TakesAck (r.fine.tcp.conns i) seg → AckInWindow (r.fine.tcp.conns i) seg.ack) ∧
        ((r.fine.tcp.conns i).state = .finWait1 ∨ (r.fine.tcp.conns i).state = .lastAck →
          has seg.flags tcpAck = true → FinReceived r i)) := by
  have h := ackInv_reachable hr
  exact ⟨h.window, fun b r' ⟨hh, hG, hstep⟩ => h.sound hh hG hstep, fun i seg r' => h.segment_iff⟩

/-! ## Runs -/

/-- A segment goes where `tcp_input` finds it belongs. -/
def AckDemuxed (r : AckRun) : AckAct → Prop
  | .act a => Demuxed r.fine a
  | .deliver _ _ => True

instance (r : AckRun) : (b : AckAct) → Decidable (AckDemuxed r b)
  | .act a => inferInstanceAs (Decidable (Demuxed r.fine a))
  | .deliver _ _ => .isTrue trivial

instance (seq : UInt32) (len : Nat) (x : UInt32) : Decidable (Covers seq len x) := by
  unfold Covers; infer_instance

instance (r : AckRun) (b : AckAct) : Decidable (HonestAck r b) := by
  unfold HonestAck; split <;> infer_instance

instance (c : TcpConnection) (seg : InSeg) : Decidable (TakesAck c seg) := by
  unfold TakesAck; split <;> infer_instance

instance (c : TcpConnection) (ack : UInt32) : Decidable (AckInWindow c ack) := by
  unfold AckInWindow; infer_instance

instance (c : TcpConnection) : Decidable (Window c) := by
  unfold Window; infer_instance

instance (out : List Segment) (ack : UInt32) : Decidable (AcksFin out ack) := by
  unfold AcksFin; infer_instance

instance (r : AckRun) (b : AckAct) : Decidable (SoundAck r b) := by
  unfold SoundAck; split <;> infer_instance

instance (r : AckRun) (i : Slot) : Decidable (FinReceived r i) := by
  unfold FinReceived; infer_instance

/-- Nothing is running, nothing was sent. -/
def bootAck : AckRun := ⟨bootFine, fun _ => [], fun _ => []⟩

def AckRun.runIf (G : AckRun → AckAct → Prop) [∀ r b, Decidable (G r b)] (bs : List AckAct) :
    Option AckRun :=
  LTS.runIf AckRun.step (fun r b => HonestAck r b ∧ G r b) bootAck bs

theorem ack_run_reachable {G : AckRun → AckAct → Prop} [∀ r b, Decidable (G r b)] {bs : List AckAct}
    {r : AckRun} (h : AckRun.runIf G bs = some r) : (ackLTS G).Reachable r :=
  LTS.Reachable.runIf (T := ackLTS G) (fun _ _ _ h hs => ⟨h.1, h.2, hs⟩)
    ⟨bootAck, [], ⟨bootTcp, rfl⟩, .nil _⟩ h

/-- A segment to the server 10.0.2.2:80 from the first ephemeral port. -/
def sentSeg (seq ack : UInt32) (flags : UInt8) (data : List UInt8) : Segment :=
  ⟨0x0A000202, 49152, 80, seq, ack, flags, 8192, data⟩

/-- The server's SYN|ACK. -/
def synAckSeg : InSeg := serverSeg 5000 1001 (tcpSyn ||| tcpAck) []

/-- `connect`, and the server's answer. -/
def handshake : List AckAct :=
  [.act .openConn, .act (.connectInit 0 0x0A000202 80), .act (.answer 0 (sentSeg 1000 0 tcpSyn [])),
   .act (.control 0 tcpSyn 0), .deliver 0 (sentSeg 1000 0 tcpSyn []),
   .act (.segment 0 synAckSeg), .act (.answer 0 (sentSeg 1001 5001 tcpAck []))]

/-- `TCP::send` of one byte up to its hand-over, and the byte arrives. -/
def byteOut : List AckAct :=
  [.act (.sendBegin 0 [7]), .act .chunk, .act .handed,
    .deliver 0 (sentSeg 1001 5001 (tcpAck ||| tcpPsh) [7])]

/-- The FIN of `close`. -/
def finSent (seq ack : UInt32) (passive : Bool) : List AckAct :=
  [.act (.answer 0 (sentSeg seq ack (tcpFin ||| tcpAck) [])),
   .act (.control 0 (tcpFin ||| tcpAck) 0), .act (.closing 0 passive)]

/-- The byte is acknowledged, and so is the FIN. -/
def ackedClose : List AckAct :=
  handshake ++ byteOut ++ [.act (.landed (some 0)), .act .sendEnd,
    .act (.segment 0 (serverSeg 5001 1002 tcpAck []))] ++
  finSent 1002 5001 false ++ [.deliver 0 (sentSeg 1002 5001 (tcpFin ||| tcpAck) [])]

theorem acks_sound_closed :
    ∃ r, (ackLTS SoundAck).Reachable r ∧ (r.fine.tcp.conns 0).state = .finWait1 ∧
      (∀ i, Window (r.fine.tcp.conns i)) ∧
      ∃ r', (ackLTS SoundAck).step r (.act (.segment 0 (serverSeg 5001 1003 tcpAck []))) r' ∧
        (r'.fine.tcp.conns 0).state = .finWait2 ∧
        StepSound r (.act (.segment 0 (serverSeg 5001 1003 tcpAck []))) r' := by
  have h : ((AckRun.runIf SoundAck ackedClose).map fun r => ((r.fine.tcp.conns 0).state,
      decide (HonestAck r (.act (.segment 0 (serverSeg 5001 1003 tcpAck []))) ∧
        SoundAck r (.act (.segment 0 (serverSeg 5001 1003 tcpAck [])))),
      (r.step (.act (.segment 0 (serverSeg 5001 1003 tcpAck [])))).map
        fun r' => (r'.fine.tcp.conns 0).state)) =
      some (.finWait1, true, some .finWait2) := by decide +kernel
  obtain ⟨r, hrun, he⟩ := Option.map_eq_some_iff.mp h
  simp only [Prod.mk.injEq] at he
  obtain ⟨hst, hok, hstep⟩ := he
  obtain ⟨hh, hG⟩ := of_decide_eq_true hok
  obtain ⟨r', hr', hst'⟩ := Option.map_eq_some_iff.mp hstep
  obtain ⟨hw, hs, -⟩ := acks_sound (ack_run_reachable hrun)
  exact ⟨r, ack_run_reachable hrun, hst, hw, r', ⟨hh, hG, hr'⟩, hst', hs _ _ ⟨hh, hG, hr'⟩⟩

/-- The SYN|ACK comes once more, after the run. -/
theorem dup_step {b : List AckAct} {c d : UInt32 × TcpState} {f : Bool}
    (h : ((AckRun.runIf AckDemuxed b).map fun r =>
      (((r.fine.tcp.conns 0).sndUna, (r.fine.tcp.conns 0).state), decide (FinReceived r 0),
        decide (HonestAck r (.act (.segment 0 synAckSeg)) ∧
          AckDemuxed r (.act (.segment 0 synAckSeg))),
        (r.step (.act (.segment 0 synAckSeg))).map fun r' =>
          ((r'.fine.tcp.conns 0).sndUna, (r'.fine.tcp.conns 0).state))) = some (c, f, true, some d)) :
    ∃ r r', (ackLTS AckDemuxed).Reachable r ∧
      (ackLTS AckDemuxed).step r (.act (.segment 0 synAckSeg)) r' ∧
      ((r.fine.tcp.conns 0).sndUna, (r.fine.tcp.conns 0).state) = c ∧
      ((r'.fine.tcp.conns 0).sndUna, (r'.fine.tcp.conns 0).state) = d ∧
        decide (FinReceived r 0) = f := by
  obtain ⟨r, hrun, he⟩ := Option.map_eq_some_iff.mp h
  simp only [Prod.mk.injEq] at he
  obtain ⟨hc, hfin, hok, hstep⟩ := he
  obtain ⟨hh, hG⟩ := of_decide_eq_true hok
  obtain ⟨r', hr', hc'⟩ := Option.map_eq_some_iff.mp hstep
  exact ⟨r, r', ack_run_reachable hrun, ⟨hh, hG, hr'⟩, hc, hc', hfin⟩

/-- **Counterexample**: the duplicate of the SYN|ACK moves `snd_una` back behind
an acknowledged byte; it takes a connection out of FIN_WAIT_1, and another one
from LAST_ACK to CLOSED, whose FIN has not arrived. And the ACK of a byte whose
send timed out is ahead of `snd_nxt`. -/
theorem old_ack_taken :
    (∃ r r', (ackLTS AckDemuxed).Reachable r ∧
      (ackLTS AckDemuxed).step r (.act (.segment 0 synAckSeg)) r' ∧
      (r.fine.tcp.conns 0).sndUna = 1002 ∧ (r'.fine.tcp.conns 0).sndUna = 1001) ∧
    (∃ r r', (ackLTS AckDemuxed).Reachable r ∧
      (ackLTS AckDemuxed).step r (.act (.segment 0 synAckSeg)) r' ∧
      (r.fine.tcp.conns 0).state = .finWait1 ∧ (r'.fine.tcp.conns 0).state = .finWait2 ∧
        ¬FinReceived r 0) ∧ (∃ r r', (ackLTS AckDemuxed).Reachable r ∧
      (ackLTS AckDemuxed).step r (.act (.segment 0 synAckSeg)) r' ∧
      (r.fine.tcp.conns 0).state = .lastAck ∧
        (r'.fine.tcp.conns 0).state = .closed ∧ ¬FinReceived r 0) ∧
    ∃ r, (ackLTS AckDemuxed).Reachable r ∧ ¬Window (r.fine.tcp.conns 0) := by
  have hback := dup_step (b := handshake ++ byteOut ++ [.act (.landed (some 0)), .act .sendEnd,
    .act (.segment 0 (serverSeg 5001 1002 tcpAck []))])
    (c := (1002, .established)) (d := (1001, .established)) (f := false) (by decide +kernel)
  have hfin := dup_step (b := handshake ++ finSent 1001 5001 false)
    (c := (1001, .finWait1)) (d := (1001, .finWait2)) (f := false) (by decide +kernel)
  have hlast := dup_step
    (b := handshake ++ [.act (.segment 0 (serverSeg 5001 1001 (tcpFin ||| tcpAck) [])),
    .act (.answer 0 (sentSeg 1001 5002 tcpAck []))] ++ finSent 1001 5002 true)
    (c := (1001, .lastAck)) (d := (1001, .closed)) (f := false) (by decide +kernel)
  have hwin : ((AckRun.runIf AckDemuxed (handshake ++ byteOut ++ [.act (.landed none),
      .act (.segment 0 (serverSeg 5001 1002 tcpAck []))])).map fun r =>
      decide (Window (r.fine.tcp.conns 0))) = some false := by decide +kernel
  refine ⟨?_, ?_, ?_, ?_⟩
  · obtain ⟨r, r', hr, hs, hc, hc', -⟩ := hback
    exact ⟨r, r', hr, hs, (Prod.mk.inj hc).1, (Prod.mk.inj hc').1⟩
  · obtain ⟨r, r', hr, hs, hc, hc', hf⟩ := hfin
    exact ⟨r, r', hr, hs, (Prod.mk.inj hc).2, (Prod.mk.inj hc').2, of_decide_eq_false hf⟩
  · obtain ⟨r, r', hr, hs, hc, hc', hf⟩ := hlast
    exact ⟨r, r', hr, hs, (Prod.mk.inj hc).2, (Prod.mk.inj hc').2, of_decide_eq_false hf⟩
  · obtain ⟨r, hrun, he⟩ := Option.map_eq_some_iff.mp hwin
    exact ⟨r, ack_run_reachable hrun, of_decide_eq_false he⟩

end HackersOs.L3.Tcp

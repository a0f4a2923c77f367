import HackersOs.L3Net.TcpSteps

/-!
# When `check_retransmit` gives up

The other end is silent: no segment arrives for the connection, every transmission
succeeds, and `check_retransmit` is called again and again. In between anything may
happen to the rest of the system (`Silent`).

`send_tcp_segment` writes the retransmission data of the connection, also when
`check_retransmit` calls it: the count is 0 again and `tx_seq` is `snd_nxt`
minus the length, before `snd_nxt` moves. So after a retransmission
`tx_seq + tx_len` is `snd_una`, which the next check takes for "all data ACKed"
(`resend_looksAcked`), and the buffer is dropped. The same holds for a first
segment that was sent with nothing else outstanding.

Result: `give_up_iff`: the connection is given up only when the count was at its
limit before the run.
-/
namespace HackersOs.L3.Tcp

/-- A call of `check_retransmit`: the tick it reads, and the tick at the end of the
send for each connection. -/
structure Check where
  now : UInt64
  tick : Slot → UInt64

/-- Nothing is polled, and the device reports the frame. -/
def Check.runs (c : Check) (i : Slot) : IpRun := .mk .nil .ok (c.tick i)

inductive Event where
  | check (c : Check)
  /-- whatever else: other connections, their segments, calls for them -/
  | other (s : TcpSys)

def Event.apply : Event → TcpSys → TcpSys
  | .check c, s => checkRetransmit s c.now c.runs
  | .other s', _ => s'

def after (s : TcpSys) (es : List Event) : TcpSys := es.foldl (fun s e => e.apply s) s

/-- The connection and its segments are the same in both states. -/
def SameSlot (i : Slot) (s s' : TcpSys) : Prop :=
  s'.conns i = s.conns i ∧ (s'.ghost i).sent = (s.ghost i).sent

/-- What happens besides the checks leaves connection `i` alone. -/
def Silent (i : Slot) : TcpSys → List Event → Prop
  | _, [] => True
  | s, .check c :: es => Silent i (Event.apply (.check c) s) es
  | s, .other s' :: es => SameSlot i s s' ∧ Silent i s' es

/-- The checks at or after the deadline that stands when they are made. -/
def expiries (i : Slot) : TcpSys → List Event → Nat
  | _, [] => 0
  | s, .check c :: es =>
    (if (s.conns i).retransmitTick ≤ c.now then 1 else 0) + expiries i (Event.apply (.check c) s) es
  | _, .other s' :: es => expiries i s' es

/-- The segments of connection `i` between two states. -/
def resent (i : Slot) (s s' : TcpSys) : Nat := (s'.ghost i).sent.length - (s.ghost i).sent.length

/-- An open connection with a segment in its retransmission buffer. -/
structure Buffered (conn : TcpConnection) : Prop where
  active : conn.active = true
  established : conn.state = .established
  some : conn.txLen ≠ 0
  /-- it went out in a frame -/
  sent : headersLen + conn.txLen.toNat ≤ maxPacket
  unacked : conn.sndUna ≠ conn.sndNxt

/-- At most five retransmissions, the wait behind the `k`-th twice as long as the one
before, and the connection given up at the end of the run. -/
structure GivesUp (i : Slot) (s : TcpSys) (es : List Event) : Prop where
  few : resent i s (after s es) ≤ maxRetransmits.toNat
  waits : ∀ pre c post, es = pre ++ .check c :: post →
    resent i s (after s pre) < resent i s (after s (pre ++ [.check c])) →
    ((after s (pre ++ [.check c])).conns i).retransmitTick =
      c.now + retransmitTicks *
        ((1 : UInt64) <<< UInt64.ofNat (resent i s (after s (pre ++ [.check c]))))
  closes : ((after s es).conns i).state = .closed ∧ ((after s es).conns i).active = false

/-! ## One connection -/

section
variable {s s' : TcpSys} {i j : Slot} {now tick : UInt64} {c : Check} {es : List Event}

/-- What the code takes for a segment that is acknowledged. -/
abbrev LooksAcked (conn : TcpConnection) : Prop := conn.sndUna ≥ conn.txSeq + conn.txLen

/-- The part of the buffer that is sent again. -/
def remaining (conn : TcpConnection) : UInt32 := conn.txLen - ackedLen conn

/-- It is not empty, and no longer than the buffer. -/
theorem remaining_bounds {conn : TcpConnection} (h : ¬ LooksAcked conn) (h0 : conn.txLen ≠ 0) :
    0 < (remaining conn).toNat ∧ (remaining conn).toNat ≤ conn.txLen.toNat := by
  have hlen : conn.txLen.toNat ≠ 0 := by
    intro hz
    exact h0 (UInt32.toNat_inj.mp hz)
  rw [LooksAcked, ge_iff_le, UInt32.le_iff_toNat_le, UInt32.toNat_add] at h
  unfold remaining ackedLen
  by_cases hgt : conn.sndUna > conn.txSeq
  · -- the sum does not wrap, so less than the buffer is acknowledged
    rw [if_pos hgt, UInt32.toNat_sub, UInt32.toNat_sub]
    have hlt : conn.txSeq.toNat < conn.sndUna.toNat := UInt32.lt_iff_toNat_lt.mp hgt
    omega
  · rw [if_neg hgt, UInt32.sub_zero]
    omega

/-- The connection behind a retransmission: the send wrote `tx_seq` as if `snd_nxt` had
moved already. -/
theorem resend_looksAcked (h : ¬ LooksAcked (s.conns i)) (h0 : (s.conns i).txLen ≠ 0)
    (hlen : headersLen + (s.conns i).txLen.toNat ≤ maxPacket) :
    LooksAcked ((resend s i (.mk .nil .ok tick)).conns i) ∧
      ((resend s i (.mk .nil .ok tick)).conns i).active = (s.conns i).active ∧
      ((resend s i (.mk .nil .ok tick)).conns i).state = (s.conns i).state := by
  obtain ⟨hpos, hle⟩ := remaining_bounds h h0
  have hsize : (remaining (s.conns i)).toNat ≤ tcpBufSize := by
    simp only [headersLen, maxPacket, tcpBufSize] at hlen ⊢
    omega
  have hif : remaining (s.conns i) > 0 ∧ (remaining (s.conns i)).toNat ≤ tcpBufSize :=
    ⟨UInt32.lt_iff_toNat_lt.mpr hpos, hsize⟩
  unfold resend
  dsimp only
  rw [← remaining, if_pos hif]
  generalize hdata : (List.range (remaining (s.conns i)).toNat).map
    (fun n => (s.conns i).txBuf ((ackedLen (s.conns i)).toNat + n)) = data
  have hdlen : data.length = (remaining (s.conns i)).toNat := by
    rw [← hdata, List.length_map, List.length_range]
  have hfits : ¬ headersLen + data.length > maxPacket := by omega
  have hsyn : has (tcpAck ||| tcpPsh) tcpSyn = false := by decide
  have hfin : has (tcpAck ||| tcpPsh) tcpFin = false := by decide
  have hposd : data.length > 0 := by omega
  have hsized : data.length ≤ tcpBufSize := by omega
  rw [sendTcpSegment, if_neg hfits]
  simp only [pollSegs, update_conns, record_conns, if_true, afterSend, hsyn, hfin, Bool.false_eq_true,
    if_false, hposd, hsized, and_true, LooksAcked, UInt32.sub_add_cancel]
  exact UInt32.le_refl _

/-- What one check does to its connection. -/
theorem retransmitOne_silent (hactive : (s.conns i).active = true)
    (hest : (s.conns i).state = .established) (h0 : (s.conns i).txLen ≠ 0) :
    (LooksAcked (s.conns i) ∧ retransmitOne s i now (.mk .nil .ok tick) =
      s.update i fun c => { c with txLen := 0 }) ∨
    (¬ LooksAcked (s.conns i) ∧ ¬ (s.conns i).retransmitTick ≤ now ∧
      retransmitOne s i now (.mk .nil .ok tick) = s) ∨
    (¬ LooksAcked (s.conns i) ∧ (s.conns i).retransmitTick ≤ now ∧
      maxRetransmits ≤ (s.conns i).retransmitCount ∧ retransmitOne s i now (.mk .nil .ok tick) =
        s.update i fun c => { c with state := .closed, active := false }) ∨
    (¬ LooksAcked (s.conns i) ∧ ¬ maxRetransmits ≤ (s.conns i).retransmitCount ∧
      retransmitOne s i now (.mk .nil .ok tick) =
        (resend s i (.mk .nil .ok tick)).update i (backoff now)) := by
  have hopen : ¬ ((s.conns i).active = false ∨ (s.conns i).state ≠ .established) := by
    simp [hactive, hest]
  unfold retransmitOne
  rw [if_neg hopen, if_neg h0]
  by_cases hcov : LooksAcked (s.conns i)
  · rw [if_pos hcov]
    exact .inl ⟨hcov, rfl⟩
  rw [if_neg hcov]
  by_cases hnow : (s.conns i).retransmitTick ≤ now
  · rw [if_pos hnow]
    by_cases hcount : maxRetransmits ≤ (s.conns i).retransmitCount
    · rw [if_pos hcount]
      exact .inr (.inr (.inl ⟨hcov, hnow, hcount, rfl⟩))
    · rw [if_neg hcount]
      exact .inr (.inr (.inr ⟨hcov, hcount, rfl⟩))
  · rw [if_neg hnow]
    exact .inr (.inl ⟨hcov, hnow, rfl⟩)

/-- A connection that is closed, or has nothing to send again, is left alone. -/
theorem retransmitOne_idle {run : IpRun} (h : (s.conns i).active = false ∨ (s.conns i).txLen = 0) :
    retransmitOne s i now run = s := by
  unfold retransmitOne
  dsimp only
  cases h with
  | inl hclosed => rw [if_pos (.inl hclosed)]
  | inr hempty =>
    rw [if_pos hempty]
    split <;> rfl

/-! ## The other connections -/

theorem SameSlot.refl (i : Slot) (s : TcpSys) : SameSlot i s s := ⟨rfl, rfl⟩

theorem SameSlot.trans {s'' : TcpSys} (h : SameSlot i s s') (h' : SameSlot i s' s'') :
    SameSlot i s s'' :=
  ⟨h'.1.trans h.1, h'.2.trans h.2⟩

theorem sameSlot_update (hne : i ≠ j) (f : TcpConnection → TcpConnection) :
    SameSlot i s (s.update j f) := by
  simp [SameSlot, hne]

theorem sameSlot_record (hne : i ≠ j) (sg : Segment) : SameSlot i s (s.record j sg) := by
  simp [SameSlot, hne]

theorem sameSlot_send (hne : i ≠ j) (flags : UInt8) (data : List UInt8) :
    SameSlot i s (sendTcpSegment s j flags data (.mk .nil .ok tick)).1 := by
  rw [sendTcpSegment]
  split
  · exact .refl i s
  · exact (sameSlot_record hne _).trans (sameSlot_update hne _)

theorem sameSlot_resend (hne : i ≠ j) : SameSlot i s (resend s j (.mk .nil .ok tick)) := by
  unfold resend
  dsimp only
  split
  · exact ((sameSlot_update hne _).trans (sameSlot_send hne _ _)).trans (sameSlot_update hne _)
  · exact .refl i s

theorem sameSlot_retransmitOne (hne : i ≠ j) :
    SameSlot i s (retransmitOne s j now (.mk .nil .ok tick)) := by
  unfold retransmitOne
  dsimp only
  split
  · exact .refl i s
  split
  · exact .refl i s
  split
  · exact sameSlot_update hne _
  split
  · split
    · exact sameSlot_update hne _
    · exact (sameSlot_resend hne).trans (sameSlot_update hne _)
  · exact .refl i s

theorem sameSlot_foldl {l : List Slot} (h : i ∉ l) :
    SameSlot i s (l.foldl (fun s j => retransmitOne s j c.now (c.runs j)) s) := by
  induction l generalizing s with
  | nil => exact .refl i s
  | cons j l ih =>
    rw [List.mem_cons, not_or] at h
    rw [List.foldl_cons]
    exact (sameSlot_retransmitOne h.1).trans (ih h.2)

/-- A check reaches a connection once, in a state where it is as before. -/
theorem apply_slot (c : Check) (s : TcpSys) (i : Slot) :
    ∃ s₁, SameSlot i s s₁ ∧
      SameSlot i (retransmitOne s₁ i c.now (c.runs i)) (Event.apply (.check c) s) := by
  obtain ⟨pre, post, hl⟩ := List.append_of_mem (List.mem_finRange i)
  have hnd : (pre ++ i :: post).Nodup := hl ▸ List.nodup_finRange 16
  obtain ⟨-, hpost, hpre⟩ := List.nodup_append.mp hnd
  have hi : i ∉ pre := by
    intro hin
    exact hpre i hin i List.mem_cons_self rfl
  refine ⟨pre.foldl (fun s j => retransmitOne s j c.now (c.runs j)) s, sameSlot_foldl hi, ?_⟩
  rw [Event.apply, checkRetransmit, hl, List.foldl_append, List.foldl_cons]
  exact sameSlot_foldl (List.nodup_cons.mp hpost).1

/-! ## Below the limit -/

/-- An open connection that will not be given up: its buffer is empty, or taken for
acknowledged, or the count is below the limit. -/
structure StaysOpen (conn : TcpConnection) : Prop where
  active : conn.active = true
  established : conn.state = .established
  why : conn.txLen = 0 ∨ LooksAcked conn ∨
    (¬ maxRetransmits ≤ conn.retransmitCount ∧ headersLen + conn.txLen.toNat ≤ maxPacket)

theorem StaysOpen.retransmitOne (h : StaysOpen (s.conns i)) :
    StaysOpen ((retransmitOne s i now (.mk .nil .ok tick)).conns i) := by
  by_cases h0 : (s.conns i).txLen = 0
  · rw [retransmitOne_idle (.inr h0)]
    exact h
  rcases @retransmitOne_silent s i now tick h.active h.established h0 with
    ⟨-, he⟩ | ⟨-, -, he⟩ | ⟨hcov, -, hcount, -⟩ | ⟨hcov, hcount, he⟩
  · -- the buffer is dropped
    rw [he, update_conns, if_pos rfl]
    exact ⟨h.active, h.established, .inl rfl⟩
  · rw [he]
    exact h
  · rcases h.why with hz | hc | ⟨hlow, -⟩
    · exact absurd hz h0
    · exact absurd hc hcov
    · exact absurd hcount hlow
  · rcases h.why with hz | hc | ⟨-, hlen⟩
    · exact absurd hz h0
    · exact absurd hc hcov
    · obtain ⟨hafter, hact, hst⟩ := @resend_looksAcked s i tick hcov h0 hlen
      rw [he, update_conns, if_pos rfl]
      exact ⟨hact.trans h.active, hst.trans h.established, .inr (.inl hafter)⟩

theorem StaysOpen.check (h : StaysOpen (s.conns i)) (c : Check) :
    StaysOpen ((Event.apply (.check c) s).conns i) := by
  obtain ⟨s₁, hbefore, hafter⟩ := apply_slot c s i
  rw [hafter.1]
  apply StaysOpen.retransmitOne
  rw [hbefore.1]
  exact h

theorem StaysOpen.after (h : StaysOpen (s.conns i)) (hes : Silent i s es) :
    StaysOpen ((after s es).conns i) := by
  induction es generalizing s with
  | nil => exact h
  | cons e es ih =>
    cases e with
    | check c => exact ih (h.check c) hes
    | other s' =>
      apply ih _ hes.2
      rw [hes.1.1]
      exact h

/-! ## At the limit -/

/-- Nothing was sent since `s`; the connection waits as it did there, or is given up. -/
def AtLimit (i : Slot) (s s' : TcpSys) : Prop :=
  (s'.ghost i).sent = (s.ghost i).sent ∧
    (s'.conns i = s.conns i ∨ ((s'.conns i).state = .closed ∧ (s'.conns i).active = false))

/-- A check in between: it closes the connection if the deadline has passed. -/
theorem AtLimit.check (hb : Buffered (s.conns i))
    (hcount : maxRetransmits ≤ (s.conns i).retransmitCount)
    (hcov : ¬ LooksAcked (s.conns i)) (h : AtLimit i s s') (c : Check) :
    AtLimit i s (Event.apply (.check c) s') ∧
      ((s'.conns i).retransmitTick ≤ c.now ∨ (s'.conns i).active = false →
        ((Event.apply (.check c) s').conns i).active = false) := by
  obtain ⟨s₁, hbefore, hafter⟩ := apply_slot c s' i
  obtain ⟨hsent, hconn⟩ := h
  unfold AtLimit
  rw [hafter.1, hafter.2]
  rcases hconn with hsame | ⟨hst, hact⟩
  · have h₁ : s₁.conns i = s.conns i := hbefore.1.trans hsame
    have hsent₁ : (s₁.ghost i).sent = (s.ghost i).sent := hbefore.2.trans hsent
    rw [Check.runs]
    rcases @retransmitOne_silent s₁ i c.now (c.tick i) (by rw [h₁]; exact hb.active)
      (by rw [h₁]; exact hb.established) (by rw [h₁]; exact hb.some) with
      ⟨hc, -⟩ | ⟨-, hlate, he⟩ | ⟨-, -, -, he⟩ | ⟨-, hlow, -⟩
    · rw [h₁] at hc
      exact absurd hc hcov
    · rw [he]
      refine ⟨⟨hsent₁, .inl h₁⟩, ?_⟩
      intro hor
      rw [h₁] at hlate
      rw [hsame, hb.active] at hor
      cases hor with
      | inl hdue => exact absurd hdue hlate
      | inr hno => cases hno
    · rw [he, update_conns, if_pos rfl, update_ghost]
      exact ⟨⟨hsent₁, .inr ⟨rfl, rfl⟩⟩, fun _ => rfl⟩
    · rw [h₁] at hlow
      exact absurd hcount hlow
  · have h₁ : (s₁.conns i).active = false := by rw [hbefore.1, hact]
    rw [retransmitOne_idle (.inl h₁), hbefore.1, hbefore.2]
    exact ⟨⟨hsent, .inr ⟨hst, hact⟩⟩, fun _ => hact⟩

theorem AtLimit.after (hb : Buffered (s.conns i))
    (hcount : maxRetransmits ≤ (s.conns i).retransmitCount)
    (hcov : ¬ LooksAcked (s.conns i)) (h : AtLimit i s s') (hes : Silent i s' es) :
    AtLimit i s (after s' es) ∧ (0 < expiries i s' es ∨ (s'.conns i).active = false →
      ((Tcp.after s' es).conns i).active = false) := by
  induction es generalizing s' with
  | nil =>
    refine ⟨h, fun hor => ?_⟩
    cases hor with
    | inl hpos => cases hpos
    | inr hact => exact hact
  | cons e es ih =>
    cases e with
    | check c =>
      obtain ⟨hstep, hclose⟩ := AtLimit.check hb hcount hcov h c
      obtain ⟨hrun, hend⟩ := ih hstep hes
      refine ⟨hrun, fun hor => hend ?_⟩
      by_cases hdue : (s'.conns i).retransmitTick ≤ c.now
      · exact .inr (hclose (.inl hdue))
      cases hor with
      | inl hpos =>
        rw [expiries, if_neg hdue, Nat.zero_add] at hpos
        exact .inl hpos
      | inr hact => exact .inr (hclose (.inr hact))
    | other s'' =>
      obtain ⟨hsame, hrest⟩ := hes
      have hstep : AtLimit i s s'' := by
        unfold AtLimit
        rw [hsame.1, hsame.2]
        exact h
      obtain ⟨hrun, hend⟩ := ih hstep hrest
      refine ⟨hrun, fun hor => hend ?_⟩
      rw [hsame.1]
      exact hor

theorem Silent.front {pre post : List Event} (h : Silent i s (pre ++ post)) : Silent i s pre := by
  induction pre generalizing s with
  | nil => trivial
  | cons e pre ih =>
    cases e with
    | check c => exact ih h
    | other s' => exact ⟨h.1, ih h.2⟩

/-! ## The rule -/

/-- In every run with more expiries than retransmissions are allowed, the give-up rule
works if and only if the count is at its limit before the run and the code takes the
segment for unacknowledged. -/
theorem give_up_iff (hb : Buffered (s.conns i)) (hes : Silent i s es)
    (hexp : maxRetransmits.toNat < expiries i s es) : GivesUp i s es ↔
      maxRetransmits ≤ (s.conns i).retransmitCount ∧
        (s.conns i).sndUna < (s.conns i).txSeq + (s.conns i).txLen := by
  rw [← UInt32.not_le]
  constructor
  · intro hgive
    by_contra hno
    have hopen : StaysOpen (s.conns i) := by
      refine ⟨hb.active, hb.established, ?_⟩
      by_cases hcov : LooksAcked (s.conns i)
      · exact .inr (.inl hcov)
      · exact .inr (.inr ⟨fun hcount => hno ⟨hcount, hcov⟩, hb.sent⟩)
    have hactive := (hopen.after hes).active
    rw [hgive.closes.2] at hactive
    cases hactive
  · intro hcond
    obtain ⟨hcount, hcov⟩ := hcond
    have hrun : ∀ {ds}, Silent i s ds → AtLimit i s (after s ds) ∧ _ := fun hds =>
      AtLimit.after hb hcount hcov (⟨rfl, .inl rfl⟩ : AtLimit i s s) hds
    have hnone : ∀ {ds}, Silent i s ds → resent i s (after s ds) = 0 := by
      intro ds hds
      rw [resent, (hrun hds).1.1, Nat.sub_self]
    refine ⟨?_, ?_, ?_⟩
    · rw [hnone hes]
      exact Nat.zero_le _
    · intro pre c post hsplit hmore
      have hlong : Silent i s (pre ++ [.check c]) := by
        rw [hsplit, List.append_cons] at hes
        exact hes.front
      rw [hnone hlong.front, hnone hlong] at hmore
      exact absurd hmore (Nat.lt_irrefl 0)
    · have hclosed := (hrun hes).2 (.inl (by omega))
      rcases (hrun hes).1.2 with hsame | hend
      · rw [hsame, hb.active] at hclosed
        cases hclosed
      · exact hend

end

/-! ## Two connections -/

/-- A connection just established. -/
def idleConn : TcpConnection :=
  { zeroConn with active := true, state := .established, sndNxt := isn + 1, sndUna := isn + 1 }

def openSys (conn : TcpConnection) : TcpSys :=
  ⟨fun i => if i = 0 then conn else zeroConn, 49152, 0, fun _ => ⟨.stale, [], [], []⟩⟩

/-- It has sent three bytes, at tick 0. -/
def oneSegment : TcpSys :=
  (sendTcpSegment (openSys idleConn) 0 (tcpAck ||| tcpPsh) [1, 2, 3] (.mk .nil .ok 0)).1

/-- Checks at the ticks at which the waits of 200, 400, ... end. -/
def schedule : List Check :=
  [200, 600, 1400, 3000, 6200, 12600].map fun n => ⟨n, fun _ => n⟩

theorem silent_checks (i : Slot) (s : TcpSys) (cs : List Check) : Silent i s (cs.map .check) := by
  induction cs generalizing s with
  | nil => trivial
  | cons c cs ih => exact ih _

/-- A segment whose sends had failed five times. -/
def lastTry : TcpSys :=
  openSys { idleConn with sndNxt := isn + 3, txLen := 2, txSeq := isn + 1, retransmitCount := 5 }

theorem give_up_iff_last : GivesUp 0 lastTry (schedule.map .check) := by
  have hfacts : (lastTry.conns 0).active = true ∧ (lastTry.conns 0).state = .established ∧
      (lastTry.conns 0).txLen ≠ 0 ∧ headersLen + (lastTry.conns 0).txLen.toNat ≤ maxPacket ∧
      (lastTry.conns 0).sndUna ≠ (lastTry.conns 0).sndNxt ∧
      maxRetransmits.toNat < expiries 0 lastTry (schedule.map .check) := by decide +kernel
  obtain ⟨hact, hest, hsome, hsent, hunacked, hexp⟩ := hfacts
  apply (give_up_iff ⟨hact, hest, hsome, hsent, hunacked⟩ (silent_checks 0 lastTry schedule) hexp).mpr
  decide +kernel

/-- **Counterexample.** Three bytes without an answer: the first check drops the buffer, nothing
is sent again, and the connection is open after six expiries. -/
theorem never_given_up : Buffered (oneSegment.conns 0) ∧ Silent 0 oneSegment (schedule.map .check) ∧
    maxRetransmits.toNat < expiries 0 oneSegment (schedule.map .check) ∧
    schedule.Pairwise (fun c d => c.now < d.now) ∧
    ((after oneSegment (schedule.map .check)).conns 0).state = .established ∧
    ((after oneSegment (schedule.map .check)).conns 0).txLen = 0 ∧
    resent 0 oneSegment (after oneSegment (schedule.map .check)) = 0 ∧
    ¬ GivesUp 0 oneSegment (schedule.map .check) := by
  have hfacts : ((oneSegment.conns 0).active = true ∧ (oneSegment.conns 0).state = .established ∧
      (oneSegment.conns 0).txLen ≠ 0 ∧ headersLen + (oneSegment.conns 0).txLen.toNat ≤ maxPacket ∧
      (oneSegment.conns 0).sndUna ≠ (oneSegment.conns 0).sndNxt) ∧
      maxRetransmits.toNat < expiries 0 oneSegment (schedule.map .check) ∧
      ((after oneSegment (schedule.map .check)).conns 0).state = .established ∧
      ((after oneSegment (schedule.map .check)).conns 0).txLen = 0 ∧
      resent 0 oneSegment (after oneSegment (schedule.map .check)) = 0 := by decide +kernel
  obtain ⟨⟨hact, hest, hsome, hsent, hunacked⟩, hexp, hstate, hlen, hnone⟩ := hfacts
  refine ⟨⟨hact, hest, hsome, hsent, hunacked⟩, silent_checks 0 oneSegment schedule, hexp, by decide,
    hstate, hlen, hnone, ?_⟩
  intro h
  have hclosed := h.closes.1
  rw [hstate] at hclosed
  cases hclosed

end HackersOs.L3.Tcp

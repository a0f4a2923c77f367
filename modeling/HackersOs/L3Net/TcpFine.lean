import HackersOs.L3Net.TcpTransmit

/-!
# The connection table in single steps

`tcpLTS` runs the calls of `tcp.cpp` in pieces that still contain the segments
polled while they send. Here every one of those is a step of its own: a
received segment, a passive open, the construction of a data segment, its
hand-over to the device, the bookkeeping behind it, a timeout. What a running
call has in hand is part of the state: the bytes `TCP::send` has still to send
and the data segment between its construction and the end of its send. (The
segments without data are answers, or the SYN and FIN of `connect` and `close`;
nothing depends on them between those two points.)

`pollSegs`, `checkRetransmit` and the waits and loops of `connect`, `send` and
`recv` are sequences of `inner` steps: `pollSegs_inner`, `checkRetransmit_inner`,
`connectWait_inner`, `recvWait_inner`, `sendLoop_inner`.
-/
namespace HackersOs.L3.Tcp
open HackersOs.Core Relation

/-- A data segment in hand. `saved` is the `snd_nxt` that a retransmission puts
back. -/
structure Flight where
  slot : Slot
  seg : Segment
  saved : Option UInt32

structure Fine where
  tcp : TcpSys
  /-- the slot of a running `TCP::send` and what it has still to send -/
  sending : Option (Slot × List UInt8)
  flight : Option Flight
  /-- ghost: the data of each `TCP::send` on the connection in the slot -/
  passed : Slot → List (List UInt8)
  /-- ghost: the segments the connection in the slot was given -/
  arrived : Slot → List InSeg

/-- No call is running. -/
def Fine.idle (f : Fine) : Bool := f.sending.isNone && f.flight.isNone

/-- A new connection in slot `i`. -/
def Fine.fresh (f : Fine) (i : Slot) : Fine :=
  { f with
    passed := Function.update f.passed i []
    arrived := Function.update f.arrived i [] }

inductive Act where
  /-- `tcp_input` on the connection a segment belongs to -/
  | segment (i : Slot) (seg : InSeg)
  | passive (i : Slot) (seg : InSeg)
  /-- a segment without data goes to the device -/
  | answer (i : Slot) (sg : Segment)
  /-- the SYN of a passive open is counted -/
  | synAck (i : Slot)
  | openConn
  | bind (i : Slot) (port : UInt16)
  | listen (i : Slot) (port : UInt16)
  /-- `connect` before its first segment -/
  | connectInit (i : Slot) (addr : UInt32) (port : UInt16)
  /-- the SYN of `connect`, the FIN of `close` is counted -/
  | control (i : Slot) (flags : UInt8) (tick : UInt64)
  /-- `close` of a connection: FIN_WAIT_1 or LAST_ACK -/
  | closing (i : Slot) (passive : Bool)
  /-- `close` in any other state -/
  | free (i : Slot)
  | sendBegin (i : Slot) (data : List UInt8)
  | sendEnd
  /-- the next chunk of `TCP::send` is built -/
  | chunk
  /-- `check_retransmit` builds a segment -/
  | resend (i : Slot) (now : UInt64)
  /-- the data segment goes to the device -/
  | handed
  /-- its send ends; the tick count if it was reported -/
  | landed (ok : Option UInt64)
  | cleared (i : Slot)
  | giveUp (i : Slot) (now : UInt64)
  | backoff (i : Slot) (now : UInt64)
  | drain (i : Slot) (len : Nat)

/-- Steps inside a call, or of a poll. -/
def Act.inner : Act → Bool
  | .segment _ _ | .passive _ _ | .answer _ _ | .synAck _ | .control _ _ _ | .sendEnd | .chunk
  | .resend _ _ | .handed | .landed _ | .cleared _ | .giveUp _ _ | .backoff _ _ => true
  | _ => false

instance (c : TcpConnection) (seg : InSeg) : Decidable (Matches c seg) := by
  unfold Matches; infer_instance

/-- The bookkeeping of `send_tcp_segment` behind the segment, if it was reported. -/
def Flight.account (fl : Flight) (s : TcpSys) : Option UInt64 → TcpSys
  | some tick => s.update fl.slot (afterSend fl.seg.flags fl.seg.data tick)
  | none => s

/-- The end of a send, and what `TCP::send` and `check_retransmit` do with its
result. -/
def Fine.land (f : Fine) (fl : Flight) (ok : Option UInt64) : Fine :=
  let s := fl.account f.tcp ok
  match fl.saved with
  | some n => { f with tcp := s.update fl.slot fun c => { c with sndNxt := n }, flight := none }
  | none =>
    { f with
      tcp := if ok.isSome then s.mark fl.slot fun g =>
        { g with accepted := g.accepted ++ fl.seg.data }
        else s
      sending := if ok.isSome then f.sending.map fun p => (p.1, p.2.drop mss) else none
      flight := none }

def Fine.step (f : Fine) : Act → Option Fine
  | .segment i seg =>
    if (f.tcp.conns i).active = true ∧ Matches (f.tcp.conns i) seg then
      some { f with
        tcp := f.tcp.update i fun _ => (onSegment (f.tcp.conns i) seg).1
        arrived := Function.update f.arrived i (f.arrived i ++ [seg]) }
    else none
  | .passive i seg =>
    if (f.tcp.conns i).active = false ∧ has seg.flags tcpSyn = true then
      some { f.fresh i with
        tcp := (f.tcp.update i (passiveConn f.tcp.localIp seg)).mark i fun _ =>
          ⟨.accepted, [], [], []⟩ }
    else none
  | .answer i sg => if sg.data = [] then some { f with tcp := f.tcp.record i sg } else none
  | .synAck i =>
    if (f.tcp.ghost i).phase = .accepted then
      some { f with tcp := f.tcp.update i fun c => { c with sndNxt := c.sndNxt + 1 } }
    else none
  | .openConn =>
    if f.idle then
      match firstFree f.tcp.conns with
      | some i => some { f.fresh i with tcp := (openConn f.tcp).1 }
      | none => some f
    else none
  | .bind i port => if f.idle then some { f with tcp := bind f.tcp i port } else none
  | .listen i port => if f.idle then some { f with tcp := listen f.tcp i port } else none
  | .connectInit i addr port =>
    if f.idle then some { f with tcp := connectInit f.tcp i addr port } else none
  | .control i flags tick => some { f with tcp := f.tcp.update i (afterSend flags [] tick) }
  | .closing i passive =>
    if f.idle ∧ ((f.tcp.conns i).state = .closeWait ∨
        passive = false ∧ (f.tcp.conns i).state = .established) then
      some { f with tcp := f.tcp.update i fun c =>
        { c with state := if passive then .lastAck else .finWait1 } }
    else none
  | .free i =>
    if f.idle then some { f with tcp := f.tcp.update i fun c =>
      { c with active := false, state := .closed } }
    else none
  | .sendBegin i data =>
    if f.idle ∧ (f.tcp.conns i).state = .established then
      some { f with
        sending := some (i, data)
        passed := Function.update f.passed i (f.passed i ++ [data]) }
    else none
  | .sendEnd => if f.flight.isNone then some { f with sending := none } else none
  | .chunk =>
    match f.sending, f.flight with
    | some (i, rest), none =>
      some { f with
        flight := some ⟨i, buildSegment (f.tcp.conns i) (tcpAck ||| tcpPsh) (rest.take mss), none⟩ }
    | _, _ => none
  | .resend i now =>
    if f.flight.isNone ∧ due (f.tcp.conns i) now = true ∧
        (f.tcp.conns i).retransmitCount < maxRetransmits ∧
        0 < (resentData (f.tcp.conns i)).length ∧
        (resentData (f.tcp.conns i)).length ≤ tcpBufSize then
      some { f with
        tcp := f.tcp.update i fun c => { c with sndNxt := c.sndUna }
        flight := some ⟨i, resentSegment (f.tcp.conns i), some (f.tcp.conns i).sndNxt⟩ }
    else none
  | .handed => f.flight.map fun fl => { f with tcp := f.tcp.record fl.slot fl.seg }
  | .landed ok => f.flight.map fun fl => f.land fl ok
  | .cleared i => some { f with tcp := f.tcp.update i fun c => { c with txLen := 0 } }
  | .giveUp i now =>
    if due (f.tcp.conns i) now = true ∧ maxRetransmits ≤ (f.tcp.conns i).retransmitCount then
      some { f with tcp := f.tcp.update i fun c => { c with state := .closed, active := false } }
    else none
  | .backoff i now => some { f with tcp := f.tcp.update i (backoff now) }
  | .drain i len => if f.idle then some { f with tcp := (recvDrain f.tcp i len).1 } else none

/-- Inversion of a guarded step. -/
theorem of_guard {α : Type} {p : Prop} [Decidable p] {x y : α}
    (h : (if p then some x else none) = some y) : p ∧ x = y := by
  obtain ⟨hp, he⟩ := Option.ite_none_right_eq_some.mp h
  exact ⟨hp, Option.some.inj he⟩

/-- A segment goes where `tcp_input` finds it belongs. -/
def Demuxed (f : Fine) : Act → Prop
  | .segment i seg => ∃ l, scan f.tcp.conns seg (List.finRange 16) none = (some i, l)
  | .passive i seg => firstFree f.tcp.conns = some i ∧
      ∃ l, scan f.tcp.conns seg (List.finRange 16) none = (none, some l)
  | _ => True

/-- To decide a condition that is one on the segments taken. -/
@[reducible] def Act.decideTaken {P : Act → Prop} (hseg : ∀ i seg, Decidable (P (.segment i seg)))
    (hpassive : ∀ i seg, Decidable (P (.passive i seg)))
    (hother : ∀ a, (∀ i seg, a ≠ .segment i seg ∧ a ≠ .passive i seg) → P a) : DecidablePred P
  | .segment i seg => hseg i seg
  | .passive i seg => hpassive i seg
  | .answer _ _ | .synAck _ | .openConn | .bind _ _ | .listen _ _ | .connectInit _ _ _
  | .control _ _ _ | .closing _ _ | .free _ | .sendBegin _ _ | .sendEnd | .chunk | .resend _ _
  | .handed | .landed _ | .cleared _ | .giveUp _ _ | .backoff _ _ | .drain _ _ =>
    .isTrue (hother _ fun _ _ => ⟨nofun, nofun⟩)

instance (f : Fine) : DecidablePred (Demuxed f) :=
  Act.decideTaken
    (fun i seg => decidable_of_iff ((scan f.tcp.conns seg (List.finRange 16) none).1 = some i)
      ⟨fun h => ⟨_, Prod.ext h rfl⟩, fun ⟨_, h⟩ => congrArg Prod.fst h⟩)
    (fun i seg => decidable_of_iff (firstFree f.tcp.conns = some i ∧
        (scan f.tcp.conns seg (List.finRange 16) none).1 = none ∧
        (scan f.tcp.conns seg (List.finRange 16) none).2.isSome = true)
      (and_congr_right fun _ =>
        ⟨fun ⟨h, h'⟩ => (Option.isSome_iff_exists.mp h').imp fun _ h' => Prod.ext h h',
         fun ⟨_, h⟩ => ⟨congrArg Prod.fst h, by rw [h]; rfl⟩⟩))
    fun a h => by cases a <;> simp_all [Demuxed]

/-- An inner step that the code takes. -/
def InnerStep (f f' : Fine) : Prop :=
  ∃ act : Act, act.inner = true ∧ Demuxed f act ∧ f.step act = some f'

/-- Inner steps from `f` lead to the table `s`, the rest of a send and the data
segment in hand. -/
def Inner (f : Fine) (s : TcpSys) (sending : Option (Slot × List UInt8)) (flight : Option Flight) :
    Prop :=
  ∃ f', ReflTransGen InnerStep f f' ∧ f'.tcp = s ∧ f'.sending = sending ∧ f'.flight = flight

section
variable {P : InSeg → Prop} {f f' : Fine} {s s' : TcpSys} {i : Slot}
  {snd snd' : Option (Slot × List UInt8)} {fl fl' : Option Flight}

theorem Inner.refl (f : Fine) : Inner f f.tcp f.sending f.flight := ⟨f, .refl, rfl, rfl, rfl⟩

theorem Inner.step (act : Act) (ha : act.inner = true) (hd : Demuxed f act)
    (h : f.step act = some f') : Inner f f'.tcp f'.sending f'.flight :=
  ⟨f', .single ⟨act, ha, hd, h⟩, rfl, rfl, rfl⟩

theorem Inner.trans (h : Inner f s snd fl)
    (h' : ∀ g : Fine, g.tcp = s → g.sending = snd → g.flight = fl → Inner g s' snd' fl') :
    Inner f s' snd' fl' := by
  obtain ⟨g, hg, hs, hsnd, hfl⟩ := h
  obtain ⟨g', hg', h'⟩ := h' g hs hsnd hfl
  exact ⟨g', hg.trans hg', h'⟩

theorem Atom.inner (h : Atom P f.tcp s') : Inner f s' f.sending f.flight := by
  cases h with
  | @segment j seg _ ha hm hscan =>
    exact .step (.segment j seg) rfl hscan (if_pos ⟨ha, hm⟩)
  | @passive j seg _ ha hsyn hfree hscan =>
    exact .step (.passive j seg) rfl ⟨hfree, hscan⟩ (if_pos ⟨ha, hsyn⟩)
  | @record j sg hsg => exact .step (.answer j sg) rfl trivial (if_pos hsg)
  | @synAck j hacc => exact .step (.synAck j) rfl trivial (if_pos hacc)

theorem Quiet.inner (h : Quiet P s s') : ∀ f : Fine, f.tcp = s → Inner f s' f.sending f.flight := by
  induction h with
  | refl => rintro f rfl; exact .refl f
  | tail _ hstep ih =>
    intro f hf
    refine (ih f hf).trans fun g hg hsnd hfl => ?_
    rw [← hsnd, ← hfl]
    rw [← hg] at hstep
    exact hstep.inner

theorem pollSegs_inner (f : Fine) (p : Polled) : Inner f (pollSegs f.tcp p) f.sending f.flight :=
  (pollSegs_quiet (fun _ => True) f.tcp p fun _ _ => trivial).inner f rfl

/-! ## Sends -/

theorem control_inner (f : Fine) (i : Slot) (flags : UInt8) (run : IpRun) :
    Inner f (sendTcpSegment f.tcp i flags [] run).1 f.sending f.flight := by
  obtain ⟨s₁, hq, hres⟩ := sendTcpSegment_cases (fun _ => True) f.tcp i flags [] run
    fun _ _ => trivial
  refine (hq.inner f rfl).trans fun g hg hsnd hfl => ?_
  subst hg
  rw [← hsnd, ← hfl]
  have hdata : (buildSegment (f.tcp.conns i) flags []).data = [] := rfl
  have hans : Inner g (g.tcp.record i (buildSegment (f.tcp.conns i) flags [])) g.sending g.flight :=
    Inner.step (.answer i _) rfl trivial (if_pos hdata)
  rcases hres with e | ⟨-, e⟩ | ⟨-, -, tick, e⟩ <;> rw [e]
  · exact .refl g
  · exact hans
  · refine hans.trans fun g' hg' hsnd' hfl' => ?_
    rw [← hg', ← hsnd', ← hfl']
    exact .step (.control i flags tick) rfl trivial rfl

theorem step_landed {fl : Flight} (h : f.flight = some fl) (ok : Option UInt64) :
    f.step (.landed ok) = some (f.land fl ok) := by
  simp only [Fine.step, h, Option.map_some]

/-- The send of a data segment in hand, up to its result. -/
theorem flight_inner {fl : Flight} {data : List UInt8} (run : IpRun) (hfl : f.flight = some fl)
    (hseg : fl.seg = buildSegment (f.tcp.conns fl.slot) (tcpAck ||| tcpPsh) data) :
    ∃ f' ok, ReflTransGen InnerStep f f' ∧ f'.sending = f.sending ∧ f'.flight = some fl ∧
      (sendTcpSegment f.tcp fl.slot (tcpAck ||| tcpPsh) data run).2 = Option.isSome ok ∧
      (sendTcpSegment f.tcp fl.slot (tcpAck ||| tcpPsh) data run).1 = fl.account f'.tcp ok := by
  obtain ⟨s₁, hq, hres⟩ := sendTcpSegment_cases (fun _ => True) f.tcp fl.slot (tcpAck ||| tcpPsh)
    data run fun _ _ => trivial
  obtain ⟨g, hg, rfl, hsnd, hgfl⟩ := hq.inner f rfl
  rw [hfl] at hgfl
  have hand : g.step .handed = some { g with tcp := g.tcp.record fl.slot fl.seg } := by
    simp only [Fine.step, hgfl, Option.map_some]
  rw [Sends, ← hseg] at hres
  rcases hres with e | ⟨-, e⟩ | ⟨-, -, tick, e⟩ <;> rw [e]
  · exact ⟨g, none, hg, hsnd, hgfl, rfl, rfl⟩
  · exact ⟨_, none, hg.tail ⟨.handed, rfl, trivial, hand⟩, hsnd, hgfl, rfl, rfl⟩
  · refine ⟨_, some tick, hg.tail ⟨.handed, rfl, trivial, hand⟩, hsnd, hgfl, rfl, ?_⟩
    rw [Flight.account, hseg]
    rfl

theorem chunk_inner {rest : List UInt8} (hsnd : f.sending = some (i, rest)) (hfl : f.flight = none)
    (run : IpRun) : Inner f (sendChunk f.tcp i (rest.take mss) run).1
      (if (sendChunk f.tcp i (rest.take mss) run).2 then some (i, rest.drop mss) else none) none := by
  have hb : f.step .chunk = some { f with flight := some ⟨i, buildSegment (f.tcp.conns i)
      (tcpAck ||| tcpPsh) (rest.take mss), none⟩ } := by
    simp only [Fine.step, hsnd, hfl]
  refine (Inner.step .chunk rfl trivial hb).trans fun g hg hgs hgf => ?_
  have hseg : buildSegment (f.tcp.conns i) (tcpAck ||| tcpPsh) (rest.take mss) =
      buildSegment (g.tcp.conns i) (tcpAck ||| tcpPsh) (rest.take mss) := by rw [hg]
  obtain ⟨g', ok, hsteps, hs', hf', hok, hres⟩ := flight_inner run hgf hseg
  rw [hg] at hok hres
  refine ⟨_, hsteps.tail ⟨.landed ok, rfl, trivial, step_landed hf' ok⟩, ?_⟩
  unfold sendChunk Fine.land
  dsimp only
  rw [hok, hres]
  cases ok with
  | none => exact ⟨rfl, rfl, rfl⟩
  | some tick =>
    refine ⟨rfl, ?_, rfl⟩
    simp [hs', hgs, hsnd]

theorem resentData_length (c : TcpConnection) :
    (resentData c).length = (c.txLen - ackedLen c).toNat := by
  simp [resentData]

theorem resend_inner {now : UInt64} (hfl : f.flight = none) (hdue : due (f.tcp.conns i) now = true)
    (hcount : (f.tcp.conns i).retransmitCount < maxRetransmits) (run : IpRun) :
    Inner f (resend f.tcp i run) f.sending none := by
  unfold resend
  dsimp only
  split
  · rename_i hr
    have hlen := resentData_length (f.tcp.conns i)
    have hpos : 0 < (resentData (f.tcp.conns i)).length := by
      rw [hlen]
      exact UInt32.lt_iff_toNat_lt.mp hr.1
    have hb : f.step (.resend i now) = some { f with
        tcp := f.tcp.update i fun c => { c with sndNxt := c.sndUna }
        flight := some ⟨i, resentSegment (f.tcp.conns i), some (f.tcp.conns i).sndNxt⟩ } :=
      if_pos ⟨by simp [hfl], hdue, hcount, hpos, hlen ▸ hr.2⟩
    refine (Inner.step (.resend i now) rfl trivial hb).trans fun g hg hgs hgf => ?_
    have hseg : resentSegment (f.tcp.conns i) =
        buildSegment (g.tcp.conns i) (tcpAck ||| tcpPsh) (resentData (f.tcp.conns i)) := by
      rw [hg]
      simp [resentSegment]
    obtain ⟨g', ok, hsteps, hs', hf', hok, hres⟩ := flight_inner run hgf hseg
    rw [hg] at hres
    refine ⟨_, hsteps.tail ⟨.landed ok, rfl, trivial, step_landed hf' ok⟩, ?_⟩
    unfold resentData at hres
    rw [hres]
    cases ok with
    | none => exact ⟨rfl, hs'.trans hgs, rfl⟩
    | some tick => exact ⟨rfl, hs'.trans hgs, rfl⟩
  · rw [← hfl]
    exact .refl f

theorem retransmitOne_inner (hfl : f.flight = none) (i : Slot) (now : UInt64) (run : IpRun) :
    Inner f (retransmitOne f.tcp i now run) f.sending none := by
  rcases retransmitOne_cases f.tcp i now run with
    e | ⟨-, -, -, e⟩ | ⟨hdue, ⟨hmax, e⟩ | ⟨hcount, e⟩⟩ <;> rw [e]
  · exact hfl ▸ .refl f
  · exact hfl ▸ Inner.step (f := f) (.cleared i) rfl trivial rfl
  · exact hfl ▸ Inner.step (f := f) (.giveUp i now) rfl trivial (if_pos ⟨hdue, hmax⟩)
  · refine (resend_inner hfl hdue hcount run).trans fun g hg hgs hgf => ?_
    rw [← hg, ← hgs, ← hgf]
    exact .step (.backoff i now) rfl trivial rfl

theorem checkRetransmit_inner (hfl : f.flight = none) (now : UInt64) (runs : Slot → IpRun) :
    Inner f (checkRetransmit f.tcp now runs) f.sending none := by
  unfold checkRetransmit
  generalize List.finRange 16 = is
  induction is generalizing f with
  | nil => exact hfl ▸ .refl f
  | cons i is ih =>
    refine (retransmitOne_inner hfl i now (runs i)).trans fun g hg hgs hgf => ?_
    rw [List.foldl_cons, ← hg, ← hgs]
    exact ih hgf

/-! ## Waits and loops -/

theorem round_inner (hfl : f.flight = none) (r : Round) :
    Inner f (checkRetransmit (pollSegs f.tcp r.polled) r.now r.runs) f.sending none := by
  refine (pollSegs_inner f r.polled).trans fun g hg hgs hgf => ?_
  rw [← hg, ← hgs]
  exact checkRetransmit_inner (hgf.trans hfl) r.now r.runs

theorem rounds_inner (hfl : f.flight = none) (rs : List Round) :
    Inner f (rounds f.tcp rs) f.sending none := by
  unfold rounds
  induction rs generalizing f with
  | nil => exact hfl ▸ .refl f
  | cons r rs ih =>
    refine (round_inner hfl r).trans fun g hg hgs hgf => ?_
    rw [List.foldl_cons, ← hg, ← hgs]
    exact ih hgf

theorem connectWait_inner (f : Fine) (i : Slot) (polls : List Polled) :
    Inner f (connectWait f.tcp i polls).1 f.sending f.flight := by
  induction polls generalizing f with
  | nil => exact .refl f
  | cons p ps ih =>
    refine (pollSegs_inner f p).trans fun g hg hgs hgf => ?_
    rw [← hgs, ← hgf]
    simp only [connectWait, ← hg]
    split
    · exact .refl g
    · split
      · exact .refl g
      · exact ih g

theorem recvWait_inner (hfl : f.flight = none) (i : Slot) (rs : List Round) :
    Inner f (recvWait i f.tcp rs).1 f.sending none := by
  induction rs generalizing f with
  | nil => exact hfl ▸ .refl f
  | cons r rs ih =>
    simp only [recvWait]
    split
    · refine (round_inner hfl r).trans fun g hg hgs hgf => ?_
      simp only [← hg, ← hgs]
      split
      · exact hgf ▸ .refl g
      · exact ih hgf
    · exact hfl ▸ .refl f

theorem drop_take_length (l : List UInt8) (n : Nat) : l.drop (l.take n).length = l.drop n := by
  rw [List.length_take]
  rcases Nat.le_total n l.length with h | h
  · rw [Nat.min_eq_left h]
  · rw [Nat.min_eq_right h, List.drop_length, List.drop_eq_nil_of_le h]

/-- The loop of `TCP::send` on what is still to be sent. -/
theorem sendLoop_inner {data : List UInt8} {sent : Nat} (hfl : f.flight = none)
    (hsnd : f.sending = some (i, data.drop sent)) (env : List (IpRun × List Round)) :
    Inner f (sendLoop i data f.tcp sent env).1 none none := by
  have hend : ∀ g : Fine, g.flight = none → Inner g g.tcp none none := fun g hg => by
    have := Inner.step (f := g) .sendEnd rfl trivial (if_pos (by simp [hg]))
    rwa [hg] at this
  induction env generalizing f sent with
  | nil => exact hend f hfl
  | cons e env ih =>
    obtain ⟨run, rs⟩ := e
    simp only [sendLoop]
    split
    · have hchunk := chunk_inner hsnd hfl run
      split
      · rename_i hok
        rw [if_pos hok] at hchunk
        refine hchunk.trans fun g hg hgs hgf => ?_
        rw [← hg]
        refine (rounds_inner hgf rs).trans fun g' hg' hgs' hgf' => ?_
        rw [← hg']
        refine ih hgf' ?_
        rw [hgs', hgs, ← List.drop_drop, drop_take_length]
      · rename_i hok
        rw [if_neg hok] at hchunk
        exact hchunk
    · exact hend f hfl

end

end HackersOs.L3.Tcp

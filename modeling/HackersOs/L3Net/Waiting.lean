import HackersOs.Core.LTS
import HackersOs.L3Net.DhcpLease
import HackersOs.L3Net.Dns

/-!
# Waiting for a reply

`receive_dhcp` and `DNS::resolve` wait with the same loop: check the time, poll,
take one frame from the ring, look at it. Frames arrive between any two steps.
The poll hands every frame in the ring to the stack, so the loop sees a reply
only if it is the first frame to arrive between the poll's last look at the ring
and the loop's own (`returned_iff_caught`); any other reply is lost, however much
time is left. `replies_lost` has such a run for each of the two.
-/
namespace HackersOs.L3.Wait
open HackersOs.Core Net Dhcp Dns

/-- The part of a waiting loop that differs. -/
structure Waiter (β : Type) where
  /-- the checks on the buffer with a frame of the given length, and the result -/
  accept : Frame → Nat → Option β
  /-- a frame that fails them is handed to the stack -/
  forwards : Frame → Nat → Bool
  /-- ticks until an attempt is given up -/
  timeout : UInt64
  attempts : Nat
  /-- an attempt starts with a send -/
  sends : Bool

/-- The loop of `receive_dhcp`. mirrors src/net/dhcp.cpp:119-154 -/
def dhcpWaiter (expectedType : UInt8) (xid : UInt32) (timeout : UInt64) : Waiter Packet where
  accept := dhcpAccept expectedType xid
  forwards _ _ := false
  timeout := timeout
  attempts := 1
  sends := false

/-- The loop of `DNS::resolve`. mirrors src/net/dns.cpp:102-171 -/
def dnsWaiter (txid : UInt16) : Waiter UInt32 where
  accept := dnsAccept txid
  forwards := dnsForwards
  timeout := 300
  attempts := 3
  sends := true

/-! ## Steps -/

inductive Pc (β : Type) where
  /-- in `send_ip`, which may poll while it resolves the next hop -/
  | sending
  | check
  | poll
  | receiving
  /-- in `net_handle_packet` with a frame of the loop's own -/
  | forwarding
  | returned (r : β)
  | failed

structure WaitState (β : Type) where
  pc : Pc β
  attempt : Nat
  now : UInt64
  start : UInt64
  /-- the used RX entries not taken yet: what stands behind the device's header -/
  ring : List (List UInt8)
  buf : Frame

/-- `VirtioNet::receive`: the frame, and the ring without it. An entry with nothing
behind the header is taken but not returned. mirrors src/net/virtio_net.cpp:201-235 -/
def receive (size : Nat) : List (List UInt8) → Option (List UInt8) × List (List UInt8)
  | [] => (none, [])
  | [] :: rest => (none, rest)
  | frame :: rest => (some (frame.take size), rest)

inductive Event where
  | arrive (frame : List UInt8)
  | tick
  /-- a poll inside the handling of a frame, or inside a send, takes an entry -/
  | nested
  | sent
  /-- the time is not up -/
  | enter
  | expire
  /-- the poll looks at the ring -/
  | polled
  /-- the loop takes a frame -/
  | take
  | forwarded

variable {β : Type}

/-- The loop looks at the frame it has taken. -/
def Waiter.look (W : Waiter β) (buf : Frame) (len : Nat) : Pc β :=
  match W.accept buf len with
  | some r => .returned r
  | none => if W.forwards buf len then .forwarding else .check

def Waiter.step (W : Waiter β) (s : WaitState β) : Event → Option (WaitState β)
  | .arrive frame => if frame ≠ [] then some { s with ring := s.ring ++ [frame] } else none
  | .tick => some { s with now := s.now + 1 }
  | .nested =>
    match s.pc with
    | .sending | .poll | .forwarding => some { s with ring := (receive Tcp.maxPacket s.ring).2 }
    | _ => none
  | .sent =>
    match s.pc with
    | .sending => some { s with pc := .check, start := s.now }
    | _ => none
  | .enter =>
    match s.pc with
    | .check => if s.now - s.start < W.timeout then some { s with pc := .poll } else none
    | _ => none
  | .expire =>
    match s.pc with
    | .check =>
      if s.now - s.start < W.timeout then none
      else if s.attempt + 1 < W.attempts then some { s with pc := .sending, attempt := s.attempt + 1 }
      else some { s with pc := .failed }
    | _ => none
  | .polled =>
    match s.pc with
    | .poll =>
      let r := receive Tcp.maxPacket s.ring
      some { s with pc := if r.1.isSome then .poll else .receiving, ring := r.2 }
    | _ => none
  | .take =>
    match s.pc with
    | .receiving =>
      match receive 1500 s.ring with
      | (none, rest) => some { s with pc := .check, ring := rest }
      | (some frame, rest) =>
        let buf := Tcp.copyIn s.buf frame
        some { s with pc := W.look buf frame.length, ring := rest, buf := buf }
    | _ => none
  | .forwarded =>
    match s.pc with
    | .forwarding => some { s with pc := .check }
    | _ => none

/-- The loop starts, with whatever frames the ring has. -/
def waitLTS (W : Waiter β) : LTS (WaitState β) Event where
  init s := s.pc = (if W.sends then .sending else .check) ∧ s.attempt = 0 ∧ s.start = s.now ∧
    ∀ frame ∈ s.ring, frame ≠ []
  step s e s' := W.step s e = some s'

/-! ## Replies -/

/-- The checks pass on a frame, whatever the buffer has. -/
def Waiter.Acceptable (W : Waiter β) (frame : List UInt8) : Prop :=
  ∀ buf, (W.accept (received buf frame) (receivedLen frame)).isSome

/-- An acceptable frame arrives, and the loop goes round once more behind it. -/
def Waiter.InTime (W : Waiter β) (es : List Event) : Prop :=
  ∃ before frame wait round after, W.Acceptable frame ∧
    es = before ++ .arrive frame :: wait ++ .enter :: round ++ .take :: after

/-- The frame arrives in an empty ring just before the loop takes a frame. -/
def Waiter.catches (W : Waiter β) (s : WaitState β) : Event → Prop
  | .arrive frame => s.pc = .receiving ∧ s.ring = [] ∧
      (W.accept (received s.buf frame) (receivedLen frame)).isSome
  | _ => False

/-- That happens somewhere along the run. -/
def Waiter.Caught (W : Waiter β) : WaitState β → List Event → Prop
  | _, [] => False
  | s, e :: es => W.catches s e ∨ ∃ s', W.step s e = some s' ∧ W.Caught s' es

/-- The call has its reply, or takes it in its next step. -/
def Waiter.Good (W : Waiter β) (s : WaitState β) : Prop :=
  (∃ r, s.pc = .returned r) ∨ s.pc = .receiving ∧ ∃ frame rest, s.ring = frame :: rest ∧
    (W.accept (received s.buf frame) (receivedLen frame)).isSome

section
variable {W : Waiter β} {s s' : WaitState β} {e : Event} {es : List Event}

theorem receive_cons {frame : List UInt8} (h : frame ≠ []) (size : Nat) (rest : List (List UInt8)) :
    receive size (frame :: rest) = (some (frame.take size), rest) := by
  cases frame with
  | nil => exact absurd rfl h
  | cons b bs => rfl

theorem receive_subset (size : Nat) (ring : List (List UInt8)) : (receive size ring).2 ⊆ ring := by
  match ring with
  | [] => exact List.Subset.refl _
  | [] :: rest => exact List.subset_cons_self _ _
  | (_ :: _) :: rest => exact List.subset_cons_self _ _

/-- What a step can do, as far as replies are concerned. -/
inductive Move (W : Waiter β) (s : WaitState β) : Event → WaitState β → Prop where
  | arrive {frame : List UInt8} : frame ≠ [] →
      Move W s (.arrive frame) { s with ring := s.ring ++ [frame] }
  | tick : Move W s .tick { s with now := s.now + 1 }
  /-- neither before nor after it the loop has a frame -/
  | away {e : Event} {s' : WaitState β} : (∀ frame, e ≠ .arrive frame) → s.pc ≠ .receiving →
      (∀ r, s.pc ≠ .returned r) → (∀ r, s'.pc ≠ .returned r) → s'.ring ⊆ s.ring →
      (s'.pc = .receiving → (receive Tcp.maxPacket s.ring).1.isSome = false) → Move W s e s'
  | take : s.pc = .receiving → s.ring = [] → Move W s .take { s with pc := .check }
  | look {frame : List UInt8} {rest : List (List UInt8)} :
      s.pc = .receiving → s.ring = frame :: rest →
      Move W s .take { s with
        pc := W.look (received s.buf frame) (receivedLen frame)
        ring := rest
        buf := received s.buf frame }

theorem step_move (h : ∀ frame ∈ s.ring, frame ≠ []) (hstep : W.step s e = some s') :
    Move W s e s' := by
  cases e with
  | arrive frame =>
    obtain ⟨hf, hs⟩ := Option.ite_none_right_eq_some.mp hstep
    obtain rfl := Option.some.inj hs
    exact .arrive hf
  | tick =>
    obtain rfl := Option.some.inj hstep
    exact .tick
  | nested =>
    simp only [Waiter.step] at hstep
    cases hpc : s.pc <;> simp only [hpc, reduceCtorEq, Option.some.injEq] at hstep <;> subst hstep <;>
      exact .away nofun (by simp [hpc]) (by simp [hpc]) nofun (receive_subset _ _) nofun
  | sent | forwarded =>
    simp only [Waiter.step] at hstep
    cases hpc : s.pc <;> simp only [hpc, reduceCtorEq, Option.some.injEq] at hstep
    subst hstep
    exact .away nofun (by simp [hpc]) (by simp [hpc]) nofun (List.Subset.refl _) nofun
  | enter =>
    simp only [Waiter.step] at hstep
    cases hpc : s.pc <;> simp only [hpc, reduceCtorEq] at hstep
    obtain ⟨-, hs⟩ := Option.ite_none_right_eq_some.mp hstep
    obtain rfl := Option.some.inj hs
    exact .away nofun (by simp [hpc]) (by simp [hpc]) nofun (List.Subset.refl _) nofun
  | expire =>
    simp only [Waiter.step] at hstep
    cases hpc : s.pc <;> simp only [hpc, reduceCtorEq] at hstep
    obtain ⟨-, hstep⟩ := Option.ite_none_left_eq_some.mp hstep
    split at hstep <;> obtain rfl := Option.some.inj hstep <;>
      exact .away nofun (by simp [hpc]) (by simp [hpc]) nofun (List.Subset.refl _) nofun
  | polled =>
    simp only [Waiter.step] at hstep
    cases hpc : s.pc <;> simp only [hpc, reduceCtorEq, Option.some.injEq] at hstep
    subst hstep
    refine .away nofun (by simp [hpc]) (by simp [hpc]) (fun r => ?_) (receive_subset _ _) fun hr => ?_
    · split <;> simp
    · split at hr
      · cases hr
      · rename_i hno
        exact Bool.eq_false_iff.mpr hno
  | take =>
    simp only [Waiter.step] at hstep
    cases hpc : s.pc <;> simp only [hpc, reduceCtorEq] at hstep
    cases hring : s.ring with
    | nil =>
      rw [hring] at hstep
      obtain rfl := Option.some.inj hstep
      have hmove := Move.take (W := W) hpc hring
      rwa [← hring]
    | cons frame rest =>
      rw [hring, receive_cons (h frame (hring ▸ List.mem_cons_self))] at hstep
      obtain rfl := Option.some.inj hstep
      exact .look hpc hring

/-- Frames stay frames. -/
theorem Move.ring (hm : Move W s e s') (h : ∀ frame ∈ s.ring, frame ≠ []) :
    ∀ frame ∈ s'.ring, frame ≠ [] := by
  intro frame hf
  cases hm with
  | arrive hne =>
    rcases List.mem_append.mp hf with hf | hf
    · exact h frame hf
    · rwa [List.mem_singleton.mp hf]
  | tick => exact h frame hf
  | away _ _ _ _ hsub => exact h frame (hsub hf)
  | take => exact h frame hf
  | look _ hring => exact h frame (hring ▸ List.mem_cons_of_mem _ hf)

/-- The poll ends when the ring is empty. -/
theorem receive_none {size : Nat} {ring : List (List UInt8)} (h : ∀ frame ∈ ring, frame ≠ [])
    (hr : (receive size ring).1.isSome = false) : ring = [] := by
  cases ring with
  | nil => rfl
  | cons frame rest =>
    rw [receive_cons (h frame List.mem_cons_self)] at hr
    cases hr

theorem look_returned (W : Waiter β) (buf : Frame) (len : Nat) :
    (∃ r, W.look buf len = .returned r) ↔ (W.accept buf len).isSome := by
  unfold Waiter.look
  split
  · rename_i r hr
    simp [hr]
  · rename_i hr
    rw [hr]
    split <;> simp

theorem look_ne_receiving (W : Waiter β) (buf : Frame) (len : Nat) : W.look buf len ≠ .receiving := by
  unfold Waiter.look
  split
  · simp
  · split <;> simp

/-- A step makes the outcome good exactly when it catches a reply. -/
theorem Move.good (hm : Move W s e s') (h : ∀ frame ∈ s.ring, frame ≠ []) :
    W.Good s' ↔ W.Good s ∨ W.catches s e := by
  cases hm with
  | @arrive frame hne =>
    simp only [Waiter.Good, Waiter.catches]
    cases hring : s.ring with
    | nil => simp
    | cons f rest => simp
  | tick => simp [Waiter.Good, Waiter.catches]
  | away he hs hr hr' hsub hrecv =>
    have hcatch : ¬ W.catches s e := by
      cases e with
      | arrive frame => exact absurd rfl (he frame)
      | _ => exact id
    have hgood : ¬ W.Good s := by
      rintro (⟨r, hret⟩ | ⟨hret, -⟩)
      · exact hr r hret
      · exact hs hret
    have hgood' : ¬ W.Good s' := by
      rintro (⟨r, hret⟩ | ⟨hret, frame, rest, hring, -⟩)
      · exact hr' r hret
      · have hempty := receive_none h (hrecv hret)
        have : frame ∈ s.ring := hsub (hring ▸ List.mem_cons_self)
        rw [hempty] at this
        cases this
    simp [hcatch, hgood, hgood']
  | take hpc hring => simp [Waiter.Good, Waiter.catches, hpc, hring]
  | look hpc hring => simp [Waiter.Good, Waiter.catches, hpc, hring, look_returned, look_ne_receiving]

theorem run_good (h : ∀ frame ∈ s.ring, frame ≠ []) (hrun : (waitLTS W).Run s es s') :
    W.Good s' ↔ W.Good s ∨ W.Caught s es := by
  induction hrun with
  | nil s => simp [Waiter.Caught]
  | @cons s s₁ s₂ e es hstep _ ih =>
    have hmove := step_move h hstep
    rw [ih (hmove.ring h), hmove.good h, or_assoc]
    refine or_congr Iff.rfl (or_congr Iff.rfl ⟨fun hc => ⟨s₁, hstep, hc⟩, ?_⟩)
    rintro ⟨s₃, hs₃, hc⟩
    rwa [Option.some.inj (hstep.symm.trans hs₃)]

end

/-- The loop has ended. -/
def Finished (s : WaitState β) : Prop := (∃ r, s.pc = .returned r) ∨ s.pc = .failed

/-- A reply that comes in time is returned, or an earlier one. -/
def Waiter.NoReplyLost (W : Waiter β) (es : List Event) (s' : WaitState β) : Prop :=
  W.InTime es → ∃ r, s'.pc = .returned r

theorem returned_iff_caught {W : Waiter β} {s s' : WaitState β} {es : List Event}
    (hs : (waitLTS W).init s) (hrun : (waitLTS W).Run s es s') (hend : Finished s') :
    (∃ r, s'.pc = .returned r) ↔ W.Caught s es := by
  obtain ⟨hpc, -, -, hring⟩ := hs
  have hgood := run_good hring hrun
  have hstart : ¬ W.Good s := by
    rintro (⟨r, hr⟩ | ⟨hr, -⟩) <;> rw [hr] at hpc <;> split at hpc <;> cases hpc
  have hlast : W.Good s' ↔ ∃ r, s'.pc = .returned r := by
    refine ⟨fun hg => ?_, .inl⟩
    rcases hg with hg | ⟨hg, -⟩
    · exact hg
    · rcases hend with he | he
      · exact he
      · rw [hg] at he
        cases he
  rw [← hlast, hgood]
  simp [hstart]

theorem no_reply_lost_iff (expectedType : UInt8) (xid : UInt32) (timeout : UInt64) (txid : UInt16) :
    (∀ (s s' : WaitState Packet) (es : List Event),
      (waitLTS (dhcpWaiter expectedType xid timeout)).init s →
      (waitLTS (dhcpWaiter expectedType xid timeout)).Run s es s' → Finished s' →
      ((dhcpWaiter expectedType xid timeout).NoReplyLost es s' ↔
        ((dhcpWaiter expectedType xid timeout).InTime es →
          (dhcpWaiter expectedType xid timeout).Caught s es))) ∧
    ∀ (s s' : WaitState UInt32) (es : List Event), (waitLTS (dnsWaiter txid)).init s →
      (waitLTS (dnsWaiter txid)).Run s es s' → Finished s' →
      ((dnsWaiter txid).NoReplyLost es s' ↔
        ((dnsWaiter txid).InTime es → (dnsWaiter txid).Caught s es)) :=
  ⟨fun _ _ _ hs hrun hend => imp_congr_right fun _ => returned_iff_caught hs hrun hend,
    fun _ _ _ hs hrun hend => imp_congr_right fun _ => returned_iff_caught hs hrun hend⟩

/-! ## A reply that the poll takes -/

def Waiter.run (W : Waiter β) (s : WaitState β) : List Event → Option (WaitState β)
  | [] => some s
  | e :: es => (W.step s e).bind fun s' => W.run s' es

theorem run_run {W : Waiter β} {s s' : WaitState β} {es : List Event} (h : W.run s es = some s') :
    (waitLTS W).Run s es s' := by
  induction es generalizing s with
  | nil =>
    obtain rfl := Option.some.inj h
    exact .nil s
  | cons e es ih =>
    obtain ⟨s₁, hs₁, hrest⟩ := Option.bind_eq_some_iff.mp h
    exact .cons hs₁ (ih hrest)

def Pc.isFailed : Pc β → Bool
  | .failed => true
  | _ => false

theorem Pc.eq_failed {pc : Pc β} (h : pc.isFailed = true) : pc = .failed := by
  cases pc <;> first | rfl | cases h

def Pc.isReturned : Pc β → Bool
  | .returned _ => true
  | _ => false

theorem Pc.eq_returned {pc : Pc β} (h : pc.isReturned = true) : ∃ r, pc = .returned r := by
  cases pc with
  | returned r => exact ⟨r, rfl⟩
  | _ => cases h

/-- The loop starts at tick 0 with an empty ring. -/
def Waiter.begin (W : Waiter β) : WaitState β where
  pc := if W.sends then .sending else .check
  attempt := 0
  now := 0
  start := 0
  ring := []
  buf := fun _ => 0

theorem begin_init (W : Waiter β) : (waitLTS W).init W.begin := ⟨rfl, rfl, rfl, nofun⟩

/-- An OFFER for the first transaction. -/
def offerFrame : List UInt8 := replyFrame macServer ipServer dhcpOffer bootXid ipA macA

/-- The OFFER comes first in an iteration; the poll takes it, and time runs out. -/
def offerLost : List Event :=
  ([.arrive offerFrame, .enter, .polled, .polled, .take] : List Event) ++
    List.replicate 500 Event.tick ++ [Event.expire]

/-- The answer 93.184.216.34 to a query for the root name, transaction 1. -/
def answerFrame : List UInt8 :=
  ipFrame lan 0x0302000A 0x0F02000A 17 (Socket.udpPacket 53 10054
    (be16Bytes 1 ++ be16Bytes 0x8180 ++ be16Bytes 1 ++ be16Bytes 1 ++ be16Bytes 0 ++ be16Bytes 0 ++
      [0] ++ be16Bytes 1 ++ be16Bytes 1 ++
      [0xC0, 0x0C] ++ be16Bytes 1 ++ be16Bytes 1 ++ be32Bytes 300 ++ be16Bytes 4 ++
        addrBytes 0x22D8B85D))

/-- The same in the first of three attempts. -/
def answerLost : List Event :=
  ([.sent, .arrive answerFrame, .enter, .polled, .polled, .take] : List Event) ++
    List.replicate 300 Event.tick ++ [Event.expire, Event.sent] ++ List.replicate 300 Event.tick ++
    [Event.expire, Event.sent] ++ List.replicate 300 Event.tick ++ [Event.expire]

theorem offer_acceptable (timeout : UInt64) :
    (dhcpWaiter dhcpOffer bootXid timeout).Acceptable offerFrame := by
  intro buf
  obtain ⟨p, hp, -⟩ := dhcpAccept_reply buf macServer macA ipServer bootXid ipA dhcpOffer
  simp only [dhcpWaiter, offerFrame, hp, Option.isSome_some]

theorem answer_acceptable : (dnsWaiter 1).Acceptable answerFrame := by
  intro buf
  have hlen : answerFrame.length = 75 := by decide +kernel
  have hrec : receivedLen answerFrame = 75 := by rw [receivedLen, List.length_take, hlen]; rfl
  have hf := received_holds buf (hlen.le.trans (by decide))
  generalize received buf answerFrame = f at hf ⊢
  obtain ⟨-, -, -, hproto, -, hudp⟩ := ipFrame_fields hf
  obtain ⟨hport, -, -, hmsg⟩ := udpPacket_fields hudp (by simp)
  simp only [holds_append, holds_cons, List.length_append, length_be16Bytes, length_be32Bytes,
    List.length_cons, List.length_nil, Nat.reduceAdd, and_assoc] at hmsg
  obtain ⟨hid, hflags, hqd, han, -, -, hroot, -, -, -, hptr, -, -, htype, -, -, hrd, -⟩ := hmsg
  have hname : skipName f 54 75 = 55 := skipName_root (by decide) hroot
  have howner : skipName f 59 75 = 61 := skipName_pointer (by decide) (by rw [hptr]; decide)
  have hresponse : ¬ (0x8180 : UInt16) &&& 0x8000 = 0 := by decide
  have hnoError : (0x8180 : UInt16) &&& 0x000F = 0 := by decide
  simp [dnsWaiter, hrec, dnsAccept, hproto, hport, hresponse, hnoError, be16At_holds hid,
    be16At_holds hflags, be16At_holds hqd,
    be16At_holds han, skipQuestions, hname, findAnswer, howner, be16At_holds htype, be16At_holds hrd]

/-- **Counterexample.** In each loop an acceptable reply arrives, a whole iteration
follows, and the call fails. -/
theorem replies_lost :
    (∃ s', (waitLTS (dhcpWaiter dhcpOffer bootXid 500)).Run
      (dhcpWaiter dhcpOffer bootXid 500).begin offerLost s' ∧
      (dhcpWaiter dhcpOffer bootXid 500).InTime offerLost ∧ s'.pc = .failed) ∧
    ∃ s', (waitLTS (dnsWaiter 1)).Run (dnsWaiter 1).begin answerLost s' ∧
      (dnsWaiter 1).InTime answerLost ∧ s'.pc = .failed := by
  have hdhcp : (((dhcpWaiter dhcpOffer bootXid 500).run
      (dhcpWaiter dhcpOffer bootXid 500).begin offerLost).map
      fun s => s.pc.isFailed) = some true := by decide +kernel
  have hdns : (((dnsWaiter 1).run (dnsWaiter 1).begin answerLost).map fun s => s.pc.isFailed) =
      some true := by
    decide +kernel
  obtain ⟨s, hs, hpc⟩ := Option.map_eq_some_iff.mp hdhcp
  obtain ⟨t, ht, hpc'⟩ := Option.map_eq_some_iff.mp hdns
  refine ⟨⟨s, run_run hs, ⟨[], offerFrame, [], [.polled, .polled], _, offer_acceptable 500, rfl⟩,
    Pc.eq_failed hpc⟩,
    ⟨t, run_run ht, ⟨[.sent], answerFrame, [], [.polled, .polled], _, answer_acceptable, rfl⟩,
      Pc.eq_failed hpc'⟩⟩

/-- The server repeats the OFFER, and the second one comes behind the poll. -/
def offerCaught : List Event :=
  [.arrive offerFrame, .enter, .polled, .polled, .arrive offerFrame, .take]

theorem offer_caught : ∃ s' r, (waitLTS (dhcpWaiter dhcpOffer bootXid 500)).Run
      (dhcpWaiter dhcpOffer bootXid 500).begin offerCaught s' ∧ s'.pc = .returned r ∧
    (dhcpWaiter dhcpOffer bootXid 500).InTime offerCaught ∧
    (dhcpWaiter dhcpOffer bootXid 500).Caught
      (dhcpWaiter dhcpOffer bootXid 500).begin offerCaught := by
  have h : (((dhcpWaiter dhcpOffer bootXid 500).run
      (dhcpWaiter dhcpOffer bootXid 500).begin offerCaught).map
      fun s => s.pc.isReturned) = some true := by decide +kernel
  obtain ⟨s', hs', hpc⟩ := Option.map_eq_some_iff.mp h
  obtain ⟨r, hr⟩ := Pc.eq_returned hpc
  have htime : (dhcpWaiter dhcpOffer bootXid 500).InTime offerCaught :=
    ⟨[], offerFrame, [], [.polled, .polled, .arrive offerFrame], [], offer_acceptable 500, rfl⟩
  have hiff := (no_reply_lost_iff dhcpOffer bootXid 500 1).1 _ s' offerCaught (begin_init _)
    (run_run hs')
    (.inl ⟨r, hr⟩)
  exact ⟨s', r, run_run hs', hr, htime, hiff.mp (fun _ => ⟨r, hr⟩) htime⟩

end HackersOs.L3.Wait

import HackersOs.L3Net.Waiting

/-!
# Other frames while a query waits

Behind each poll `DNS::resolve` takes one frame from the ring itself. It may be any
frame, and the loop is then the only one to have it: what it does not hand on is
lost to ARP, TCP and the sockets. The steps are those of `Waiting`, with a log of
the frames the loop has taken and of its calls of `net_handle_packet`.

The loop hands on a frame only if it is long enough to be an answer and is not UDP,
and its buffer is 18 bytes shorter than that of the poll (`dns_passes_frames_iff`).
-/
namespace HackersOs.L3.Wait
open HackersOs.Core Net Dhcp Dns

/-- A frame that the loop has taken. -/
structure Taken where
  /-- the buffer before it -/
  buf : Frame
  frame : List UInt8
  /-- the call of `net_handle_packet` -/
  call : Option (Frame × Nat)

/-- The stack gets the frame as it came. -/
def Taken.Passed (t : Taken) : Prop := ∃ f, t.call = some (f, t.frame.length) ∧ Holds f 0 t.frame

variable {β : Type}

def WaitState.call (s : WaitState β) (len : Nat) : Option (Frame × Nat) :=
  match s.pc with
  | .forwarding => some (s.buf, len)
  | _ => none

/-- What a step from `s` to `s'` adds to the log. -/
def logged (s : WaitState β) (e : Event) (s' : WaitState β) : List Taken :=
  match e, s.pc, s.ring with
  | .take, .receiving, frame :: _ => [⟨s.buf, frame, s'.call (receivedLen frame)⟩]
  | _, _, _ => []

def Waiter.stepLogged (W : Waiter β) (x : WaitState β × List Taken) (e : Event) :
    Option (WaitState β × List Taken) :=
  (W.step x.1 e).map fun s' => (s', x.2 ++ logged x.1 e s')

def loggedLTS (W : Waiter β) : LTS (WaitState β × List Taken) Event where
  init x := (waitLTS W).init x.1 ∧ x.2 = []
  step x e x' := W.stepLogged x e = some x'

/-- The checks pass on the frame. -/
def Waiter.Accepts (W : Waiter β) (t : Taken) : Prop :=
  (W.accept (received t.buf t.frame) (receivedLen t.frame)).isSome

section
variable {W : Waiter β} {s s' : WaitState β} {e : Event} {t : Taken}

/-- What a log entry says about its frame. -/
def Waiter.Recorded (W : Waiter β) (t : Taken) : Prop :=
  (W.Accepts t ∧ t.call = none) ∨ ¬ W.Accepts t ∧
    t.call = if W.forwards (received t.buf t.frame) (receivedLen t.frame)
      then some (received t.buf t.frame, receivedLen t.frame) else none

theorem call_look (s : WaitState β) (buf : Frame) (frame : List UInt8) (rest : List (List UInt8)) :
    W.Recorded ⟨buf, frame, WaitState.call { s with
      pc := W.look (received buf frame) (receivedLen frame)
      ring := rest
      buf := received buf frame } (receivedLen frame)⟩ := by
  unfold Waiter.Recorded Waiter.Accepts WaitState.call Waiter.look
  cases W.accept (received buf frame) (receivedLen frame) with
  | some r => exact .inl ⟨rfl, rfl⟩
  | none =>
    refine .inr ⟨Bool.false_ne_true, ?_⟩
    cases W.forwards (received buf frame) (receivedLen frame) <;> rfl

theorem recorded_of_step (h : ∀ frame ∈ s.ring, frame ≠ []) (hstep : W.step s e = some s')
    (ht : t ∈ logged s e s') : W.Recorded t := by
  cases step_move h hstep with
  | arrive | tick => cases ht
  | away _ hpc =>
    unfold logged at ht
    split at ht
    · contradiction
    · cases ht
  | take hpc hring =>
    simp only [logged, hpc, hring] at ht
    cases ht
  | look hpc hring =>
    simp only [logged, hpc, hring, List.mem_singleton] at ht
    subst ht
    exact call_look s _ _ _

theorem recorded_inductive (W : Waiter β) :
    (loggedLTS W).Inductive fun x => (∀ frame ∈ x.1.ring, frame ≠ []) ∧ ∀ t ∈ x.2, W.Recorded t where
  init x h := by
    obtain ⟨⟨-, -, -, hring⟩, hlog⟩ := h
    rw [hlog]
    exact ⟨hring, List.forall_mem_nil _⟩
  step x e x' h hstep := by
    obtain ⟨hring, hlog⟩ := h
    obtain ⟨s', hs', rfl⟩ := Option.map_eq_some_iff.mp hstep
    refine ⟨(step_move hring hs').ring hring, fun t ht => ?_⟩
    rcases List.mem_append.mp ht with ht | ht
    · exact hlog t ht
    · exact recorded_of_step hring hs' ht

theorem receivedLen_eq (frame : List UInt8) : receivedLen frame = min 1500 frame.length :=
  List.length_take

theorem received_get (buf : Frame) {frame : List UInt8} {i : Nat} (h : i < 1500)
    (hi : i < frame.length) : frame[i]? = some (received buf frame i) := by
  rw [List.getElem?_eq_getElem hi]
  simp [received, Tcp.copyIn, h, hi]

/-- The frames that are not UDP and are long enough for an answer. -/
theorem dnsForwards_received (buf : Frame) (frame : List UInt8) :
    dnsForwards (received buf frame) (receivedLen frame) = true ↔
      54 ≤ frame.length ∧ frame[23]? ≠ some 17 := by
  rw [dnsForwards, receivedLen_eq, Bool.and_eq_true, decide_eq_true_iff, bne_iff_ne]
  constructor
  · intro h
    obtain ⟨hlen, hproto⟩ := h
    rw [received_get buf (by decide) (by omega)]
    exact ⟨by omega, fun h => hproto (Option.some.inj h)⟩
  · intro h
    obtain ⟨hlen, hproto⟩ := h
    rw [received_get buf (by decide) (by omega)] at hproto
    exact ⟨by omega, fun h => hproto (congrArg some h)⟩

theorem recorded_passed_iff {txid : UInt16} (hrec : (dnsWaiter txid).Recorded t)
    (hno : ¬ (dnsWaiter txid).Accepts t) :
    t.Passed ↔ 54 ≤ t.frame.length ∧ t.frame.length ≤ 1500 ∧ t.frame[23]? ≠ some 17 := by
  obtain ⟨hyes, -⟩ | ⟨-, hcall⟩ := hrec
  · exact absurd hyes hno
  have hfw := dnsForwards_received t.buf t.frame
  change t.call = if dnsForwards _ _ = true then _ else _ at hcall
  unfold Taken.Passed
  rw [hcall]
  constructor
  · intro h
    obtain ⟨f, hf, -⟩ := h
    obtain ⟨hforw, hsome⟩ := Option.ite_none_right_eq_some.mp hf
    obtain ⟨hlen, hproto⟩ := hfw.mp hforw
    have hcut := congrArg Prod.snd (Option.some.inj hsome)
    rw [receivedLen_eq] at hcut
    exact ⟨hlen, by omega, hproto⟩
  · intro h
    obtain ⟨hlen, hfits, hproto⟩ := h
    rw [if_pos (hfw.mpr ⟨hlen, hproto⟩), receivedLen_eq, Nat.min_eq_right hfits]
    exact ⟨_, rfl, received_holds t.buf hfits⟩

end

/-- In every run of `DNS::resolve`, with frames arriving at any time: the frames that the loop
has taken and not accepted have all been handed on unchanged if and only if each of them has
54 to 1500 bytes and is no UDP packet. -/
theorem dns_passes_frames_iff (txid : UInt16) (s : WaitState UInt32) (log : List Taken)
    (hr : (loggedLTS (dnsWaiter txid)).Reachable (s, log)) :
    (∀ t ∈ log, ¬ (dnsWaiter txid).Accepts t → t.Passed) ↔ ∀ t ∈ log, (dnsWaiter txid).Accepts t ∨
        54 ≤ t.frame.length ∧ t.frame.length ≤ 1500 ∧ t.frame[23]? ≠ some 17 := by
  obtain ⟨-, hrec⟩ := (recorded_inductive (dnsWaiter txid)).reachable _ hr
  refine forall₂_congr fun t ht => ?_
  by_cases h : (dnsWaiter txid).Accepts t
  · exact iff_of_true (absurd h) (.inl h)
  · rw [recorded_passed_iff (hrec t ht) h]
    exact ⟨fun hpass => .inr (hpass h), fun hcond _ => hcond.resolve_left h⟩

/-- One frame comes behind the first poll. -/
def between (frame : List UInt8) : List Event := [.sent, .enter, .polled, .arrive frame, .take]

/-- The server asks for the client's hardware address. -/
def arpRequest : List UInt8 :=
  macBroadcast.toList ++ macServer.toList ++ be16Bytes 0x0806 ++
    be16Bytes 1 ++ be16Bytes 0x0800 ++ [6, 4] ++ be16Bytes 1 ++
    macServer.toList ++ addrBytes ipServer ++ macZero.toList ++ addrBytes ipA

/-- The server pings the client. -/
def ping : List UInt8 :=
  ipFrame lan ipServer ipA 1 ([8, 0, 0xF7, 0xFD, 0, 1, 0, 1] ++ List.replicate 32 0)

def runLogged (W : Waiter UInt32) (es : List Event) : Option (WaitState UInt32 × List Taken) :=
  LTS.runIf W.stepLogged (fun _ _ => True) (W.begin, []) es

theorem runLogged_reachable {W : Waiter UInt32} {es : List Event} {x : WaitState UInt32 × List Taken}
    (h : runLogged W es = some x) : (loggedLTS W).Reachable x :=
  LTS.Reachable.runIf (fun _ _ _ _ h => h) ⟨_, [], ⟨begin_init W, rfl⟩, .nil _⟩ h

/-- **Counterexample.** An ARP request is shorter than an answer; it is dropped. -/
theorem arp_request_dropped : ∃ s log, (loggedLTS (dnsWaiter 1)).Reachable (s, log) ∧
    ∃ t ∈ log, t.frame = arpRequest ∧ ¬ (dnsWaiter 1).Accepts t ∧ ¬ t.Passed := by
  have h : ((runLogged (dnsWaiter 1) (between arpRequest)).map fun x => x.2.map fun t =>
      (t.frame, t.call.isNone, (dnsAccept 1 (received t.buf t.frame) (receivedLen t.frame)).isSome)) =
      some [(arpRequest, true, false)] := by decide +kernel
  obtain ⟨⟨s, log⟩, hx, hlog⟩ := Option.map_eq_some_iff.mp h
  obtain ⟨t, rfl, ht⟩ := List.map_eq_singleton_iff.mp hlog
  rw [Prod.mk.injEq, Prod.mk.injEq] at ht
  obtain ⟨hframe, hcall, hno⟩ := ht
  refine ⟨s, [t], runLogged_reachable hx, t, List.mem_singleton_self t, hframe, ?_, ?_⟩
  · exact ne_true_of_eq_false hno
  · rintro ⟨f, hf, -⟩
    rw [hf] at hcall
    cases hcall

theorem dns_passes_frames_iff_ping : ∃ s log, (loggedLTS (dnsWaiter 1)).Reachable (s, log) ∧
    ∃ t ∈ log, t.frame = ping ∧ t.Passed := by
  have h : ((runLogged (dnsWaiter 1) (between ping)).map fun x => x.2.map fun t =>
      (t.frame, (dnsAccept 1 (received t.buf t.frame) (receivedLen t.frame)).isSome)) =
      some [(ping, false)] := by decide +kernel
  obtain ⟨⟨s, log⟩, hx, hlog⟩ := Option.map_eq_some_iff.mp h
  obtain ⟨t, rfl, ht⟩ := List.map_eq_singleton_iff.mp hlog
  rw [Prod.mk.injEq] at ht
  obtain ⟨hframe, hno⟩ := ht
  have hr := runLogged_reachable hx
  have hcond : 54 ≤ t.frame.length ∧ t.frame.length ≤ 1500 ∧ t.frame[23]? ≠ some 17 := by
    rw [hframe]
    decide
  have hpass := (dns_passes_frames_iff 1 s [t] hr).mpr (by simpa using .inr hcond)
  exact ⟨s, [t], hr, t, List.mem_singleton_self t, hframe,
    hpass t (List.mem_singleton_self t) (ne_true_of_eq_false hno)⟩

end HackersOs.L3.Wait

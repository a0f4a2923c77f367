import HackersOs.Core.LTS

/-!
# The transmit queue (`net/virtio_net.cpp`)

`send` lays the packet into the one static buffer, describes it in descriptors 0
and 1, publishes the chain and polls for the used index to move, at most 100000
times. The device completes a published chain whenever it likes. Calls are
numbered as they publish; `pending` are the calls whose chain the device has not
completed and may still read.

A call that gives up leaves its chain with the device. The next call writes over
it, and a completion of the old chain is taken for one of the new: the used index
has moved, and nothing says for whom.

Result: `tx_handoff_iff`.
-/
namespace HackersOs.L3.VirtioTx
open HackersOs.Core

def pollLimit : Nat := 100000

/-- Where the driver is in `send`. -/
inductive TxPc where
  | idle
  /-- the buffer and the descriptors are written -/
  | filled
  /-- in the polling loop, for call `call`, in round `timeout` -/
  | polling (call timeout : Nat)
  deriving DecidableEq, Repr

structure Tx where
  pc : TxPc
  txBuf : Nat → UInt8
  /-- `tx_desc[1].len`; the other fields of the descriptors and the header are the
  same in every call -/
  descLen : Nat
  availIdx : UInt16
  usedIdx : UInt16
  /-- `tx_last_used` -/
  lastUsed : UInt16
  /-- ghost: the chains published so far -/
  calls : Nat
  /-- ghost: the calls whose chain is published and not completed -/
  pending : List Nat

inductive TxOp where
  /-- `send(data, len)` up to the last write of a descriptor -/
  | start (data : List UInt8)
  /-- `tx_avail->idx++` and the notification -/
  | submit
  /-- one round of the polling loop -/
  | poll
  /-- the device completes the chain of a call -/
  | complete (call : Nat)
  deriving DecidableEq, Repr

/-- mirrors src/net/virtio_net.cpp:156-177 -/
def Tx.fill (s : Tx) (data : List UInt8) : Tx :=
  if data = [] then s
  else { s with
    txBuf := fun i => data.getD i (s.txBuf i)
    descLen := data.length
    pc := .filled }

/-- mirrors src/net/virtio_net.cpp:180-186; every slot of the ring names descriptor 0. -/
def Tx.publish (s : Tx) : Tx :=
  { s with
    availIdx := s.availIdx + 1
    calls := s.calls + 1
    pending := s.pending ++ [s.calls]
    pc := .polling s.calls 0 }

/-- mirrors src/net/virtio_net.cpp:189-198: one round, with the return after the last. -/
def Tx.pollRound (s : Tx) : Tx :=
  match s.pc with
  | .polling call timeout =>
    if s.usedIdx ≠ s.lastUsed then { s with lastUsed := s.usedIdx, pc := .idle }
    else { s with pc := if timeout + 1 < pollLimit then .polling call (timeout + 1) else .idle }
  | _ => s

def Tx.exec (s : Tx) : TxOp → Tx
  | .start data => s.fill data
  | .submit => s.publish
  | .poll => s.pollRound
  | .complete call => { s with usedIdx := s.usedIdx + 1, pending := s.pending.erase call }

def TxPc.isPolling : TxPc → Bool
  | .polling _ _ => true
  | _ => false

/-- When a step is possible. -/
def TxOp.Enabled (s : Tx) : TxOp → Prop
  | .start _ => s.pc = .idle
  | .submit => s.pc = .filled
  | .poll => s.pc.isPolling
  | .complete call => call ∈ s.pending

def Tx.zero : Tx := ⟨.idle, fun _ => 0, 0, 0, 0, 0, 0, []⟩

/-- The driver after `init` and the device, with steps that meet `G`. -/
def txLTS (G : Tx → TxOp → Prop) : LTS Tx TxOp where
  init s := s = .zero
  step s op s' := op.Enabled s ∧ G s op ∧ s' = s.exec op

/-- What the hand-off demands of a step: writes only while no chain is with the
device, and `true` only for a chain that is completed. -/
def TxOp.Proper (s : Tx) : TxOp → Prop
  | .start data => data ≠ [] → s.pending = []
  | .poll => ∀ call timeout, s.pc = .polling call timeout → s.usedIdx ≠ s.lastUsed → call ∉ s.pending
  | _ => True

/-- No chain is with the device, and no completion is unseen. -/
def Tx.Clear (s : Tx) : Prop := s.pending = [] ∧ s.usedIdx = s.lastUsed

/-- A packet is sent from a clear state only. -/
def TxOp.FromClear (s : Tx) : TxOp → Prop
  | .start data => data ≠ [] → s.Clear
  | _ => True

/-- A step inside a call, or of the device. -/
def TxOp.Inside : TxOp → Prop
  | .start _ => False
  | _ => True

/-- Whatever the device does during the call `send(data, ..)`, and however long the
call polls, all of its steps are proper. -/
def Tx.CallProper (s : Tx) (data : List UInt8) : Prop :=
  TxOp.Proper s (.start data) ∧
  ∀ (ops : List TxOp) (s' : Tx) (op : TxOp),
    (txLTS fun _ _ => True).Run (s.exec (.start data)) ops s' → (∀ o ∈ ops, o.Inside) →
    op.Inside → op.Enabled s' → op.Proper s'

/-! ## One call from a clear state -/

/-- The states of a run whose calls start clear: while a call polls, its own chain
is the only one with the device, or it is completed. -/
structure Tx.Inv (s : Tx) : Prop where
  filled : s.pc = .filled → s.Clear
  polling : ∀ call timeout, s.pc = .polling call timeout →
    (s.pending = [call] ∧ s.usedIdx = s.lastUsed) ∨ s.pending = []

section
variable {s s' : Tx} {op : TxOp} {data : List UInt8}

theorem Tx.Inv.proper (h : s.Inv) (hc : op.FromClear s) : op.Proper s := by
  cases op with
  | start data => exact fun hne => (hc hne).1
  | submit => trivial
  | complete call => trivial
  | poll =>
    intro call timeout hpc hmoved
    rcases h.polling call timeout hpc with ⟨-, he⟩ | he
    · exact absurd he hmoved
    · rw [he]
      exact List.not_mem_nil

theorem inv_fill (h : s.Clear) (hd : data ≠ []) : (s.fill data).Inv := by
  unfold Tx.fill
  rw [if_neg hd]
  exact ⟨fun _ => h, fun _ _ hpc => TxPc.noConfusion hpc⟩

theorem Tx.Inv.publish (h : s.Inv) (hpc : s.pc = .filled) : s.publish.Inv := by
  obtain ⟨hp, hu⟩ := h.filled hpc
  refine ⟨fun h => TxPc.noConfusion h, fun call timeout hc => .inl ⟨?_, hu⟩⟩
  cases hc
  show s.pending ++ [s.calls] = [s.calls]
  rw [hp, List.nil_append]

theorem Tx.Inv.complete (h : s.Inv) {c : Nat} (hc : c ∈ s.pending) :
    Tx.Inv { s with usedIdx := s.usedIdx + 1, pending := s.pending.erase c } := by
  refine ⟨fun hpc => ?_, fun call timeout hpc => .inr ?_⟩
  · rw [(h.filled hpc).1] at hc
    exact absurd hc List.not_mem_nil
  rcases h.polling call timeout hpc with ⟨hp, -⟩ | hp
  · rw [hp] at hc
    rw [hp, List.mem_singleton.mp hc, List.erase_cons_head]
  · rw [hp] at hc
    exact absurd hc List.not_mem_nil

theorem Tx.Inv.pollRound (h : s.Inv) : s.pollRound.Inv := by
  unfold Tx.pollRound
  cases hpc : s.pc with
  | idle => exact h
  | filled => exact h
  | polling c timeout =>
    dsimp only
    split
    · exact ⟨fun h => TxPc.noConfusion h, fun _ _ h => TxPc.noConfusion h⟩
    split
    · -- the next round of the same call
      refine ⟨fun h => TxPc.noConfusion h, fun call t hc => ?_⟩
      cases hc
      exact h.polling _ _ hpc
    · exact ⟨fun h => TxPc.noConfusion h, fun _ _ h => TxPc.noConfusion h⟩

theorem Tx.Inv.exec (h : s.Inv) (he : op.Enabled s) (hc : op.FromClear s) : (s.exec op).Inv := by
  cases op with
  | start data =>
    by_cases hd : data = []
    · show (s.fill data).Inv
      unfold Tx.fill
      rw [if_pos hd]
      exact h
    · exact inv_fill (hc hd) hd
  | submit => exact h.publish he
  | poll => exact h.pollRound
  | complete c => exact h.complete he

theorem inv_inductive : (txLTS TxOp.FromClear).Inductive Tx.Inv where
  init := by
    rintro s rfl
    exact ⟨fun h => TxPc.noConfusion h, fun _ _ h => TxPc.noConfusion h⟩
  step := by
    rintro s op _ h ⟨he, hc, rfl⟩
    exact h.exec he hc

theorem TxOp.Inside.fromClear (h : op.Inside) (s : Tx) : op.FromClear s := by
  cases op with
  | start data => exact h.elim
  | submit => trivial
  | poll => trivial
  | complete c => trivial

theorem Tx.Inv.run {ops : List TxOp} (h : s.Inv) (hr : (txLTS fun _ _ => True).Run s ops s')
    (hi : ∀ o ∈ ops, o.Inside) : s'.Inv := by
  induction hr with
  | nil => exact h
  | cons hst _ ih =>
    obtain ⟨he, -, rfl⟩ := hst
    exact ih (h.exec he ((hi _ List.mem_cons_self).fromClear _)) fun o ho =>
      hi o (List.mem_cons_of_mem _ ho)

/-- One call is proper exactly from a clear state: with a chain still with the device
its first write is not, and with a completion unseen its first look at the used
index answers for its own chain, which has only just been published. -/
theorem callProper_iff (hd : data ≠ []) : s.CallProper data ↔ s.Clear := by
  constructor
  · rintro ⟨hbegin, hcall⟩
    have hp : s.pending = [] := hbegin hd
    refine ⟨hp, ?_⟩
    by_contra hmoved
    have hfill : (s.exec (.start data)).pc = .filled := by
      show (s.fill data).pc = _
      unfold Tx.fill
      rw [if_neg hd]
    have hsame : (s.fill data).pending = s.pending ∧ (s.fill data).usedIdx = s.usedIdx ∧
        (s.fill data).lastUsed = s.lastUsed := by
      unfold Tx.fill
      rw [if_neg hd]
      exact ⟨rfl, rfl, rfl⟩
    have hrun : (txLTS fun _ _ => True).Run (s.exec (.start data)) [.submit] (s.fill data).publish :=
      .cons ⟨hfill, trivial, rfl⟩ (.nil _)
    have hpoll := hcall [.submit] _ .poll hrun (by simp [TxOp.Inside]) trivial rfl
    refine hpoll (s.fill data).calls 0 rfl ?_ ?_
    · show (s.fill data).usedIdx ≠ (s.fill data).lastUsed
      rw [hsame.2.1, hsame.2.2]
      exact hmoved
    · exact List.mem_append_right _ List.mem_cons_self
  · intro hclear
    refine ⟨fun _ => hclear.1, fun ops s' op hrun hops hop he => ?_⟩
    exact ((inv_fill hclear hd).run hrun hops).proper (hop.fromClear s')

end

/-- In every run whose packets are sent from clear states only, every step is proper:
no write while a chain is with the device, and `true` only for a completed chain.
And a call made in such a run is proper, whatever the device does during it,
exactly when it starts from a clear state. -/
theorem tx_handoff_iff {s : Tx} (hr : (txLTS TxOp.FromClear).Reachable s) :
    (∀ op s', (txLTS TxOp.FromClear).step s op s' → op.Proper s) ∧
    ∀ data, data ≠ [] → (s.CallProper data ↔ s.Clear) := by
  have h := inv_inductive.reachable s hr
  exact ⟨fun op s' hs => h.proper hs.2.1, fun data hd => callProper_iff hd⟩

/-- The state after the device completed the first packet and the call saw it. -/
def sentOne : Tx := (((Tx.zero.exec (.start [1])).exec .submit).exec (.complete 0)).exec .poll

/-- After a packet that was completed and seen, the next call is proper. -/
theorem tx_handoff_after_one : sentOne.calls = 1 ∧ sentOne.CallProper [2] := by
  have hr : (txLTS TxOp.FromClear).Reachable sentOne :=
    ⟨_, [.start [1], .submit, .complete 0, .poll], rfl,
      .cons ⟨rfl, fun _ => ⟨rfl, rfl⟩, rfl⟩ (.cons ⟨rfl, trivial, rfl⟩
        (.cons ⟨List.mem_cons_self, trivial, rfl⟩ (.cons ⟨rfl, trivial, rfl⟩ (.nil _))))⟩
  exact ⟨rfl, ((tx_handoff_iff hr).2 [2] (List.cons_ne_nil _ _)).mpr ⟨rfl, rfl⟩⟩

/-- A call whose chain is not completed polls to the end. -/
theorem polls_time_out {k : Nat} (hk : 0 < k) {s : Tx} {call timeout : Nat}
    (hpc : s.pc = .polling call timeout) (ht : timeout + k = pollLimit)
    (hu : s.usedIdx = s.lastUsed) :
    (txLTS fun _ _ => True).Run s (List.replicate k .poll) { s with pc := .idle } := by
  induction k generalizing s timeout with
  | zero => exact absurd hk (Nat.lt_irrefl 0)
  | succ k ih =>
    have hstep : s.pollRound =
        { s with pc := if timeout + 1 < pollLimit then .polling call (timeout + 1) else .idle } := by
      unfold Tx.pollRound
      rw [hpc]
      exact if_neg (not_not.mpr hu)
    rw [List.replicate_succ]
    refine .cons ⟨?_, trivial, hstep.symm⟩ ?_
    · show s.pc.isPolling = true
      rw [hpc]
      rfl
    · by_cases h0 : k = 0
      · rw [if_neg (by omega), h0]
        exact .nil _
      · rw [if_pos (by omega)]
        exact @ih (Nat.pos_of_ne_zero h0) { s with pc := .polling call (timeout + 1) }
          (timeout + 1) rfl
          (by omega) hu

/-- The first packet is published and its call gives up. -/
def timedOut : Tx := { (Tx.zero.exec (.start [1])).exec .submit with pc := .idle }

theorem timedOut_reachable : (txLTS fun _ _ => True).Reachable timedOut := by
  have hpolls := @polls_time_out pollLimit (by decide)
    ((Tx.zero.exec (.start [1])).exec .submit) 0 0 rfl
    rfl rfl
  exact ⟨_, .start [1] :: .submit :: List.replicate pollLimit .poll, rfl,
    .cons ⟨rfl, trivial, rfl⟩ (.cons ⟨rfl, trivial, rfl⟩ hpolls)⟩

/-- **Counterexample**: the first call times out and its chain stays with the device;
the second call writes over it. If the device completes the first packet before
the second call, that call returns true in its first round with its own packet
still with the device. -/
theorem send_overwrites_pending :
    (txLTS fun _ _ => True).Reachable timedOut ∧ timedOut.pending = [0] ∧
    ¬ TxOp.Proper timedOut (.start [2]) ∧
    (txLTS fun _ _ => True).Reachable
      (((timedOut.exec (.complete 0)).exec (.start [2])).exec .submit) ∧
    (((timedOut.exec (.complete 0)).exec (.start [2])).exec .submit).pc = .polling 1 0 ∧
    (((timedOut.exec (.complete 0)).exec (.start [2])).exec .submit).pending = [1] ∧
    ¬ TxOp.Proper (((timedOut.exec (.complete 0)).exec (.start [2])).exec .submit) .poll := by
  have h := timedOut_reachable
  have h1 := h.step (l := TxOp.complete 0) ⟨List.mem_cons_self, trivial, rfl⟩
  have h2 := h1.step (l := TxOp.start [2]) ⟨rfl, trivial, rfl⟩
  refine ⟨h, rfl, fun hp => ?_, h2.step (l := TxOp.submit) ⟨rfl, trivial, rfl⟩, rfl, rfl,
    fun hp => ?_⟩
  · exact absurd (hp (List.cons_ne_nil _ _)) (List.cons_ne_nil _ _)
  · exact hp 1 0 rfl (by decide) List.mem_cons_self

end HackersOs.L3.VirtioTx

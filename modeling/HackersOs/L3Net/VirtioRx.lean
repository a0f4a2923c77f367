import HackersOs.Core.IndexRing
import HackersOs.Core.LTS

/-!
# The receive queue (`net/virtio_net.cpp`)

`populate_rx_queue` publishes up to eight page buffers, one descriptor each. The
device takes published descriptors off the available ring, and completes
those it has taken in any order, at any time and with any length up to a page.
`receive` takes the oldest completion and, once it has copied the packet,
publishes the descriptor again. Both rings have 16 slots and free-running 16-bit
indices on each side; the device counts modulo the size it was told, which is
smaller than the driver's 16 if its maximum is.

A completion with no packet in it, one of at most the header's ten bytes, makes
`receive` return false at once: the descriptor is never published again.

Result: `rx_conserved_iff`. A call of `receive` is two steps, with whatever the
device does in between; `poll` is a sequence of such calls.
-/
namespace HackersOs.L3.VirtioRx
open HackersOs.Core HackersOs.Core.IndexRing List

def queueSize : Nat := 16
def rxBufCount : Nat := 8
/-- `sizeof(VirtioNetHeader)` -/
def headerSize : Nat := 10
def pageSize : Nat := 4096

structure Rx where
  availRing : Nat → Nat
  availIdx : UInt16
  /-- `id` and `len` of the used elements -/
  usedRing : Nat → Nat × Nat
  usedIdx : UInt16
  /-- `rx_last_used` -/
  lastUsed : UInt16
  /-- the device's own place in the available ring -/
  devAvail : UInt16
  /-- the descriptors the device has taken and not completed -/
  inflight : List Nat
  /-- the descriptor a running `receive` has taken -/
  held : Option Nat

/-- `rx_avail->ring[rx_avail->idx % QUEUE_SIZE] = id; rx_avail->idx++` -/
def Rx.publish (s : Rx) (id : Nat) : Rx :=
  { s with
    availRing := put s.availRing (s.availIdx.toNat % queueSize) id
    availIdx := s.availIdx + 1 }

/-- The rings as `alloc_page` gives them. -/
def Rx.zero : Rx := ⟨fun _ => 0, 0, fun _ => (0, 0), 0, 0, 0, [], none⟩

/-- mirrors src/net/virtio_net.cpp:85-101; `pages` is the number of buffers
`alloc_page` had memory for. -/
def populateRxQueue (pages : Nat) : Rx := (List.range (min rxBufCount pages)).foldl Rx.publish .zero

/-- mirrors src/net/virtio_net.cpp:204-211: up to the check of the length. -/
def Rx.take (s : Rx) : Rx :=
  if s.usedIdx = s.lastUsed then s
  else
    let e := s.usedRing (s.lastUsed.toNat % queueSize)
    { s with lastUsed := s.lastUsed + 1, held := if e.2 ≤ headerSize then none else some e.1 }

/-- mirrors src/net/virtio_net.cpp:213-234: the packet is copied and the descriptor
published. -/
def Rx.giveBack (s : Rx) : Rx :=
  match s.held with
  | none => s
  | some id => { s.publish id with held := none }

/-- The size `setup_queue` tells the device (`virtio_net.cpp:59-63`). -/
def deviceSize (queueNumMax : Nat) : Nat := if queueSize < queueNumMax then queueSize else queueNumMax

/-- The device takes the next published descriptor. -/
def Rx.fetch (size : Nat) (s : Rx) : Rx :=
  { s with
    inflight := s.inflight ++ [s.availRing (s.devAvail.toNat % size)]
    devAvail := s.devAvail + 1 }

/-- The device completes one it has taken. -/
def Rx.complete (size : Nat) (s : Rx) (id len : Nat) : Rx :=
  { s with
    inflight := s.inflight.erase id
    usedRing := put s.usedRing (s.usedIdx.toNat % size) (id, len)
    usedIdx := s.usedIdx + 1 }

inductive RxOp where
  | fetch
  | complete (id len : Nat)
  | take
  | giveBack
  deriving DecidableEq, Repr

def Rx.exec (size : Nat) (s : Rx) : RxOp → Rx
  | .fetch => s.fetch size
  | .complete id len => s.complete size id len
  | .take => s.take
  | .giveBack => s.giveBack

/-- When a step is possible. -/
def RxOp.Enabled (s : Rx) : RxOp → Prop
  | .fetch => s.devAvail ≠ s.availIdx
  | .complete id len => id ∈ s.inflight ∧ len ≤ pageSize
  | .take => s.held = none
  | .giveBack => s.held ≠ none

instance (s : Rx) (op : RxOp) : Decidable (op.Enabled s) :=
  match op with
  | .fetch => inferInstanceAs (Decidable (_ ≠ _))
  | .complete _ _ => inferInstanceAs (Decidable (_ ∧ _))
  | .take => inferInstanceAs (Decidable (_ = _))
  | .giveBack => inferInstanceAs (Decidable (_ ≠ _))

/-- The driver and a device with this maximum, with steps that meet `G`. -/
def rxLTS (pages queueNumMax : Nat) (G : Rx → RxOp → Prop) : LTS Rx RxOp where
  init s := s = populateRxQueue pages
  step s op s' := op.Enabled s ∧ G s op ∧ s' = s.exec (deviceSize queueNumMax) op

/-! ## Where the buffers are -/

/-- Published, or taken by the device and not completed. -/
def Rx.available (s : Rx) : List Nat :=
  pending queueSize s.availRing s.devAvail s.availIdx ++ s.inflight

/-- Completed and not consumed. -/
def Rx.completed (s : Rx) : List Nat :=
  (pending queueSize s.usedRing s.lastUsed s.usedIdx).map Prod.fst

/-- Each of the first `n` descriptors is in exactly one place, exactly once; the
third place is a call of `receive` that is still running. -/
def Rx.Conserved (n : Nat) (s : Rx) : Prop :=
  (s.available ++ s.completed ++ s.held.toList).Perm (List.range n)

/-- A `receive` that finds a completion finds one with a packet in it. -/
def RxOp.HasPacket (s : Rx) : RxOp → Prop
  | .take => s.usedIdx ≠ s.lastUsed → headerSize < (s.usedRing (s.lastUsed.toNat % queueSize)).2
  | _ => True

section
variable {s : Rx} {n : Nat}

theorem queueSize_dvd : queueSize ∣ 2 ^ 16 := by decide

theorem queueSize_lt : queueSize < 2 ^ 16 := by decide

theorem Rx.Conserved.length (h : s.Conserved n) :
    (pending queueSize s.availRing s.devAvail s.availIdx).length + s.inflight.length +
      (pending queueSize s.usedRing s.lastUsed s.usedIdx).length + s.held.toList.length = n := by
  have := h.length_eq
  simpa only [Rx.available, Rx.completed, length_append, length_map, length_range]
    using this

theorem publish_available (id : Nat)
    (h : (pending queueSize s.availRing s.devAvail s.availIdx).length < queueSize) :
    (s.publish id).available.Perm (id :: s.available) := by
  unfold Rx.available Rx.publish
  rw [pending_push queueSize_dvd queueSize_lt s.availRing h id, append_assoc]
  exact perm_middle

theorem Rx.Conserved.giveBack (h : s.Conserved n) (hn : n ≤ rxBufCount) : s.giveBack.Conserved n := by
  unfold Rx.giveBack
  cases hh : s.held with
  | none => exact h
  | some id =>
    have hlen := h.length
    unfold rxBufCount at hn
    have hpub := @publish_available s id (by unfold queueSize at *; omega)
    refine List.Perm.trans ?_ h
    rw [hh]
    show ((s.publish id).available ++ s.completed ++ []).Perm _
    rw [append_nil]
    exact ((hpub.append_right s.completed).trans (perm_append_singleton id _).symm)

theorem Rx.Conserved.fetch (h : s.Conserved n) (he : s.devAvail ≠ s.availIdx) :
    (s.fetch queueSize).Conserved n := by
  refine List.Perm.trans ?_ h
  refine ((List.Perm.append_right _ ?_).append_right _)
  unfold Rx.available Rx.fetch
  rw [pending_pop s.availRing he, ← append_assoc]
  exact perm_append_singleton _ _

theorem Rx.Conserved.complete (h : s.Conserved n) (hn : n ≤ rxBufCount) {id : Nat} (len : Nat)
    (hid : id ∈ s.inflight) : (s.complete queueSize id len).Conserved n := by
  have hlen := h.length
  unfold rxBufCount at hn
  have hpush := pending_push queueSize_dvd queueSize_lt s.usedRing (i := s.lastUsed) (j := s.usedIdx)
    (by unfold queueSize at *; omega) (id, len)
  refine List.Perm.trans ?_ h
  refine List.Perm.append_right _ ?_
  unfold Rx.available Rx.completed Rx.complete
  rw [hpush, map_append, map_singleton]
  generalize pending queueSize s.availRing s.devAvail s.availIdx = A
  generalize (pending queueSize s.usedRing s.lastUsed s.usedIdx).map Prod.fst = U
  have hF : (A ++ s.inflight).Perm (id :: (A ++ s.inflight.erase id)) :=
    ((perm_cons_erase hid).append_left A).trans perm_middle
  rw [← append_assoc]
  exact (perm_append_singleton id _).trans (hF.append_right U).symm

/-- What a `receive` takes: nothing, a packet, or an empty completion, whose
descriptor is then nowhere. -/
theorem Rx.Conserved.take_iff (h : s.Conserved n) (hh : s.held = none) :
    s.take.Conserved n ↔ RxOp.HasPacket s .take := by
  unfold Rx.take RxOp.HasPacket
  by_cases he : s.usedIdx = s.lastUsed
  · rw [if_pos he]
    exact iff_of_true h fun hne => absurd he hne
  have hne := Ne.symm he
  rw [if_neg he]
  have hpop := @pending_pop _ queueSize s.usedRing _ _ hne
  generalize s.usedRing (s.lastUsed.toNat % queueSize) = e at hpop
  -- the places before the call, with the completion it takes in front
  have hperm : (e.1 :: (s.available ++
      (pending queueSize s.usedRing (s.lastUsed + 1) s.usedIdx).map Prod.fst)).Perm
          (List.range n) := by
    refine List.Perm.trans ?_ h
    unfold Rx.completed
    rw [hpop, hh, map_cons]
    show (e.1 :: (s.available ++ _)).Perm (s.available ++ e.1 :: _ ++ [])
    rw [append_nil]
    exact perm_middle.symm
  by_cases hlen : e.2 ≤ headerSize
  · refine iff_of_false (fun hc => ?_) fun hp => absurd (hp he) (Nat.not_lt.mpr hlen)
    have h1 := hc.length_eq
    have h2 := hperm.length_eq
    unfold Rx.completed Rx.available at *
    dsimp only at h1
    rw [if_pos hlen] at h1
    simp only [length_append, length_cons, length_map, length_range,
      Option.toList_none, length_nil] at h1 h2
    omega
  · refine iff_of_true (List.Perm.trans ?_ hperm) fun _ => Nat.lt_of_not_le hlen
    show (s.available ++ (pending queueSize s.usedRing (s.lastUsed + 1) s.usedIdx).map Prod.fst ++
      (if e.2 ≤ headerSize then none else some e.1).toList).Perm _
    rw [if_neg hlen]
    exact perm_append_singleton _ _

theorem Rx.Conserved.publish (h : s.Conserved n) (hn : n < rxBufCount) :
    (s.publish n).Conserved (n + 1) := by
  have hlen := h.length
  unfold rxBufCount at hn
  have hpub := @publish_available s n (by unfold queueSize at *; omega)
  rw [Rx.Conserved, range_succ]
  refine List.Perm.trans ?_ ((h.append_right [n]).trans (List.Perm.refl _))
  refine ((hpub.append_right s.completed).append_right s.held.toList).trans ?_
  exact (perm_append_singleton n _).symm

theorem populate_conserved {n : Nat} (hn : n ≤ rxBufCount) :
    ((List.range n).foldl Rx.publish .zero).Conserved n := by
  induction n with
  | zero => exact List.Perm.refl []
  | succ n ih =>
    rw [range_succ, foldl_append]
    exact (ih (Nat.le_of_succ_le hn)).publish hn

theorem deviceSize_eq {queueNumMax : Nat} (h : queueSize ≤ queueNumMax) :
    deviceSize queueNumMax = queueSize := by
  unfold deviceSize
  split <;> omega

/-- One step of the driver or the device. -/
theorem Rx.Conserved.exec_iff (h : s.Conserved n) (hn : n ≤ rxBufCount) {op : RxOp}
    (he : op.Enabled s) : (s.exec queueSize op).Conserved n ↔ op.HasPacket s := by
  cases op with
  | fetch => exact iff_of_true (h.fetch he) trivial
  | complete id len => exact iff_of_true (h.complete hn len he.1) trivial
  | take => exact h.take_iff he
  | giveBack => exact iff_of_true (h.giveBack hn) trivial

theorem conserved_inductive {pages queueNumMax : Nat} (hq : queueSize ≤ queueNumMax) :
    (rxLTS pages queueNumMax RxOp.HasPacket).Inductive (Rx.Conserved (min rxBufCount pages)) where
  init := by
    rintro s rfl
    exact populate_conserved (Nat.min_le_left _ _)
  step := by
    rintro s op _ h ⟨he, hp, rfl⟩
    rw [deviceSize_eq hq]
    exact (h.exec_iff (Nat.min_le_left _ _) he).mpr hp

end

/-- With a device that has room for 16 entries: in every run in which no `receive`
meets a completion without a packet, every published buffer is in exactly one
place in every state, and the next step keeps that exactly when it is no
`receive` of such a completion. -/
theorem rx_conserved_iff {pages queueNumMax : Nat} (hq : queueSize ≤ queueNumMax) {s : Rx}
    (hr : (rxLTS pages queueNumMax RxOp.HasPacket).Reachable s) :
    s.Conserved (min rxBufCount pages) ∧
    ∀ op s', (rxLTS pages queueNumMax fun _ _ => True).step s op s' →
      (s'.Conserved (min rxBufCount pages) ↔ op.HasPacket s) := by
  have h := (conserved_inductive hq).reachable s hr
  refine ⟨h, ?_⟩
  rintro op _ ⟨he, -, rfl⟩
  rw [deviceSize_eq hq]
  exact h.exec_iff (Nat.min_le_left _ _) he

instance (s : Rx) (op : RxOp) : Decidable (op.HasPacket s) :=
  match op with
  | .fetch => inferInstanceAs (Decidable True)
  | .complete _ _ => inferInstanceAs (Decidable True)
  | .take => inferInstanceAs (Decidable (_ → _))
  | .giveBack => inferInstanceAs (Decidable True)

section
variable (pages queueNumMax : Nat) (G : Rx → RxOp → Prop) [∀ s op, Decidable (G s op)]

/-- The run of a list of steps, if each is possible and meets `G`. -/
def rxRun (ops : List RxOp) : Option Rx :=
  LTS.runIf (fun s op => some (s.exec (deviceSize queueNumMax) op))
    (fun s op => op.Enabled s ∧ G s op)
    (populateRxQueue pages) ops

variable {pages queueNumMax G}

theorem rxRun_reachable {ops : List RxOp} {s : Rx} (h : rxRun pages queueNumMax G ops = some s) :
    (rxLTS pages queueNumMax G).Reachable s := by
  have hstart : (rxLTS pages queueNumMax G).Reachable (populateRxQueue pages) := ⟨_, [], rfl, .nil _⟩
  refine LTS.Reachable.runIf (fun s op s' hG hs => ?_) hstart h
  exact ⟨hG.1, hG.2, (Option.some.inj hs).symm⟩

end

/-- A packet of 60 bytes arrives and is received: all eight buffers are there. -/
theorem rx_conserved_packet :
    ∃ s, rxRun 8 16 RxOp.HasPacket [.fetch, .complete 0 70, .take, .giveBack] = some s ∧
      s.Conserved 8 := by
  obtain ⟨s, hs⟩ := Option.isSome_iff_exists.mp (by decide +kernel : (rxRun 8 16 RxOp.HasPacket
    [.fetch, .complete 0 70, .take, .giveBack]).isSome)
  exact ⟨s, hs, (rx_conserved_iff (by decide) (rxRun_reachable hs)).1⟩

/-- **Counterexample**: the device completes buffer 0 with the bare header, and the
next `receive` drops it. And a device whose queue has eight entries looks for the
ninth publication in the first slot, so that it takes buffer 0 twice. -/
theorem receive_loses_buffer :
    (∃ s, (rxLTS 8 16 fun _ _ => True).Reachable s ∧ s.held = none ∧ 0 ∉ s.available ++ s.completed) ∧
    ∃ s, (rxLTS 8 8 fun _ _ => True).Reachable s ∧ s.inflight.count 0 = 2 := by
  have h1 : ((rxRun 8 16 (fun _ _ => True) [.fetch, .complete 0 10, .take]).map fun s =>
      decide (s.held = none ∧ 0 ∉ s.available ++ s.completed)) = some true := by decide +kernel
  have h2 : ((rxRun 8 8 (fun _ _ => True)
      [.fetch, .fetch, .fetch, .fetch, .fetch, .fetch, .fetch, .fetch,
      .complete 1 70, .take, .giveBack, .fetch]).map fun s => decide (s.inflight.count 0 = 2)) =
      some true := by decide +kernel
  obtain ⟨s, hs, hd⟩ := Option.map_eq_some_iff.mp h1
  obtain ⟨t, ht, hd'⟩ := Option.map_eq_some_iff.mp h2
  exact ⟨⟨s, rxRun_reachable hs, of_decide_eq_true hd⟩, t, rxRun_reachable ht, of_decide_eq_true hd'⟩

end HackersOs.L3.VirtioRx

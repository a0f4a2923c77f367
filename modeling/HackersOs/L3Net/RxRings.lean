import HackersOs.Core.LTS
import HackersOs.L3Net.NetInput

/-!
# The receive rings

`tcp_input` and `socket_udp_input` copy what arrives into a ring, `TCP::recv` and
`recvfrom` copy it out. Here with the code's own words: `u32` indices that advance
modulo the size, `u32` differences and sums for the count. `Core.Ring`, with
indices that are numbers, is what the rest of the development uses; the code
simulates it (`Shows`), so it is a bounded queue (`receive_rings_fifo`).
-/
namespace HackersOs.L3.Net
open HackersOs.Core

/-- `rx_buf`, `rx_head`, `rx_tail`, `rx_count`, and the same in `UdpBuffer`. -/
structure RxRing where
  buf : Nat → UInt8
  head : UInt32
  tail : UInt32
  count : UInt32

namespace RxRing

/-! ## The code -/

/-- After `n` rounds of the loop. -/
def fillRounds (size : UInt32) (r : RxRing) (data : Nat → UInt8) : Nat → RxRing
  | 0 => r
  | n + 1 =>
    let r := r.fillRounds size data n
    { r with
      buf := fun j => if j = r.head.toNat then data n else r.buf j
      head := (r.head + 1) % size }

def fill (size : UInt32) (r : RxRing) (data : Nat → UInt8) (len : UInt32) : RxRing :=
  let space := size - r.count
  let copy := if len < space then len else space
  let r := r.fillRounds size data copy.toNat
  { r with count := r.count + copy }

/-- After `n` rounds of the loop, with what is in `dst`. -/
def drainRounds (size : UInt32) (r : RxRing) : Nat → List UInt8 × RxRing
  | 0 => ([], r)
  | n + 1 =>
    let (dst, r) := r.drainRounds size n
    (dst ++ [r.buf r.tail.toNat], { r with tail := (r.tail + 1) % size })

def drain (size : UInt32) (r : RxRing) (len : UInt32) : List UInt8 × RxRing :=
  let copy := if r.count < len then r.count else len
  let (dst, r) := r.drainRounds size copy.toNat
  (dst, { r with count := r.count - copy })

end RxRing

/-- mirrors src/net/tcp.cpp:201-207 -/
def tcpFill : RxRing → (Nat → UInt8) → UInt32 → RxRing := RxRing.fill 8192

/-- mirrors src/net/tcp.cpp:391-397 -/
def tcpDrain : RxRing → UInt32 → List UInt8 × RxRing := RxRing.drain 8192

/-- mirrors src/net/socket.cpp:54-61 -/
def udpFill : RxRing → (Nat → UInt8) → UInt32 → RxRing := RxRing.fill 4096

/-- mirrors src/net/socket.cpp:252-258 -/
def udpDrain : RxRing → UInt32 → List UInt8 × RxRing := RxRing.drain 4096

inductive RingOp where
  | fill (data : Nat → UInt8) (len : UInt32)
  | drain (len : UInt32)

/-- The runs of a ring's two operations from the empty ring. -/
def ringLTS (fill : RxRing → (Nat → UInt8) → UInt32 → RxRing)
    (drain : RxRing → UInt32 → List UInt8 × RxRing) : LTS RxRing RingOp where
  init r := r.head = 0 ∧ r.tail = 0 ∧ r.count = 0
  step r op r' :=
    match op with
    | .fill data len => r' = fill r data len
    | .drain len => r' = (drain r len).2

/-! ## Simulation -/

/-- The ring of the code shows the one of the model. -/
structure Shows {cap : Nat} (r : RxRing) (q : Ring UInt8 cap) : Prop where
  buf : r.buf = q.buf
  head : r.head.toNat = q.head
  tail : r.tail.toNat = q.tail
  count : r.count.toNat = q.count

namespace RxRing

variable {cap : Nat} {size : UInt32} {r : RxRing} {q : Ring UInt8 cap}

/-- `(i + 1) % size` does not wrap at 2^32. -/
theorem toNat_next {i : UInt32} (hsize : size.toNat = cap) (hcap : cap < 2 ^ 31)
    (hi : i.toNat < cap) : ((i + 1) % size).toNat = (i.toNat + 1) % cap := by
  rw [UInt32.toNat_mod, UInt32.toNat_add, hsize]
  change (i.toNat + 1) % 2 ^ 32 % cap = _
  rw [Nat.mod_eq_of_lt (show i.toNat + 1 < 2 ^ 32 by omega)]

theorem fillRounds_spec (hsize : size.toNat = cap) (hcap : cap < 2 ^ 31) (hhead : r.head.toNat < cap)
    (data : Nat → UInt8) (n : Nat) :
    (r.fillRounds size data n).buf = (Ring.fillLoop cap data r.buf r.head.toNat n).1 ∧
      (r.fillRounds size data n).head.toNat = (Ring.fillLoop cap data r.buf r.head.toNat n).2 ∧
      (r.fillRounds size data n).tail = r.tail ∧ (r.fillRounds size data n).count = r.count := by
  induction n with
  | zero => exact ⟨rfl, rfl, rfl, rfl⟩
  | succ n ih =>
    obtain ⟨hbuf, hnext, htail, hcount⟩ := ih
    have hlt : (r.fillRounds size data n).head.toNat < cap := by
      rw [hnext, Ring.fillLoop_head hhead]
      exact Nat.mod_lt _ (by omega)
    simp only [fillRounds, Ring.fillLoop]
    rw [toNat_next hsize hcap hlt, hbuf, hnext]
    exact ⟨rfl, rfl, htail, hcount⟩

theorem drainRounds_spec (hsize : size.toNat = cap) (hcap : cap < 2 ^ 31)
    (htail : r.tail.toNat < cap) (n : Nat) :
    (r.drainRounds size n).1 = (Ring.drainLoop cap r.buf r.tail.toNat n).1 ∧
      (r.drainRounds size n).2.tail.toNat = (Ring.drainLoop cap r.buf r.tail.toNat n).2 ∧
      (r.drainRounds size n).2.buf = r.buf ∧ (r.drainRounds size n).2.head = r.head ∧
      (r.drainRounds size n).2.count = r.count := by
  induction n with
  | zero => exact ⟨rfl, rfl, rfl, rfl, rfl⟩
  | succ n ih =>
    obtain ⟨hdst, hnext, hbuf, hhead, hcount⟩ := ih
    have hlt : (r.drainRounds size n).2.tail.toNat < cap := by
      rw [hnext, Ring.drainLoop_tail htail]
      exact Nat.mod_lt _ (by omega)
    simp only [drainRounds, Ring.drainLoop]
    rw [toNat_next hsize hcap hlt, hdst, hnext, hbuf]
    exact ⟨rfl, rfl, rfl, hhead, hcount⟩

theorem copy_fill (hsize : size.toNat = cap) (h : Shows r q) (len : UInt32) :
    (if len < size - r.count then len else size - r.count).toNat = q.room len.toNat := by
  have hle := q.count_le
  have hspace : (size - r.count).toNat = cap - q.count := by
    rw [UInt32.toNat_sub_of_le _ _ (UInt32.le_iff_toNat_le.mpr (by rw [hsize, h.count]; exact hle)),
      hsize, h.count]
  rw [apply_ite UInt32.toNat, hspace, Ring.room]
  exact if_congr (by rw [UInt32.lt_iff_toNat_lt, hspace]) rfl rfl

theorem copy_drain (h : Shows r q) (len : UInt32) :
    (if r.count < len then r.count else len).toNat = q.avail len.toNat := by
  rw [apply_ite UInt32.toNat, h.count, Ring.avail]
  exact if_congr (by rw [UInt32.lt_iff_toNat_lt, h.count]) rfl rfl

theorem shows_fill (hsize : size.toNat = cap) (hcap : cap < 2 ^ 31) (h : Shows r q)
    (data : Nat → UInt8) (len : UInt32) : Shows (r.fill size data len) (q.fill data len.toNat) := by
  have hcopy := copy_fill hsize h len
  have hroom := q.room_le len.toNat
  obtain ⟨hbuf, hhead, htail, hcount⟩ :=
    fillRounds_spec hsize hcap (h.head ▸ q.head_lt) data (q.room len.toNat)
  unfold RxRing.fill
  dsimp only
  rw [hcopy]
  refine ⟨?_, ?_, ?_, ?_⟩
  · rw [hbuf, h.buf, h.head]
    rfl
  · rw [hhead, h.buf, h.head]
    rfl
  · rw [htail, h.tail]
    rfl
  · rw [UInt32.toNat_add, hcount, hcopy, h.count]
    exact Nat.mod_eq_of_lt (by omega)

theorem shows_drain (hsize : size.toNat = cap) (hcap : cap < 2 ^ 31) (h : Shows r q) (len : UInt32) :
    (r.drain size len).1 = (q.drain len.toNat).1 ∧
      Shows (r.drain size len).2 (q.drain len.toNat).2 := by
  have hcopy := copy_drain h len
  have havail := q.avail_le len.toNat
  obtain ⟨hdst, htail, hbuf, hhead, hcount⟩ :=
    drainRounds_spec hsize hcap (h.tail ▸ q.tail_lt) (q.avail len.toNat)
  unfold RxRing.drain
  dsimp only
  rw [hcopy]
  refine ⟨?_, ?_, ?_, ?_, ?_⟩
  · rw [hdst, h.buf, h.tail]
    rfl
  · rw [hbuf, h.buf]
    rfl
  · rw [hhead, h.head]
    rfl
  · rw [htail, h.buf, h.tail]
    rfl
  · rw [hcount, UInt32.toNat_sub_of_le _ _
      (UInt32.le_iff_toNat_le.mpr (by rw [hcopy, h.count]; exact havail)),
      hcopy, h.count]
    rfl

/-- A ring reached from the empty one shows a ring of the model. -/
theorem shows_inductive (hsize : size.toNat = cap) (hpos : 0 < cap) (hcap : cap < 2 ^ 31) :
    (ringLTS (fill size) (drain size)).Inductive fun r => ∃ q : Ring UInt8 cap, Shows r q where
  init r h := by
    obtain ⟨hhead, htail, hcount⟩ := h
    refine ⟨Ring.reset r.buf hpos, rfl, ?_, ?_, ?_⟩
    · rw [hhead]
      rfl
    · rw [htail]
      rfl
    · rw [hcount]
      rfl
  step r op r' h hstep := by
    obtain ⟨q, hq⟩ := h
    cases op with
    | fill data len =>
      obtain rfl : r' = _ := hstep
      exact ⟨_, shows_fill hsize hcap hq data len⟩
    | drain len =>
      obtain rfl : r' = _ := hstep
      exact ⟨_, (shows_drain hsize hcap hq len).2⟩

end RxRing

/-! ## Queues -/

/-- The bytes in the ring, oldest first. -/
def RxRing.queue (cap : Nat) (r : RxRing) : List UInt8 :=
  (List.range r.count.toNat).map fun i => r.buf ((r.tail.toNat + i) % cap)

/-- The ring is a queue of at most `cap` bytes, and its operations are those of a queue. -/
structure Fifo (cap : Nat) (fill : RxRing → (Nat → UInt8) → UInt32 → RxRing)
    (drain : RxRing → UInt32 → List UInt8 × RxRing) (r : RxRing) : Prop where
  head_lt : r.head.toNat < cap
  tail_lt : r.tail.toNat < cap
  head_eq : r.head.toNat = (r.tail.toNat + r.count.toNat) % cap
  count_le : r.count.toNat ≤ cap
  fill_eq : ∀ data len, (fill r data len).queue cap =
    r.queue cap ++ (List.range (min len.toNat (cap - r.count.toNat))).map data
  drain_fst : ∀ len, (drain r len).1 = (r.queue cap).take (min len.toNat r.count.toNat)
  drain_snd : ∀ len, (drain r len).2.queue cap = (r.queue cap).drop (min len.toNat r.count.toNat)

section
variable {cap : Nat} {size : UInt32} {r : RxRing} {q : Ring UInt8 cap}

theorem Shows.queue_eq (h : Shows r q) : r.queue cap = q.toList := by
  rw [RxRing.queue, h.count, h.tail, h.buf]
  rfl

theorem Shows.fifo (hsize : size.toNat = cap) (hcap : cap < 2 ^ 31) (h : Shows r q) :
    Fifo cap (RxRing.fill size) (RxRing.drain size) r where
  head_lt := h.head ▸ q.head_lt
  tail_lt := h.tail ▸ q.tail_lt
  head_eq := by rw [h.head, h.tail, h.count, q.head_eq]
  count_le := h.count ▸ q.count_le
  fill_eq data len := by
    rw [(RxRing.shows_fill hsize hcap h data len).queue_eq, h.queue_eq, h.count, Ring.toList_fill,
      Ring.room,
      Nat.min_def]
    congr 3
    split <;> split <;> omega
  drain_fst len := by
    rw [(RxRing.shows_drain hsize hcap h len).1, h.queue_eq, h.count, Ring.drain_eq_take,
      ← q.length_toList,
      ← List.take_eq_take_min]
  drain_snd len := by
    rw [(RxRing.shows_drain hsize hcap h len).2.queue_eq, h.queue_eq, h.count,
      Ring.toList_drain_eq_drop,
      ← q.length_toList, ← List.drop_eq_drop_min]

end

/-- After every sequence of fills and drains of the TCP ring and of the UDP ring, from the
empty ring, with any data and any lengths. -/
theorem receive_rings_fifo (r : RxRing) :
    ((ringLTS tcpFill tcpDrain).Reachable r → Fifo 8192 tcpFill tcpDrain r) ∧
    ((ringLTS udpFill udpDrain).Reachable r → Fifo 4096 udpFill udpDrain r) := by
  constructor
  · intro hr
    obtain ⟨q, hq⟩ := (@RxRing.shows_inductive 8192 8192 rfl (by decide) (by decide)).reachable r hr
    exact hq.fifo rfl (by decide)
  · intro hr
    obtain ⟨q, hq⟩ := (@RxRing.shows_inductive 4096 4096 rfl (by decide) (by decide)).reachable r hr
    exact hq.fifo rfl (by decide)

def emptyRing : RxRing := ⟨fun _ => 0, 0, 0, 0⟩

/-- Three bytes into the empty TCP ring, two out. -/
theorem receive_rings_fifo_two :
    (tcpDrain (tcpFill emptyRing (fun i => UInt8.ofNat (i + 1)) 3) 2).1 = [1, 2] := by
  have hr : (ringLTS tcpFill tcpDrain).Reachable
      (tcpFill emptyRing (fun i => UInt8.ofNat (i + 1)) 3) :=
    ⟨emptyRing, [.fill _ 3], ⟨rfl, rfl, rfl⟩, .cons rfl (.nil _)⟩
  rw [((receive_rings_fifo _).1 hr).drain_fst 2]
  decide

end HackersOs.L3.Net

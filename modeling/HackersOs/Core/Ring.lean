import Mathlib.Data.Nat.ModEq
import Mathlib.Tactic.Common

/-!
# Ring buffers

A ring of capacity `cap` with its write index, read index and count. The
record carries what makes it a queue: both indices are inside the buffer, the
count is at most the capacity, and the write index is `count` slots past the
read index. `fill` and `drain` are the copying loops as programs write them:
one element at a time, the index advanced modulo the capacity, the count
adjusted once at the end.

`toList` is the queue. `toList_fill` and `toList_drain`: filling appends what
fits, draining takes from the front.
-/
namespace HackersOs.Core

variable {buf src : Nat → α} {head n : Nat}

structure Ring (α : Type) (cap : Nat) where
  buf : Nat → α
  head : Nat
  tail : Nat
  count : Nat
  head_lt : head < cap
  tail_lt : tail < cap
  count_le : count ≤ cap
  head_eq : head = (tail + count) % cap

namespace Ring

variable {α : Type} {cap : Nat}

/-- The empty ring, over whatever the buffer holds. -/
def reset (buf : Nat → α) (h : 0 < cap) : Ring α cap :=
  ⟨buf, 0, 0, 0, h, h, Nat.zero_le _, (Nat.zero_mod cap).symm⟩

/-- `n` rounds of `buf[head] = src[i]; head = (head + 1) % cap`. -/
def fillLoop (cap : Nat) (src : Nat → α) (buf : Nat → α) (head : Nat) : Nat → (Nat → α) × Nat
  | 0 => (buf, head)
  | n + 1 =>
    let r := fillLoop cap src buf head n
    (fun j => if j = r.2 then src n else r.1 j, (r.2 + 1) % cap)

/-- `n` rounds of `dst[i] = buf[tail]; tail = (tail + 1) % cap`. -/
def drainLoop (cap : Nat) (buf : Nat → α) (tail : Nat) : Nat → List α × Nat
  | 0 => ([], tail)
  | n + 1 =>
    let r := drainLoop cap buf tail n
    (r.1 ++ [buf r.2], (r.2 + 1) % cap)

/-- What fits of `len` elements. -/
def room (r : Ring α cap) (len : Nat) : Nat := if len < cap - r.count then len else cap - r.count

theorem room_le (r : Ring α cap) (len : Nat) : r.room len ≤ len ∧ r.count + r.room len ≤ cap := by
  have := r.count_le
  unfold room
  split <;> omega

theorem fillLoop_head (h : head < cap) : (fillLoop cap src buf head n).2 = (head + n) % cap := by
  induction n with
  | zero => exact (Nat.mod_eq_of_lt h).symm
  | succ n ih => simp only [fillLoop, ih, Nat.mod_add_mod, Nat.add_assoc]

theorem drainLoop_tail {tail : Nat} (h : tail < cap) :
    (drainLoop cap buf tail n).2 = (tail + n) % cap := by
  induction n with
  | zero => exact (Nat.mod_eq_of_lt h).symm
  | succ n ih => simp only [drainLoop, ih, Nat.mod_add_mod, Nat.add_assoc]

/-- Copy in as much of `len` elements as fits. -/
def fill (r : Ring α cap) (src : Nat → α) (len : Nat) : Ring α cap where
  buf := (fillLoop cap src r.buf r.head (r.room len)).1
  head := (fillLoop cap src r.buf r.head (r.room len)).2
  tail := r.tail
  count := r.count + r.room len
  head_lt := by
    rw [fillLoop_head r.head_lt]
    exact Nat.mod_lt _ (Nat.zero_lt_of_lt r.head_lt)
  tail_lt := r.tail_lt
  count_le := (r.room_le len).2
  head_eq := by rw [fillLoop_head r.head_lt, r.head_eq, Nat.mod_add_mod, Nat.add_assoc]

theorem fillLoop_congr {src src' buf : Nat → α} {head n : Nat} (h : ∀ i, i < n → src i = src' i) :
    fillLoop cap src buf head n = fillLoop cap src' buf head n := by
  induction n with
  | zero => rfl
  | succ n ih => simp only [fillLoop, ih fun i hi => h i (Nat.lt_succ_of_lt hi),
      h n (Nat.lt_succ_self n)]

theorem fill_congr (r : Ring α cap) {src src' : Nat → α} {len : Nat}
    (h : ∀ i, i < len → src i = src' i) : r.fill src len = r.fill src' len := by
  unfold fill
  simp only [fillLoop_congr fun i hi => h i (Nat.lt_of_lt_of_le hi (r.room_le len).1)]

/-- How many elements a reader of `len` gets. -/
def avail (r : Ring α cap) (len : Nat) : Nat := if r.count < len then r.count else len

theorem avail_le (r : Ring α cap) (len : Nat) : r.avail len ≤ r.count := by
  unfold avail
  split <;> omega

/-- Copy out up to `len` elements. -/
def drain (r : Ring α cap) (len : Nat) : List α × Ring α cap :=
  ((drainLoop cap r.buf r.tail (r.avail len)).1,
   { buf := r.buf
     head := r.head
     tail := (drainLoop cap r.buf r.tail (r.avail len)).2
     count := r.count - r.avail len
     head_lt := r.head_lt
     tail_lt := by
      rw [drainLoop_tail r.tail_lt]
      exact Nat.mod_lt _ (Nat.zero_lt_of_lt r.head_lt)
     count_le := Nat.le_trans (Nat.sub_le _ _) r.count_le
     head_eq := by
      have := r.avail_le len
      rw [drainLoop_tail r.tail_lt, Nat.mod_add_mod, Nat.add_assoc, Nat.add_sub_cancel' this]
      exact r.head_eq })

/-! ## The queue -/

/-- The elements in the ring, oldest first. -/
def toList (r : Ring α cap) : List α :=
  (List.range r.count).map fun i => r.buf ((r.tail + i) % cap)

@[simp] theorem toList_reset (buf : Nat → α) (h : 0 < cap) : (reset buf h).toList = [] := rfl

@[simp] theorem length_toList (r : Ring α cap) : r.toList.length = r.count := by simp [toList]

/-- Slots within one turn of the ring are different. -/
theorem slot_inj {a i j : Nat} (hi : i < cap) (hj : j < cap)
    (h : (a + i) % cap = (a + j) % cap) : i = j := by
  have hm : i ≡ j [MOD cap] := Nat.ModEq.add_left_cancel' a h
  exact Nat.ModEq.eq_of_lt_of_lt hm hi hj

theorem fillLoop_old {j : Nat} (h : head < cap) (hj : ∀ i, i < n → j ≠ (head + i) % cap) :
    (fillLoop cap src buf head n).1 j = buf j := by
  induction n with
  | zero => rfl
  | succ n ih =>
    simp only [fillLoop, fillLoop_head h]
    rw [if_neg (hj n (Nat.lt_succ_self n)), ih fun i hi => hj i (Nat.lt_succ_of_lt hi)]

theorem fillLoop_new {i : Nat} (h : head < cap) (hn : n ≤ cap) (hi : i < n) :
    (fillLoop cap src buf head n).1 ((head + i) % cap) = src i := by
  induction n with
  | zero => omega
  | succ n ih =>
    simp only [fillLoop, fillLoop_head h]
    by_cases hin : i = n
    · rw [if_pos (by rw [hin]), hin]
    · rw [if_neg (fun e => hin (slot_inj (by omega) (by omega) e)), ih (by omega) (by omega)]

/-- Filling appends what fits. -/
theorem toList_fill (r : Ring α cap) (src : Nat → α) (len : Nat) :
    (r.fill src len).toList = r.toList ++ (List.range (r.room len)).map src := by
  obtain ⟨-, hroom⟩ := r.room_le len
  simp only [toList, fill, List.range_add, List.map_append, List.map_map]
  congr 1
  · refine List.map_congr_left fun i hi => ?_
    have hi' := List.mem_range.mp hi
    refine fillLoop_old r.head_lt fun k hk e => ?_
    -- an old slot is `i` past the tail, a new one `count + k`
    rw [r.head_eq, Nat.mod_add_mod, Nat.add_assoc] at e
    have := slot_inj (by omega) (by omega) e
    omega
  · refine List.map_congr_left fun i hi => ?_
    have hi' := List.mem_range.mp hi
    have hslot : (r.tail + (r.count + i)) % cap = (r.head + i) % cap := by
      rw [r.head_eq, Nat.mod_add_mod, Nat.add_assoc]
    simp only [Function.comp, hslot]
    exact fillLoop_new r.head_lt (by omega) hi'

theorem drainLoop_list {tail : Nat} (h : tail < cap) :
    (drainLoop cap buf tail n).1 = (List.range n).map fun i => buf ((tail + i) % cap) := by
  induction n with
  | zero => rfl
  | succ n ih => simp only [drainLoop, ih, drainLoop_tail h, List.range_succ, List.map_append,
      List.map_cons, List.map_nil]

/-- Draining splits the queue. -/
theorem toList_drain (r : Ring α cap) (len : Nat) :
    (r.drain len).1 ++ (r.drain len).2.toList = r.toList := by
  have hle := r.avail_le len
  simp only [drain, toList, drainLoop_list r.tail_lt, drainLoop_tail r.tail_lt]
  conv_rhs => rw [← Nat.add_sub_cancel' hle, List.range_add, List.map_append, List.map_map]
  congr 1
  refine List.map_congr_left fun i _ => ?_
  simp only [Function.comp, Nat.mod_add_mod, Nat.add_assoc]

theorem length_drain (r : Ring α cap) (len : Nat) : (r.drain len).1.length = min len r.count := by
  simp only [drain, drainLoop_list r.tail_lt, List.length_map, List.length_range, avail]
  split <;> omega

/-- What is drained is the front of the queue. -/
theorem drain_eq_take (r : Ring α cap) (len : Nat) : (r.drain len).1 = r.toList.take len := by
  have hle : (r.drain len).1.length ≤ len := by
    rw [length_drain]
    exact Nat.min_le_left _ _
  rw [← toList_drain r len, List.take_append, List.take_of_length_le hle, length_drain]
  by_cases h : len ≤ r.count
  · rw [Nat.min_eq_left h, Nat.sub_self, List.take_zero, List.append_nil]
  have hlen := congrArg List.length (toList_drain r len)
  simp only [List.length_append, length_drain, length_toList] at hlen
  have hnil : (r.drain len).2.toList = [] := by
    apply List.eq_nil_of_length_eq_zero
    rw [length_toList]
    omega
  rw [hnil, List.take_nil, List.append_nil]

theorem toList_drain_eq_drop (r : Ring α cap) (len : Nat) :
    (r.drain len).2.toList = r.toList.drop len := by
  have h := toList_drain r len
  rw [drain_eq_take] at h
  exact List.append_cancel_left (h.trans (List.take_append_drop len r.toList).symm)

end Ring

end HackersOs.Core

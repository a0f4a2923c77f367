import Mathlib.Algebra.Group.Nat.Defs
import Mathlib.Tactic.Common

/-!
# Byte memory with little-endian words

Memory is a total map from addresses to bytes. `readLE m a n` is the
little-endian value of the `n` bytes at `a`, `writeLE m a n v` stores the low
`n` bytes of `v` there. Everything a program proof needs is here: a read of
the written range gives the written value modulo `256 ^ n`, a read or a byte
outside it is untouched, and two memories that agree on a range read the same
there. `read64` / `write64` and `read32` / `write32` are the widths in use;
`bytesAt` is a range of memory as a list.
-/
namespace HackersOs.Core

variable {a b i k n v : Nat} {m m' src : Mem}

abbrev Mem := Nat → UInt8

def readLE (m : Mem) (a : Nat) : Nat → Nat
  | 0 => 0
  | n + 1 => (m a).toNat + 256 * readLE m (a + 1) n

def writeLE (m : Mem) (a n v : Nat) : Mem := fun i =>
  if a ≤ i ∧ i < a + n then UInt8.ofNat (v / 256 ^ (i - a)) else m i

theorem readLE_lt (m : Mem) (a n : Nat) : readLE m a n < 256 ^ n := by
  induction n generalizing a with
  | zero => simp [readLE]
  | succ n ih =>
    have h1 := ih (a + 1)
    have h2 := (m a).toNat_lt
    simp only [readLE, Nat.pow_succ]
    omega

theorem readLE_congr (h : ∀ i, a ≤ i → i < a + n → m i = m' i) : readLE m a n = readLE m' a n := by
  induction n generalizing a with
  | zero => rfl
  | succ n ih =>
    simp only [readLE]
    rw [h a (Nat.le_refl a) (by omega), ih fun i h1 h2 => h i (by omega) (by omega)]

/-- The bytes of `v`, laid out from `a`, read back as `v` modulo `256 ^ n`. -/
theorem readLE_of_bytes (h : ∀ j, j < n → m (a + j) = UInt8.ofNat (v / 256 ^ j)) :
    readLE m a n = v % 256 ^ n := by
  induction n generalizing a v with
  | zero => simp [readLE, Nat.mod_one]
  | succ n ih =>
    have h0 := h 0 (by omega)
    have htail : readLE m (a + 1) n = v / 256 % 256 ^ n := by
      refine ih fun j hj => ?_
      have := h (j + 1) (by omega)
      rw [show a + 1 + j = a + (j + 1) by omega, this, Nat.div_div_eq_div_mul, Nat.pow_succ',
        Nat.mul_comm]
    simp only [Nat.add_zero, Nat.pow_zero, Nat.div_one] at h0
    have e : 256 ^ (n + 1) = 256 * 256 ^ n := Nat.pow_succ'
    simp only [readLE]
    rw [htail, h0, UInt8.toNat_ofNat', e, Nat.mod_mul]

theorem writeLE_outside (h : i < a ∨ a + n ≤ i) : writeLE m a n v i = m i := if_neg (by omega)

theorem readLE_writeLE (m : Mem) (a n v : Nat) : readLE (writeLE m a n v) a n = v % 256 ^ n := by
  refine readLE_of_bytes fun j hj => ?_
  rw [writeLE, if_pos (by omega), Nat.add_sub_cancel_left]

theorem readLE_writeLE_disjoint (h : a + n ≤ b ∨ b + k ≤ a) :
    readLE (writeLE m a n v) b k = readLE m b k :=
  readLE_congr fun i _ _ => writeLE_outside (by omega)

def read64 (m : Mem) (a : Nat) : Nat := readLE m a 8
def write64 (m : Mem) (a v : Nat) : Mem := writeLE m a 8 v
def read32 (m : Mem) (a : Nat) : Nat := readLE m a 4
def write32 (m : Mem) (a v : Nat) : Mem := writeLE m a 4 v

theorem read64_lt (m : Mem) (a : Nat) : read64 m a < 2 ^ 64 := readLE_lt m a 8

theorem read64_write64 (h : v < 2 ^ 64) : read64 (write64 m a v) a = v := by
  unfold read64 write64
  rw [readLE_writeLE]; exact Nat.mod_eq_of_lt h

theorem read64_write64_ne (h : a + 8 ≤ b ∨ b + 8 ≤ a) :
    read64 (write64 m a v) b = read64 m b := readLE_writeLE_disjoint h

theorem write64_outside (h : i < a ∨ a + 8 ≤ i) : write64 m a v i = m i := writeLE_outside h

theorem read64_congr (h : ∀ i, a ≤ i → i < a + 8 → m i = m' i) :
    read64 m a = read64 m' a := readLE_congr h

/-- A store beside a word and the word, in any order. -/
theorem update_write64 {x : UInt8} (h : b < a ∨ a + 8 ≤ b) :
    Function.update (write64 m a v) b x = write64 (Function.update m b x) a v := by
  funext k
  by_cases hk : k = b
  · subst hk
    rw [Function.update_self, write64_outside h, Function.update_self]
  · rw [Function.update_of_ne hk]
    unfold write64 writeLE
    rw [Function.update_of_ne hk]

theorem write64_write64 (m : Mem) (a v v' : Nat) : write64 (write64 m a v) a v' = write64 m a v' := by
  funext k
  unfold write64 writeLE
  split <;> rfl

/-- `memset`: `n` bytes at `a` become `v`. -/
def fillBytes (m : Mem) (a n : Nat) (v : UInt8) : Mem := fun i =>
  if a ≤ i ∧ i < a + n then v else m i

theorem fillBytes_inside {v : UInt8} (h : a ≤ i) (h' : i < a + n) :
    fillBytes m a n v i = v := if_pos ⟨h, h'⟩

theorem fillBytes_outside {v : UInt8} (h : i < a ∨ a + n ≤ i) :
    fillBytes m a n v i = m i := if_neg (by omega)

theorem read64_fillBytes_zero (h : a ≤ b) (h' : b + 8 ≤ a + n) :
    read64 (fillBytes m a n 0) b = 0 := by
  have : readLE (fillBytes m a n 0) b 8 = 0 % 256 ^ 8 := by
    refine readLE_of_bytes fun j hj => ?_
    rw [fillBytes, if_pos (by omega)]; simp
  simpa [read64] using this

/-- `memcpy`: `n` bytes of `src` stored at `a`. -/
def blit (m : Mem) (a n : Nat) (src : Mem) : Mem := fun i =>
  if a ≤ i ∧ i < a + n then src (i - a) else m i

theorem blit_inside (h : a ≤ i) (h' : i < a + n) : blit m a n src i = src (i - a) := if_pos ⟨h, h'⟩

theorem blit_outside (h : i < a ∨ a + n ≤ i) : blit m a n src i = m i := if_neg (by omega)

theorem blit_congr {src' : Mem} (h : m i = m' i) (hsrc : ∀ j, j < n → src j = src' j) :
    blit m a n src i = blit m' a n src' i := by
  unfold blit
  split
  · exact hsrc _ (by omega)
  · exact h

theorem blit_self (m : Mem) (a n : Nat) : (blit m a n fun i => m (a + i)) = m := by
  funext x
  unfold blit
  split
  · rename_i h
    exact congrArg m (Nat.add_sub_cancel' h.1)
  · rfl

theorem readLE_shift (m : Mem) (a b n : Nat) :
    readLE (fun i => m (a + i)) b n = readLE m (a + b) n := by
  induction n generalizing b with
  | zero => rfl
  | succ n ih => simp only [readLE, ih, Nat.add_assoc]

/-- Equal bytes make equal words, wherever they stand. -/
theorem readLE_congr_at (h : ∀ j, j < n → m (a + j) = m' (b + j)) :
    readLE m a n = readLE m' b n := by
  rw [← Nat.add_zero a, ← Nat.add_zero b, ← readLE_shift, ← readLE_shift]
  refine readLE_congr fun i _ hi => h i (by omega)

/-- Equal words have equal bytes. -/
theorem bytes_of_readLE_eq (h : readLE m a n = readLE m' b n) :
    ∀ j, j < n → m (a + j) = m' (b + j) := by
  induction n generalizing a b with
  | zero => exact fun j hj => absurd hj (Nat.not_lt_zero j)
  | succ n ih =>
    have h1 := (m a).toNat_lt
    have h2 := (m' b).toNat_lt
    simp only [readLE] at h
    intro j hj
    cases j with
    | zero => exact UInt8.toNat_inj.mp (show (m a).toNat = (m' b).toNat by omega)
    | succ j =>
      have := @ih (a + 1) (b + 1) (by omega) j (by omega)
      rwa [Nat.add_assoc, Nat.add_assoc, Nat.add_comm 1 j] at this

/-- The `n` bytes at `a`. -/
def bytesAt (m : Mem) (a n : Nat) : List UInt8 := (List.range n).map fun i => m (a + i)

@[simp] theorem length_bytesAt (m : Mem) (a n : Nat) : (bytesAt m a n).length = n := by
  simp [bytesAt]

theorem bytesAt_add (m : Mem) (a n k : Nat) :
    bytesAt m a (n + k) = bytesAt m a n ++ bytesAt m (a + n) k := by
  simp [bytesAt, List.range_add, Nat.add_assoc]

theorem bytesAt_congr (h : ∀ i, i < n → m (a + i) = m' (b + i)) : bytesAt m a n = bytesAt m' b n :=
  List.map_congr_left fun i hi => h i (List.mem_range.mp hi)

theorem bytesAt_take (m : Mem) (a : Nat) (h : k ≤ n) : (bytesAt m a n).take k = bytesAt m a k := by
  simp [bytesAt, ← List.map_take, List.take_range, h]

/-- A word of a buffer filled from another memory. -/
theorem readLE_blit (h : b + k ≤ n) : readLE (blit m 0 n src) b k = readLE src b k :=
  readLE_congr fun i _ _ => if_pos (by omega)

end HackersOs.Core

import HackersOs.Core.Mem

/-!
# A run of 64-bit words in memory

A saved register frame or a context block is a list of consecutive 64-bit
words from a base register, with addresses computed in wrapping 64-bit
arithmetic. `wordAddr base k` is the address of word `k`; words of a frame of
fewer than `2 ^ 61` words never overlap, wherever the base is, also across
the end of the address space (`wordAddr_disjoint`). `storeWords` writes a
list of words, `loadWord` reads one back (`loadWord_storeWords`).
`toInt_toInt64` is a word as a signed number.
-/
namespace HackersOs.Core

theorem toInt_toInt64 (x : UInt64) :
    x.toInt64.toInt = if x.toNat < 2 ^ 63 then (x.toNat : Int) else x.toNat - (2 ^ 64 : Nat) := by
  change x.toBitVec.toInt = _
  rw [BitVec.toInt_eq_toNat_cond]
  change (if 2 * x.toNat < 2 ^ 64 then (x.toNat : Int) else x.toNat - (2 ^ 64 : Nat)) = _
  split <;> split <;> omega

def wordAddr (base : UInt64) (k : Nat) : Nat := (base + UInt64.ofNat (8 * k)).toNat

def loadWord (m : Mem) (base : UInt64) (k : Nat) : UInt64 :=
  UInt64.ofNat (read64 m (wordAddr base k))

def storeWord (m : Mem) (base : UInt64) (k : Nat) (v : UInt64) : Mem :=
  write64 m (wordAddr base k) v.toNat

/-- Store `vs` as the words `k, k + 1, …` from `base`. -/
def storeWords (m : Mem) (base : UInt64) : Nat → List UInt64 → Mem
  | _, [] => m
  | k, v :: vs => storeWords (storeWord m base k v) base (k + 1) vs

theorem wordAddr_disjoint (base : UInt64) {j k : Nat} (hj : j < 2 ^ 60) (hk : k < 2 ^ 60)
    (h : j ≠ k) :
    wordAddr base j + 8 ≤ wordAddr base k ∨ wordAddr base k + 8 ≤ wordAddr base j := by
  simp only [wordAddr, UInt64.toNat_add, UInt64.toNat_ofNat']
  omega

theorem loadWord_storeWord (m : Mem) (base : UInt64) (k : Nat) (v : UInt64) :
    loadWord (storeWord m base k v) base k = v := by
  unfold loadWord storeWord
  rw [read64_write64 v.toNat_lt, UInt64.ofNat_toNat]

theorem loadWord_storeWord_ne (m : Mem) (base : UInt64) {j k : Nat} (hj : j < 2 ^ 60)
    (hk : k < 2 ^ 60) (h : j ≠ k) (v : UInt64) :
    loadWord (storeWord m base k v) base j = loadWord m base j := by
  unfold loadWord storeWord
  rw [read64_write64_ne (wordAddr_disjoint base hk hj h.symm)]

theorem wordAddr_add (base : UInt64) (j k : Nat) :
    wordAddr (base + UInt64.ofNat (8 * j)) k = wordAddr base (j + k) := by
  unfold wordAddr
  rw [UInt64.add_assoc, ← UInt64.ofNat_add, ← Nat.mul_add]

/-- Two words that do not overlap. -/
def WordsApart (a : UInt64) (j : Nat) (b : UInt64) (k : Nat) : Prop :=
  wordAddr a j + 8 ≤ wordAddr b k ∨ wordAddr b k + 8 ≤ wordAddr a j

instance (a : UInt64) (j : Nat) (b : UInt64) (k : Nat) : Decidable (WordsApart a j b k) :=
  inferInstanceAs (Decidable (_ ∨ _))

theorem WordsApart.symm {a b : UInt64} {j k : Nat} (h : WordsApart a j b k) : WordsApart b k a j :=
  Or.symm h

theorem loadWord_storeWord_apart {a b : UInt64} {j k : Nat} (h : WordsApart a j b k) (m : Mem)
    (v : UInt64) : loadWord (storeWord m b k v) a j = loadWord m a j := by
  unfold loadWord storeWord
  rw [read64_write64_ne h.symm]

/-- Words below the stored run are untouched. -/
theorem loadWord_storeWords_lt (base : UInt64) (vs : List UInt64) :
    ∀ (m : Mem) (j k : Nat), j < k → k + vs.length ≤ 2 ^ 60 →
      loadWord (storeWords m base k vs) base j = loadWord m base j := by
  induction vs with
  | nil => intro m j k _ _; rfl
  | cons v vs ih =>
    intro m j k hj hk
    simp only [List.length_cons] at hk
    rw [storeWords, ih _ j (k + 1) (by omega) (by omega),
      loadWord_storeWord_ne m base (by omega) (by omega) (by omega)]

theorem loadWord_storeWords (base : UInt64) (vs : List UInt64) :
    ∀ (m : Mem) (k i : Nat) (v : UInt64), vs[i]? = some v → k + vs.length ≤ 2 ^ 60 →
      loadWord (storeWords m base k vs) base (k + i) = v := by
  induction vs with
  | nil => intro m k i v h _; simp at h
  | cons w vs ih =>
    intro m k i v h hk
    simp only [List.length_cons] at hk
    cases i with
    | zero =>
      simp only [List.getElem?_cons_zero, Option.some.injEq] at h; subst h
      have := loadWord_storeWords_lt base vs (storeWord m base k w) k (k + 1) (by omega) (by omega)
      exact this.trans (loadWord_storeWord m base k w)
    | succ i =>
      have := ih (storeWord m base k w) (k + 1) i v (by simpa using h) (by omega)
      rw [storeWords, show k + (i + 1) = k + 1 + i by omega, this]

end HackersOs.Core

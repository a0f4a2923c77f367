import Mathlib.Data.Nat.Bitwise
import HackersOs.L2Memory.PageForest

/-!
# The page allocator (`mm/pages.cpp`)

One bit per 4 KB page of RAM, first fit. `alloc_page` and `alloc_pages` zero
what they hand out.

Result: `allocPages_spec`, a nonzero answer of `alloc_pages(count)` is the address of
`count` pages inside the managed RAM that were all free and are now taken.
-/
namespace HackersOs.L2.Pages
open HackersOs.Core Mmu

def pageSize : Nat := 4096
def maxPages : Nat := 65536
/-- QEMU virt RAM start. -/
def memoryBase : Nat := 0x40000000

structure PageState where
  bitmap : Nat → Nat
  totalPages : Nat
  freePages : Nat

/-! ## The code -/

/-- mirrors src/mm/pages.cpp:17-19 -/
def bitmapSet (b : Nat → Nat) (page : Nat) : Nat → Nat := fun i =>
  if i = page / 8 then b i ||| (1 <<< (page % 8)) else b i

/-- mirrors src/mm/pages.cpp:21-23 -/
def bitmapClear (b : Nat → Nat) (page : Nat) : Nat → Nat := fun i =>
  if i = page / 8 then b i &&& (0xFF ^^^ (1 <<< (page % 8))) else b i

/-- mirrors src/mm/pages.cpp:25-27 -/
def bitmapTest (b : Nat → Nat) (page : Nat) : Bool :=
  b (page / 8) &&& (1 <<< (page % 8)) != 0

/-- `free_pages--` -/
def decFree (n : Nat) : Nat := (n + 2 ^ 64 - 1) % 2 ^ 64

/-- `for (j = start; j < start + count; j++) { bitmap_set(j); free_pages--; }` -/
def take (s : PageState) (start : Nat) : Nat → PageState
  | 0 => s
  | n + 1 =>
    let s' := take s start n
    { s' with bitmap := bitmapSet s'.bitmap (start + n), freePages := decFree s'.freePages }

/-- mirrors src/mm/pages.cpp:31-48; `heapStart` is the linker's `__heap_start`. -/
def init (totalMemory heapStart : Nat) : PageState :=
  let total := min (totalMemory / pageSize) maxPages
  let kernelEndPage := (heapStart + 2 ^ 64 - memoryBase + pageSize - 1) % 2 ^ 64 / pageSize
  take ⟨fun _ => 0, total, total⟩ 0 (min kernelEndPage total)

/-- The search of `alloc_page`: the first free page from `i` on, `n` to go. -/
def findFree (b : Nat → Nat) (i : Nat) : Nat → Option Nat
  | 0 => none
  | n + 1 => if bitmapTest b i then findFree b (i + 1) n else some i

/-- mirrors src/mm/pages.cpp:50-62 -/
def allocPage (s : PageState) (m : Mem) : PageState × Mem × Nat :=
  match findFree s.bitmap 0 s.totalPages with
  | none => (s, m, 0)
  | some i =>
    let addr := memoryBase + i * pageSize
    (take s i 1, fillBytes m addr pageSize 0, addr)

/-- mirrors src/mm/pages.cpp:64-71 -/
def freePage (s : PageState) (physAddr : Nat) : PageState :=
  if physAddr < memoryBase then s
  else
    let page := (physAddr - memoryBase) / pageSize
    if page < s.totalPages ∧ bitmapTest s.bitmap page then
      { s with bitmap := bitmapClear s.bitmap page, freePages := (s.freePages + 1) % 2 ^ 64 }
    else s

/-- The search of `alloc_pages`: the start of the first run of `count` free
pages, with `run` of them seen from `start` on. -/
def findRun (b : Nat → Nat) (count i run start : Nat) : Nat → Option Nat
  | 0 => none
  | n + 1 =>
    if bitmapTest b i then findRun b count (i + 1) 0 start n
    else
      let start' := if run = 0 then i else start
      if run + 1 = count then some start' else findRun b count (i + 1) (run + 1) start' n

/-- mirrors src/mm/pages.cpp:73-97 -/
def allocPages (s : PageState) (m : Mem) (count : Nat) : PageState × Mem × Nat :=
  match findRun s.bitmap count 0 0 0 s.totalPages with
  | none => (s, m, 0)
  | some start =>
    let addr := memoryBase + start * pageSize
    (take s start count, fillBytes m addr (count * pageSize) 0, addr)

/-! ## Bits -/

theorem bitmapTest_eq (b : Nat → Nat) (page : Nat) :
    bitmapTest b page = (b (page / 8)).testBit (page % 8) := by
  rw [bitmapTest, Nat.one_shiftLeft, Nat.and_two_pow]
  cases (b (page / 8)).testBit (page % 8) <;> simp

theorem bitmapTest_set (b : Nat → Nat) (page i : Nat) :
    bitmapTest (bitmapSet b page) i = (bitmapTest b i || decide (i = page)) := by
  rw [bitmapTest_eq, bitmapTest_eq, bitmapSet]
  split
  · rw [Nat.testBit_or, Nat.one_shiftLeft, Nat.testBit_two_pow]
    congr 1
    rw [decide_eq_decide]
    omega
  · rename_i h
    have : i ≠ page := fun e => h (by rw [e])
    simp [this]

theorem bitmapTest_clear (b : Nat → Nat) (page i : Nat) :
    bitmapTest (bitmapClear b page) i = (bitmapTest b i && !decide (i = page)) := by
  rw [bitmapTest_eq, bitmapTest_eq, bitmapClear]
  split
  · have hmask : ∀ a < 8, ∀ c < 8,
        (0xFF ^^^ (1 <<< a) : Nat).testBit c = !decide (c = a) := by decide
    rw [Nat.testBit_and, hmask _ (Nat.mod_lt _ (by decide)) _ (Nat.mod_lt _ (by decide))]
    congr 2
    rw [decide_eq_decide]
    omega
  · rename_i h
    have : i ≠ page := fun e => h (by rw [e])
    simp [this]

theorem bitmapTest_take (s : PageState) (start n i : Nat) : bitmapTest (take s start n).bitmap i =
      (bitmapTest s.bitmap i || decide (start ≤ i ∧ i < start + n)) := by
  induction n with
  | zero =>
    have : ¬ (start ≤ i ∧ i < start) := by omega
    simp [take, this]
  | succ n ih =>
    simp only [take, bitmapTest_set, ih, Bool.or_assoc]
    congr 1
    rw [← Bool.decide_or, decide_eq_decide]
    omega

theorem take_totalPages (s : PageState) (start n : Nat) :
    (take s start n).totalPages = s.totalPages := by
  induction n with
  | zero => rfl
  | succ n ih => simpa [take] using ih

/-! ## Searches -/

theorem findFree_spec {b : Nat → Nat} {i n j : Nat} (h : findFree b i n = some j) :
    i ≤ j ∧ j < i + n ∧ bitmapTest b j = false ∧ ∀ k, i ≤ k → k < j → bitmapTest b k = true := by
  induction n generalizing i with
  | zero => cases h
  | succ n ih =>
    rw [findFree] at h
    split at h
    · rename_i ht
      obtain ⟨h1, h2, h3, h4⟩ := ih h
      refine ⟨by omega, by omega, h3, fun k hk hk' => ?_⟩
      rcases Nat.eq_or_lt_of_le hk with rfl | hk
      · exact ht
      · exact h4 k hk hk'
    · rename_i ht
      cases h
      exact ⟨Nat.le_refl _, by omega, by simpa using ht, fun k _ _ => by omega⟩

theorem findFree_none {b : Nat → Nat} {i n : Nat} (h : findFree b i n = none) :
    ∀ k, i ≤ k → k < i + n → bitmapTest b k = true := by
  induction n generalizing i with
  | zero => intro k hk hk'; omega
  | succ n ih =>
    rw [findFree] at h
    split at h
    · rename_i ht
      intro k hk hk'
      rcases Nat.eq_or_lt_of_le hk with rfl | hk
      · exact ht
      · exact ih h k hk (by omega)
    · cases h

/-- The run found so far is free pages `start .. i`. -/
theorem findRun_spec {b : Nat → Nat} {count i run start n r : Nat}
    (hrun : 0 < run → start + run = i)
    (hfree : ∀ k, start ≤ k → k < start + run → bitmapTest b k = false)
    (h : findRun b count i run start n = some r) :
    r + count ≤ i + n ∧ 0 < count ∧ ∀ k, r ≤ k → k < r + count → bitmapTest b k = false := by
  induction n generalizing i run start with
  | zero => cases h
  | succ n ih =>
    rw [findRun] at h
    split at h
    · obtain ⟨h1, h2, h3⟩ := ih (fun h0 => absurd h0 (Nat.lt_irrefl 0)) (fun k _ _ => by omega) h
      exact ⟨by omega, h2, h3⟩
    rename_i ht
    have hst : (if run = 0 then i else start) + run = i := by
      split
      · omega
      · exact hrun (by omega)
    have hall : ∀ k, (if run = 0 then i else start) ≤ k →
        k < (if run = 0 then i else start) + (run + 1) → bitmapTest b k = false := by
      intro k hk hk'
      by_cases hki : k = i
      · subst hki; simpa using ht
      · split at hk
        · omega
        · exact hfree k hk (by omega)
    generalize (if run = 0 then i else start) = start' at hst hall h
    split at h
    · rename_i hc
      cases h
      exact ⟨by omega, by omega, hc ▸ hall⟩
    · obtain ⟨h1, h2, h3⟩ := ih (fun _ => by omega) hall h
      exact ⟨by omega, h2, h3⟩

/-- The answer of `alloc_pages`: 0 and nothing happened, or the first of
`count` pages that were free, are inside the managed RAM and are taken now. -/
theorem allocPages_spec (s : PageState) (m : Mem) (count : Nat) : allocPages s m count = (s, m, 0) ∨
    ∃ start, (allocPages s m count).2.2 = memoryBase + start * pageSize ∧
      start + count ≤ s.totalPages ∧
      (∀ k, start ≤ k → k < start + count → bitmapTest s.bitmap k = false) ∧
      (∀ k, bitmapTest (allocPages s m count).1.bitmap k =
        (bitmapTest s.bitmap k || decide (start ≤ k ∧ k < start + count))) := by
  unfold allocPages
  cases h : findRun s.bitmap count 0 0 0 s.totalPages with
  | none => exact .inl rfl
  | some start =>
    obtain ⟨h1, -, h3⟩ := findRun_spec (fun h0 => absurd h0 (Nat.lt_irrefl 0))
      (fun k _ _ => by omega) h
    exact .inr ⟨start, rfl, by omega, h3, fun k => bitmapTest_take s start count k⟩

end HackersOs.L2.Pages

import HackersOs.Core.LTS
import HackersOs.L2Memory.Pages

/-!
# Who owns a page

The page allocator with the pages its clients hold. A client frees only pages
it holds; what else `free_page` may be called with is `freePage_eq_self`.

`Owned` is the invariant of all runs from `init`: the set bits are the pages of
the kernel image and the pages held, and `free_pages` is the number of clear
bits, so the counter never wraps.

Result: `page_ownership`.
-/
namespace HackersOs.L2.Pages
open HackersOs.Core Mmu

variable {i n start : Nat}

/-! ## The system -/

structure PageSys where
  pages : PageState
  mem : Mem
  /-- ghost: the page is handed out and not freed since -/
  handed : Nat → Bool

inductive PageCall where
  | allocPage
  | allocPages (count : Nat)
  | freePage (physAddr : Nat)
  deriving DecidableEq, Repr

/-- The number of pages a call asks for. -/
def PageCall.count : PageCall → Nat
  | .allocPage => 1
  | .allocPages count => count
  | .freePage _ => 0

def pageOf (physAddr : Nat) : Nat := (physAddr - memoryBase) / pageSize

/-- The pages held after `count` pages were answered at `addr`. -/
def hand (handed : Nat → Bool) (addr count : Nat) : Nat → Bool := fun i =>
  handed i || decide (addr ≠ 0 ∧ pageOf addr ≤ i ∧ i < pageOf addr + count)

def PageSys.exec (s : PageSys) : PageCall → PageSys × Nat
  | .allocPage =>
    let r := allocPage s.pages s.mem
    (⟨r.1, r.2.1, hand s.handed r.2.2 1⟩, r.2.2)
  | .allocPages count =>
    let r := allocPages s.pages s.mem count
    (⟨r.1, r.2.1, hand s.handed r.2.2 count⟩, r.2.2)
  | .freePage physAddr =>
    (⟨freePage s.pages physAddr, s.mem, fun i => s.handed i && i != pageOf physAddr⟩, 0)

/-- What a client may call: `free_page` of an address in a page handed out. -/
def Admitted (s : PageSys) : PageCall → Prop
  | .freePage physAddr => memoryBase ≤ physAddr ∧ s.handed (pageOf physAddr) = true
  | _ => True

/-- Any boot, then any calls; a label is a call with its answer. -/
def pageLTS (heapStart : Nat) : LTS PageSys (PageCall × Nat) where
  init s := ∃ totalMemory < 2 ^ 64, s.pages = init totalMemory heapStart ∧ s.handed = fun _ => false
  step s l s' := Admitted s l.1 ∧ s.exec l.1 = (s', l.2)

/-! ## Clear bits -/

def clearBits (b : Nat → Nat) (n : Nat) : Nat :=
  (List.range n).countP fun i => !bitmapTest b i

theorem countP_range_congr {p q : Nat → Bool} (h : ∀ j, j < n → q j = p j) :
    (List.range n).countP q = (List.range n).countP p :=
  List.countP_congr fun j hj => by rw [h j (List.mem_range.mp hj)]

/-- Two predicates that differ at one number below `n`. -/
theorem countP_range_flip {p q : Nat → Bool} (hi : i < n) (hp : p i = true) (hq : q i = false)
    (h : ∀ j, j ≠ i → q j = p j) : (List.range n).countP q + 1 = (List.range n).countP p := by
  induction n with
  | zero => omega
  | succ n ih =>
    rw [List.range_succ, List.countP_append, List.countP_append, List.countP_singleton,
      List.countP_singleton]
    by_cases hn : i = n
    · subst hn
      rw [countP_range_congr fun j hj => h j (by omega), hp, hq]
      rfl
    · rw [h n (Ne.symm hn), ← ih (by omega)]
      omega

theorem clearBits_set {b : Nat → Nat} (hi : i < n) (h : bitmapTest b i = false) :
    clearBits (bitmapSet b i) n + 1 = clearBits b n := by
  refine countP_range_flip hi (by simp [h]) (by simp [bitmapTest_set]) fun j hj => ?_
  simp [bitmapTest_set, hj]

theorem clearBits_clear {b : Nat → Nat} (hi : i < n) (h : bitmapTest b i = true) :
    clearBits b n + 1 = clearBits (bitmapClear b i) n := by
  refine countP_range_flip hi (by simp [bitmapTest_clear]) (by simp [h]) fun j hj => ?_
  simp [bitmapTest_clear, hj]

theorem clearBits_le (b : Nat → Nat) (n : Nat) : clearBits b n ≤ n := by
  have := List.countP_le_length (l := List.range n) (p := fun i => !bitmapTest b i)
  rwa [List.length_range] at this

/-- `free_pages` counts the clear bits. -/
structure Counted (s : PageState) : Prop where
  small : s.totalPages ≤ maxPages
  free : s.freePages = clearBits s.bitmap s.totalPages

theorem Counted.take {s : PageState} (h : Counted s) (hn : start + n ≤ s.totalPages)
    (hfree : ∀ k, start ≤ k → k < start + n → bitmapTest s.bitmap k = false) :
    Counted (take s start n) := by
  induction n with
  | zero => exact h
  | succ n ih =>
    obtain ⟨hs, hf⟩ := ih (by omega) fun k hk hk' => hfree k hk (by omega)
    have htot := take_totalPages s start n
    have hclear : bitmapTest (Pages.take s start n).bitmap (start + n) = false := by
      have : ¬ (start ≤ start + n ∧ start + n < start + n) := by omega
      rw [bitmapTest_take, hfree _ (by omega) (by omega), decide_eq_false this]
      rfl
    have hlt : start + n < (Pages.take s start n).totalPages := by omega
    have hset := clearBits_set hlt hclear
    have hle := clearBits_le (Pages.take s start n).bitmap (Pages.take s start n).totalPages
    refine ⟨hs, ?_⟩
    -- one bit was clear, so the counter was positive and does not wrap
    rw [Pages.take]
    dsimp only
    unfold decFree
    unfold maxPages at hs
    omega

theorem Counted.freePage {s : PageState} (h : Counted s) (physAddr : Nat) :
    Counted (freePage s physAddr) := by
  unfold Pages.freePage
  split
  · exact h
  dsimp only
  split
  · rename_i hset
    obtain ⟨hs, hf⟩ := h
    have hclear := clearBits_clear hset.1 hset.2
    have hle := clearBits_le (bitmapClear s.bitmap ((physAddr - memoryBase) / pageSize)) s.totalPages
    refine ⟨hs, ?_⟩
    dsimp only
    unfold maxPages at hs
    omega
  · exact h

theorem clearBits_zero (n : Nat) : clearBits (fun _ => 0) n = n := by
  have : clearBits (fun _ => 0) n = (List.range n).length :=
    List.countP_eq_length.mpr fun i _ => by simp [bitmapTest]
  rw [this, List.length_range]

theorem counted_init (totalMemory heapStart : Nat) : Counted (init totalMemory heapStart) := by
  refine Counted.take ⟨Nat.min_le_right _ _, (clearBits_zero _).symm⟩ ?_ fun k _ _ => ?_
  · dsimp only
    omega
  · simp [bitmapTest]

/-! ## Ownership -/

/-- A page of RAM that starts before the end of the kernel image. -/
def KernelPage (heapStart i : Nat) : Prop := memoryBase + i * pageSize < heapStart

structure Owned (heapStart : Nat) (s : PageSys) : Prop where
  counted : Counted s.pages
  bits : ∀ i, i < s.pages.totalPages →
    (bitmapTest s.pages.bitmap i = true ↔ KernelPage heapStart i ∨ s.handed i = true)
  inside : ∀ i, s.handed i = true → i < s.pages.totalPages ∧ ¬ KernelPage heapStart i

theorem pageOf_frame (i : Nat) : pageOf (memoryBase + i * pageSize) = i := by
  unfold pageOf pageSize
  omega

section
variable {heapStart : Nat} {s : PageSys}

/-- `kernel_end_page` is the end of the pages of the kernel image. -/
theorem lt_kernelEndPage_iff (hbase : memoryBase ≤ heapStart) (hend : heapStart < 2 ^ 64) (i : Nat) :
    i < (heapStart + 2 ^ 64 - memoryBase + pageSize - 1) % 2 ^ 64 / pageSize ↔
      KernelPage heapStart i := by
  have hwrap : (heapStart + 2 ^ 64 - memoryBase + pageSize - 1) % 2 ^ 64 =
      heapStart - memoryBase + pageSize - 1 := by
    unfold memoryBase pageSize at *
    omega
  rw [hwrap]
  unfold KernelPage memoryBase pageSize at *
  omega

theorem bitmapTest_take_empty (total e i : Nat) :
    bitmapTest (take ⟨fun _ => 0, total, total⟩ 0 e).bitmap i = decide (i < e) := by
  rw [bitmapTest_take]
  simp [bitmapTest]

theorem bitmapTest_init (totalMemory heapStart i : Nat) :
    bitmapTest (init totalMemory heapStart).bitmap i =
      decide (i < min ((heapStart + 2 ^ 64 - memoryBase + pageSize - 1) % 2 ^ 64 / pageSize)
        (min (totalMemory / pageSize) maxPages)) :=
  bitmapTest_take_empty _ _ _

theorem totalPages_init (totalMemory heapStart : Nat) :
    (init totalMemory heapStart).totalPages = min (totalMemory / pageSize) maxPages :=
  take_totalPages _ _ _

theorem owned_init {totalMemory : Nat} (hbase : memoryBase ≤ heapStart) (hend : heapStart < 2 ^ 64)
    (hp : s.pages = init totalMemory heapStart) (hh : s.handed = fun _ => false) :
    Owned heapStart s := by
  refine ⟨hp ▸ counted_init totalMemory heapStart, fun i hi => ?_, fun i hi => ?_⟩
  · rw [hp, totalPages_init] at hi
    rw [hp, bitmapTest_init, decide_eq_true_eq, hh, Nat.lt_min, lt_kernelEndPage_iff hbase hend]
    simp only [hi, and_true, Bool.false_eq_true, or_false]
  · rw [hh] at hi
    cases hi

/-- What a search that succeeds does to the bits and the pages held. -/
theorem Owned.take (h : Owned heapStart s) (hn : start + n ≤ s.pages.totalPages)
    (hfree : ∀ k, start ≤ k → k < start + n → bitmapTest s.pages.bitmap k = false) (m : Mem) :
    Owned heapStart ⟨take s.pages start n, m, hand s.handed (memoryBase + start * pageSize) n⟩ := by
  have hne : memoryBase + start * pageSize ≠ 0 := by unfold memoryBase; omega
  have hhand : ∀ i, hand s.handed (memoryBase + start * pageSize) n i =
      (s.handed i || decide (start ≤ i ∧ i < start + n)) := by
    intro i
    unfold hand
    rw [pageOf_frame]
    simp only [ne_eq, hne, not_false_eq_true, true_and]
  refine ⟨h.counted.take hn hfree, fun i hi => ?_, fun i hi => ?_⟩
  · rw [take_totalPages] at hi
    dsimp only
    rw [bitmapTest_take, hhand, Bool.or_eq_true, Bool.or_eq_true, h.bits i hi, or_assoc]
  · dsimp only at hi ⊢
    rw [take_totalPages]
    rw [hhand, Bool.or_eq_true, decide_eq_true_eq] at hi
    rcases hi with hi | hi
    · exact h.inside i hi
    · refine ⟨by omega, fun hk => ?_⟩
      have hset := (h.bits i (by omega)).mpr (.inl hk)
      rw [hfree i hi.1 hi.2] at hset
      cases hset

/-- `free_page` of an address outside the managed RAM or in a free page. -/
theorem freePage_eq_self {p : PageState} {physAddr : Nat}
    (h : physAddr < memoryBase ∨ memoryBase + p.totalPages * pageSize ≤ physAddr ∨
      bitmapTest p.bitmap (pageOf physAddr) = false) : freePage p physAddr = p := by
  unfold Pages.freePage
  split
  · rfl
  rename_i hge
  refine if_neg fun hset => ?_
  rcases h with h | h | h
  · exact hge h
  · have := hset.1
    unfold pageSize at *
    omega
  · exact absurd (h.symm.trans hset.2) Bool.false_ne_true

theorem Owned.freePage (h : Owned heapStart s) {physAddr : Nat}
    (ha : Admitted s (.freePage physAddr)) : Owned heapStart (s.exec (.freePage physAddr)).1 := by
  obtain ⟨hge, hhand⟩ := ha
  obtain ⟨hlt, hnk⟩ := h.inside _ hhand
  have hset := (h.bits _ hlt).mpr (.inr hhand)
  have hfree : Pages.freePage s.pages physAddr =
      { s.pages with
        bitmap := bitmapClear s.pages.bitmap (pageOf physAddr)
        freePages := (s.pages.freePages + 1) % 2 ^ 64 } := by
    unfold Pages.freePage
    rw [if_neg (Nat.not_lt.mpr hge)]
    exact if_pos ⟨hlt, hset⟩
  refine ⟨h.counted.freePage physAddr, fun i hi => ?_, fun i hi => ?_⟩
  · simp only [PageSys.exec, hfree] at hi ⊢
    rw [bitmapTest_clear, Bool.and_eq_true, Bool.and_eq_true, h.bits i hi]
    by_cases he : i = pageOf physAddr
    · subst he
      simp [hnk]
    · simp [he]
  · simp only [PageSys.exec, hfree] at hi ⊢
    rw [Bool.and_eq_true] at hi
    exact h.inside i hi.1

theorem Owned.exec (h : Owned heapStart s) {c : PageCall} (ha : Admitted s c) :
    Owned heapStart (s.exec c).1 := by
  have hid : ∀ n, hand s.handed 0 n = s.handed := fun n => by funext i; simp [hand]
  cases c with
  | allocPage =>
    dsimp only [PageSys.exec, allocPage]
    cases hf : findFree s.pages.bitmap 0 s.pages.totalPages with
    | none =>
      rw [hid]
      exact ⟨h.counted, h.bits, h.inside⟩
    | some i =>
      obtain ⟨-, hi, hfree, -⟩ := findFree_spec hf
      refine h.take (by omega) (fun k hk hk' => ?_) _
      obtain rfl : k = i := by omega
      exact hfree
  | allocPages count =>
    dsimp only [PageSys.exec, allocPages]
    cases hf : findRun s.pages.bitmap count 0 0 0 s.pages.totalPages with
    | none =>
      rw [hid]
      exact ⟨h.counted, h.bits, h.inside⟩
    | some start =>
      obtain ⟨hle, -, hfree⟩ :=
        findRun_spec (fun h0 => absurd h0 (Nat.lt_irrefl 0)) (fun k _ _ => by omega) hf
      exact h.take (by omega) hfree _
  | freePage physAddr => exact h.freePage ha

theorem owned_inductive (hbase : memoryBase ≤ heapStart) (hend : heapStart < 2 ^ 64) :
    (pageLTS heapStart).Inductive (Owned heapStart) where
  init := by
    rintro s ⟨totalMemory, -, hp, hh⟩
    exact owned_init hbase hend hp hh
  step := by
    rintro s ⟨c, a⟩ s' h ⟨ha, he⟩
    have := h.exec ha
    rwa [he] at this

/-! ## Answers -/

/-- An answer of a call: aligned, inside the managed RAM, and its pages neither
handed out nor of the kernel image. -/
structure GoodAnswer (heapStart : Nat) (s : PageSys) (addr count : Nat) : Prop where
  aligned : addr % pageSize = 0
  low : memoryBase ≤ addr
  high : addr + count * pageSize ≤ memoryBase + s.pages.totalPages * pageSize
  fresh : ∀ i, pageOf addr ≤ i → i < pageOf addr + count →
    s.handed i = false ∧ ¬ KernelPage heapStart i

theorem Owned.good (h : Owned heapStart s) (hn : start + n ≤ s.pages.totalPages)
    (hfree : ∀ k, start ≤ k → k < start + n → bitmapTest s.pages.bitmap k = false) :
    GoodAnswer heapStart s (memoryBase + start * pageSize) n := by
  refine ⟨?_, by omega, ?_, fun i hi hi' => ?_⟩
  · unfold memoryBase pageSize
    omega
  · unfold pageSize
    omega
  · rw [pageOf_frame] at hi hi'
    have hset := mt (h.bits i (by omega)).mpr (by rw [hfree i hi hi']; exact Bool.false_ne_true)
    rw [not_or] at hset
    exact ⟨Bool.eq_false_iff.mpr hset.2, hset.1⟩

theorem Owned.answer (h : Owned heapStart s) (c : PageCall) (hne : (s.exec c).2 ≠ 0) :
    GoodAnswer heapStart s (s.exec c).2 c.count := by
  cases c with
  | allocPage =>
    revert hne
    dsimp only [PageSys.exec, allocPage]
    cases hf : findFree s.pages.bitmap 0 s.pages.totalPages with
    | none => exact fun hne => absurd rfl hne
    | some i =>
      intro _
      obtain ⟨-, hi, hfree, -⟩ := findFree_spec hf
      refine h.good (by simp only [PageCall.count]; omega) fun k hk hk' => ?_
      obtain rfl : k = i := by simp only [PageCall.count] at hk'; omega
      exact hfree
  | allocPages count =>
    revert hne
    dsimp only [PageSys.exec, allocPages]
    cases hf : findRun s.pages.bitmap count 0 0 0 s.pages.totalPages with
    | none => exact fun hne => absurd rfl hne
    | some start =>
      intro _
      obtain ⟨hle, -, hfree⟩ :=
        findRun_spec (fun h0 => absurd h0 (Nat.lt_irrefl 0)) (fun k _ _ => by omega) hf
      exact h.good (by simp only [PageCall.count]; omega) hfree
  | freePage physAddr => exact absurd rfl hne

/-- Page ownership in every run: the set bits are the kernel image and the
pages handed out, `free_pages` is the number of clear bits, every answer is a
run of pages nobody holds, and `free_page` elsewhere does nothing. -/
theorem page_ownership (hbase : memoryBase ≤ heapStart) (hend : heapStart < 2 ^ 64)
    (hr : (pageLTS heapStart).Reachable s) : (∀ i, i < s.pages.totalPages →
      (bitmapTest s.pages.bitmap i = true ↔ KernelPage heapStart i ∨ s.handed i = true)) ∧
    (∀ i, s.handed i = true → i < s.pages.totalPages ∧ ¬ KernelPage heapStart i) ∧
    s.pages.freePages = clearBits s.pages.bitmap s.pages.totalPages ∧
    (∀ c, (s.exec c).2 ≠ 0 → GoodAnswer heapStart s (s.exec c).2 c.count) ∧ (∀ physAddr < 2 ^ 64,
      (physAddr < memoryBase ∨ memoryBase + s.pages.totalPages * pageSize ≤ physAddr ∨
        bitmapTest s.pages.bitmap (pageOf physAddr) = false) →
      freePage s.pages physAddr = s.pages) := by
  have h := (owned_inductive hbase hend).reachable s hr
  exact ⟨h.bits, h.inside, h.counted.free, h.answer, fun physAddr _ hout => freePage_eq_self hout⟩

end

/-- 16 pages of RAM, two of them kernel image, and two pages handed out. -/
def demoPages : PageSys :=
  ((⟨init 0x10000 0x40002000, fun _ => 0, fun _ => false⟩ : PageSys).exec (.allocPages 2)).1

/-- Twelve pages are left, and the next three answered start at the fifth. -/
theorem page_ownership_demo : clearBits demoPages.pages.bitmap demoPages.pages.totalPages = 12 ∧
    GoodAnswer 0x40002000 demoPages 0x40004000 3 := by
  have hr : (pageLTS 0x40002000).Reachable demoPages :=
    ⟨_, [(.allocPages 2, 0x40002000)], ⟨0x10000, by decide, rfl, rfl⟩,
      .cons ⟨trivial, Prod.ext rfl (by decide)⟩ (.nil _)⟩
  obtain ⟨-, -, hfree, hgood, -⟩ := page_ownership (by decide) (by decide) hr
  have haddr : (demoPages.exec (.allocPages 3)).2 = 0x40004000 := by decide
  have hgood3 := hgood (.allocPages 3) (by rw [haddr]; decide)
  rw [haddr] at hgood3
  exact ⟨hfree.symm.trans (by decide), hgood3⟩

end HackersOs.L2.Pages

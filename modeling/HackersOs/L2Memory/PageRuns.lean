import HackersOs.L2Memory.Pages

/-!
# Runs of free pages

`alloc_pages` scans the bitmap once and counts the free pages it has seen in a
row. `findRun_misses_none` is the scan's invariant: every run that starts
before the pages counted so far has a used page that was passed already.

Result: `alloc_pages_first_fit`: the answer is the lowest run of `count` free
pages, exactly these pages get marked, and 0 is answered, with nothing
changed, exactly when there is no such run.
-/
namespace HackersOs.L2.Pages
open HackersOs.Core

/-- `count` free pages of the managed RAM, from `start` on. -/
structure FreeRun (s : PageState) (count start : Nat) : Prop where
  inside : start + count ≤ s.totalPages
  free : ∀ k, start ≤ k → k < start + count → bitmapTest s.bitmap k = false

/-- What taking the run at `start` leaves and answers. -/
structure TakesRun (s : PageState) (m : Mem) (count start : Nat) (r : PageState × Mem × Nat) :
    Prop where
  answer : r.2.2 = memoryBase + start * pageSize
  marks : ∀ k, bitmapTest r.1.bitmap k =
    (bitmapTest s.bitmap k || decide (start ≤ k ∧ k < start + count))
  total : r.1.totalPages = s.totalPages
  /-- `free_pages` is a 64-bit counter -/
  counter : (r.1.freePages + count) % 2 ^ 64 = s.freePages % 2 ^ 64
  lowered : count ≤ s.freePages → s.freePages < 2 ^ 64 → r.1.freePages + count = s.freePages
  zeroed : r.2.1 = fillBytes m r.2.2 (count * pageSize) 0

/-! ## The scan -/

section
variable {b : Nat → Nat} {count : Nat}

/-- A used page stands in the way of a run at `j`. -/
def Blocked (b : Nat → Nat) (count j : Nat) : Prop :=
  ∃ k, j ≤ k ∧ k < j + count ∧ bitmapTest b k = true

/-- The scan passes no run: whatever starts below its answer, or anywhere in
the pages looked at when there is no answer, is blocked. -/
theorem findRun_misses_none {i run start n j : Nat} (hrun : 0 < run → start + run = i)
    (hlt : run < count) (hpast : ∀ j, j + run < i → Blocked b count j)
    (hj : j + count ≤ i + n) (hbelow : ∀ r, findRun b count i run start n = some r → j < r) :
    Blocked b count j := by
  induction n generalizing i run start with
  | zero =>
    apply hpast
    omega
  | succ n ih =>
    rw [findRun] at hbelow
    by_cases ht : bitmapTest b i = true
    · rw [if_pos ht] at hbelow
      refine ih (fun h0 => absurd h0 (Nat.lt_irrefl 0)) (by omega) ?_ (by omega) hbelow
      intro j' hj'
      by_cases hold : j' + run < i
      · exact hpast j' hold
      · -- page `i` is used and lies in the window of every start in the pages counted
        exact ⟨i, by omega, by omega, ht⟩
    · rw [if_neg ht] at hbelow
      have hstart : (if run = 0 then i else start) + run = i := by
        split
        · omega
        · exact hrun (by omega)
      generalize (if run = 0 then i else start) = start' at hstart hbelow
      by_cases hc : run + 1 = count
      · rw [if_pos hc] at hbelow
        have := hbelow start' rfl
        apply hpast
        omega
      · rw [if_neg hc] at hbelow
        refine ih (fun _ => by omega) (by omega) (fun j' hj' => ?_) (by omega) hbelow
        apply hpast
        omega

end

/-! ## The counter -/

theorem take_counter (s : PageState) (start n : Nat) :
    ((take s start n).freePages + n) % 2 ^ 64 = s.freePages % 2 ^ 64 := by
  induction n with
  | zero => rfl
  | succ n ih =>
    simp only [take, decFree]
    omega

theorem take_lowers {s : PageState} {start n : Nat} (hn : n ≤ s.freePages)
    (hs : s.freePages < 2 ^ 64) : (take s start n).freePages + n = s.freePages := by
  induction n with
  | zero => rfl
  | succ n ih =>
    have := ih (by omega)
    simp only [take, decFree]
    omega

/-! ## First fit -/

section
variable {s : PageState} {count : Nat}

theorem FreeRun.not_blocked {j : Nat} (h : FreeRun s count j) : ¬ Blocked s.bitmap count j := by
  intro ⟨k, h1, h2, hk⟩
  rw [h.free k h1 h2] at hk
  cases hk

/-- The scan of `alloc_pages` from the first page on finds the lowest run. -/
theorem findRun_first (hc : 1 ≤ count) {r : Nat}
    (h : findRun s.bitmap count 0 0 0 s.totalPages = some r) :
    FreeRun s count r ∧ ∀ j < r, ¬ FreeRun s count j := by
  obtain ⟨hend, -, hfree⟩ :=
    findRun_spec (fun h0 => absurd h0 (Nat.lt_irrefl 0)) (fun k _ _ => by omega) h
  rw [Nat.zero_add] at hend
  refine ⟨⟨hend, hfree⟩, fun j hj hrun => hrun.not_blocked ?_⟩
  refine @findRun_misses_none s.bitmap count 0 0 0 s.totalPages j
    (fun h0 => absurd h0 (Nat.lt_irrefl 0))
    hc (fun j' hj' => by omega) (by omega) fun r' hr' => ?_
  rw [h] at hr'
  cases hr'
  exact hj

theorem findRun_none (hc : 1 ≤ count)
    (h : findRun s.bitmap count 0 0 0 s.totalPages = none) (j : Nat) : ¬ FreeRun s count j := by
  intro hrun
  have hin := hrun.inside
  refine hrun.not_blocked (@findRun_misses_none s.bitmap count 0 0 0 s.totalPages j
    (fun h0 => absurd h0 (Nat.lt_irrefl 0)) hc (fun j' hj' => by omega) (by omega) fun r' hr' => ?_)
  rw [h] at hr'
  cases hr'

theorem takesRun (s : PageState) (m : Mem) (count start : Nat) :
    TakesRun s m count start (take s start count,
      fillBytes m (memoryBase + start * pageSize) (count * pageSize) 0,
      memoryBase + start * pageSize) where
  answer := rfl
  marks := bitmapTest_take s start count
  total := take_totalPages s start count
  counter := take_counter s start count
  lowered := take_lowers
  zeroed := rfl

/-- `alloc_pages(count)` takes the lowest run of `count` free pages; it answers 0
and changes nothing exactly when there is none. -/
theorem alloc_pages_first_fit (s : PageState) (m : Mem) (hc : 1 ≤ count) :
    (∀ start, FreeRun s count start → (∀ j < start, ¬ FreeRun s count j) →
      TakesRun s m count start (allocPages s m count)) ∧
    (allocPages s m count = (s, m, 0) ↔ ∀ start, ¬ FreeRun s count start) ∧
    ((allocPages s m count).2.2 = 0 ↔ ∀ start, ¬ FreeRun s count start) := by
  unfold allocPages
  cases h : findRun s.bitmap count 0 0 0 s.totalPages with
  | none =>
    have hno := findRun_none hc h
    exact ⟨fun start hrun _ => absurd hrun (hno start), ⟨fun _ => hno, fun _ => rfl⟩,
      fun _ => hno, fun _ => rfl⟩
  | some r =>
    obtain ⟨hr, hlow⟩ := findRun_first hc h
    have hne : memoryBase + r * pageSize ≠ 0 := by simp only [memoryBase]; omega
    refine ⟨fun start hrun hfirst => ?_, ⟨fun e => ?_, fun hno => absurd hr (hno r)⟩,
      fun e => absurd e hne, fun hno => absurd hr (hno r)⟩
    · -- the lowest run is only one
      rcases Nat.lt_trichotomy start r with hlt | rfl | hlt
      · exact absurd hrun (hlow start hlt)
      · exact takesRun s m count start
      · exact absurd hr (hfirst r hlt)
    · exact absurd (congrArg (·.2.2) e) hne

/-- Eight pages, pages 0 and 2 in use: three in a row start at page 3. -/
theorem alloc_pages_first_fit_three :
    TakesRun ⟨fun _ => 5, 8, 6⟩ (fun _ => 0) 3 3 (allocPages ⟨fun _ => 5, 8, 6⟩ (fun _ => 0) 3) := by
  refine (alloc_pages_first_fit _ _ (by decide)).1 3 ⟨by decide, fun k h1 h2 => ?_⟩ fun j hj hrun =>
    ?_
  · have hk : ∀ k < 6, 3 ≤ k → bitmapTest (fun _ => 5) k = false := by decide
    exact hk k h2 h1
  · have hb : ∀ j < 3, Blocked (fun _ => 5) 3 j := fun j hj =>
      if h0 : j = 0 then ⟨0, by omega, by omega, by decide⟩ else ⟨2, by omega, by omega, by decide⟩
    exact hrun.not_blocked (hb j hj)

end

end HackersOs.L2.Pages

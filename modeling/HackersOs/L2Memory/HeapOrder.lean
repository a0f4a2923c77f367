import HackersOs.L2Memory.HeapRuns

/-!
# What the heap's block list depends on

A tiling without free neighbours is determined by its used blocks
(`Tiling.eq_of_used`), so the block list is determined by the live pointers
and their sizes.

Results (in every reachable state):
* `free_order`: freeing a set of live pointers leaves the same list in every
  order, freeing all of them leaves the one block of `Heap::init`, and a
  `kmalloc` and the `kfree` of its answer leave the list as it was.
* `kmalloc_promise_iff`: `kmalloc(n)` hands out the lowest free block that holds
  `n` bytes, and null only if there is none, for every `n` whose rounding up
  does not wrap; for the seven others it hands out 16 bytes.
-/
namespace HackersOs.L2.Heap
open HackersOs.Core HackersOs.Core.Tiling

/-- The block list as the code sees it: addresses, sizes, used flags and links. -/
def headers (m : Mem) (firstBlock : Nat) : Option (List (Nat × Block)) :=
  (blockList m heapFuel firstBlock).map fun bs => bs.map fun b => (b, load m b)

def freeAll (m : Mem) (ps : List Nat) : Mem := ps.foldl kfree m

/-! ## One tiling, one block list -/

section
variable {m m' : Mem} {a e prev : Nat} {live live' : List Nat} {T T' : HeapTiling} {bs : List Blk}

theorem Seg.load_eq (h : Seg m e prev a bs) (h' : Seg m' e prev a bs) :
    ∀ x ∈ addrs a bs, load m x = load m' x := by
  induction bs generalizing prev a with
  | nil =>
    intro x hx
    cases hx
  | cons b bs ih =>
    intro x hx
    rw [addrs_cons, List.mem_cons] at hx
    rcases hx with rfl | hx
    · rw [h.1, h'.1]
    · exact ih h.2 h'.2 x hx

theorem Holds.headers_eq (h : Holds m a live T) :
    headers m a = some ((addrs a T.blocks).map fun b => (b, load m b)) := by
  have hwalk := blockList_spec h.seg h.pos (fills_end T a) (length_lt_fuel T)
  rw [ptr_first] at hwalk
  rw [headers, hwalk, Option.map_some]

theorem Holds.headers_congr (h : Holds m a live T) (h' : Holds m' a live' T')
    (hT : T.blocks = T'.blocks) : headers m a = headers m' a := by
  have hseg : Seg m' (a + heapSize) 0 a T.blocks := by
    rw [hT]
    exact h'.seg
  rw [h.headers_eq, h'.headers_eq, ← hT, Option.some_inj]
  apply List.map_congr_left
  intro x hx
  rw [h.seg.load_eq hseg x hx]

theorem blocks_eq (hused : ∀ x k, (x, ⟨k, true⟩) ∈ place blockHeader a T.blocks ↔
    (x, ⟨k, true⟩) ∈ place blockHeader a T'.blocks) : T.blocks = T'.blocks :=
  eq_of_used (by decide) T.separated T'.separated (T.fills.trans T'.fills.symm) hused

/-! ## Freeing -/

/-- The used blocks after a series of frees: those of the other pointers. -/
theorem holds_freeAll (h : Holds m a live T) {ps : List Nat} (hnd : ps.Nodup)
    (hps : ∀ p ∈ ps, p ∈ live) : ∃ T' : HeapTiling, Holds (freeAll m ps) a (live.diff ps) T' ∧
      ∀ x k, (x, ⟨k, true⟩) ∈ place blockHeader a T'.blocks ↔
        (x, ⟨k, true⟩) ∈ place blockHeader a T.blocks ∧ x + blockHeader ∉ ps := by
  induction ps generalizing m live T with
  | nil => exact ⟨T, h, fun x k => by simp⟩
  | cons p ps ih =>
    rw [List.nodup_cons] at hnd
    obtain ⟨T₁, h₁, hused₁, -⟩ := holds_free h (hps p List.mem_cons_self)
    have hrest : ∀ q ∈ ps, q ∈ live.erase p := by
      intro q hq
      refine (List.mem_erase_of_ne fun e => ?_).mpr (hps q (List.mem_cons_of_mem p hq))
      exact hnd.1 (e ▸ hq)
    obtain ⟨T', h', hused'⟩ := ih h₁ hnd.2 hrest
    refine ⟨T', ?_, fun x k => ?_⟩
    · rw [List.diff_cons]
      exact h'
    · rw [hused', hused₁, List.mem_cons, not_or, and_assoc]

/-- A set of live pointers freed in two orders. -/
theorem Holds.free_perm (h : Holds m a live T) {ps qs : List Nat} (hnd : ps.Nodup)
    (hps : ∀ p ∈ ps, p ∈ live) (hperm : ps.Perm qs) :
    ∃ l, headers (freeAll m ps) a = some l ∧ headers (freeAll m qs) a = some l := by
  obtain ⟨T₁, h₁, hused₁⟩ := holds_freeAll h hnd hps
  obtain ⟨T₂, h₂, hused₂⟩ :=
    holds_freeAll h (hperm.nodup hnd) fun q hq => hps q (hperm.mem_iff.mpr hq)
  have hT : T₁.blocks = T₂.blocks := by
    apply blocks_eq (a := a)
    intro x k
    rw [hused₁, hused₂, hperm.mem_iff]
  refine ⟨_, h₁.headers_eq, ?_⟩
  rw [← h₁.headers_congr h₂ hT, h₁.headers_eq]

/-- All live pointers freed. -/
theorem Holds.free_all (h : Holds m a live T) {ps : List Nat} (hnd : ps.Nodup)
    (hps : ∀ p, p ∈ ps ↔ p ∈ live) :
    headers (freeAll m ps) a = some [(a, ⟨heapSize - blockHeader, false, 0, 0⟩)] := by
  obtain ⟨T', h', hused'⟩ := holds_freeAll h hnd fun p hp => (hps p).mp hp
  have hT : T'.blocks = [⟨heapSize - blockHeader, false⟩] := by
    refine @blocks_eq a T' (whole (by decide) (by decide) (by decide)) ?_
    intro x k
    rw [hused']
    constructor
    · intro ⟨hx, hn⟩
      exact absurd ((hps _).mpr ((h.mem_live _).mpr ⟨x, k, rfl, hx⟩)) hn
    · intro hx
      simp [whole, place] at hx
  have hl := h'.seg
  rw [hT] at hl
  have hend : a + blockHeader + (heapSize - blockHeader) = a + heapSize := by
    unfold blockHeader heapSize
    omega
  rw [h'.headers_eq, hT, addrs_cons]
  simp only [addrs, place, List.map_cons, List.map_nil]
  rw [hl.1, ptr, if_pos hend]

/-- The `kfree` of a pointer that was handed out since. -/
theorem Holds.free_new {T₁ : HeapTiling} {p : Nat} (h : Holds m a live T)
    (h₁ : Holds m' a (p :: live) T₁)
    (hused₁ : ∀ x k, (x, ⟨k, true⟩) ∈ place blockHeader a T.blocks →
      (x, ⟨k, true⟩) ∈ place blockHeader a T₁.blocks) : headers (kfree m' p) a = headers m a := by
  obtain ⟨T₂, h₂, hused₂, -⟩ := holds_free h₁ List.mem_cons_self
  have hnew : p ∉ live := (List.nodup_cons.mp h₁.nodup).1
  rw [List.erase_cons_head] at h₂
  refine h₂.headers_congr h (blocks_eq (a := a) fun x k => ?_)
  constructor
  · -- a used block that is not the new one was used before, with the same size
    intro hx
    have hlive : x + blockHeader ∈ live := (h₂.mem_live _).mpr ⟨x, k, rfl, hx⟩
    obtain ⟨y, j, e, hy⟩ := (h.mem_live _).mp hlive
    obtain rfl : x = y := by omega
    rcases mem_place_apart (hused₁ x j hy) ((hused₂ x k).mp hx).1 with ⟨-, e'⟩ | hlt | hlt
    · cases e'
      exact hy
    all_goals
      simp only [blockHeader] at hlt
      omega
  · intro hx
    refine (hused₂ x k).mpr ⟨hused₁ x k hx, fun e => hnew ?_⟩
    rw [← e]
    exact (h.mem_live _).mpr ⟨x, k, rfl, hx⟩

/-- A `kmalloc` and the `kfree` of its answer. -/
theorem Holds.malloc_free (h : Holds m a live T) {n p : Nat} (hk : kmalloc m a n = some (m', p))
    (hp : p ≠ 0) : headers (kfree m' p) a = headers m a := by
  obtain ⟨m₁, p₁, T₁, hk₁, h₁, hused₁, -⟩ := holds_malloc (n := n) h
  rw [hk] at hk₁
  cases hk₁
  rw [if_neg hp] at h₁
  exact h.free_new h₁ hused₁

end

/-- The order of frees does not matter, freeing everything leaves the block
of `Heap::init`, and `kfree` undoes `kmalloc`. -/
theorem free_order {s : HeapState} (hs : heapLTS.Reachable s) :
    (∀ ps qs : List Nat, ps.Nodup → (∀ p ∈ ps, p ∈ s.live) → ps.Perm qs →
      ∃ l, headers (freeAll s.mem ps) s.firstBlock = some l ∧
        headers (freeAll s.mem qs) s.firstBlock = some l) ∧
    (∀ ps : List Nat, ps.Nodup → (∀ p, p ∈ ps ↔ p ∈ s.live) →
      headers (freeAll s.mem ps) s.firstBlock =
        some [(s.firstBlock, ⟨heapSize - blockHeader, false, 0, 0⟩)]) ∧
    ∀ n m' p, kmalloc s.mem s.firstBlock n = some (m', p) → p ≠ 0 →
      headers (kfree m' p) s.firstBlock = headers s.mem s.firstBlock := by
  obtain ⟨T, h⟩ := holds_inductive.reachable s hs
  exact ⟨fun ps qs hnd hps hperm => h.free_perm hnd hps hperm, fun ps hnd hps => h.free_all hnd hps,
    fun n m' p hk hp => h.malloc_free hk hp⟩

/-- The two live pointers freed in both orders, which leaves the heap of `Heap::init`. -/
theorem free_order_used :
    (∃ l, headers (freeAll usedHeap.mem [0x40000020, 0x400000E0]) usedHeap.firstBlock = some l ∧
      headers (freeAll usedHeap.mem [0x400000E0, 0x40000020]) usedHeap.firstBlock = some l) ∧
    headers (freeAll usedHeap.mem [0x40000020, 0x400000E0]) usedHeap.firstBlock =
      some [(usedHeap.firstBlock, ⟨heapSize - blockHeader, false, 0, 0⟩)] := by
  obtain ⟨horder, hall, -⟩ := free_order usedHeap_reachable.1
  rw [usedHeap_reachable.2] at horder hall
  exact ⟨horder _ _ (by decide) (by simp) (.swap ..), hall _ (by decide) (by simp [or_comm])⟩

/-! ## The size promise -/

/-- `n` bytes rounded up, without a limit, to the alignment and to the smallest block. -/
def need (n : Nat) : Nat := max minBlock ((n + alignment - 1) / alignment * alignment)

/-- A free block that holds `n` bytes. -/
def Fits (m : Mem) (n b : Nat) : Prop := (load m b).used = false ∧ need n ≤ (load m b).size

/-- What `kmalloc(n)`, called on the blocks `bs` of `m`, is to leave and answer. -/
structure KeepsPromise (m : Mem) (bs : List Nat) (n : Nat) (m' : Mem) (p : Nat) : Prop where
  room : p ≠ 0 → n ≤ payload m' p
  null : p = 0 ↔ ∀ b ∈ bs, ¬ Fits m n b
  lowest : p ≠ 0 → ∃ b ∈ bs, p = b + blockHeader ∧ Fits m n b ∧ ∀ c ∈ bs, Fits m n c → b ≤ c

/-- Clearing the low three bits of a 64-bit number. -/
theorem and_align {y : Nat} (hy : y < 2 ^ 64) :
    y &&& (2 ^ 64 - alignment) = y / alignment * alignment := by
  have hmask : (2 ^ 64 - alignment : Nat) = (2 ^ 61 - 1) <<< 3 := by decide
  have hdiv : y / alignment * alignment = (y >>> 3) <<< 3 := by
    rw [Nat.shiftRight_eq_div_pow, Nat.shiftLeft_eq]
    rfl
  rw [hmask, hdiv]
  apply Nat.eq_of_testBit_eq
  intro i
  rw [Nat.testBit_and, Nat.testBit_shiftLeft, Nat.testBit_shiftLeft, Nat.testBit_two_pow_sub_one,
    Nat.testBit_shiftRight]
  by_cases hi : 3 ≤ i
  · have e : 3 + (i - 3) = i := by omega
    rw [e]
    by_cases hi' : i < 64
    · have : i - 3 < 61 := by omega
      simp [hi, this]
    · have : y.testBit i = false :=
        Nat.testBit_lt_two_pow (Nat.lt_of_lt_of_le hy (Nat.pow_le_pow_right (by decide) (by omega)))
      simp [this]
  · simp [hi]

theorem roundSize_eq {n : Nat} (hn : n + 7 < 2 ^ 64) : roundSize n = need n := by
  have e : (n + alignment - 1) % 2 ^ 64 = n + alignment - 1 :=
    Nat.mod_eq_of_lt (by simp only [alignment]; omega)
  rw [roundSize, e, and_align (by simp only [alignment]; omega), need]
  generalize (n + alignment - 1) / alignment * alignment = y
  split <;> omega

/-- The seven largest sizes wrap to 0. -/
theorem roundSize_wraps {n : Nat} (hn : 2 ^ 64 ≤ n + 7) (hlt : n < 2 ^ 64) :
    roundSize n = minBlock := by
  have e : (n + alignment - 1) % 2 ^ 64 / alignment = 0 := by
    simp only [alignment]
    omega
  rw [roundSize, and_align (Nat.mod_lt _ (by decide)), e]
  rfl

theorem le_need (n : Nat) : n ≤ need n := by
  simp only [need, alignment]
  omega

section
variable {m : Mem} {a n : Nat} {live : List Nat} {T : HeapTiling}

/-- What `kmalloc` does, in the tiling's words: no free block of the rounded size
and null, or the first one. -/
theorem Holds.kmalloc_cases (h : Holds m a live T) (hn : n ≠ 0) :
    (kmalloc m a n = some (m, 0) ∧ ∀ b ∈ T.blocks, b.used = false → b.size < roundSize n) ∨
    ∃ m' x b, kmalloc m a n = some (m', x + blockHeader) ∧ (x, b) ∈ place blockHeader a T.blocks ∧
      b.used = false ∧ roundSize n ≤ b.size ∧ roundSize n ≤ payload m' (x + blockHeader) ∧
      payload m' (x + blockHeader) < 2 ^ 32 ∧
      ∀ y c, (y, c) ∈ place blockHeader a T.blocks → c.used = false → roundSize n ≤ c.size →
        x ≤ y := by
  rw [kmalloc, if_neg hn]
  rcases kmallocLoop_spec (n := roundSize n) h.seg h.pos (fills_end T _) h.small (size_lt T)
    (length_lt_fuel T) with ⟨hnone, hloop⟩ | ⟨bs', x, m', halloc, hloop, hseg, -⟩
  · rw [ptr_first] at hloop
    exact .inl ⟨hloop, alloc_none hnone⟩
  · rw [ptr_first] at hloop
    obtain ⟨k, hk, hplace⟩ := place_alloc halloc
    obtain ⟨pre, b, post, e1, -, e2, hb, hfit⟩ := alloc_some halloc
    have hx : (x, b) ∈ place blockHeader a T.blocks := by
      rw [e1, e2]
      exact mem_place_split _ _ _ _
    -- the payload is that of the new tiling's block at `x`
    let T' := T.afterAlloc rfl (roundSize_ok n).1 (roundSize_ok n).2 halloc
    have hx' : (x, ⟨k, true⟩) ∈ place blockHeader a T'.blocks := (hplace x k).mpr (.inr ⟨rfl, rfl⟩)
    have hsize : payload m' (x + blockHeader) = k := by
      obtain ⟨pre', post', e3, e4⟩ := exists_split_of_mem_place hx'
      have hs : Seg m' (a + heapSize) 0 a (pre' ++ ⟨k, true⟩ :: post') := e3 ▸ hseg
      rw [payload, Nat.add_sub_cancel, e4, (seg_append.mp hs).2.1]
    refine .inr ⟨m', x, b, hloop, hx, hb, hfit, ?_, ?_,
      fun y c hy hc hle => alloc_lowest halloc hy hc hle⟩
    · rw [hsize]
      exact hk
    · rw [hsize]
      exact size_lt T' _ (mem_of_mem_place hx')

theorem Holds.fits_iff (h : Holds m a live T) {x : Nat} {b : Blk}
    (hx : (x, b) ∈ place blockHeader a T.blocks) : Fits m n x ↔ b.used = false ∧ need n ≤ b.size := by
  obtain ⟨h1, h2, -⟩ := h.block hx
  rw [Fits, h1, h2]

/-- A size that rounds up without wrapping. -/
theorem Holds.keeps_promise (h : Holds m a live T) (hn : n ≠ 0) (hlt : n + 7 < 2 ^ 64) :
    ∃ m' p, kmalloc m a n = some (m', p) ∧ KeepsPromise m (addrs a T.blocks) n m' p := by
  have hround := roundSize_eq hlt
  rcases h.kmalloc_cases hn with ⟨hk, hnone⟩ | ⟨m', x, b, hk, hx, hfree, hfit, hroom, -, hlow⟩
  · rw [hround] at hnone
    have hno : ∀ c ∈ addrs a T.blocks, ¬ Fits m n c := by
      intro c hc hf
      obtain ⟨d, hd⟩ := mem_addrs.mp hc
      obtain ⟨h1, h2⟩ := (h.fits_iff hd).mp hf
      have := hnone d (mem_of_mem_place hd) h1
      omega
    exact ⟨m, 0, hk, fun h0 => absurd rfl h0, ⟨fun _ => hno, fun _ => rfl⟩, fun h0 => absurd rfl h0⟩
  · rw [hround] at hfit hroom hlow
    have hp : x + blockHeader ≠ 0 := by
      simp only [blockHeader]
      omega
    have hmem : x ∈ addrs a T.blocks := mem_addrs.mpr ⟨b, hx⟩
    have hfits : Fits m n x := (h.fits_iff hx).mpr ⟨hfree, hfit⟩
    refine ⟨m', _, hk, fun _ => Nat.le_trans (le_need n) hroom, ⟨fun h0 => absurd h0 hp, ?_⟩,
      fun _ => ?_⟩
    · intro hno
      exact absurd hfits (hno x hmem)
    · refine ⟨x, hmem, rfl, hfits, fun c hc hf => ?_⟩
      obtain ⟨d, hd⟩ := mem_addrs.mp hc
      obtain ⟨h1, h2⟩ := (h.fits_iff hd).mp hf
      exact hlow c d hd h1 h2

/-- No block of the heap holds a size that wraps. -/
theorem Holds.not_fits (h : Holds m a live T) (hn : 2 ^ 64 ≤ n + 7) {x : Nat}
    (hx : x ∈ addrs a T.blocks) : ¬ Fits m n x := by
  intro hf
  obtain ⟨b, hb⟩ := mem_addrs.mp hx
  have hle := ((h.fits_iff hb).mp hf).2
  have hlt := size_lt T b (mem_of_mem_place hb)
  have := le_need n
  omega

end

/-- `kmalloc(n)` keeps its promise on every 64-bit size but the seven that wrap,
and on those when the heap has no free block at all. -/
theorem kmalloc_promise_iff {s : HeapState} (hs : heapLTS.Reachable s) {n : Nat} (hn : 0 < n)
    (h64 : n < 2 ^ 64) : (∃ bs m' p, blockList s.mem heapFuel s.firstBlock = some bs ∧
      kmalloc s.mem s.firstBlock n = some (m', p) ∧ KeepsPromise s.mem bs n m' p) ↔
    n ≤ 2 ^ 64 - 8 ∨ ∀ bs, blockList s.mem heapFuel s.firstBlock = some bs →
      ∀ b ∈ bs, (load s.mem b).used = true := by
  obtain ⟨T, h⟩ := holds_inductive.reachable s hs
  have hwalk := h.wellFormed.walk
  constructor
  · rintro ⟨bs, m', p, hbs, hk, hprom⟩
    by_cases hle : n ≤ 2 ^ 64 - 8
    · exact .inl hle
    refine .inr fun bs' hbs' b hb => ?_
    rw [hwalk] at hbs hbs'
    cases hbs
    cases hbs'
    have hp : p = 0 := hprom.null.mpr fun c hc => h.not_fits (by omega) hc
    subst hp
    -- null was answered, so there is not even a free block of the smallest size
    rcases h.kmalloc_cases (n := n) (by omega) with ⟨-, hnone⟩ | ⟨m₁, x, -, hk₁, -⟩
    · obtain ⟨c, hc⟩ := mem_addrs.mp hb
      rw [(h.block hc).2.1]
      cases hu : c.used with
      | true => rfl
      | false =>
        have h1 := hnone c (mem_of_mem_place hc) hu
        have h2 := (T.sized c (mem_of_mem_place hc)).2
        rw [roundSize_wraps (by omega) h64] at h1
        omega
    · rw [hk] at hk₁
      cases hk₁
  · intro hcond
    by_cases hle : n ≤ 2 ^ 64 - 8
    · obtain ⟨m', p, hk, hprom⟩ := h.keeps_promise (n := n) (by omega) (by omega)
      exact ⟨_, m', p, hwalk, hk, hprom⟩
    have hfull := hcond.resolve_left hle _ hwalk
    refine ⟨_, s.mem, 0, hwalk, ?_, fun h0 => absurd rfl h0,
      ⟨fun _ b hb => h.not_fits (by omega) hb, fun _ => rfl⟩, fun h0 => absurd rfl h0⟩
    rcases h.kmalloc_cases (n := n) (by omega) with ⟨hk, -⟩ | ⟨m₁, x, b, -, hx, hfree, -⟩
    · exact hk
    · have hu := hfull x (mem_addrs.mpr ⟨b, hx⟩)
      rw [(h.block hx).2.1, hfree] at hu
      cases hu

/-- 20 bytes, which go where the freed pointer was. -/
theorem kmalloc_promise_iff_used :
    ∃ bs m' p, blockList usedHeap.mem heapFuel usedHeap.firstBlock = some bs ∧
      kmalloc usedHeap.mem usedHeap.firstBlock 20 = some (m', p) ∧
      KeepsPromise usedHeap.mem bs 20 m' p :=
  (kmalloc_promise_iff usedHeap_reachable.1 (by decide) (by decide)).mpr (.inl (by decide))

/-- `kmalloc(2^64 - 1)` on the heap of `Heap::init` hands out 16 bytes. -/
theorem kmalloc_wraps : heapLTS.Reachable bootHeap ∧
    (kmalloc bootHeap.mem bootHeap.firstBlock (2 ^ 64 - 1)).map
      (fun r => (r.2, payload r.1 r.2)) = some (0x40000020, 16) :=
  ⟨bootHeap_reachable, by decide +kernel⟩

end HackersOs.L2.Heap

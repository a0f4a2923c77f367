import HackersOs.Core.LTS
import HackersOs.L2Memory.HeapTiling

/-!
# Runs of the heap

From a successful `Heap::init`, clients call `kmalloc` with any size, `kfree`
on live pointers, and write bytes of live payloads.

Results (over every run):
* `heap_wellFormed`: the block list tiles the heap, is doubly linked, has no
  two free neighbours, its used blocks are the live pointers', the totals add
  up, and `kmalloc` always returns.
* `heap_separation`: live payloads are disjoint, aligned, inside the heap and
  off all headers, and no call changes a byte of a payload that stays live.
-/
namespace HackersOs.L2.Heap
open HackersOs.Core HackersOs.Core.Tiling

variable {p x : Nat}

structure HeapState where
  mem : Mem
  firstBlock : Nat
  /-- ghost: the pointers handed out and not freed -/
  live : List Nat

inductive HeapCall where
  | malloc (size : Nat)
  | free (ptr : Nat)
  /-- a client stores a byte -/
  | store (addr : Nat) (v : UInt8)

/-- The payload size of the block of a live pointer. -/
def payload (m : Mem) (p : Nat) : Nat := (load m (p - blockHeader)).size

def heapLTS : LTS HeapState HeapCall where
  init s := ∃ (ps : Pages.PageState) (m₀ : Mem), ps.totalPages ≤ Pages.maxPages ∧
    (Pages.allocPages ps m₀ heapPages).2.2 ≠ 0 ∧
    s.mem = (init (Pages.allocPages ps m₀ heapPages).2.1 (Pages.allocPages ps m₀ heapPages).2.2).1 ∧
    s.firstBlock =
      (init (Pages.allocPages ps m₀ heapPages).2.1 (Pages.allocPages ps m₀ heapPages).2.2).2 ∧
    s.live = []
  step s c s' := match c with
    | .malloc size => size < 2 ^ 64 ∧ ∃ m' p, kmalloc s.mem s.firstBlock size = some (m', p) ∧
        s' = ⟨m', s.firstBlock, if p = 0 then s.live else p :: s.live⟩
    | .free p => p ∈ s.live ∧ s' = ⟨kfree s.mem p, s.firstBlock, s.live.erase p⟩
    | .store a v => (∃ p ∈ s.live, p ≤ a ∧ a < p + payload s.mem p) ∧
        s' = ⟨fun x => if x = a then v else s.mem x, s.firstBlock, s.live⟩

/-! ## The invariant -/

abbrev HeapTiling := Tiling blockHeader minBlock alignment heapSize

/-- Memory holds, from `a` on, the tiling `T`, whose used blocks are those of
the pointers in `live`. -/
structure Holds (m : Mem) (a : Nat) (live : List Nat) (T : HeapTiling) : Prop where
  pos : 0 < a
  aligned : a % 8 = 0
  small : a + heapSize < 2 ^ 64
  seg : Seg m (a + heapSize) 0 a T.blocks
  mem_live : ∀ p, p ∈ live ↔ ∃ x n, p = x + blockHeader ∧
    (x, ⟨n, true⟩) ∈ place blockHeader a T.blocks
  nodup : live.Nodup

section
variable {s s' : HeapState} {m : Mem} {a : Nat} {live : List Nat} {T : HeapTiling}

theorem fills_end (T : HeapTiling) (a : Nat) : a + span blockHeader T.blocks = a + heapSize := by
  rw [T.fills]

theorem length_lt_fuel (T : HeapTiling) : T.blocks.length < heapFuel := by
  have h := span_eq (H := blockHeader) T.blocks
  rw [T.fills] at h
  simp only [heapFuel, blockHeader, heapSize] at *
  omega

theorem size_lt (T : HeapTiling) : ∀ b ∈ T.blocks, b.size < 2 ^ 32 := by
  intro b hb
  obtain ⟨pre, post, e⟩ := List.append_of_mem hb
  have h := T.fills
  rw [e, span_append] at h
  simp only [span, heapSize, blockHeader] at h
  omega

theorem roundSize_ok (n : Nat) : roundSize n % alignment = 0 ∧ minBlock ≤ roundSize n := by
  have h8 : ∀ y : Nat, (y &&& (2 ^ 64 - 8)) % 8 = 0 := by
    intro y
    rw [← Nat.and_two_pow_sub_one_eq_mod _ 3, Nat.and_assoc]
    exact Nat.and_zero y
  have clamp : ∀ y : Nat, y % 8 = 0 →
      (if y < 16 then 16 else y) % 8 = 0 ∧ 16 ≤ if y < 16 then 16 else y := by
    intro y hy
    split <;> omega
  exact clamp _ (h8 _)

/-- The header of a block, and where the block lies. -/
theorem Holds.block (h : Holds m a live T) {b : Blk} (hx : (x, b) ∈ place blockHeader a T.blocks) :
    (load m x).size = b.size ∧ (load m x).used = b.used ∧ x % 8 = 0 ∧
      a ≤ x ∧ x + blockHeader + b.size ≤ a + heapSize := by
  have hb := mem_place_bounds hx
  rw [fills_end] at hb
  obtain ⟨pre, post, e, rfl⟩ := exists_split_of_mem_place hx
  have hseg := h.seg
  rw [e, seg_append] at hseg
  have hl := hseg.2.1
  refine ⟨by rw [hl], by rw [hl], ?_, hb.1, hb.2⟩
  have hsz : ∀ c ∈ pre, c.size % 8 = 0 := fun c hc => (T.sized c (e ▸ List.mem_append_left _ hc)).1
  have hal := h.aligned
  clear hl hseg hx hb e
  induction pre with
  | nil => simpa [span] using hal
  | cons c pre ih =>
    have h1 := hsz c List.mem_cons_self
    have h2 := ih fun d hd => hsz d (List.mem_cons_of_mem _ hd)
    simp only [span, blockHeader] at *
    omega

theorem Holds.liveBlock (h : Holds m a live T) (hp : p ∈ live) : ∃ x, p = x + blockHeader ∧
      (x, ⟨payload m p, true⟩) ∈ place blockHeader a T.blocks := by
  obtain ⟨x, n, rfl, hx⟩ := (h.mem_live p).mp hp
  refine ⟨x, rfl, ?_⟩
  have := (h.block hx).1
  rwa [payload, Nat.add_sub_cancel, this]

/-- A byte of a live payload is on no header. -/
theorem off_headers {n y : Nat} {bs : List Blk} (hx : (x, ⟨n, true⟩) ∈ place blockHeader a bs)
    (h1 : x + blockHeader ≤ y) (h2 : y < x + blockHeader + n) : ¬ OnHeaders a bs y := by
  rintro ⟨⟨z, c⟩, hz, hi⟩
  unfold InHeader at hi
  rcases mem_place_apart hx hz with ⟨rfl, -⟩ | h | h <;> dsimp only at *
  all_goals omega

theorem init_load (ha : a ≠ 0) :
    (init m a).2 = a ∧ load (init m a).1 a = ⟨heapSize - blockHeader, false, 0, 0⟩ := by
  unfold init
  rw [if_neg ha]
  refine ⟨rfl, ?_⟩
  simp only
  rw [load_setPrev (by decide), load_setNext (by decide), load_setUsed, load_setSize (by decide)]

theorem seg_single {e k : Nat} (h : load m a = ⟨k, false, 0, 0⟩) (he : a + blockHeader + k = e) :
    Seg m e 0 a [⟨k, false⟩] := by
  refine ⟨?_, trivial⟩
  rw [h, ptr, if_pos he]

/-- `Heap::init` leaves one free block. -/
theorem holds_init (hs : heapLTS.init s) : ∃ T, Holds s.mem s.firstBlock s.live T := by
  obtain ⟨ps, m₀, htot, hne, hm, hf, hl⟩ := hs
  obtain ⟨e1, e2⟩ := init_load (m := (Pages.allocPages ps m₀ heapPages).2.1) hne
  rcases Pages.allocPages_spec ps m₀ heapPages with h0 | ⟨start, haddr, hrange, -, -⟩
  · rw [h0] at hne
    exact absurd rfl hne
  rw [e1] at hf
  rw [← hf] at e2 haddr
  have hH : heapSize = 1048576 := rfl
  have hP : heapPages = 256 := rfl
  rw [hP] at hrange
  simp only [Pages.maxPages, Pages.pageSize, Pages.memoryBase] at htot haddr
  refine ⟨whole (by decide) (by decide) (by decide), by omega, by omega, by omega, ?_, ?_, ?_⟩
  · refine seg_single ?_ (by simp only [blockHeader]; omega)
    rw [hm, ← hf, e2]
  · intro p
    simp [hl, whole, place]
  · simp [hl]

/-- A `kmalloc`: every used block stays, one more if the answer is not null,
and only headers are written. -/
theorem holds_malloc (h : Holds m a live T) {n : Nat} :
    ∃ (m' : Mem) (p : Nat) (T' : HeapTiling), kmalloc m a n = some (m', p) ∧
      Holds m' a (if p = 0 then live else p :: live) T' ∧
      (∀ x k, (x, ⟨k, true⟩) ∈ place blockHeader a T.blocks →
        (x, ⟨k, true⟩) ∈ place blockHeader a T'.blocks) ∧
      ∀ y, ¬ OnHeaders a T.blocks y → ¬ OnHeaders a T'.blocks y → m' y = m y := by
  have hfirst : ptr (a + heapSize) a = a := if_neg (by simp only [heapSize]; omega)
  unfold kmalloc
  split
  · exact ⟨m, 0, T, rfl, h, fun _ _ hx => hx, fun _ _ _ => rfl⟩
  rcases kmallocLoop_spec (n := roundSize n) h.seg h.pos (fills_end T _) h.small (size_lt T)
    (length_lt_fuel T) with ⟨-, hloop⟩ | ⟨bs', q, m₁, halloc, hloop, hseg, hframe⟩
  · rw [hfirst] at hloop
    exact ⟨m, 0, T, hloop, h, fun _ _ hx => hx, fun _ _ _ => rfl⟩
  · rw [hfirst] at hloop
    obtain ⟨k, -, hplace⟩ := place_alloc halloc
    refine ⟨m₁, _, T.afterAlloc rfl (roundSize_ok n).1 (roundSize_ok n).2 halloc, hloop,
      ⟨h.pos, h.aligned, h.small, hseg, fun r => ?_, ?_⟩,
      fun x j hx => (hplace x j).mpr (.inl hx), hframe⟩
    · rw [if_neg (by simp only [blockHeader]; omega), List.mem_cons, h.mem_live]
      change _ ↔ ∃ x n, r = x + blockHeader ∧ (x, ⟨n, true⟩) ∈ place blockHeader a bs'
      simp only [hplace]
      constructor
      · rintro (rfl | ⟨x, j, rfl, hx⟩)
        · exact ⟨q, k, rfl, .inr ⟨rfl, rfl⟩⟩
        · exact ⟨x, j, rfl, .inl hx⟩
      · rintro ⟨x, j, rfl, hx | ⟨rfl, -⟩⟩
        · exact .inr ⟨x, j, rfl, hx⟩
        · exact .inl rfl
    · rw [if_neg (by simp only [blockHeader]; omega), List.nodup_cons]
      refine ⟨fun hq => ?_, h.nodup⟩
      -- the block taken was free, so it was nobody's
      obtain ⟨x, j, e, hx⟩ := (h.mem_live _).mp hq
      obtain rfl : q = x := by omega
      obtain ⟨pre, b, post, e1, -, e2, hb, -⟩ := alloc_some halloc
      have hq' : (q, b) ∈ place blockHeader a T.blocks := by
        rw [e1, e2]; exact mem_place_split _ _ _ _
      rcases mem_place_apart hx hq' with ⟨-, rfl⟩ | hh | hh
      · cases hb
      all_goals (simp only [blockHeader] at hh; omega)

/-- A `kfree`: the block is free, every other used block stays, and only
headers are written. -/
theorem holds_free (h : Holds m a live T) (hp : p ∈ live) :
    ∃ T' : HeapTiling, Holds (kfree m p) a (live.erase p) T' ∧
      (∀ x k, (x, ⟨k, true⟩) ∈ place blockHeader a T'.blocks ↔
        (x, ⟨k, true⟩) ∈ place blockHeader a T.blocks ∧ x + blockHeader ≠ p) ∧
      ∀ y, ¬ OnHeaders a T.blocks y → kfree m p y = m y := by
  obtain ⟨x, n, rfl, hx⟩ := (h.mem_live p).mp hp
  obtain ⟨hseg, hframe⟩ := kfree_spec h.seg h.pos (fills_end T _) h.small T.separated hx
  have hused : ∀ y k, (y, ⟨k, true⟩) ∈ place blockHeader a (T.afterFree rfl x a).blocks ↔
      (y, ⟨k, true⟩) ∈ place blockHeader a T.blocks ∧ y + blockHeader ≠ x + blockHeader := by
    intro y k
    rw [Ne, Nat.add_right_cancel_iff]
    exact place_free (by decide)
  refine ⟨T.afterFree rfl x a, ⟨h.pos, h.aligned, h.small, hseg, fun q => ?_, h.nodup.erase _⟩,
    hused, hframe⟩
  rw [h.nodup.mem_erase_iff, h.mem_live]
  simp only [hused]
  constructor
  · rintro ⟨hne, y, j, rfl, hy⟩
    exact ⟨y, j, rfl, hy, hne⟩
  · rintro ⟨y, j, rfl, hy, hne⟩
    exact ⟨hne, y, j, rfl, hy⟩

theorem holds_store (h : Holds m a live T) (v : UInt8)
    (hx : ∃ p ∈ live, p ≤ x ∧ x < p + payload m p) :
    Holds (fun y => if y = x then v else m y) a live T := by
  obtain ⟨p, hp, h1, h2⟩ := hx
  obtain ⟨z, e, hz⟩ := h.liveBlock hp
  refine ⟨h.pos, h.aligned, h.small, h.seg.congr fun y hy => if_neg fun hyx => ?_, h.mem_live,
    h.nodup⟩
  subst hyx
  exact off_headers hz (by omega) (by omega) hy

/-- A client fills the front of its payload. -/
theorem holds_blit (h : Holds m a live T) {n : Nat} (hp : p ∈ live) (hn : n ≤ payload m p)
    (src : Mem) : Holds (blit m p n src) a live T := by
  obtain ⟨z, e, hz⟩ := h.liveBlock hp
  refine ⟨h.pos, h.aligned, h.small, h.seg.congr fun y hy => blit_outside ?_, h.mem_live, h.nodup⟩
  by_contra hin
  exact off_headers hz (by omega) (by omega) hy

theorem holds_inductive : heapLTS.Inductive fun s => ∃ T, Holds s.mem s.firstBlock s.live T where
  init := fun s hs => holds_init hs
  step := by
    rintro s c s' ⟨T, h⟩ hstep
    cases c with
    | malloc n =>
      obtain ⟨-, m', p, hk, rfl⟩ := hstep
      obtain ⟨m₁, p₁, T', hk', h', -⟩ := holds_malloc (n := n) h
      rw [hk] at hk'
      cases hk'
      exact ⟨T', h'⟩
    | free p =>
      obtain ⟨hp, rfl⟩ := hstep
      obtain ⟨T', h', -⟩ := holds_free h hp
      exact ⟨T', h'⟩
    | store x v =>
      obtain ⟨hx, rfl⟩ := hstep
      exact ⟨T, holds_store h v hx⟩

end

/-! ## Well-formedness of the block list -/

/-- The blocks in list order, from `b` on. -/
def blockList (m : Mem) : Nat → Nat → Option (List Nat)
  | 0, _ => none
  | fuel + 1, b => if b = 0 then some [] else (blockList m fuel (load m b).next).map (b :: ·)

structure WellFormed (s : HeapState) (bs : List Nat) : Prop where
  walk : blockList s.mem heapFuel s.firstBlock = some bs
  first : bs.head? = some s.firstBlock
  /-- each block ends where the next one starts -/
  tiles : bs.IsChain fun a b => a + blockHeader + (load s.mem a).size = b
  /-- neighbours point at each other -/
  linked : bs.IsChain fun a b => (load s.mem a).next = b ∧ (load s.mem b).prev = a
  ends : ∃ a ∈ bs.getLast?, a + blockHeader + (load s.mem a).size = s.firstBlock + heapSize ∧
    (load s.mem a).next = 0 ∧ (load s.mem s.firstBlock).prev = 0
  sized : ∀ a ∈ bs, (load s.mem a).size % alignment = 0 ∧ minBlock ≤ (load s.mem a).size
  separated : bs.IsChain fun a b => (load s.mem a).used = true ∨ (load s.mem b).used = true
  live : ∀ p, p ∈ s.live ↔ ∃ a ∈ bs, (load s.mem a).used = true ∧ p = a + blockHeader
  totals : ∃ used free, getUsed s.mem s.firstBlock = some used ∧
    getFree s.mem s.firstBlock = some free ∧ used + free + blockHeader * bs.length = heapSize

section
variable {m : Mem} {e prev a : Nat} {bs : List Blk}

/-- The addresses of the blocks. -/
def addrs (a : Nat) (bs : List Blk) : List Nat := (place blockHeader a bs).map Prod.fst

theorem addrs_cons (b : Blk) : addrs a (b :: bs) = a :: addrs (a + blockHeader + b.size) bs := rfl

theorem blockList_spec {fuel : Nat} (h : Seg m e prev a bs) (ha : 0 < a)
    (he : a + span blockHeader bs = e) (hf : bs.length < fuel) :
    blockList m fuel (ptr e a) = some (addrs a bs) := by
  induction bs generalizing prev a fuel with
  | nil =>
    obtain ⟨k, rfl⟩ := Nat.exists_eq_add_one.mpr (Nat.zero_lt_of_lt hf)
    simp only [span, Nat.add_zero] at he
    simp [blockList, ptr, he, addrs, place]
  | cons b bs ih =>
    obtain ⟨k, rfl⟩ := Nat.exists_eq_add_one.mpr (Nat.zero_lt_of_lt hf)
    simp only [span] at he
    have hne : a ≠ e := by simp only [blockHeader] at he; omega
    rw [ptr, if_neg hne, blockList, if_neg (by omega)]
    simp only [h.1]
    rw [ih h.2 (by omega) (by omega) (Nat.lt_of_succ_lt_succ hf)]
    rfl

/-- Neighbours: one ends where the next starts, and they link each other. -/
theorem Seg.chain (h : Seg m e prev a bs) (ha : 0 < a) (he : a + span blockHeader bs = e) :
    (addrs a bs).IsChain fun x y => x + blockHeader + (load m x).size = y ∧
      (load m x).next = y ∧ (load m y).prev = x := by
  induction bs generalizing prev a with
  | nil => exact List.isChain_nil
  | cons b bs ih =>
    simp only [span] at he
    refine List.isChain_cons.mpr ⟨fun y hy => ?_, ih h.2 (by omega) (by omega)⟩
    cases bs with
    | nil => cases hy
    | cons c cs =>
      obtain rfl : a + blockHeader + b.size = y := Option.some.inj hy
      simp only [span, blockHeader] at he
      have hp : ptr e (a + blockHeader + b.size) = a + blockHeader + b.size :=
        if_neg (by simp only [blockHeader]; omega)
      exact ⟨by rw [h.1], by rw [h.1]; exact hp, by rw [h.2.1]⟩

theorem Seg.last (h : Seg m e prev a bs) (he : a + span blockHeader bs = e) (hne : bs ≠ []) :
    ∃ x ∈ (addrs a bs).getLast?, x + blockHeader + (load m x).size = e ∧ (load m x).next = 0 := by
  induction bs generalizing prev a with
  | nil => exact absurd rfl hne
  | cons b bs ih =>
    simp only [span] at he
    cases bs with
    | nil =>
      have hend : a + blockHeader + b.size = e := by simp only [span] at he; omega
      refine ⟨a, rfl, ?_⟩
      rw [h.1]
      exact ⟨hend, if_pos hend⟩
    | cons c cs =>
      obtain ⟨x, hx, hx'⟩ := ih h.2 (by omega) (by simp)
      refine ⟨x, ?_, hx'⟩
      rw [addrs_cons, addrs_cons, List.getLast?_cons_cons, ← addrs_cons]
      exact hx

/-- The used flags along the list are the tiling's. -/
theorem Seg.separated (h : Seg m e prev a bs) (hs : Separated bs) :
    (addrs a bs).IsChain fun x y => (load m x).used = true ∨ (load m y).used = true := by
  induction bs generalizing prev a with
  | nil => exact List.isChain_nil
  | cons b bs ih =>
    obtain ⟨h1, h2⟩ := List.isChain_cons.mp hs
    refine List.isChain_cons.mpr ⟨fun y hy => ?_, ih h.2 h2⟩
    cases bs with
    | nil => cases hy
    | cons c cs =>
      obtain rfl : a + blockHeader + b.size = y := Option.some.inj hy
      rw [h.1, h.2.1]
      exact h1 c rfl

theorem mem_addrs : x ∈ addrs a bs ↔ ∃ b, (x, b) ∈ place blockHeader a bs := by
  simp [addrs]

theorem length_addrs : (addrs a bs).length = bs.length := by
  rw [addrs, List.length_map]
  induction bs generalizing a with
  | nil => rfl
  | cons b bs ih => simp only [place, List.length_cons, ih]

end

theorem ptr_first (a : Nat) : ptr (a + heapSize) a = a := if_neg (by simp only [heapSize]; omega)

/-- What a heap that holds a tiling looks like to the code. -/
theorem Holds.wellFormed {s : HeapState} {T : HeapTiling} (h : Holds s.mem s.firstBlock s.live T) :
    WellFormed s (addrs s.firstBlock T.blocks) := by
  have hend := fills_end T s.firstBlock
  have hfuel := length_lt_fuel T
  have hne : T.blocks ≠ [] := fun h0 => by
    have := T.fills
    rw [h0] at this
    cases this
  obtain ⟨b, bs, hbs⟩ := List.exists_cons_of_ne_nil hne
  have hchain := h.seg.chain h.pos hend
  refine ⟨?_, ?_, hchain.imp fun _ _ hxy => hxy.1, hchain.imp fun _ _ hxy => hxy.2, ?_, ?_,
    h.seg.separated T.separated, fun p => ?_, ?_⟩
  · have := blockList_spec h.seg h.pos hend hfuel
    rwa [ptr_first] at this
  · rw [hbs, addrs_cons]; rfl
  · obtain ⟨x, hx, h1, h2⟩ := h.seg.last hend hne
    have hseg := h.seg
    rw [hbs] at hseg
    exact ⟨x, hx, h1, h2, by rw [hseg.1]⟩
  · intro x hx
    obtain ⟨b, hb⟩ := mem_addrs.mp hx
    rw [(h.block hb).1]
    exact T.sized b (mem_of_mem_place hb)
  · rw [h.mem_live]
    constructor
    · rintro ⟨x, n, rfl, hx⟩
      exact ⟨x, mem_addrs.mpr ⟨_, hx⟩, (h.block hx).2.1, rfl⟩
    · rintro ⟨x, hx, hu, rfl⟩
      obtain ⟨⟨n, u⟩, hb⟩ := mem_addrs.mp hx
      obtain rfl : u = true := (h.block hb).2.1.symm.trans hu
      exact ⟨x, n, rfl, hb⟩
  · have hsmall : 0 + span blockHeader T.blocks < 2 ^ 64 := by rw [T.fills]; decide
    have hu := totalLoop_spec (u := true) h.seg h.pos hend hfuel hsmall
    have hf := totalLoop_spec (u := false) h.seg h.pos hend hfuel hsmall
    rw [ptr_first, Nat.zero_add] at hu hf
    refine ⟨_, _, hu, hf, ?_⟩
    have hsum := span_eq (H := blockHeader) T.blocks
    rw [T.fills] at hsum
    simpa only [length_addrs, beq_true, beq_false] using hsum

/-- In every run the block list is well formed, and `kmalloc` of any size
returns. -/
theorem heap_wellFormed {s : HeapState} (hs : heapLTS.Reachable s) :
    (∃ bs, WellFormed s bs) ∧ ∀ n, ∃ r, kmalloc s.mem s.firstBlock n = some r := by
  obtain ⟨T, h⟩ := holds_inductive.reachable s hs
  refine ⟨⟨_, h.wellFormed⟩, fun n => ?_⟩
  obtain ⟨m', p, -, hk, -⟩ := holds_malloc (n := n) h
  exact ⟨_, hk⟩

/-! A heap in 2 MB of free RAM, and the same in use. -/

def bootHeap : HeapState where
  mem := (init (fillBytes (fun _ => 0) 0x40000000 (256 * 4096) 0) 0x40000000).1
  firstBlock := 0x40000000
  live := []

/-- The state after a call, if it may be made. -/
def HeapState.next (s : HeapState) : HeapCall → Option HeapState
  | .malloc n => if n < 2 ^ 64 then (kmalloc s.mem s.firstBlock n).map fun r =>
      ⟨r.1, s.firstBlock, if r.2 = 0 then s.live else r.2 :: s.live⟩ else none
  | .free p => if p ∈ s.live then some ⟨kfree s.mem p, s.firstBlock, s.live.erase p⟩ else none
  | .store a v => if ∃ p ∈ s.live, p ≤ a ∧ a < p + payload s.mem p then
      some ⟨fun x => if x = a then v else s.mem x, s.firstBlock, s.live⟩ else none

theorem next_step (s : HeapState) (c : HeapCall) (s' : HeapState) (h : s.next c = some s') :
    heapLTS.step s c s' := by
  cases c with
  | malloc n =>
    obtain ⟨hn, h⟩ := Option.ite_none_right_eq_some.mp h
    obtain ⟨⟨m, p⟩, hk, rfl⟩ := Option.map_eq_some_iff.mp h
    exact ⟨hn, m, p, hk, rfl⟩
  | free p | store a v =>
    obtain ⟨hlive, h⟩ := Option.ite_none_right_eq_some.mp h
    exact ⟨hlive, (Option.some.inj h).symm⟩

/-- Three pointers handed out, a byte stored, the second pointer freed. -/
def usedHeap : HeapState :=
  (LTS.runIf HeapState.next (fun _ _ => True) bootHeap [.malloc 100, .malloc 24, .malloc 60,
    .store 0x400000E0 7, .free 0x400000A8]).getD bootHeap

theorem bootHeap_init : heapLTS.init bootHeap := by
  have hrun : Pages.findRun (fun _ => 0) heapPages 0 0 0 512 = some 0 := by decide +kernel
  have hal : Pages.allocPages ⟨fun _ => 0, 512, 512⟩ (fun _ => 0) heapPages =
      (Pages.take ⟨fun _ => 0, 512, 512⟩ 0 heapPages,
        fillBytes (fun _ => 0) 0x40000000 (256 * 4096) 0, 0x40000000) := by
    simp only [Pages.allocPages, hrun]
    rfl
  refine ⟨⟨fun _ => 0, 512, 512⟩, fun _ => 0, by decide, ?_, ?_, ?_, rfl⟩
  · rw [hal]; decide
  all_goals (rw [hal]; rfl)

theorem bootHeap_reachable : heapLTS.Reachable bootHeap := ⟨bootHeap, [], bootHeap_init, .nil _⟩

theorem usedHeap_reachable :
    heapLTS.Reachable usedHeap ∧ usedHeap.live = [0x400000E0, 0x40000020] := by
  have hrun : (LTS.runIf HeapState.next (fun _ _ => True) bootHeap [.malloc 100, .malloc 24,
      .malloc 60, .store 0x400000E0 7, .free 0x400000A8]).map (·.live) =
      some [0x400000E0, 0x40000020] := by decide +kernel
  obtain ⟨s, hs, hlive⟩ := Option.map_eq_some_iff.mp hrun
  have he : usedHeap = s := by rw [usedHeap, hs]; rfl
  rw [he]
  exact ⟨bootHeap_reachable.runIf (fun s c s' _ h => next_step s c s' h) hs, hlive⟩

theorem heap_wellFormed_used : usedHeap.live = [0x400000E0, 0x40000020] ∧
    (∃ bs, WellFormed usedHeap bs) ∧ ∃ r, kmalloc usedHeap.mem usedHeap.firstBlock 20 = some r :=
  ⟨usedHeap_reachable.2, (heap_wellFormed usedHeap_reachable.1).1,
    (heap_wellFormed usedHeap_reachable.1).2 20⟩

/-! ## Separation -/

/-- No byte of a payload that is live before and after a call changes. -/
def KeepsPayloads (s s' : HeapState) : Prop :=
  ∀ p ∈ s.live, p ∈ s'.live → payload s'.mem p = payload s.mem p ∧
    ∀ x, p ≤ x → x < p + payload s.mem p → s'.mem x = s.mem x

structure SeparatedHeap (s : HeapState) : Prop where
  /-- no pointer is handed out twice -/
  nodup : s.live.Nodup
  disjoint : ∀ p ∈ s.live, ∀ q ∈ s.live, p ≠ q →
    p + payload s.mem p ≤ q ∨ q + payload s.mem q ≤ p
  aligned : ∀ p ∈ s.live, p % alignment = 0
  inside : ∀ p ∈ s.live, s.firstBlock ≤ p ∧ p + payload s.mem p ≤ s.firstBlock + heapSize
  offHeaders : ∀ bs, blockList s.mem heapFuel s.firstBlock = some bs → ∀ p ∈ s.live, ∀ a ∈ bs,
    p + payload s.mem p ≤ a ∨ a + blockHeader ≤ p

theorem Holds.separatedHeap {s : HeapState} {T : HeapTiling}
    (h : Holds s.mem s.firstBlock s.live T) : SeparatedHeap s where
  nodup := h.nodup
  disjoint := by
    intro p hp q hq hne
    obtain ⟨x, rfl, hx⟩ := h.liveBlock hp
    obtain ⟨y, rfl, hy⟩ := h.liveBlock hq
    rcases mem_place_apart hx hy with ⟨rfl, -⟩ | h1 | h1
    · exact absurd rfl hne
    · exact .inl (by dsimp only at h1; omega)
    · exact .inr (by dsimp only at h1; omega)
  aligned := by
    intro p hp
    obtain ⟨x, rfl, hx⟩ := h.liveBlock hp
    have := (h.block hx).2.2.1
    simp only [alignment, blockHeader]
    omega
  inside := by
    intro p hp
    obtain ⟨x, rfl, hx⟩ := h.liveBlock hp
    obtain ⟨-, -, -, h1, h2⟩ := h.block hx
    dsimp only at h2
    omega
  offHeaders := by
    intro bs hbs p hp a ha
    rw [h.wellFormed.walk] at hbs
    cases hbs
    obtain ⟨x, rfl, hx⟩ := h.liveBlock hp
    obtain ⟨b, hb⟩ := mem_addrs.mp ha
    rcases mem_place_apart hx hb with ⟨rfl, -⟩ | h1 | h1
    · exact .inr (Nat.le_refl _)
    · exact .inl (by dsimp only at h1; omega)
    · exact .inr (by omega)

/-- A used block that stays where it was keeps its bytes, if only headers of
the two tilings were written. -/
theorem keepsPayload {m m' : Mem} {a : Nat} {live live' : List Nat} {T T' : HeapTiling}
    (h : Holds m a live T) (h' : Holds m' a live' T') (hp : p ∈ live)
    (hplace : ∀ x k, p = x + blockHeader → (x, ⟨k, true⟩) ∈ place blockHeader a T.blocks →
      (x, ⟨k, true⟩) ∈ place blockHeader a T'.blocks)
    (hframe : ∀ y, ¬ OnHeaders a T.blocks y → ¬ OnHeaders a T'.blocks y → m' y = m y) :
    payload m' p = payload m p ∧ ∀ x, p ≤ x → x < p + payload m p → m' x = m x := by
  obtain ⟨x, rfl, hx⟩ := h.liveBlock hp
  have hx' := hplace x _ rfl hx
  refine ⟨?_, fun y h1 h2 => hframe y (off_headers hx h1 h2) (off_headers hx' h1 h2)⟩
  have := (h'.block hx').1
  rwa [payload, Nat.add_sub_cancel]

/-- In every run live payloads are apart from each other and from all headers,
and no `kmalloc` or `kfree` touches one that stays live. -/
theorem heap_separation {s : HeapState} (hs : heapLTS.Reachable s) : SeparatedHeap s ∧
    (∀ n s', heapLTS.step s (.malloc n) s' → KeepsPayloads s s') ∧
    ∀ p s', heapLTS.step s (.free p) s' → KeepsPayloads s s' := by
  obtain ⟨T, h⟩ := holds_inductive.reachable s hs
  refine ⟨h.separatedHeap, fun n s' hstep p hp _ => ?_, fun p s' hstep q hq hq' => ?_⟩
  · obtain ⟨-, m', r, hk, rfl⟩ := hstep
    obtain ⟨m₁, r₁, T', hk', h', hplace, hframe⟩ := holds_malloc (n := n) h
    rw [hk] at hk'
    cases hk'
    exact keepsPayload h h' hp (fun x k _ hx => hplace x k hx) hframe
  · obtain ⟨hp, rfl⟩ := hstep
    obtain ⟨T', h', hplace, hframe⟩ := holds_free h hp
    have hne : q ≠ p := fun e => h.nodup.not_mem_erase (e ▸ hq')
    exact keepsPayload h h' hq (fun x k e hx => (hplace x k).mpr ⟨hx, fun e' => hne (e.trans e')⟩)
      fun y hy _ => hframe y hy

theorem heap_separation_used : usedHeap.live = [0x400000E0, 0x40000020] ∧
    SeparatedHeap usedHeap ∧ ∀ n s', heapLTS.step usedHeap (.malloc n) s' →
      KeepsPayloads usedHeap s' := by
  obtain ⟨hsep, hmalloc, -⟩ := heap_separation usedHeap_reachable.1
  exact ⟨usedHeap_reachable.2, hsep, hmalloc⟩

end HackersOs.L2.Heap

import HackersOs.L2Memory.Heap

/-!
# The heap's headers simulate a tiling

`Seg m e prev a bs` says that from address `a` on memory holds the headers of
the blocks `bs`, doubly linked, up to the heap's end `e`. The simulation:
* `kmallocLoop_spec`: the search loop does to the headers what `Tiling.alloc`
  does to the list;
* `kfree_spec`: `kfree` does to the headers what `Tiling.free` does;
* `totalLoop_spec`: `get_used` and `get_free` sum the list;
and the calls write nothing but headers of the list before and after.
-/
namespace HackersOs.L2.Heap
open HackersOs.Core HackersOs.Core.Tiling

variable {fuel s x : Nat} {u : Bool} {xs ys : List Blk}

/-- The pointer to the block at `a`; past the last block it is null. -/
def ptr (e a : Nat) : Nat := if a = e then 0 else a

def Seg (m : Mem) (e : Nat) : Nat → Nat → List Blk → Prop
  | _, _, [] => True
  | prev, a, b :: bs =>
    load m a = ⟨b.size, b.used, ptr e (a + blockHeader + b.size), prev⟩ ∧
    Seg m e a (a + blockHeader + b.size) bs

/-- Byte `x` belongs to the header of one of the blocks. -/
def OnHeaders (a : Nat) (bs : List Blk) (x : Nat) : Prop :=
  ∃ p ∈ place blockHeader a bs, InHeader p.1 x

/-- The address of the last block, `prev` if there is none. -/
def lastAddr (prev a : Nat) : List Blk → Nat
  | [] => prev
  | b :: bs => lastAddr a (a + blockHeader + b.size) bs

section
variable {m m' : Mem} {e prev a : Nat} {b : Blk} {bs : List Blk}

theorem OnHeaders.cons {x : Nat} : OnHeaders a (b :: bs) x ↔
    InHeader a x ∨ OnHeaders (a + blockHeader + b.size) bs x := by
  simp [OnHeaders, place]

theorem OnHeaders.flag {u' : Bool} (h : OnHeaders a (⟨s, u⟩ :: bs) x) :
    OnHeaders a (⟨s, u'⟩ :: bs) x := by
  rw [OnHeaders.cons] at h ⊢
  exact h

theorem OnHeaders.append : OnHeaders a (xs ++ ys) x ↔
    OnHeaders a xs x ∨ OnHeaders (a + span blockHeader xs) ys x := by
  simp only [OnHeaders, place_append, List.mem_append, or_and_right, exists_or]

theorem OnHeaders.bounds (h : OnHeaders a bs x) :
    a ≤ x ∧ x < a + span blockHeader bs := by
  obtain ⟨⟨y, b⟩, hy, hx⟩ := h
  have := mem_place_bounds hy
  unfold InHeader at hx
  omega

theorem Seg.congr (h : Seg m e prev a bs) (hm : ∀ x, OnHeaders a bs x → m' x = m x) :
    Seg m' e prev a bs := by
  induction bs generalizing prev a with
  | nil => trivial
  | cons b bs ih =>
    refine ⟨?_, ih h.2 fun x hx => hm x (OnHeaders.cons.mpr (.inr hx))⟩
    rw [← h.1]
    exact load_congr fun x hx => hm x (OnHeaders.cons.mpr (.inl hx))

theorem seg_append : Seg m e prev a (xs ++ ys) ↔
    Seg m e prev a xs ∧ Seg m e (lastAddr prev a xs) (a + span blockHeader xs) ys := by
  induction xs generalizing prev a with
  | nil => simp [Seg, lastAddr, span]
  | cons b xs ih =>
    simp only [List.cons_append, Seg, ih, lastAddr, span, and_assoc, Nat.add_assoc]

theorem lastAddr_concat (xs : List Blk) (c : Blk) :
    lastAddr prev a (xs ++ [c]) = a + span blockHeader xs := by
  induction xs generalizing prev a with
  | nil => rfl
  | cons b xs ih => simp only [List.cons_append, lastAddr, ih, span]; omega

/-- The list after its first block got another predecessor. -/
theorem Seg.relink {prev' : Nat} (h : Seg m e prev a bs) (ha : 0 < a)
    (he : a + span blockHeader bs = e)
    (hl : ptr e a ≠ 0 → load m' (ptr e a) = { load m (ptr e a) with prev := prev' })
    (hm : ∀ x, OnHeaders a bs x → ¬ InHeader a x → m' x = m x) : Seg m' e prev' a bs := by
  cases bs with
  | nil => trivial
  | cons b bs =>
    have hne : a ≠ e := by simp only [span, blockHeader] at he; omega
    have hp : ptr e a = a := if_neg hne
    rw [hp] at hl
    refine ⟨?_, h.2.congr fun x hx => hm x (OnHeaders.cons.mpr (.inr hx)) fun hi => ?_⟩
    · rw [hl (by omega), h.1]
    · have := hx.bounds.1
      unfold InHeader at hi
      omega

theorem ptr_ne_zero (h : ptr e a ≠ 0) : ptr e a = a := by
  unfold ptr at *
  split at h
  · exact absurd rfl h
  · simp [*]

end

/-! ## `kmalloc` -/

section
variable {m : Mem} {e prev a n : Nat} {b : Blk} {bs : List Blk}

/-- What `kmalloc` does to the free block it found. -/
def takeBlock (m : Mem) (block size : Nat) : Mem :=
  setUsed (if (load m block).size ≥ (size + blockHeader + minBlock) % 2 ^ 64
    then split m block size else m) block true

theorem Seg.take (h : Seg m e prev a (b :: bs)) (ha : 0 < a) (he : a + span blockHeader (b :: bs) = e)
    (he64 : e < 2 ^ 64) (hn : n ≤ b.size) (hsize : b.size < 2 ^ 32) :
    Seg (takeBlock m a n) e prev a (Tiling.take blockHeader minBlock n b ++ bs) ∧
    ∀ x, ¬ OnHeaders a (b :: bs) x →
      ¬ OnHeaders a (Tiling.take blockHeader minBlock n b ++ bs) x → takeBlock m a n x = m x := by
  obtain ⟨hl, hbs⟩ := h
  have hspan : a + blockHeader + b.size + span blockHeader bs = e := by
    rw [← he]; simp only [span]; omega
  have hcond : (load m a).size ≥ (n + blockHeader + minBlock) % 2 ^ 64 ↔
      n + blockHeader + minBlock ≤ b.size := by
    rw [hl, Nat.mod_eq_of_lt (by simp only [blockHeader, minBlock]; omega)]
  unfold takeBlock Tiling.take
  by_cases hc : n + blockHeader + minBlock ≤ b.size
  · rw [if_pos (hcond.mpr hc), if_pos hc]
    obtain ⟨s1, s2, s3, s4⟩ := split_spec hl (n := n) (by omega) (by omega)
      (fun h0 => by rw [ptr_ne_zero h0])
    have hnew : a + blockHeader + n + blockHeader + (b.size - n - blockHeader) =
        a + blockHeader + b.size := by omega
    have ap : Apart a (a + blockHeader + n) := .inl (by omega)
    refine ⟨⟨?_, ?_, ?_⟩, fun x hx hx' => ?_⟩
    · rw [load_setUsed, s1]
      have : a + blockHeader + n ≠ e := by simp only [blockHeader, minBlock] at *; omega
      rw [ptr, if_neg this]
    · rw [load_setUsed_ne ap, s2, hnew]
    · -- the successor, if any, now points back to the new block
      rw [hnew]
      refine hbs.relink (by omega) hspan (fun h0 => ?_) fun x hx hx' => ?_
      · have ap' : Apart a (ptr e (a + blockHeader + b.size)) := .inl (by rw [ptr_ne_zero h0]; omega)
        rw [load_setUsed_ne ap', s3 h0]
      have hb := hx.bounds.1
      have h1 : ¬ InHeader a x := by unfold InHeader; omega
      have h2 : ¬ InHeader (a + blockHeader + n) x := by
        unfold InHeader; simp only [minBlock] at hc; omega
      rw [setUsed_outside h1, s4 x h1 h2 fun h0 => by rwa [ptr_ne_zero h0]]
    · simp only [List.cons_append, List.nil_append, OnHeaders.cons, not_or] at hx hx'
      rw [setUsed_outside hx.1, s4 x hx.1 hx'.2.1 fun h0 hi => ?_]
      -- the successor is the first of `bs`
      rw [ptr_ne_zero h0] at hi
      cases bs with
      | nil => simp only [span] at hspan; exact h0 (if_pos hspan)
      | cons c bs => exact hx.2 (OnHeaders.cons.mpr (.inl hi))
  · rw [if_neg (fun h => hc (hcond.mp h)), if_neg hc]
    refine ⟨⟨by rw [load_setUsed, hl], hbs.congr fun x hx => ?_⟩, fun x hx _ => ?_⟩
    · have hb := hx.bounds.1
      exact setUsed_outside (by unfold InHeader; omega)
    · exact setUsed_outside fun hi => hx (OnHeaders.cons.mpr (.inl hi))

/-- The search loop of `kmalloc` is `alloc`: it finds no block and changes
nothing, or it takes the block that `alloc` takes. -/
theorem kmallocLoop_spec (h : Seg m e prev a bs) (ha : 0 < a) (he : a + span blockHeader bs = e)
    (he64 : e < 2 ^ 64) (hsize : ∀ b ∈ bs, b.size < 2 ^ 32) (hf : bs.length < fuel) :
    (alloc blockHeader minBlock n a bs = none ∧ kmallocLoop n m fuel (ptr e a) = some (m, 0)) ∨
    ∃ bs' p m', alloc blockHeader minBlock n a bs = some (bs', p) ∧
      kmallocLoop n m fuel (ptr e a) = some (m', p + blockHeader) ∧ Seg m' e prev a bs' ∧
      ∀ x, ¬ OnHeaders a bs x → ¬ OnHeaders a bs' x → m' x = m x := by
  induction bs generalizing prev a fuel with
  | nil =>
    obtain ⟨k, rfl⟩ := Nat.exists_eq_add_one.mpr (Nat.zero_lt_of_lt hf)
    simp only [span, Nat.add_zero] at he
    exact .inl ⟨rfl, by simp [kmallocLoop, ptr, he]⟩
  | cons b bs ih =>
    obtain ⟨k, rfl⟩ := Nat.exists_eq_add_one.mpr (Nat.zero_lt_of_lt hf)
    have hne : a ≠ e := by simp only [span, blockHeader] at he; omega
    have hl := h.1
    rw [ptr, if_neg hne, kmallocLoop, if_neg (by omega), alloc]
    simp only [hl]
    by_cases hfit : b.used = false ∧ n ≤ b.size
    · rw [if_pos hfit, if_pos hfit]
      obtain ⟨hseg, hframe⟩ := h.take ha he he64 hfit.2 (hsize b List.mem_cons_self)
      refine .inr ⟨_, a, takeBlock m a n, rfl, ?_, hseg, hframe⟩
      simp only [takeBlock, hl]
    · rw [if_neg hfit, if_neg hfit]
      have he' : a + blockHeader + b.size + span blockHeader bs = e := by
        rw [← he]; simp only [span]; omega
      rcases ih h.2 (by omega) he' (fun c hc => hsize c (List.mem_cons_of_mem _ hc))
        (Nat.lt_of_succ_lt_succ hf) with ⟨hn, hk⟩ | ⟨bs', p, m', hn, hk, hseg, hframe⟩
      · exact .inl ⟨by rw [hn]; rfl, hk⟩
      · refine .inr ⟨b :: bs', p, m', by rw [hn]; rfl, hk, ⟨?_, hseg⟩, fun x hx hx' => ?_⟩
        · -- the blocks behind this one are taken apart behind its header
          rw [← hl]
          refine load_congr fun x hx => hframe x (fun ho => ?_) fun ho => ?_
          all_goals
            have := ho.bounds.1
            unfold InHeader at hx
            omega
        · rw [OnHeaders.cons, not_or] at hx hx'
          exact hframe x hx.2 hx'.2

end

/-! ## `kfree` -/

section
variable {m : Mem} {e prev a : Nat} {b c : Blk} {bs : List Blk}

theorem join_head (b : Blk) (bs : List Blk) (hb : b.used = false) :
    ∃ c cs, join blockHeader b bs = c :: cs ∧ c.used = false := by
  cases bs with
  | nil => exact ⟨b, [], rfl, hb⟩
  | cons d ds =>
    simp only [join]
    split
    · exact ⟨b, d :: ds, rfl, hb⟩
    · exact ⟨_, ds, rfl, rfl⟩

/-- Marking a block free. -/
theorem Seg.setUsed (h : Seg m e prev a (b :: bs)) :
    Seg (setUsed m a false) e prev a (⟨b.size, false⟩ :: bs) := by
  refine ⟨by rw [load_setUsed, h.1], h.2.congr fun x hx => ?_⟩
  have hb := hx.bounds.1
  exact setUsed_outside (by unfold InHeader; omega)

/-- The list after the block at `a` took over the one behind it: the header at `a`
and the back link of the block behind both were written. -/
theorem Seg.merged {m' : Mem} {p : Nat} {d : Blk}
    (h : Seg m e p (a + blockHeader + b.size + blockHeader + d.size) bs) (ha : 0 < a)
    (he : a + blockHeader + b.size + blockHeader + d.size + span blockHeader bs = e)
    (hl : load m' a = ⟨b.size + (blockHeader + d.size), false,
      ptr e (a + blockHeader + b.size + blockHeader + d.size), prev⟩)
    (hback : ptr e (a + blockHeader + b.size + blockHeader + d.size) ≠ 0 →
      load m' (ptr e (a + blockHeader + b.size + blockHeader + d.size)) =
        { load m (ptr e (a + blockHeader + b.size + blockHeader + d.size)) with prev := a })
    (hm : ∀ x, ¬ InHeader a x → (ptr e (a + blockHeader + b.size + blockHeader + d.size) ≠ 0 →
      ¬ InHeader (ptr e (a + blockHeader + b.size + blockHeader + d.size)) x) → m' x = m x) :
    Seg m' e prev a (⟨b.size + blockHeader + d.size, false⟩ :: bs) ∧
      ∀ x, ¬ OnHeaders a (b :: d :: bs) x → m' x = m x := by
  have hsum : a + blockHeader + (b.size + blockHeader + d.size) =
      a + blockHeader + b.size + blockHeader + d.size := by omega
  refine ⟨⟨?_, ?_⟩, fun x hx => ?_⟩
  · rw [hl, hsum, Nat.add_assoc b.size]
  · rw [hsum]
    refine h.relink (by omega) he hback fun x hx hx' => hm x ?_ fun h0 => ?_
    · have := hx.bounds.1
      unfold InHeader; omega
    · rwa [ptr_ne_zero h0]
  · simp only [OnHeaders.cons, not_or] at hx
    refine hm x hx.1 fun h0 hi => ?_
    rw [ptr_ne_zero h0] at hi
    cases bs with
    | nil => simp only [span] at he; exact h0 (if_pos (by omega))
    | cons c ds => exact hx.2.2 (OnHeaders.cons.mpr (.inl hi))

/-- `coalesceNext` on a free block joins it with what follows. -/
theorem Seg.coalesceNext (h : Seg m e prev a (b :: bs)) (hb : b.used = false) (ha : 0 < a)
    (he : a + span blockHeader (b :: bs) = e) (he64 : e < 2 ^ 64) :
    Seg (coalesceNext m a) e prev a (join blockHeader b bs) ∧
    ∀ x, ¬ OnHeaders a (b :: bs) x → coalesceNext m a x = m x := by
  obtain ⟨hl, hbs⟩ := h
  cases bs with
  | nil =>
    have hz : ptr e (a + blockHeader + b.size) = 0 := if_pos (by rw [← he]; simp only [span]; omega)
    have hid : Heap.coalesceNext m a = m := if_neg (by simp [hl, hz])
    rw [hid]
    exact ⟨⟨hl, hbs⟩, fun _ _ => rfl⟩
  | cons d ds =>
    simp only [span] at he
    have hnx : ptr e (a + blockHeader + b.size) = a + blockHeader + b.size :=
      if_neg (by simp only [blockHeader] at *; omega)
    rw [hnx] at hl
    obtain ⟨hd, hds⟩ := hbs
    by_cases hu : d.used = true
    · have hid : Heap.coalesceNext m a = m := if_neg (by simp [hl, hd, hu])
      rw [hid, join, if_pos (.inr hu)]
      exact ⟨⟨by rw [hl, hnx], hd, hds⟩, fun _ _ => rfl⟩
    · have hu' : d.used = false := by simpa using hu
      rw [hu'] at hd
      have hend : a + blockHeader + b.size + blockHeader + d.size + span blockHeader ds = e := by
        omega
      obtain ⟨s1, s2, s3⟩ := coalesceNext_spec hl hd (by omega) (by omega) (by omega)
        (.inl (by omega)) (fun h0 => .inl (by rw [ptr_ne_zero h0]; omega))
      rw [join, if_neg (by simp [hb, hu])]
      exact hds.merged (by omega) hend (by rw [s1, hb]) s2 s3

/-- `coalescePrev` on the free block behind `c` joins the two. -/
theorem Seg.coalescePrev (h : Seg m e prev a (c :: b :: bs)) (hb : b.used = false) (ha : 0 < a)
    (he : a + span blockHeader (c :: b :: bs) = e) (he64 : e < 2 ^ 64) :
    Seg (coalescePrev m (a + blockHeader + c.size)) e prev a (join blockHeader c (b :: bs)) ∧
    ∀ x, ¬ OnHeaders a (c :: b :: bs) x → coalescePrev m (a + blockHeader + c.size) x = m x := by
  obtain ⟨hc, hl, hbs⟩ := h
  simp only [span] at he
  have hnx : ptr e (a + blockHeader + c.size) = a + blockHeader + c.size :=
    if_neg (by simp only [blockHeader] at *; omega)
  rw [hnx] at hc
  by_cases hu : c.used = true
  · have hid : Heap.coalescePrev m (a + blockHeader + c.size) = m := if_neg (by simp [hl, hc, hu])
    rw [hid, join, if_pos (.inl hu)]
    exact ⟨⟨by rw [hc, hnx], hl, hbs⟩, fun _ _ => rfl⟩
  · have hu' : c.used = false := by simpa using hu
    rw [hu'] at hc
    rw [hb] at hl
    have hend : a + blockHeader + c.size + blockHeader + b.size + span blockHeader bs = e := by
      omega
    obtain ⟨s1, s2, s3⟩ := coalescePrev_spec hl hc (by omega) (by omega)
      (.inl (by omega)) (fun h0 => .inl (by rw [ptr_ne_zero h0]; omega))
    rw [join, if_neg (by simp [hb, hu])]
    exact hbs.merged (by omega) hend s1 s2 s3

/-- The headers of a joined list are headers of the list. -/
theorem OnHeaders.of_join (h : OnHeaders a (join blockHeader b bs) x) :
    OnHeaders a (b :: bs) x := by
  cases bs with
  | nil => exact h
  | cons d ds =>
    simp only [join] at h
    split at h
    · exact h
    · have hsum : a + blockHeader + (b.size + blockHeader + d.size) =
          a + blockHeader + b.size + blockHeader + d.size := by omega
      simp only [OnHeaders.cons, hsum] at h ⊢
      exact h.imp_right .inr

/-- The first half of `kfree`: the block is marked free and joined with what follows.
Only headers from this block on are written. -/
theorem Seg.release (h : Seg m e prev a (⟨s, true⟩ :: bs)) (ha : 0 < a)
    (he : a + span blockHeader (⟨s, true⟩ :: bs) = e) (he64 : e < 2 ^ 64) :
    ∃ b' bs', join blockHeader ⟨s, false⟩ bs = b' :: bs' ∧ b'.used = false ∧
      Seg (Heap.coalesceNext (Heap.setUsed m a false) a) e prev a (b' :: bs') ∧
      a + span blockHeader (b' :: bs') = e ∧
      (∀ y, OnHeaders a (b' :: bs') y → OnHeaders a (⟨s, true⟩ :: bs) y) ∧
      ∀ y, ¬ OnHeaders a (⟨s, true⟩ :: bs) y →
        Heap.coalesceNext (Heap.setUsed m a false) a y = m y := by
  obtain ⟨hj, hjf⟩ := h.setUsed.coalesceNext rfl ha he he64
  obtain ⟨b', bs', hjoin, hb'⟩ := join_head ⟨s, false⟩ bs rfl
  have hspan : span blockHeader (join blockHeader ⟨s, false⟩ bs) =
      span blockHeader (⟨s, false⟩ :: bs) := span_join _ _
  refine ⟨b', bs', hjoin, hb', hjoin ▸ hj, ?_, fun y hy => ?_, fun y hy => ?_⟩
  · rw [← hjoin, hspan]
    exact he
  · rw [← hjoin] at hy
    exact OnHeaders.flag hy.of_join
  · rw [hjf y fun ho => hy ho.flag]
    exact setUsed_outside fun hi => hy (OnHeaders.cons.mpr (.inl hi))

/-- `kfree` of a used block is `free`, and writes only headers. -/
theorem kfree_spec (h : Seg m e 0 a bs) (ha : 0 < a) (he : a + span blockHeader bs = e)
    (he64 : e < 2 ^ 64) (hsep : Separated bs) (hx : (x, ⟨s, true⟩) ∈ place blockHeader a bs) :
    Seg (kfree m (x + blockHeader)) e 0 a (free blockHeader x a bs) ∧
    ∀ y, ¬ OnHeaders a bs y → kfree m (x + blockHeader) y = m y := by
  obtain ⟨pre, post, rfl, rfl⟩ := exists_split_of_mem_place hx
  rw [span_append, ← Nat.add_assoc] at he
  have hblock : (a + span blockHeader pre + blockHeader + 2 ^ 64 - blockHeader) % 2 ^ 64 =
      a + span blockHeader pre := by
    rw [show a + span blockHeader pre + blockHeader + 2 ^ 64 - blockHeader =
      a + span blockHeader pre + 2 ^ 64 by omega, Nat.add_mod_right, Nat.mod_eq_of_lt (by omega)]
  rw [kfree, if_neg (by simp only [blockHeader]; omega)]
  simp only [hblock]
  rw [free_append (by decide)]
  obtain ⟨hpre, hmid⟩ := seg_append.mp h
  obtain ⟨b', post', hjoin, hb', hj, hend, hsub, hm2⟩ := hmid.release (by omega) he he64
  rw [hjoin]
  generalize Heap.coalesceNext (Heap.setUsed m (a + span blockHeader pre) false)
    (a + span blockHeader pre) = m₂ at hj hm2 ⊢
  have hpre2 : Seg m₂ e 0 a pre := hpre.congr fun y hy => hm2 y fun ho => by
    have := ho.bounds.1
    have := hy.bounds.2
    omega
  rcases pre.eq_nil_or_concat with rfl | ⟨pre₀, c, rfl⟩
  · -- the first block has no predecessor
    simp only [span, Nat.add_zero, lastAddr] at hj hm2 hsub ⊢
    have hid : Heap.coalescePrev m₂ a = m₂ := if_neg (by simp [hj.1])
    rw [hid]
    exact ⟨hj, fun y hy => hm2 y hy⟩
  · rw [List.concat_eq_append] at *
    have hc : a + span blockHeader (pre₀ ++ [c]) =
        a + span blockHeader pre₀ + blockHeader + c.size := by
      rw [span_append]; simp only [span]; omega
    rw [hc] at hj hm2 hsub hend ⊢
    rw [lastAddr_concat] at hj
    obtain ⟨hp0, hpc, -⟩ := seg_append.mp hpre2
    have hend' : a + span blockHeader pre₀ + span blockHeader (c :: b' :: post') = e := by
      rw [← hend]; simp only [span]; omega
    obtain ⟨hs, hsf⟩ := Seg.coalescePrev ⟨hpc, hj⟩ hb' (by omega) hend' he64
    have hsep₀ : Separated (pre₀ ++ [c]) := (List.isChain_append.mp hsep).1
    rw [List.foldr_append, List.foldr_cons, List.foldr_nil, foldr_join hsep₀ ?_]
    · refine ⟨seg_append.mpr ⟨hp0.congr fun y hy => hsf y fun ho => ?_, hs⟩, fun y hy => ?_⟩
      · have := ho.bounds.1
        have := hy.bounds.2
        omega
      · rw [OnHeaders.append, OnHeaders.append, not_or, not_or, hc] at hy
        rw [hsf y fun ho => ?_, hm2 y hy.2]
        rcases OnHeaders.cons.mp ho with hi | hi
        · exact hy.1.2 (OnHeaders.cons.mpr (.inl hi))
        · exact hy.2 (hsub y hi)
    · simp only [join]
      split
      · exact ⟨c, rfl, id⟩
      · rename_i hcb
        exact ⟨_, rfl, fun hcu => absurd (.inl hcu) hcb⟩

end

/-! ## `get_used` and `get_free` -/

/-- The walks sum the payloads of the used, or of the free, blocks. -/
theorem totalLoop_spec {m : Mem} {e prev a acc : Nat} {bs : List Blk} (h : Seg m e prev a bs)
    (ha : 0 < a) (he : a + span blockHeader bs = e) (hf : bs.length < fuel)
    (hacc : acc + span blockHeader bs < 2 ^ 64) :
    totalLoop u m fuel (ptr e a) acc = some (acc + ((bs.filter (·.used == u)).map (·.size)).sum) := by
  induction bs generalizing prev a acc fuel with
  | nil =>
    obtain ⟨k, rfl⟩ := Nat.exists_eq_add_one.mpr (Nat.zero_lt_of_lt hf)
    simp only [span, Nat.add_zero] at he
    simp [totalLoop, ptr, he]
  | cons b bs ih =>
    obtain ⟨k, rfl⟩ := Nat.exists_eq_add_one.mpr (Nat.zero_lt_of_lt hf)
    simp only [span] at he hacc
    have hne : a ≠ e := by simp only [blockHeader] at he; omega
    rw [ptr, if_neg hne, totalLoop, if_neg (by omega)]
    simp only [h.1]
    by_cases hu : b.used = u
    · rw [if_pos hu, Nat.mod_eq_of_lt (by omega), ih h.2 (by omega) (by omega)
        (Nat.lt_of_succ_lt_succ hf) (by omega), List.filter_cons, if_pos (by simpa using hu),
        List.map_cons, List.sum_cons, Nat.add_assoc]
    · rw [if_neg hu, ih h.2 (by omega) (by omega) (Nat.lt_of_succ_lt_succ hf) (by omega),
        List.filter_cons, if_neg (by simpa using hu)]

end HackersOs.L2.Heap

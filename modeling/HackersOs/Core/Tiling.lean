import Mathlib.Algebra.GroupWithZero.Nat
import Mathlib.Data.List.Chain
import Mathlib.Tactic.Common

/-!
# Tilings: the abstract first-fit allocator

A region is cut into blocks, each a header of `H` bytes and a payload, used
or free, from one end to the other. A `Tiling` carries what makes the cut
sound: it fills the region, every payload is a multiple of the alignment and
not below the minimum, and no two neighbours are both free. `alloc` takes the
first free block that is large enough and splits it when the rest can hold a
block; `free` frees a block and joins it with its free neighbours.

`place H a bs` lists the blocks with their addresses. `place_alloc` and
`place_free` say what the operations do to the used blocks: one more, one
less, all others where they were. `eq_of_used` says that nothing else matters:
the used blocks determine the cut.
-/
namespace HackersOs.Core

variable {cs post pre : List Blk} {s : Nat}

variable {a n p x : Nat} {b c : Blk} {bs bs' : List Blk}

structure Blk where
  size : Nat
  used : Bool
  deriving DecidableEq, Repr

namespace Tiling

variable (H minB : Nat)

/-! ## Definitions -/

def span : List Blk → Nat
  | [] => 0
  | b :: bs => H + b.size + span bs

/-- The blocks with their addresses, the first one at `a`. -/
def place : Nat → List Blk → List (Nat × Blk)
  | _, [] => []
  | a, b :: bs => (a, b) :: place (a + H + b.size) bs

/-- A free block taken for `n` bytes. -/
def take (n : Nat) (b : Blk) : List Blk :=
  if n + H + minB ≤ b.size then [⟨n, true⟩, ⟨b.size - n - H, false⟩] else [⟨b.size, true⟩]

/-- First fit: the new blocks and the address of the one taken. -/
def alloc (n : Nat) : Nat → List Blk → Option (List Blk × Nat)
  | _, [] => none
  | a, b :: bs =>
    if b.used = false ∧ n ≤ b.size then some (take H minB n b ++ bs, a)
    else (alloc n (a + H + b.size) bs).map fun r => (b :: r.1, r.2)

/-- A block in front of others; two free neighbours become one. -/
def join (b : Blk) : List Blk → List Blk
  | [] => [b]
  | c :: cs => if b.used = true ∨ c.used = true then b :: c :: cs
      else ⟨b.size + H + c.size, false⟩ :: cs

/-- The block at `p` becomes free. -/
def free (p : Nat) : Nat → List Blk → List Blk
  | _, [] => []
  | a, b :: bs =>
    if a = p then join H ⟨b.size, false⟩ bs else join H b (free p (a + H + b.size) bs)

/-- No two free neighbours. -/
def Separated (bs : List Blk) : Prop := bs.IsChain fun b c => b.used = true ∨ c.used = true

/-! ## Addresses -/

variable {H minB}

theorem span_append (xs ys : List Blk) : span H (xs ++ ys) = span H xs + span H ys := by
  induction xs with
  | nil => simp [span]
  | cons b xs ih => simp only [List.cons_append, span, ih]; omega

theorem place_append (a : Nat) (xs ys : List Blk) :
    place H a (xs ++ ys) = place H a xs ++ place H (a + span H xs) ys := by
  induction xs generalizing a with
  | nil => simp [place, span]
  | cons b xs ih =>
    simp only [List.cons_append, place, ih, span]
    congr 3
    omega

theorem mem_place_bounds (h : (x, b) ∈ place H a bs) : a ≤ x ∧ x + H + b.size ≤ a + span H bs := by
  induction bs generalizing a with
  | nil => cases h
  | cons c bs ih =>
    simp only [place, List.mem_cons, Prod.mk.injEq] at h
    simp only [span]
    rcases h with ⟨rfl, rfl⟩ | h
    · omega
    · have := ih h
      omega

/-- Two blocks of a tiling are the same or lie one before the other. -/
theorem mem_place_apart {y : Nat} (hx : (x, b) ∈ place H a bs) (hy : (y, c) ∈ place H a bs) :
    (x = y ∧ b = c) ∨ x + H + b.size ≤ y ∨ y + H + c.size ≤ x := by
  induction bs generalizing a with
  | nil => cases hx
  | cons d bs ih =>
    simp only [place, List.mem_cons, Prod.mk.injEq] at hx hy
    rcases hx with ⟨rfl, rfl⟩ | hx <;> rcases hy with ⟨rfl, rfl⟩ | hy
    · exact .inl ⟨rfl, rfl⟩
    · have := mem_place_bounds hy; omega
    · have := mem_place_bounds hx; omega
    · exact ih hx hy

theorem exists_split_of_mem_place (h : (x, b) ∈ place H a bs) :
    ∃ pre post, bs = pre ++ b :: post ∧ x = a + span H pre := by
  induction bs generalizing a with
  | nil => cases h
  | cons c bs ih =>
    simp only [place, List.mem_cons, Prod.mk.injEq] at h
    rcases h with ⟨rfl, rfl⟩ | h
    · exact ⟨[], bs, rfl, rfl⟩
    · obtain ⟨pre, post, rfl, rfl⟩ := ih h
      exact ⟨c :: pre, post, rfl, by simp only [span]; omega⟩

theorem mem_place_split (a : Nat) (pre post : List Blk) (b : Blk) :
    (a + span H pre, b) ∈ place H a (pre ++ b :: post) := by
  rw [place_append]
  exact List.mem_append_right _ List.mem_cons_self

theorem mem_of_mem_place (h : (x, b) ∈ place H a bs) : b ∈ bs := by
  obtain ⟨pre, post, rfl, -⟩ := exists_split_of_mem_place h
  simp

/-! ## Accounting -/

/-- Used payload, free payload and headers make up the whole region. -/
theorem span_eq (bs : List Blk) :
    ((bs.filter (·.used)).map (·.size)).sum + ((bs.filter (!·.used)).map (·.size)).sum +
      H * bs.length = span H bs := by
  induction bs with
  | nil => rfl
  | cons b bs ih =>
    simp only [span, ← ih, List.length_cons, Nat.mul_add, Nat.mul_one]
    cases hb : b.used <;> simp [hb] <;> omega

/-! ## `alloc` -/

theorem span_take : span H (take H minB n b) = H + b.size := by
  unfold take
  split
  all_goals (simp only [span]; omega)

theorem alloc_some (h : alloc H minB n a bs = some (bs', p)) :
    ∃ pre b post, bs = pre ++ b :: post ∧ bs' = pre ++ (take H minB n b ++ post) ∧
      p = a + span H pre ∧ b.used = false ∧ n ≤ b.size := by
  induction bs generalizing a bs' with
  | nil => cases h
  | cons c bs ih =>
    rw [alloc] at h
    split at h
    · rename_i hc
      cases h
      exact ⟨[], c, bs, rfl, rfl, rfl, hc.1, hc.2⟩
    · obtain ⟨⟨bs₁, p₁⟩, h₁, h₂⟩ := Option.map_eq_some_iff.mp h
      cases h₂
      obtain ⟨pre, b, post, rfl, rfl, rfl, hb⟩ := ih h₁
      exact ⟨c :: pre, b, post, rfl, rfl, by simp only [span]; omega, hb⟩

/-- `alloc` gives up when no free block is large enough. -/
theorem alloc_none (h : alloc H minB n a bs = none) : ∀ b ∈ bs, b.used = false → b.size < n := by
  induction bs generalizing a with
  | nil =>
    intro b hb
    cases hb
  | cons c bs ih =>
    rw [alloc] at h
    split at h
    · cases h
    rename_i hc
    intro b hb hfree
    rcases List.mem_cons.mp hb with rfl | hb
    · exact Nat.lt_of_not_le fun hle => hc ⟨hfree, hle⟩
    · exact ih (Option.map_eq_none_iff.mp h) b hb hfree

/-- The block taken is the first that is large enough. -/
theorem alloc_lowest (h : alloc H minB n a bs = some (bs', p)) (hx : (x, b) ∈ place H a bs)
    (hb : b.used = false) (hn : n ≤ b.size) : p ≤ x := by
  induction bs generalizing a bs' with
  | nil => cases hx
  | cons c bs ih =>
    have hax := (mem_place_bounds hx).1
    rw [alloc] at h
    split at h
    · cases h
      exact hax
    rename_i hc
    obtain ⟨⟨bs₁, p₁⟩, h₁, h₂⟩ := Option.map_eq_some_iff.mp h
    cases h₂
    simp only [place, List.mem_cons, Prod.mk.injEq] at hx
    rcases hx with ⟨-, rfl⟩ | hx
    · exact absurd ⟨hb, hn⟩ hc
    · exact ih h₁ hx

theorem separated_replace {new : List Blk} (h : Separated (pre ++ b :: post))
    (hnew : ∀ c ∈ new.head?, c.used = true) (hne : new ≠ []) (hs : Separated (new ++ post)) :
    Separated (pre ++ (new ++ post)) := by
  rw [Separated, List.isChain_append] at h ⊢
  refine ⟨h.1, hs, fun x hx y hy => .inr ?_⟩
  cases new with
  | nil => exact absurd rfl hne
  | cons c new => exact hnew y (by simpa using hy)

/-- What follows a free block is used. -/
theorem Separated.used_of_free (h : Separated (b :: bs)) (hb : b.used = false) :
    ∀ c ∈ bs.head?, c.used = true := by
  intro c hc
  have := (List.isChain_cons.mp h).1 c hc
  simpa [hb] using this

theorem separated_take (h : Separated (b :: post)) (hb : b.used = false) :
    Separated (take H minB n b ++ post) := by
  have hpost : Separated post := (List.isChain_cons.mp h).2
  have hu := h.used_of_free hb
  unfold take
  split
  · exact List.isChain_cons.mpr ⟨fun _ _ => .inl rfl,
      List.isChain_cons.mpr ⟨fun c hc => .inr (hu c hc), hpost⟩⟩
  · exact List.isChain_cons.mpr ⟨fun _ _ => .inl rfl, hpost⟩

theorem take_head : take H minB n b ≠ [] ∧ ∀ c ∈ (take H minB n b).head?, c.used = true := by
  unfold take
  split <;> simp

/-- The used blocks after `alloc`: those before and the one taken. -/
theorem place_alloc (h : alloc H minB n a bs = some (bs', p)) :
    ∃ k, n ≤ k ∧ ∀ x s, (x, ⟨s, true⟩) ∈ place H a bs' ↔
      (x, ⟨s, true⟩) ∈ place H a bs ∨ (x = p ∧ s = k) := by
  obtain ⟨pre, b, post, rfl, rfl, rfl, hb, hn⟩ := alloc_some h
  have hspan : ∀ a', a' + span H (take H minB n b) = a' + H + b.size := fun a' => by
    rw [span_take]; omega
  obtain ⟨sz, u⟩ := b
  obtain rfl : u = false := hb
  simp only [place_append, List.mem_append, place, List.mem_cons, Prod.mk.injEq, hspan]
  unfold take
  split
  · refine ⟨n, Nat.le_refl _, fun x s => ?_⟩
    simp only [place, List.mem_cons, Prod.mk.injEq, Blk.mk.injEq, List.not_mem_nil, or_false,
      and_true, reduceCtorEq, and_false, false_or]
    tauto
  · refine ⟨sz, hn, fun x s => ?_⟩
    simp only [place, List.mem_cons, Prod.mk.injEq, Blk.mk.injEq, List.not_mem_nil, or_false,
      and_true, reduceCtorEq, and_false, false_or]
    tauto

/-! ## `free` -/

theorem span_join (b : Blk) (bs : List Blk) : span H (join H b bs) = span H (b :: bs) := by
  cases bs with
  | nil => rfl
  | cons c cs =>
    simp only [join]
    split
    · rfl
    · simp only [span]; omega

theorem span_free (p a : Nat) (bs : List Blk) : span H (free H p a bs) = span H bs := by
  induction bs generalizing a with
  | nil => rfl
  | cons b bs ih =>
    rw [free]
    split
    · rw [span_join]; rfl
    · rw [span_join, span, span, ih]

theorem separated_join (h : Separated bs) (b : Blk) : Separated (join H b bs) := by
  cases bs with
  | nil => exact List.isChain_singleton b
  | cons c cs =>
    simp only [join]
    split
    · rename_i hbc
      exact List.isChain_cons_cons.mpr ⟨hbc, h⟩
    rename_i hbc
    have hc : c.used = false := by
      cases hu : c.used
      · rfl
      · exact absurd (.inr hu) hbc
    exact List.isChain_cons.mpr ⟨fun d hd => .inr (h.used_of_free hc d hd),
      (List.isChain_cons.mp h).2⟩

theorem separated_free (h : Separated bs) (p a : Nat) : Separated (free H p a bs) := by
  induction bs generalizing a with
  | nil => exact h
  | cons b bs ih =>
    have hbs : Separated bs := (List.isChain_cons.mp h).2
    rw [free]
    split
    · exact separated_join hbs _
    · exact separated_join (ih hbs _) b

theorem place_join :
    (x, ⟨s, true⟩) ∈ place H a (join H b bs) ↔ (x, ⟨s, true⟩) ∈ place H a (b :: bs) := by
  cases bs with
  | nil => rfl
  | cons c cs =>
    simp only [join]
    split
    · rfl
    rename_i hbc
    obtain ⟨sb, ub⟩ := b
    obtain ⟨sc, uc⟩ := c
    simp only [not_or, Bool.not_eq_true] at hbc
    obtain ⟨rfl, rfl⟩ := hbc
    have e : a + H + (sb + H + sc) = a + H + sb + H + sc := by omega
    simp [place, e]

/-- The used blocks after `free`: all but the one at `p`. -/
theorem place_free (hH : 0 < H) :
    (x, ⟨s, true⟩) ∈ place H a (free H p a bs) ↔ (x, ⟨s, true⟩) ∈ place H a bs ∧ x ≠ p := by
  induction bs generalizing a with
  | nil => simp [free, place]
  | cons b bs ih =>
    rw [free]
    split
    · rename_i hap
      subst hap
      have hx : (x, (⟨s, true⟩ : Blk)) ∈ place H (a + H + b.size) bs → x ≠ a := fun h => by
        have := (mem_place_bounds h).1
        omega
      rw [place_join]
      simp only [place, List.mem_cons, Prod.mk.injEq, Blk.mk.injEq, reduceCtorEq, and_false, false_or]
      tauto
    · rename_i hap
      rw [place_join, place, List.mem_cons, ih, place, List.mem_cons, Prod.mk.injEq]
      constructor
      · rintro (⟨rfl, h⟩ | h)
        · exact ⟨.inl ⟨rfl, h⟩, hap⟩
        · exact ⟨.inr h.1, h.2⟩
      · rintro ⟨h | h, hx⟩
        · exact .inl h
        · exact .inr ⟨h, hx⟩

theorem free_append (hH : 0 < H) (a : Nat) (pre post : List Blk) (b : Blk) :
    free H (a + span H pre) a (pre ++ b :: post) =
      pre.foldr (join H) (join H ⟨b.size, false⟩ post) := by
  induction pre generalizing a with
  | nil => simp [free, span]
  | cons c pre ih =>
    have e : a + span H (c :: pre) = a + H + c.size + span H pre := by simp only [span]; omega
    rw [List.cons_append, free, e, if_neg (by omega), ih]
    rfl

/-- Away from the freed block nothing joins. -/
theorem foldr_join {l : List Blk} (h : Separated (pre ++ [c]))
    (hl : ∃ d ∈ l.head?, c.used = true → d.used = true) : pre.foldr (join H) l = pre ++ l := by
  induction pre with
  | nil => rfl
  | cons b pre ih =>
    have hpre := ih (List.isChain_cons.mp h).2
    rw [List.foldr_cons, hpre]
    have hb := (List.isChain_cons.mp h).1
    cases pre with
    | nil =>
      obtain ⟨d, hd, hcd⟩ := hl
      cases l with
      | nil => cases hd
      | cons d' l =>
        cases hd
        have : b.used = true ∨ d.used = true := (hb c (by simp)).imp_right hcd
        simp [join, this]
    | cons b' pre =>
      have : b.used = true ∨ b'.used = true := hb b' (by simp)
      simp [join, this]

/-! ## The used blocks determine the cut -/

/-- The first block of a cut, seen from its used blocks: what is not at `a` lies
behind the first block. -/
theorem mem_place_cons (h : (x, c) ∈ place H a (b :: bs)) :
    (x = a ∧ c = b) ∨ ((x, c) ∈ place H (a + H + b.size) bs ∧ a + H + b.size ≤ x) := by
  simp only [place, List.mem_cons, Prod.mk.injEq] at h
  rcases h with h | h
  · exact .inl h
  · exact .inr ⟨h, (mem_place_bounds h).1⟩

/-- A free first block is at least as long as the first block of the other cut:
what follows it is used and would start inside that one. -/
theorem free_size_le (hH : 0 < H) (hs : Separated (b :: bs)) (hb : b.used = false)
    (hspan : span H (b :: bs) = span H (c :: cs))
    (hused : ∀ x s, (x, ⟨s, true⟩) ∈ place H a (b :: bs) → (x, ⟨s, true⟩) ∈ place H a (c :: cs)) :
    c.size ≤ b.size := by
  apply Nat.le_of_not_lt
  intro hlt
  cases bs with
  | nil =>
    simp only [span] at hspan
    omega
  | cons d ds =>
    have hd : d.used = true := hs.used_of_free hb d rfl
    obtain ⟨sd, ud⟩ := d
    obtain rfl : ud = true := hd
    have hmem : (a + H + b.size, (⟨sd, true⟩ : Blk)) ∈ place H a (b :: ⟨sd, true⟩ :: ds) :=
      List.mem_cons_of_mem _ List.mem_cons_self
    rcases mem_place_cons (hused _ _ hmem) with ⟨h, -⟩ | ⟨-, h⟩
    all_goals omega

/-- Two cuts of one region without free neighbours and with the same used
blocks are the same. -/
theorem eq_of_used (hH : 0 < H) (hbs : Separated bs) (hcs : Separated cs)
    (hspan : span H bs = span H cs)
    (hused : ∀ x s, (x, ⟨s, true⟩) ∈ place H a bs ↔ (x, ⟨s, true⟩) ∈ place H a cs) : bs = cs := by
  induction bs generalizing a cs with
  | nil =>
    cases cs with
    | nil => rfl
    | cons c cs => simp only [span] at hspan; omega
  | cons b bs ih =>
    cases cs with
    | nil => simp only [span] at hspan; omega
    | cons c cs =>
      have hbc : b = c := by
        obtain ⟨sb, ub⟩ := b
        obtain ⟨sc, uc⟩ := c
        cases ub with
        | true =>
          rcases mem_place_cons ((hused a sb).mp List.mem_cons_self) with ⟨-, h⟩ | ⟨-, h⟩
          · exact h
          · omega
        | false =>
          cases uc with
          | true =>
            rcases mem_place_cons ((hused a sc).mpr List.mem_cons_self) with ⟨-, h⟩ | ⟨-, h⟩
            · exact h.symm
            · omega
          | false =>
            have h1 := free_size_le hH hbs rfl hspan fun x s => (hused x s).mp
            have h2 := free_size_le hH hcs rfl hspan.symm fun x s => (hused x s).mpr
            exact congrArg (fun n => (⟨n, false⟩ : Blk)) (Nat.le_antisymm h2 h1)
      subst hbc
      have htail : bs = cs := by
        refine ih (a := a + H + b.size)
          (List.isChain_cons.mp hbs).2 (List.isChain_cons.mp hcs).2 ?_ ?_
        · simp only [span] at hspan
          omega
        intro x s
        have behind : ∀ {ds es : List Blk}, ((x, (⟨s, true⟩ : Blk)) ∈ place H a (b :: ds) →
            (x, ⟨s, true⟩) ∈ place H a (b :: es)) →
            (x, ⟨s, true⟩) ∈ place H (a + H + b.size) ds →
            (x, ⟨s, true⟩) ∈ place H (a + H + b.size) es := by
          intro ds es himp hx
          have hle := (mem_place_bounds hx).1
          rcases mem_place_cons (himp (List.mem_cons_of_mem _ hx)) with ⟨h, -⟩ | ⟨h, -⟩
          · omega
          · exact h
        exact ⟨behind (hused x s).mp, behind (hused x s).mpr⟩
      rw [htail]

end Tiling

/-! ## Tilings -/

/-- A sound cut of a region of `total` bytes. -/
structure Tiling (H minB align total : Nat) where
  blocks : List Blk
  fills : Tiling.span H blocks = total
  sized : ∀ b ∈ blocks, b.size % align = 0 ∧ minB ≤ b.size
  separated : Tiling.Separated blocks

namespace Tiling

variable {H minB align total : Nat}

/-- One free block. -/
def whole (h : H ≤ total) (ha : (total - H) % align = 0) (hm : minB ≤ total - H) :
    Tiling H minB align total where
  blocks := [⟨total - H, false⟩]
  fills := by simp only [span]; omega
  sized := by simpa using ⟨ha, hm⟩
  separated := List.isChain_singleton _

/-- The tiling after an `alloc` that found a block. -/
def afterAlloc (T : Tiling H minB align total) (hH : H % align = 0) {n a p : Nat}
    {bs : List Blk} (hn : n % align = 0) (hm : minB ≤ n)
    (h : alloc H minB n a T.blocks = some (bs, p)) : Tiling H minB align total where
  blocks := bs
  fills := by
    obtain ⟨pre, b, post, e, rfl, -, -, -⟩ := alloc_some h
    rw [span_append, span_append, span_take, ← T.fills, e, span_append, span]
  sized := by
    obtain ⟨pre, b, post, e, rfl, -, -, hnb⟩ := alloc_some h
    have hT := T.sized
    simp only [e, List.mem_append, List.mem_cons] at hT ⊢
    rintro c (hc | hc | hc)
    · exact hT c (.inl hc)
    · have hb := hT b (.inr (.inl rfl))
      unfold take at hc
      split at hc
      · simp only [List.mem_cons, List.not_mem_nil, or_false] at hc
        rcases hc with rfl | rfl
        · exact ⟨hn, hm⟩
        refine ⟨?_, by dsimp only; omega⟩
        have e1 := Nat.dvd_of_mod_eq_zero hb.1
        have e2 := Nat.dvd_of_mod_eq_zero hn
        have e3 := Nat.dvd_of_mod_eq_zero hH
        exact Nat.mod_eq_zero_of_dvd (Nat.dvd_sub (Nat.dvd_sub e1 e2) e3)
      · cases List.mem_singleton.mp hc
        exact hb
    · exact hT c (.inr (.inr hc))
  separated := by
    obtain ⟨pre, b, post, e, rfl, -, hb, -⟩ := alloc_some h
    have hs := e ▸ T.separated
    exact separated_replace hs take_head.2 take_head.1
      (separated_take (List.isChain_append.mp hs).2.1 hb)

theorem sized_join (hH : H % align = 0) (h : ∀ c ∈ b :: bs, c.size % align = 0 ∧ minB ≤ c.size) :
    ∀ c ∈ join H b bs, c.size % align = 0 ∧ minB ≤ c.size := by
  cases bs with
  | nil => exact h
  | cons d cs =>
    simp only [join]
    split
    · exact h
    rintro c (_ | ⟨_, hc⟩)
    · have hb := h b (by simp)
      have hd := h d (by simp)
      refine ⟨?_, by dsimp only; omega⟩
      exact Nat.mod_eq_zero_of_dvd (Nat.dvd_add (Nat.dvd_add (Nat.dvd_of_mod_eq_zero hb.1)
        (Nat.dvd_of_mod_eq_zero hH)) (Nat.dvd_of_mod_eq_zero hd.1))
    · exact h c (List.mem_cons_of_mem _ (List.mem_cons_of_mem _ hc))

theorem sized_free (hH : H % align = 0) (h : ∀ c ∈ bs, c.size % align = 0 ∧ minB ≤ c.size)
    (p a : Nat) : ∀ c ∈ free H p a bs, c.size % align = 0 ∧ minB ≤ c.size := by
  induction bs generalizing a with
  | nil => exact h
  | cons b bs ih =>
    have hbs := fun c hc => h c (List.mem_cons_of_mem b hc)
    rw [free]
    split
    · refine sized_join hH fun c hc => ?_
      rcases List.mem_cons.mp hc with rfl | hc
      · exact h b List.mem_cons_self
      · exact hbs c hc
    · refine sized_join hH fun c hc => ?_
      rcases List.mem_cons.mp hc with rfl | hc
      · exact h c List.mem_cons_self
      · exact ih hbs _ c hc

/-- The tiling after the block at `p` was freed. -/
def afterFree (T : Tiling H minB align total) (hH : H % align = 0) (p a : Nat) :
    Tiling H minB align total where
  blocks := free H p a T.blocks
  fills := (span_free p a T.blocks).trans T.fills
  sized := sized_free hH T.sized p a
  separated := separated_free T.separated p a

end Tiling

end HackersOs.Core

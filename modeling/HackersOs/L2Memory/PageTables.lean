import HackersOs.Core.LTS
import HackersOs.L2Memory.PageForest

/-!
# Runs of `create_user_page_table` and `map_user_page`

The system: the kernel's tables as `MMU::init` leaves them, any number of
user page tables, and calls to `map_user_page` on any of them. The page
allocator answers each request with an unused page or with 0.

Results:
* `walk_refines_map`: for calls from 2 GB on, every page table is the finite
  map of the last (pa, flags) installed for each virtual page, whatever
  allocations fail.
* `map_isolated`: calls that stay off the gigabyte whose L2 table all page
  tables share (or that fail there) change no other address space, not the
  kernel's map, and no memory but the table pages of the page table they name.

**Counterexample** (`map_leaks`): `create_user_page_table` copies the
descriptor of the kernel's L2 table, and `map_user_page` follows it, so a
page mapped at 0x50000000 in one address space appears in every other.
-/
namespace HackersOs.L2.Mmu
open HackersOs.Core

variable {flags phys r virt : Nat} {supply : List Nat}

/-! ## What a call does -/

/-- The answers the page allocator is about to give: unused pages, no page
twice, 0 for a failure. -/
structure SupplyOk (kpgd kl2 : Nat) (m : Mem) (roots supply : List Nat) : Prop where
  fresh : ∀ p ∈ supply, p = 0 ∨ Fresh kpgd kl2 m roots p
  distinct : supply.Pairwise fun p q => p = 0 ∨ p ≠ q

/-- `m'` comes from `m` by writes to tables of the tree at `A` only. -/
structure Extends (kpgd kl2 : Nat) (roots : List Nat) (A : Nat) (m m' : Mem) : Prop where
  inv : Inv kpgd kl2 m' roots
  mono : ∀ l p, Node m roots l p → Node m' roots l p
  bytes : ∀ a, m' a ≠ m a → ∃ l p, Node m' roots l p ∧ l.rootOf = A ∧ InPage p a

/-- The same leaves in every tree. -/
def SameLeaves (roots : List Nat) (m m' : Mem) : Prop :=
  ∀ r ∈ roots, ∀ i j k, 2 ≤ i → i < 512 → j < 512 → k < 512 → leaf m' r i j k = leaf m r i j k

section
variable {kpgd kl2 : Nat} {m m' m'' : Mem} {roots : List Nat} {A : Nat}

theorem Extends.refl (I : Inv kpgd kl2 m roots) : Extends kpgd kl2 roots A m m :=
  ⟨I, fun _ _ h => h, fun _ h => absurd rfl h⟩

theorem Extends.trans (h : Extends kpgd kl2 roots A m m') (h' : Extends kpgd kl2 roots A m' m'') :
    Extends kpgd kl2 roots A m m'' := by
  refine ⟨h'.inv, fun l p hn => h'.mono l p (h.mono l p hn), fun a ha => ?_⟩
  by_cases hc : m'' a = m' a
  · obtain ⟨l, p, hn, hl, hp⟩ := h.bytes a (hc ▸ ha)
    exact ⟨l, p, h'.mono l p hn, hl, hp⟩
  · exact h'.bytes a hc

theorem SameLeaves.trans (h : SameLeaves roots m m') (h' : SameLeaves roots m' m'') :
    SameLeaves roots m m'' := fun r hr i j k h2 hi hj hk =>
  (h' r hr i j k h2 hi hj hk).trans (h r hr i j k h2 hi hj hk)

theorem SupplyOk.headD (h : SupplyOk kpgd kl2 m roots supply) :
    supply.headD 0 = 0 ∨ Fresh kpgd kl2 m roots (supply.headD 0) := by
  cases supply with
  | nil => exact .inl rfl
  | cons p ps => exact h.fresh p List.mem_cons_self

theorem SupplyOk.tail {supply : List Nat} (h : SupplyOk kpgd kl2 m roots supply) :
    SupplyOk kpgd kl2 m roots supply.tail :=
  ⟨fun p hp => h.fresh p (List.mem_of_mem_tail hp), h.distinct.sublist (List.tail_sublist _)⟩

/-- The answers left after one was linked are still unused. -/
theorem SupplyOk.link (I : Inv kpgd kl2 m roots) {l : Loc} {t i : Nat} {supply : List Nat}
    (hn : Node m roots l t) (hs : l.HasSlot i) (he : entry m t i = 0)
    (h : SupplyOk kpgd kl2 m roots supply) (hf : Fresh kpgd kl2 m roots (supply.headD 0)) :
    SupplyOk kpgd kl2 (link m t i (supply.headD 0)) roots supply.tail := by
  refine ⟨fun q hq => ?_, h.tail.distinct⟩
  rcases h.tail.fresh q hq with h0 | hfq
  · exact .inl h0
  refine .inr ⟨hfq.ok, hfq.ne_kpgd, hfq.ne_kl2, fun l' hn' => ?_⟩
  rcases (node_link_iff I hn hs he hf).mp hn' with hold | ⟨-, rfl⟩
  · exact hfq.unused l' hold
  cases supply with
  | nil => cases hq
  | cons p ps =>
    rcases (List.pairwise_cons.mp h.distinct).1 _ hq with h0 | hne
    · exact hfq.ok.ne_zero h0
    · exact hne rfl

/-- One level of the descent in the tree of a root: nothing happened and there
is no table, or there is one now. -/
theorem getOrCreateTable_spec (I : Inv kpgd kl2 m roots) {l : Loc} {t i : Nat}
    (hn : Node m roots l t) (hs : l.HasSlot i) (hsup : SupplyOk kpgd kl2 m roots supply) :
    ∃ m' c rest, getOrCreateTable m t i supply = (m', c, rest) ∧
      Extends kpgd kl2 roots l.rootOf m m' ∧ SameLeaves roots m m' ∧
      SupplyOk kpgd kl2 m' roots rest ∧ ((c = 0 ∧ supply.headD 0 = 0) ∨
        (Node m' roots (l.child i) c ∧ (rest = supply ∨ rest = supply.tail))) := by
  rcases I.slots l t i hn hs with he | ⟨q, hq, he⟩
  · have hz : entry m t i &&& 1 = 0 := by rw [he]; rfl
    rcases hsup.headD with h0 | hf
    · exact ⟨m, 0, supply.tail, getOrCreateTable_full hz h0, .refl I,
        fun _ _ _ _ _ _ _ _ _ => rfl, hsup.tail, .inl ⟨rfl, h0⟩⟩
    have hnew : Node (link m t i (supply.headD 0)) roots (l.child i) (supply.headD 0) :=
      (node_link_iff I hn hs he hf).mpr (.inr ⟨rfl, rfl⟩)
    have hold := fun l' p (h : Node m roots l' p) => (node_link_iff I hn hs he hf).mpr (.inl h)
    refine ⟨_, _, _, getOrCreateTable_new hz (I.aligned hn) hs.lt hf.ok,
      ⟨I.link hn hs he hf, hold, fun a ha => ?_⟩,
      fun r hr i' j k h2 hi hj hk => leaf_link I hn hs he hf hr h2 hi hj hk,
      hsup.link I hn hs he hf, .inr ⟨hnew, .inr rfl⟩⟩
    -- a changed byte lies in the table that got the link or in the new table
    by_cases ht : InPage t a
    · exact ⟨l, t, hold l t hn, rfl, ht⟩
    · by_cases hp : InPage (supply.headD 0) a
      · exact ⟨l.child i, _, hnew, l.child_rootOf i, hp⟩
      · exact absurd (link_outside hs.lt ht hp) ha
  · have hv : entry m t i &&& 1 ≠ 0 := by rw [he, tableDesc_valid hq]; decide
    refine ⟨m, q, supply, ?_, .refl I, fun _ _ _ _ _ _ _ _ _ => rfl, hsup,
      .inr ⟨hn.child hs hq he, .inl rfl⟩⟩
    rw [getOrCreateTable_valid hv, he, tableDesc_addr hq]

theorem leafValue_lt (phys : Nat) (h : flags < 2 ^ 64) : (phys &&& addrMask) ||| flags < 2 ^ 64 :=
  Nat.or_lt_two_pow (Nat.and_lt_two_pow _ (by decide)) h

/-- A whole call in the part of a page table that is its own: it writes its own
tables, and if it got every table it needed it sets one leaf, else none. -/
theorem mapUserPage_spec (I : Inv kpgd kl2 m roots) (hr : r ∈ roots) (h2 : 2 ≤ l1Idx virt)
    (hfl : flags < 2 ^ 64) (hsup : SupplyOk kpgd kl2 m roots supply) (phys : Nat) :
    ∃ m' ok, mapUserPage m r virt phys flags supply = (m', ok) ∧ Extends kpgd kl2 roots r m m' ∧
      (∀ r' ∈ roots, ∀ i j k, 2 ≤ i → i < 512 → j < 512 → k < 512 → leaf m' r' i j k =
        if ok = true ∧ r' = r ∧ i = l1Idx virt ∧ j = l2Idx virt ∧ k = l3Idx virt
        then (phys &&& addrMask) ||| flags else leaf m r' i j k) ∧
      (ok = false → supply.headD 0 = 0 ∨ supply.tail.headD 0 = 0) := by
  obtain ⟨m1, c1, rest1, e1, x1, s1, p1, h1⟩ :=
    getOrCreateTable_spec I (.root hr) ⟨h2, l1Idx_lt virt⟩ hsup
  rcases h1 with ⟨rfl, h0⟩ | ⟨n1, hrest⟩
  · refine ⟨m1, false, ?_, x1, ?_, fun _ => .inl h0⟩
    · simp [mapUserPage, mapPageInTable, e1]
    · simpa [SameLeaves] using s1
  have hc1 : c1 ≠ 0 := (n1.pageOk x1.inv.rootOk).ne_zero
  obtain ⟨m2, c2, rest2, e2, x2, s2, p2, h2'⟩ :=
    getOrCreateTable_spec x1.inv n1 (show (Loc.l2 r (l1Idx virt)).HasSlot _ from l2Idx_lt virt) p1
  have s12 := s1.trans s2
  rcases h2' with ⟨rfl, h0⟩ | ⟨n2, -⟩
  · refine ⟨m2, false, ?_, x1.trans x2, ?_, fun _ => ?_⟩
    · simp [mapUserPage, mapPageInTable, e1, e2, hc1]
    · simpa [SameLeaves] using s12
    · rcases hrest with rfl | rfl
      · exact .inl h0
      · exact .inr h0
  have hc2 : c2 ≠ 0 := (n2.pageOk x2.inv.rootOk).ne_zero
  have hv := leafValue_lt phys hfl
  refine ⟨setEntry m2 c2 (l3Idx virt) ((phys &&& addrMask) ||| flags), true, ?_,
    (x1.trans x2).trans ⟨x2.inv.install n2 (l3Idx_lt virt) hv,
      fun l p h => (node_install_iff x2.inv n2 (l3Idx_lt virt) hv).mpr h, fun a ha => ?_⟩, ?_,
    fun h => absurd h (by decide)⟩
  · simp [mapUserPage, mapPageInTable, e1, e2, hc1, hc2]
  · refine ⟨_, c2, (node_install_iff x2.inv n2 (l3Idx_lt virt) hv).mpr n2, rfl, ?_⟩
    by_contra hp
    exact ha (setEntry_outside (l3Idx_lt virt) hp)
  · intro r' hr' i j k h2 hi hj hk
    rw [leaf_install x2.inv n2 (l3Idx_lt virt) hv hr' h2 hi hj hk, s12 r' hr' i j k h2 hi hj hk]
    simp

end

/-! ## The kernel's part of every address space -/

section
variable {kpgd kl2 : Nat} {m : Mem} {roots : List Nat}

/-- What the kernel's tables translate: devices in the first gigabyte and the
256 MB of RAM, each to itself. -/
def kernelTranslate (va : Nat) : Option (Nat × Nat) :=
  if l1Idx va = 0 then some (va % 2 ^ 30, deviceBlock &&& 0xFFFF00003FFFFFFF)
  else if l1Idx va = 1 ∧ l2Idx va < 128 then
    some (0x40000000 + l2Idx va * 0x200000 + va % 2 ^ 21, ramBlock 0 &&& 0xFFFF0000001FFFFF)
  else none

theorem ramBlock_fields : ∀ i < 128, ramBlock i &&& 1 = 1 ∧ ramBlock i &&& 2 = 0 ∧
    ramBlock i &&& 0x0000FFFFFFE00000 = 0x40000000 + i * 0x200000 ∧
    ramBlock i &&& addrMask = 0x40000000 + i * 0x200000 ∧
    ramBlock i &&& 0xFFFF0000001FFFFF = ramBlock 0 &&& 0xFFFF0000001FFFFF := by
  decide

theorem walk_kernel (h : KernelTables kpgd kl2 m) (va : Nat) :
    walk m kpgd va = kernelTranslate va := by
  unfold walk kernelTranslate
  by_cases h0 : l1Idx va = 0
  · rw [if_pos h0, h0, h.device]
    simp [deviceBlock, pteValid, pteAf, pteAttrDevice, pteApRw, pteUxn, ptePxn]
  by_cases h1 : l1Idx va = 1
  · have hl := h.kl2Ok
    simp only [h1, h.ram, tableDesc_valid hl, tableDesc_table hl, tableDesc_addr hl,
      h.blocks _ (l2Idx_lt va)]
    by_cases hb : l2Idx va < 128
    · obtain ⟨f1, f2, f3, -, f4⟩ := ramBlock_fields _ hb
      simp [hb, f1, f2, f3, f4]
    · simp [hb]
  · have he := h.none _ (by omega) (l1Idx_lt va)
    simp [he, h0, h1]

/-- Below 2 GB every page table translates as the kernel does. -/
theorem walk_shared (I : Inv kpgd kl2 m roots) {va : Nat} (hr : r ∈ roots) (h : l1Idx va < 2) :
    walk m r va = kernelTranslate va := by
  rw [← walk_kernel I.kernel, walk, walk, I.shared r hr _ h]

/-- In the first gigabyte the L1 descriptor is a block at address 0, which
`get_or_create_table` returns as a null table: the call does nothing. -/
theorem mapUserPage_device (I : Inv kpgd kl2 m roots) (hr : r ∈ roots) (h : l1Idx virt = 0) :
    mapUserPage m r virt phys flags supply = (m, false) := by
  have he : entry m r 0 = deviceBlock := (I.shared r hr 0 (by decide)).trans I.kernel.device
  have hg : getOrCreateTable m r 0 supply = (m, 0, supply) := by
    rw [getOrCreateTable_valid (by rw [he]; decide), he]
    rfl
  simp [mapUserPage, mapPageInTable, h, hg]

/-- Above the RAM window, in the shared gigabyte, the call needs a table. -/
theorem mapUserPage_hole_full (I : Inv kpgd kl2 m roots) (hr : r ∈ roots) (h : l1Idx virt = 1)
    (hj : 128 ≤ l2Idx virt) (h0 : supply.headD 0 = 0) :
    mapUserPage m r virt phys flags supply = (m, false) := by
  have hl := I.kernel.kl2Ok
  have he : entry m r 1 = tableDesc kl2 := (I.shared r hr 1 (by decide)).trans I.kernel.ram
  have hg : getOrCreateTable m r 1 supply = (m, kl2, supply) := by
    rw [getOrCreateTable_valid (by rw [he, tableDesc_valid hl]; decide), he, tableDesc_addr hl]
  have he2 : entry m kl2 (l2Idx virt) = 0 := by
    rw [I.kernel.blocks _ (l2Idx_lt virt), if_neg (by omega)]
  have hg2 : getOrCreateTable m kl2 (l2Idx virt) supply = (m, 0, supply.tail) :=
    getOrCreateTable_full (by rw [he2]; rfl) h0
  simp [mapUserPage, mapPageInTable, h, hg, hl.ne_zero, hg2]

end

/-! ## The system -/

structure PtState where
  mem : Mem
  /-- the page tables handed out so far -/
  roots : List Nat
  /-- ghost: the last (pa, flags) written for each page table and virtual page -/
  installed : Nat → Nat → Option (Nat × Nat)

/-- A call; `page` and `supply` are what `Pages::alloc_page` answers in it. -/
inductive PtCall where
  | create (page : Nat)
  | map (pgd virt phys flags : Nat) (supply : List Nat)

def PtState.create (kpgd : Nat) (s : PtState) (page : Nat) : PtState where
  mem := createUserPageTable s.mem kpgd page
  roots := if page = 0 then s.roots else page :: s.roots
  installed := fun r vpn => if r = page then none else s.installed r vpn

def PtState.map (s : PtState) (pgd virt phys flags : Nat) (supply : List Nat) : PtState where
  mem := (mapUserPage s.mem pgd virt phys flags supply).1
  roots := s.roots
  installed := fun r vpn =>
    if (mapUserPage s.mem pgd virt phys flags supply).2 = true ∧ r = pgd ∧ vpn = virt / 4096
    then some (phys, flags) else s.installed r vpn

/-- The calls, each under the guard `G`, on page tables that were handed out
and with an allocator that does not hand out a page twice. -/
def pageLTS (kpgd kl2 : Nat) (m₀ : Mem) (G : PtCall → Prop) : LTS PtState PtCall where
  init s := s = ⟨(init m₀ kpgd kl2).1, [], fun _ _ => none⟩
  step s c s' := G c ∧ match c with
    | .create page =>
      (page = 0 ∨ Fresh kpgd kl2 s.mem s.roots page) ∧ s' = s.create kpgd page
    | .map pgd virt phys flags supply =>
      pgd ∈ s.roots ∧ SupplyOk kpgd kl2 s.mem s.roots supply ∧ s' = s.map pgd virt phys flags supply

/-- Where `kernel_pgd` and its L2 table are. -/
structure Placed (kpgd kl2 : Nat) : Prop where
  kpgdOk : PageOk kpgd
  kl2Ok : PageOk kl2
  ne : kpgd ≠ kl2

section
variable {kpgd kl2 : Nat} {m₀ : Mem} {s : PtState}

theorem Inv.create_step (I : Inv kpgd kl2 s.mem s.roots) {page : Nat}
    (h : page = 0 ∨ Fresh kpgd kl2 s.mem s.roots page) :
    Inv kpgd kl2 (s.create kpgd page).mem (s.create kpgd page).roots := by
  rcases h with rfl | hf
  · simpa [PtState.create, createUserPageTable] using I
  · simpa [PtState.create, hf.ok.ne_zero] using I.create hf

/-! Two address spaces, where the concrete instances below start. -/

def spaceA : Nat := 0x40201000
def spaceB : Nat := 0x40202000

def booted : PtState := ⟨(init (fun _ => 0) 0x40080000 0x40200000).1, [], fun _ _ => none⟩

def twoSpaces : PtState := (booted.create 0x40080000 spaceA).create 0x40080000 spaceB

theorem placed_boot : Placed 0x40080000 0x40200000 :=
  ⟨⟨by decide, by decide, by decide⟩, ⟨by decide, by decide, by decide⟩, by decide⟩

theorem booted_inv : Inv 0x40080000 0x40200000 booted.mem booted.roots :=
  .init (init_kernelTables placed_boot.kpgdOk placed_boot.kl2Ok placed_boot.ne)

theorem fresh_booted {p : Nat} (hp : PageOk p) (h1 : p ≠ 0x40080000) (h2 : p ≠ 0x40200000) :
    Fresh 0x40080000 0x40200000 booted.mem booted.roots p := .init hp h1 h2

theorem fresh_spaceA : Fresh 0x40080000 0x40200000 booted.mem booted.roots spaceA :=
  fresh_booted ⟨by decide, by decide, by decide⟩ (by decide) (by decide)

theorem fresh_spaceB : Fresh 0x40080000 0x40200000 (booted.create 0x40080000 spaceA).mem
    (booted.create 0x40080000 spaceA).roots spaceB :=
  fresh_spaceA.create booted_inv
    (fresh_booted ⟨by decide, by decide, by decide⟩ (by decide) (by decide)) (by decide)

theorem fresh_twoSpaces {p : Nat} (hp : PageOk p)
    (h : p ∉ [0x40080000, 0x40200000, spaceA, spaceB]) :
    Fresh 0x40080000 0x40200000 twoSpaces.mem twoSpaces.roots p := by
  simp only [List.mem_cons, List.not_mem_nil, or_false, not_or] at h
  have hA := fresh_spaceA.create booted_inv (fresh_booted hp h.1 h.2.1) h.2.2.1
  exact fresh_spaceB.create (booted_inv.create fresh_spaceA) hA h.2.2.2

theorem twoSpaces_reachable {G : PtCall → Prop} (hG : ∀ p, G (.create p)) :
    (pageLTS 0x40080000 0x40200000 (fun _ => 0) G).Reachable twoSpaces :=
  ⟨booted, [.create spaceA, .create spaceB], rfl,
    .cons ⟨hG _, .inr fresh_spaceA, rfl⟩ (.cons ⟨hG _, .inr fresh_spaceB, rfl⟩ (.nil _))⟩

theorem supply_twoSpaces :
    SupplyOk 0x40080000 0x40200000 twoSpaces.mem twoSpaces.roots [0x40203000, 0x40204000] := by
  refine ⟨fun p hp => .inr ?_, by decide⟩
  simp only [List.mem_cons, List.not_mem_nil, or_false] at hp
  rcases hp with rfl | rfl
  all_goals exact fresh_twoSpaces ⟨by decide, by decide, by decide⟩ (by decide)

/-! ## Refinement of the finite map -/

/-- The arguments of a well-formed call from 2 GB on. -/
def MapArgsOk : PtCall → Prop
  | .create _ => True
  | .map _ virt phys flags _ => 2 ^ 31 ≤ virt ∧ virt < 2 ^ 39 ∧ phys &&& addrMask = phys ∧
      flags &&& addrMask = 0 ∧ flags &&& 3 = 3 ∧ flags < 2 ^ 64

/-- The level-3 descriptor of a page of the map. -/
def encode : Option (Nat × Nat) → Nat
  | none => 0
  | some (pa, flags) => (pa &&& addrMask) ||| flags

/-- A page of the map that a level-3 descriptor can hold. -/
def PageDesc (d : Nat × Nat) : Prop :=
  d.1 &&& addrMask = d.1 ∧ d.2 &&& addrMask = 0 ∧ d.2 &&& 3 = 3 ∧ d.2 < 2 ^ 64

theorem decodePage_encode {d : Option (Nat × Nat)} (h : ∀ e ∈ d, PageDesc e) :
    decodePage (encode d) = d := by
  cases d with
  | none => rfl
  | some d =>
    obtain ⟨pa, fl⟩ := d
    obtain ⟨h1, h2, h3, h4⟩ := h _ rfl
    dsimp only at h1 h2 h3 h4
    have hlow : pa &&& 3 = 0 := by
      rw [← h1, Nat.and_assoc]; exact Nat.and_zero _
    have hattr : pa &&& attrMask = 0 := by
      rw [← h1, Nat.and_assoc]; exact Nat.and_zero _
    have hfl : fl &&& attrMask = fl := by
      have : fl &&& (addrMask ||| attrMask) = fl := by
        rw [show addrMask ||| attrMask = 2 ^ 64 - 1 by decide, Nat.and_two_pow_sub_one_eq_mod,
          Nat.mod_eq_of_lt h4]
      rwa [Nat.and_or_distrib_left, h2, Nat.zero_or] at this
    simp [decodePage, encode, Nat.and_or_distrib_right, h1, h2, h3, hlow, hattr, hfl]

/-- The page tables hold the ghost map. -/
structure Refines (kpgd kl2 : Nat) (s : PtState) : Prop where
  inv : Inv kpgd kl2 s.mem s.roots
  desc : ∀ r vpn, ∀ d ∈ s.installed r vpn, PageDesc d
  leaf : ∀ r ∈ s.roots, ∀ va, 2 ^ 31 ≤ va → va < 2 ^ 39 →
    leaf s.mem r (l1Idx va) (l2Idx va) (l3Idx va) = encode (s.installed r (va / 4096))

theorem Refines.create (R : Refines kpgd kl2 s) {page : Nat}
    (h : page = 0 ∨ Fresh kpgd kl2 s.mem s.roots page) : Refines kpgd kl2 (s.create kpgd page) := by
  refine ⟨R.inv.create_step h, fun r vpn d hd => ?_, fun r hr va h1 h2 => ?_⟩
  · simp only [PtState.create] at hd
    split at hd
    · cases hd
    · exact R.desc r vpn d hd
  · rcases h with rfl | hf
    · have hr' : r ∈ s.roots := by simpa [PtState.create] using hr
      have hne : r ≠ 0 := (R.inv.rootOk r hr').ne_zero
      simpa [PtState.create, createUserPageTable, hne] using R.leaf r hr' va h1 h2
    · have hr' : r ∈ page :: s.roots := by simpa [PtState.create, hf.ok.ne_zero] using hr
      simp only [PtState.create]
      rw [leaf_create R.inv hf hr' (two_le_l1Idx h1 h2) (l1Idx_lt va) (l2Idx_lt va) (l3Idx_lt va)]
      split
      · rfl
      · exact R.leaf r ((List.mem_cons.mp hr').resolve_left ‹_›) va h1 h2

theorem Refines.map (R : Refines kpgd kl2 s) {pgd : Nat} (hp : pgd ∈ s.roots)
    (hsup : SupplyOk kpgd kl2 s.mem s.roots supply)
    (ha : MapArgsOk (.map pgd virt phys flags supply)) :
    Refines kpgd kl2 (s.map pgd virt phys flags supply) := by
  obtain ⟨h1, h2, h3, h4, h5, h6⟩ := ha
  obtain ⟨m', ok, e, x, hleaf, -⟩ :=
    mapUserPage_spec R.inv hp (two_le_l1Idx h1 h2) h6 hsup phys
  refine ⟨?_, fun r vpn d hd => ?_, fun r hr va hv1 hv2 => ?_⟩
  · simpa [PtState.map, e] using x.inv
  · simp only [PtState.map, e] at hd
    split at hd
    · cases hd; exact ⟨h3, h4, h5, h6⟩
    · exact R.desc r vpn d hd
  · simp only [PtState.map, e]
    rw [hleaf r hr _ _ _ (two_le_l1Idx hv1 hv2) (l1Idx_lt va) (l2Idx_lt va) (l3Idx_lt va),
      R.leaf r hr va hv1 hv2]
    -- the three indices name the virtual page
    simp only [idx_inj hv2 h2]
    split <;> rfl

theorem refines_inductive (hp : Placed kpgd kl2) :
    (pageLTS kpgd kl2 m₀ MapArgsOk).Inductive (Refines kpgd kl2) where
  init := by
    rintro s rfl
    exact ⟨.init (init_kernelTables hp.kpgdOk hp.kl2Ok hp.ne), fun _ _ _ h => (by cases h),
      fun r hr => absurd hr List.not_mem_nil⟩
  step := by
    rintro s c s' R ⟨hg, h⟩
    cases c with
    | create page =>
      obtain ⟨hf, rfl⟩ := h
      exact R.create hf
    | map pgd virt phys flags supply =>
      obtain ⟨hp, hsup, rfl⟩ := h
      exact R.map hp hsup hg

theorem Refines.walk (R : Refines kpgd kl2 s) {va : Nat} (hr : r ∈ s.roots) (h1 : 2 ^ 31 ≤ va)
    (h2 : va < 2 ^ 39) :
    walk s.mem r va = (s.installed r (va / 4096)).map fun d => (d.1 + va % 4096, d.2) := by
  have h12 : va % 2 ^ 12 = va % 4096 := rfl
  rw [walk_eq_leaf R.inv hr (two_le_l1Idx h1 h2), R.leaf r hr va h1 h2,
    decodePage_encode (R.desc r _), h12]

/-- Every page table translates as the finite map of what was last installed.
A call fails only when the allocator does, and then changes no translation. -/
theorem walk_refines_map (hp : Placed kpgd kl2) (hs : (pageLTS kpgd kl2 m₀ MapArgsOk).Reachable s) :
    (∀ r ∈ s.roots, ∀ va, 2 ^ 31 ≤ va → va < 2 ^ 39 →
      walk s.mem r va = (s.installed r (va / 4096)).map fun d => (d.1 + va % 4096, d.2)) ∧
    ∀ pgd virt phys flags supply s',
      (pageLTS kpgd kl2 m₀ MapArgsOk).step s (.map pgd virt phys flags supply) s' →
      (mapUserPage s.mem pgd virt phys flags supply).2 = false →
      (supply.headD 0 = 0 ∨ supply.tail.headD 0 = 0) ∧
      ∀ r ∈ s.roots, ∀ va, 2 ^ 31 ≤ va → va < 2 ^ 39 → walk s'.mem r va = walk s.mem r va := by
  have R := (refines_inductive hp).reachable s hs
  refine ⟨fun r hr va h1 h2 => R.walk hr h1 h2, ?_⟩
  rintro pgd virt phys flags supply s' hstep hfail
  have R' := (refines_inductive hp).step _ _ _ R hstep
  obtain ⟨⟨h1, h2, -, -, -, h6⟩, hpgd, hsup, rfl⟩ := hstep
  obtain ⟨m', ok, e, -, -, hno⟩ :=
    mapUserPage_spec R.inv hpgd (two_le_l1Idx h1 h2) h6 hsup phys
  refine ⟨hno (by simpa [e] using hfail), fun r hr va hv1 hv2 => ?_⟩
  rw [R'.walk hr hv1 hv2, R.walk hr hv1 hv2]
  simp [PtState.map, hfail]

/-- A page of `A`'s stack, mapped and then walked at an offset. -/
theorem walk_refines_map_stack :
    walk (twoSpaces.map spaceA 0x80000000 0x40300000 pteUserRwx [0x40203000, 0x40204000]).mem
      spaceA 0x80000123 = some (0x40300123, pteUserRwx) := by
  have hargs : MapArgsOk (.map spaceA 0x80000000 0x40300000 pteUserRwx [0x40203000, 0x40204000]) := by
    unfold MapArgsOk; decide
  have hstep : (pageLTS 0x40080000 0x40200000 (fun _ => 0) MapArgsOk).step twoSpaces
      (.map spaceA 0x80000000 0x40300000 pteUserRwx [0x40203000, 0x40204000])
      (twoSpaces.map spaceA 0x80000000 0x40300000 pteUserRwx [0x40203000, 0x40204000]) :=
    ⟨hargs, by decide, supply_twoSpaces, rfl⟩
  have hreach := twoSpaces_reachable (G := MapArgsOk) fun _ => trivial
  have hok : (mapUserPage twoSpaces.mem spaceA 0x80000000 0x40300000 pteUserRwx
      [0x40203000, 0x40204000]).2 = true := by
    by_contra hno
    have := ((walk_refines_map placed_boot hreach).2 _ _ _ _ _ _ hstep (by simpa using hno)).1
    revert this; decide
  rw [(walk_refines_map placed_boot (hreach.step hstep)).1 spaceA (by decide) _ (by decide)
    (by decide)]
  simp [PtState.map, hok]

end

/-! ## Isolation -/

/-- `s'` is `s` after work on page table `A` that no other address space and
no kernel translation sees, and that wrote only `A`'s own tables. -/
structure Isolated (kpgd A : Nat) (s s' : PtState) : Prop where
  others : ∀ B ∈ s.roots, B ≠ A → ∀ va, walk s'.mem B va = walk s.mem B va
  kernel : ∀ va, walk s'.mem kpgd va = walk s.mem kpgd va
  ram : ∀ va, 0x40000000 ≤ va → va < 0x50000000 → walk s'.mem A va = walk s.mem A va
  bytes : ∀ a, s'.mem a ≠ s.mem a → ∃ l p, Node s'.mem s.roots l p ∧ l.rootOf = A ∧ InPage p a

/-- The calls that stay private: the page is outside the gigabyte at
0x40000000, or it is above the RAM window there and the allocator is empty. -/
def Private : PtCall → Prop
  | .create _ => True
  | .map _ virt _ flags supply => virt < 2 ^ 39 ∧ flags < 2 ^ 64 ∧
      (virt < 2 ^ 30 ∨ 2 ^ 31 ≤ virt ∨ (0x50000000 ≤ virt ∧ supply.headD 0 = 0))

def PtCall.On (A : Nat) : PtCall → Prop
  | .create _ => False
  | .map pgd _ _ _ _ => pgd = A

section
variable {kpgd kl2 : Nat} {m m' : Mem} {m₀ : Mem} {roots : List Nat} {s s' : PtState} {A : Nat}

/-- The leaves of every tree but `A`'s. -/
def SameLeavesBut (A : Nat) (roots : List Nat) (m m' : Mem) : Prop :=
  SameLeaves (roots.filter (· ≠ A)) m m'

theorem map_private (I : Inv kpgd kl2 m roots) (hA : A ∈ roots)
    (hsup : SupplyOk kpgd kl2 m roots supply) (hp : Private (.map A virt phys flags supply)) :
    Extends kpgd kl2 roots A m (mapUserPage m A virt phys flags supply).1 ∧
    SameLeavesBut A roots m (mapUserPage m A virt phys flags supply).1 := by
  obtain ⟨hv, hfl, hp⟩ := hp
  have stay : mapUserPage m A virt phys flags supply = (m, false) →
      Extends kpgd kl2 roots A m (mapUserPage m A virt phys flags supply).1 ∧
      SameLeavesBut A roots m (mapUserPage m A virt phys flags supply).1 := by
    intro e
    rw [e]
    exact ⟨.refl I, fun _ _ _ _ _ _ _ _ _ => rfl⟩
  by_cases h2 : 2 ≤ l1Idx virt
  · obtain ⟨m', ok, e, x, hleaf, -⟩ := mapUserPage_spec I hA h2 hfl hsup phys
    rw [e]
    refine ⟨x, fun r hr i j k h2 hi hj hk => ?_⟩
    obtain ⟨hr, hne⟩ := List.mem_filter.mp hr
    rw [hleaf r hr i j k h2 hi hj hk, if_neg]
    rintro ⟨-, h, -⟩
    exact absurd h (by simpa using hne)
  · rw [l1Idx_eq] at h2
    rcases hp with hp | hp | ⟨hp, h0⟩
    · exact stay (mapUserPage_device I hA (by rw [l1Idx_eq]; omega))
    · omega
    · refine stay (mapUserPage_hole_full I hA ?_ ?_ h0)
      · rw [l1Idx_eq]; omega
      · rw [l2Idx_eq]; omega

theorem isolated_of_extends (I : Inv kpgd kl2 s.mem s.roots) (hA : A ∈ s.roots)
    (x : Extends kpgd kl2 s.roots A s.mem s'.mem) (hl : SameLeavesBut A s.roots s.mem s'.mem) :
    Isolated kpgd A s s' where
  others := by
    intro B hB hne va
    by_cases h2 : 2 ≤ l1Idx va
    · rw [walk_eq_leaf I hB h2, walk_eq_leaf x.inv hB h2,
        hl B (List.mem_filter.mpr ⟨hB, by simpa using hne⟩) _ _ _ h2 (l1Idx_lt va) (l2Idx_lt va)
          (l3Idx_lt va)]
    · rw [walk_shared I hB (by omega), walk_shared x.inv hB (by omega)]
  kernel := fun va => by rw [walk_kernel I.kernel, walk_kernel x.inv.kernel]
  ram := by
    intro va h1 h2
    have : l1Idx va < 2 := by rw [l1Idx_eq]; omega
    rw [walk_shared I hA this, walk_shared x.inv hA this]
  bytes := x.bytes

theorem private_inductive (hp : Placed kpgd kl2) :
    (pageLTS kpgd kl2 m₀ Private).Inductive fun s => Inv kpgd kl2 s.mem s.roots where
  init := by
    rintro s rfl
    exact .init (init_kernelTables hp.kpgdOk hp.kl2Ok hp.ne)
  step := by
    rintro s c s' I ⟨hg, h⟩
    cases c with
    | create page =>
      obtain ⟨hf, rfl⟩ := h
      exact I.create_step hf
    | map pgd virt phys flags supply =>
      obtain ⟨hp, hsup, rfl⟩ := h
      exact (map_private I hp hsup hg).1.inv

theorem private_run (I : Inv kpgd kl2 s.mem s.roots) (hA : A ∈ s.roots) {cs : List PtCall}
    (hrun : (pageLTS kpgd kl2 m₀ Private).Run s cs s') (hcs : ∀ c ∈ cs, c.On A) :
    Extends kpgd kl2 s.roots A s.mem s'.mem ∧ SameLeavesBut A s.roots s.mem s'.mem := by
  induction hrun with
  | nil s => exact ⟨.refl I, fun _ _ _ _ _ _ _ _ _ => rfl⟩
  | @cons s s' s'' c cs hstep _ ih =>
    have hc := hcs c List.mem_cons_self
    obtain ⟨hg, hstep⟩ := hstep
    cases c with
    | create page => exact hc.elim
    | map pgd virt phys flags supply =>
      obtain rfl : pgd = A := hc
      obtain ⟨-, hsup, rfl⟩ := hstep
      obtain ⟨x, l⟩ := map_private I hA hsup hg
      obtain ⟨x', l'⟩ := ih x.inv hA fun c hc => hcs c (List.mem_cons_of_mem _ hc)
      exact ⟨x.trans x', l.trans l'⟩

/-- In every run whose `map_user_page` calls are all private, any sequence of
calls on one page table is isolated. -/
theorem map_isolated (hp : Placed kpgd kl2) (hs : (pageLTS kpgd kl2 m₀ Private).Reachable s)
    (hA : A ∈ s.roots) {cs : List PtCall} (hrun : (pageLTS kpgd kl2 m₀ Private).Run s cs s')
    (hcs : ∀ c ∈ cs, c.On A) : Isolated kpgd A s s' := by
  have I := (private_inductive hp).reachable s hs
  obtain ⟨x, l⟩ := private_run I hA hrun hcs
  exact isolated_of_extends I hA x l

theorem map_isolated_stack : Isolated 0x40080000 spaceA twoSpaces
      (twoSpaces.map spaceA 0x80000000 0x40300000 pteUserRwx [0x40203000, 0x40204000]) := by
  have hcall : Private (.map spaceA 0x80000000 0x40300000 pteUserRwx [0x40203000, 0x40204000]) := by
    unfold Private; decide
  have hrun : (pageLTS 0x40080000 0x40200000 (fun _ => 0) Private).Run twoSpaces
      [.map spaceA 0x80000000 0x40300000 pteUserRwx [0x40203000, 0x40204000]] _ :=
    .cons ⟨hcall, by decide, supply_twoSpaces, rfl⟩ (.nil _)
  refine map_isolated placed_boot (twoSpaces_reachable fun _ => trivial) (by decide) hrun ?_
  rintro c hc
  cases List.mem_singleton.mp hc
  rfl

/-- In the hole above the RAM window a call that gets a page links it into the
kernel's L2 table, and every address space sees the new page. -/
theorem walk_map_hole (I : Inv kpgd kl2 m roots) (hA : A ∈ roots) (h : l1Idx virt = 1)
    (hj : 128 ≤ l2Idx virt) (hfl : flags < 2 ^ 64) (hf : Fresh kpgd kl2 m roots (supply.headD 0))
    {B : Nat} (hB : B ∈ roots) : walk (mapUserPage m A virt phys flags supply).1 B virt =
      (decodePage ((phys &&& addrMask) ||| flags)).map fun d => (d.1 + virt % 2 ^ 12, d.2) := by
  have hl := I.kernel.kl2Ok
  have hp := hf.ok
  have he : ∀ r ∈ roots, entry m r 1 = tableDesc kl2 := fun r hr =>
    (I.shared r hr 1 (by decide)).trans I.kernel.ram
  have he2 : entry m kl2 (l2Idx virt) = 0 := by
    rw [I.kernel.blocks _ (l2Idx_lt virt), if_neg (by omega)]
  have hg : getOrCreateTable m A 1 supply = (m, kl2, supply) := by
    rw [getOrCreateTable_valid (by rw [he A hA, tableDesc_valid hl]; decide), he A hA,
      tableDesc_addr hl]
  have hz : entry m kl2 (l2Idx virt) &&& 1 = 0 := by rw [he2]; rfl
  have hg2 := getOrCreateTable_new hz hl.aligned (l2Idx_lt virt) hp
  have hm : (mapUserPage m A virt phys flags supply).1 =
      setEntry (link m kl2 (l2Idx virt) (supply.headD 0)) (supply.headD 0) (l3Idx virt)
        ((phys &&& addrMask) ||| flags) := by
    simp only [mapUserPage, mapPageInTable, h, hg, hl.ne_zero, if_false, hg2, hp.ne_zero]
    rfl
  generalize supply.headD 0 = p at hf hp hm
  have hv := leafValue_lt phys hfl
  have hBp : B ≠ p := fun e => hf.unused _ (e ▸ Node.root hB)
  have hBl : B ≠ kl2 := (I.notKernel _ _ (.root hB)).2
  have hlp : kl2 ≠ p := hf.ne_kl2.symm
  have w1 : entry (mapUserPage m A virt phys flags supply).1 B 1 = tableDesc kl2 := by
    rw [hm, entry_write hp.aligned (l3Idx_lt virt) hv (I.rootOk B hB).aligned (by decide),
      entry_link hl.aligned (l2Idx_lt virt) hp (I.rootOk B hB).aligned (by decide), ← he B hB]
    simp [hBp, hBl]
  have w2 : entry (mapUserPage m A virt phys flags supply).1 kl2 (l2Idx virt) = tableDesc p := by
    rw [hm, entry_write hp.aligned (l3Idx_lt virt) hv hl.aligned (l2Idx_lt virt),
      entry_link hl.aligned (l2Idx_lt virt) hp hl.aligned (l2Idx_lt virt)]
    simp [hlp]
  have w3 : entry (mapUserPage m A virt phys flags supply).1 p (l3Idx virt) =
      (phys &&& addrMask) ||| flags := by
    rw [hm, entry_write hp.aligned (l3Idx_lt virt) hv hp.aligned (l3Idx_lt virt)]
    simp
  simp [walk, h, w1, w2, w3, tableDesc_valid hl, tableDesc_table hl, tableDesc_addr hl,
    tableDesc_valid hp, tableDesc_table hp, tableDesc_addr hp]

/-- Any page of the 39-bit address space. -/
def AnyPage : PtCall → Prop
  | .create _ => True
  | .map _ virt _ flags _ => virt < 2 ^ 39 ∧ flags < 2 ^ 64

/-- **Counterexample**: `A` maps a page at 0x50000000 and `B`, which had no
translation there, gets one to `A`'s page. -/
theorem map_leaks : (pageLTS 0x40080000 0x40200000 (fun _ => 0) AnyPage).Reachable twoSpaces ∧
    (pageLTS 0x40080000 0x40200000 (fun _ => 0) AnyPage).Run twoSpaces
      [.map spaceA 0x50000000 0x40300000 pteUserRwx [0x40203000, 0x40204000]]
      (twoSpaces.map spaceA 0x50000000 0x40300000 pteUserRwx [0x40203000, 0x40204000]) ∧
    walk twoSpaces.mem spaceB 0x50000000 = none ∧
    walk (twoSpaces.map spaceA 0x50000000 0x40300000 pteUserRwx [0x40203000, 0x40204000]).mem
      spaceB 0x50000000 = some (0x40300000, pteUserRwx) ∧ ¬ Isolated 0x40080000 spaceA twoSpaces
      (twoSpaces.map spaceA 0x50000000 0x40300000 pteUserRwx [0x40203000, 0x40204000]) := by
  have I : Inv 0x40080000 0x40200000 twoSpaces.mem twoSpaces.roots :=
    (booted_inv.create fresh_spaceA).create fresh_spaceB
  have before : walk twoSpaces.mem spaceB 0x50000000 = none :=
    (walk_shared I (show spaceB ∈ _ by decide) (by decide)).trans (by decide)
  have after : walk (twoSpaces.map spaceA 0x50000000 0x40300000 pteUserRwx
      [0x40203000, 0x40204000]).mem spaceB 0x50000000 = some (0x40300000, pteUserRwx) := by
    have hf : Fresh 0x40080000 0x40200000 twoSpaces.mem twoSpaces.roots
        ([0x40203000, 0x40204000].headD 0) :=
      fresh_twoSpaces ⟨by decide, by decide, by decide⟩ (by decide)
    rw [PtState.map, walk_map_hole I (by decide) (by decide) (by decide) (by decide) hf (by decide)]
    decide
  refine ⟨twoSpaces_reachable fun _ => trivial,
    .cons ⟨?_, by decide, supply_twoSpaces, rfl⟩ (.nil _), before, after, fun h => ?_⟩
  · unfold AnyPage; decide
  · have := h.others spaceB (by decide) (by decide) 0x50000000
    rw [before, after] at this
    cases this

end

end HackersOs.L2.Mmu

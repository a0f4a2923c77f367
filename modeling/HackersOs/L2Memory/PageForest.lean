import HackersOs.L2Memory.Mmu

/-!
# The forest of user page tables

Every user page table is a tree: a root page, the L2 tables its L1 slots link
and the L3 tables those link. `Node m roots l p` says that the table at place
`l` of the forest is the page `p`. The L1 slots 0 and 1 are not part of the
tree: `create_user_page_table` copies them from the kernel, so what hangs
below them is shared.

`Inv` is the invariant of the whole forest: all tables of all roots are
distinct pages (and none is a kernel table), every slot of a root (from 2 on)
and of an L2 table is empty or links a table, and the shared slots agree with
the kernel's tables as `MMU::init` built them. `link` and `install` are the
only two things a `map_user_page` call from 2 GB on does to memory: hang a
fresh zeroed page into an empty slot, and write one level-3 descriptor.
`mapUserPage_spec` is the effect of a whole call.
-/
namespace HackersOs.L2.Mmu
open HackersOs.Core

variable {i' t' : Nat} {m' : Mem}

/-- A place in the forest. -/
inductive Loc where
  | root (r : Nat)
  | l2 (r i : Nat)
  | l3 (r i j : Nat)
  deriving DecidableEq, Repr

def Loc.rootOf : Loc → Nat
  | .root r => r
  | .l2 r _ => r
  | .l3 r _ _ => r

/-- The place slot `i` of the table at a place leads to. -/
def Loc.child : Loc → Nat → Loc
  | .root r, i => .l2 r i
  | .l2 r i, j => .l3 r i j
  | .l3 r i j, _ => .l3 r i j

/-- The slots that link further tables of the forest. -/
def Loc.HasSlot : Loc → Nat → Prop
  | .root _, i => 2 ≤ i ∧ i < 512
  | .l2 _ _, j => j < 512
  | .l3 _ _ _, _ => False

inductive Node (m : Mem) (roots : List Nat) : Loc → Nat → Prop where
  | root {r : Nat} : r ∈ roots → Node m roots (.root r) r
  | l2 {r i p : Nat} : r ∈ roots → 2 ≤ i → i < 512 → PageOk p → entry m r i = tableDesc p →
      Node m roots (.l2 r i) p
  | l3 {r i j p q : Nat} : Node m roots (.l2 r i) p → j < 512 → PageOk q →
      entry m p j = tableDesc q → Node m roots (.l3 r i j) q

/-- An empty slot or a link to a table. -/
def SlotOk (e : Nat) : Prop := e = 0 ∨ ∃ p, PageOk p ∧ e = tableDesc p

/-- The kernel's two tables are as `MMU::init` leaves them. -/
structure KernelTables (kpgd kl2 : Nat) (m : Mem) : Prop where
  kpgdOk : PageOk kpgd
  kl2Ok : PageOk kl2
  ne : kpgd ≠ kl2
  device : entry m kpgd 0 = deviceBlock
  ram : entry m kpgd 1 = tableDesc kl2
  none : ∀ i, 2 ≤ i → i < 512 → entry m kpgd i = 0
  blocks : ∀ i, i < 512 → entry m kl2 i = if i < 128 then ramBlock i else 0

structure Inv (kpgd kl2 : Nat) (m : Mem) (roots : List Nat) : Prop where
  kernel : KernelTables kpgd kl2 m
  rootOk : ∀ r ∈ roots, PageOk r
  shared : ∀ r ∈ roots, ∀ i, i < 2 → entry m r i = entry m kpgd i
  slots : ∀ l t i, Node m roots l t → l.HasSlot i → SlotOk (entry m t i)
  inj : ∀ l l' p, Node m roots l p → Node m roots l' p → l = l'
  notKernel : ∀ l p, Node m roots l p → p ≠ kpgd ∧ p ≠ kl2

/-- A page the allocator may return: it is not in use as a table. -/
structure Fresh (kpgd kl2 : Nat) (m : Mem) (roots : List Nat) (p : Nat) : Prop where
  ok : PageOk p
  ne_kpgd : p ≠ kpgd
  ne_kl2 : p ≠ kl2
  unused : ∀ l, ¬ Node m roots l p

theorem Loc.HasSlot.lt {l : Loc} {i : Nat} (h : l.HasSlot i) : i < 512 := by
  cases l with
  | root r => exact h.2
  | l2 r i => exact h
  | l3 r i j => exact h.elim

theorem Loc.child_rootOf (l : Loc) (i : Nat) : (l.child i).rootOf = l.rootOf := by
  cases l <;> rfl

section
variable {kpgd kl2 : Nat} {m : Mem} {roots : List Nat}

theorem Node.pageOk (hr : ∀ r ∈ roots, PageOk r) {l : Loc} {p : Nat} (h : Node m roots l p) :
    PageOk p := by
  cases h with
  | root h => exact hr _ h
  | l2 _ _ _ h _ => exact h
  | l3 _ _ h _ => exact h

theorem Node.rootOf_mem {l : Loc} {p : Nat} (h : Node m roots l p) : l.rootOf ∈ roots := by
  cases h with
  | root h => exact h
  | l2 h _ _ _ _ => exact h
  | l3 h _ _ _ => cases h with | l2 h _ _ _ _ => exact h

/-- A linked slot of a node is a node. -/
theorem Node.child {l : Loc} {t i p : Nat} (h : Node m roots l t) (hs : l.HasSlot i)
    (hp : PageOk p) (he : entry m t i = tableDesc p) : Node m roots (l.child i) p := by
  cases h with
  | root h => exact .l2 h hs.1 hs.2 hp he
  | l2 h h2 h3 h4 h5 => exact .l3 (.l2 h h2 h3 h4 h5) hs hp he
  | l3 => exact hs.elim

/-- A place holds at most one table. -/
theorem Node.unique {l : Loc} {p q : Nat} (hp : Node m roots l p) (hq : Node m roots l q) :
    p = q := by
  induction hp generalizing q with
  | root _ => cases hq; rfl
  | l2 _ _ _ h4 h5 => cases hq with | l2 _ _ _ h4' h5' => exact tableDesc_inj h4 h4' (h5 ▸ h5')
  | l3 _ _ h4 h5 ih =>
    cases hq with
    | l3 hp' _ h4' h5' =>
      rw [ih hp'] at h5
      exact tableDesc_inj h4 h4' (h5 ▸ h5')

/-- A node stays one in a memory where every linked slot still reads the same. -/
theorem Node.transfer {roots' : List Nat} (hr : ∀ r ∈ roots, r ∈ roots')
    (h : ∀ l t i, Node m roots l t → l.HasSlot i → ∀ p, PageOk p → entry m t i = tableDesc p →
      entry m' t i = tableDesc p)
    {l : Loc} {p : Nat} (hn : Node m roots l p) : Node m' roots' l p := by
  induction hn with
  | root h => exact .root (hr _ h)
  | l2 h1 h2 h3 h4 h5 => exact .l2 (hr _ h1) h2 h3 h4 (h _ _ _ (.root h1) ⟨h2, h3⟩ _ h4 h5)
  | l3 hp h2 h3 h4 ih => exact .l3 ih h2 h3 (h _ _ _ hp h2 _ h3 h4)

theorem node_congr (h : ∀ l t i, Node m roots l t → l.HasSlot i → entry m' t i = entry m t i)
    {l : Loc} {p : Nat} : Node m' roots l p ↔ Node m roots l p := by
  constructor
  · intro hn
    induction hn with
    | root hr => exact .root hr
    | l2 hr h2 h3 h4 h5 => exact .l2 hr h2 h3 h4 (h _ _ _ (.root hr) ⟨h2, h3⟩ ▸ h5)
    | l3 _ h2 h3 h4 ih => exact .l3 ih h2 h3 (h _ _ _ ih h2 ▸ h4)
  · exact Node.transfer (fun _ hr => hr) fun l t i hn hs p _ he => (h l t i hn hs).trans he

/-! ## Linking a fresh table -/

/-- What `get_or_create_table` does to memory when it makes a table. -/
def link (m : Mem) (t i p : Nat) : Mem := setEntry (zeroPage m p) t i (tableDesc p)

theorem entry_link {t i p q j : Nat} (ht : t % 4096 = 0) (hi : i < 512) (hp : PageOk p)
    (hq : q % 4096 = 0) (hj : j < 512) : entry (link m t i p) q j =
      if q = t ∧ j = i then tableDesc p else if q = p then 0 else entry m q j := by
  rw [link, entry_write ht hi (tableDesc_lt hp) hq hj, entry_zeroPage hp.aligned hq hj]

variable (I : Inv kpgd kl2 m roots) {l : Loc} {t i p : Nat} (hn : Node m roots l t)
  (hs : l.HasSlot i) (he : entry m t i = 0) (hf : Fresh kpgd kl2 m roots p)

include I in
theorem Inv.aligned (hn : Node m roots l t) : t % 4096 = 0 :=
  (hn.pageOk I.rootOk).aligned

include I hn hs hf in
/-- A slot of an old table, after the link: the linked slot or as before. -/
theorem entry_link_node {l' : Loc} (hn' : Node m roots l' t') (hi' : i' < 512) :
    entry (link m t i p) t' i' = if t' = t ∧ i' = i then tableDesc p else entry m t' i' := by
  rw [entry_link (I.aligned hn) hs.lt hf.ok (I.aligned hn') hi']
  have : t' ≠ p := fun h => hf.unused l' (h ▸ hn')
  simp [this]

include I hn hs hf in
theorem entry_link_new {j : Nat} (hj : j < 512) : entry (link m t i p) p j = 0 := by
  have hpt : p ≠ t := fun h => hf.unused l (h ▸ hn)
  rw [entry_link (I.aligned hn) hs.lt hf.ok hf.ok.aligned hj, if_neg (fun h => hpt h.1), if_pos rfl]

include I hn hs hf in
/-- A slot of an old table that links something after the link. -/
theorem link_slot_cases {l' : Loc} {q : Nat} (hn' : Node m roots l' t') (hs' : l'.HasSlot i')
    (hq : PageOk q) (h : entry (link m t i p) t' i' = tableDesc q) :
    Node m roots (l'.child i') q ∨ (l'.child i' = l.child i ∧ q = p) := by
  rw [entry_link_node I hn hs hf hn' hs'.lt] at h
  split at h
  · rename_i hc
    obtain ⟨rfl, rfl⟩ := hc
    rw [I.inj l' l _ hn' hn]
    exact .inr ⟨rfl, tableDesc_inj hq hf.ok h.symm⟩
  · exact .inl (hn'.child hs' hq h)

include I hn hs he hf in
theorem node_link_iff {l' : Loc} {q : Nat} :
    Node (link m t i p) roots l' q ↔ Node m roots l' q ∨ (l' = l.child i ∧ q = p) := by
  have old : ∀ {l' : Loc} {q : Nat}, Node m roots l' q → Node (link m t i p) roots l' q :=
    fun h => h.transfer (fun _ hr => hr) fun l' t' i' hn' hs' p' hp' he' => by
      rw [entry_link_node I hn hs hf hn' hs'.lt, if_neg, he']
      rintro ⟨rfl, rfl⟩
      exact tableDesc_ne_zero hp' (he'.symm.trans he)
  constructor
  · intro h
    induction h with
    | root hr => exact .inl (.root hr)
    | l2 hr h2 h3 h4 h5 => exact link_slot_cases I hn hs hf (.root hr) ⟨h2, h3⟩ h4 h5
    | l3 _ h2 h3 h4 ih =>
      rcases ih with ih | ⟨-, rfl⟩
      · exact link_slot_cases I hn hs hf ih h2 h3 h4
      · rw [entry_link_new I hn hs hf h2] at h4
        exact absurd h4.symm (tableDesc_ne_zero h3)
  · rintro (h | ⟨rfl, rfl⟩)
    · exact old h
    · refine (old hn).child hs hf.ok ?_
      rw [entry_link_node I hn hs hf hn hs.lt, if_pos ⟨rfl, rfl⟩]

/-- A memory whose kernel tables read the same keeps them. -/
theorem KernelTables.congr (h : KernelTables kpgd kl2 m)
    (h1 : ∀ i, i < 512 → entry m' kpgd i = entry m kpgd i)
    (h2 : ∀ i, i < 512 → entry m' kl2 i = entry m kl2 i) : KernelTables kpgd kl2 m' where
  kpgdOk := h.kpgdOk
  kl2Ok := h.kl2Ok
  ne := h.ne
  device := (h1 0 (by decide)).trans h.device
  ram := (h1 1 (by decide)).trans h.ram
  none := fun i hi hi' => (h1 i hi').trans (h.none i hi hi')
  blocks := fun i hi => (h2 i hi).trans (h.blocks i hi)

include I hn hs hf in
theorem entry_link_kernel {k j : Nat} (hk : k = kpgd ∨ k = kl2) (hj : j < 512) :
    entry (link m t i p) k j = entry m k j := by
  have hka : k % 4096 = 0 := by
    rcases hk with rfl | rfl
    · exact I.kernel.kpgdOk.aligned
    · exact I.kernel.kl2Ok.aligned
  have hkt : k ≠ t := by
    rcases hk with rfl | rfl
    · exact fun h => (I.notKernel l t hn).1 h.symm
    · exact fun h => (I.notKernel l t hn).2 h.symm
  have hkp : k ≠ p := by
    rcases hk with rfl | rfl
    · exact fun h => hf.ne_kpgd h.symm
    · exact fun h => hf.ne_kl2 h.symm
  rw [entry_link (I.aligned hn) hs.lt hf.ok hka hj, if_neg (fun h => hkt h.1), if_neg hkp]

include I hn hs he hf in
theorem Inv.link : Inv kpgd kl2 (link m t i p) roots where
  kernel := I.kernel.congr (fun j hj => entry_link_kernel I hn hs hf (.inl rfl) hj)
    (fun j hj => entry_link_kernel I hn hs hf (.inr rfl) hj)
  rootOk := I.rootOk
  shared := by
    intro r hr j hj
    rw [entry_link_kernel I hn hs hf (.inl rfl) (by omega),
      entry_link_node I hn hs hf (.root hr) (by omega), if_neg, I.shared r hr j hj]
    -- a shared slot is never the linked one: in a root only slots from 2 on link tables
    rintro ⟨rfl, rfl⟩
    have hl := I.inj _ _ _ hn (.root hr)
    rw [hl] at hs
    exact absurd hs.1 (by omega)
  slots := by
    intro l' t' j hn' hs'
    rcases (node_link_iff I hn hs he hf).mp hn' with h | ⟨rfl, rfl⟩
    · rw [entry_link_node I hn hs hf h hs'.lt]
      split
      · exact .inr ⟨p, hf.ok, rfl⟩
      · exact I.slots l' t' j h hs'
    · exact .inl (entry_link_new I hn hs hf hs'.lt)
  inj := by
    intro l1 l2 q h1 h2
    rcases (node_link_iff I hn hs he hf).mp h1 with h1 | ⟨e1, rfl⟩ <;>
      rcases (node_link_iff I hn hs he hf).mp h2 with h2 | ⟨e2, hq⟩
    · exact I.inj _ _ _ h1 h2
    · exact absurd (hq ▸ h1) (hf.unused l1)
    · exact absurd h2 (hf.unused l2)
    · rw [e1, e2]
  notKernel := by
    intro l' q h
    rcases (node_link_iff I hn hs he hf).mp h with h | ⟨-, rfl⟩
    · exact I.notKernel l' q h
    · exact ⟨hf.ne_kpgd, hf.ne_kl2⟩

/-! ## Leaves -/

/-- The level-3 descriptor `(i, j, k)` of the tree at `r`, 0 where a table on
the way is missing. -/
def leaf (m : Mem) (r i j k : Nat) : Nat :=
  if entry m r i = 0 then 0
  else if entry m (entry m r i &&& addrMask) j = 0 then 0
  else entry m (entry m (entry m r i &&& addrMask) j &&& addrMask) k

theorem leaf_of_node {r j q : Nat} (h : Node m roots (.l3 r i j) q) (k : Nat) :
    leaf m r i j k = entry m q k := by
  cases h with
  | l3 h2 _ hq e3 =>
    cases h2 with
    | l2 _ _ _ hp e2 =>
      rw [leaf, if_neg (e2 ▸ tableDesc_ne_zero hp), e2, tableDesc_addr hp,
        if_neg (e3 ▸ tableDesc_ne_zero hq), e3, tableDesc_addr hq]

include I in
theorem leaf_of_no_node {r j : Nat} (hr : r ∈ roots) (h2 : 2 ≤ i) (hi : i < 512) (hj : j < 512)
    (h : ∀ q, ¬ Node m roots (.l3 r i j) q) (k : Nat) : leaf m r i j k = 0 := by
  rcases I.slots (.root r) r i (.root hr) ⟨h2, hi⟩ with e | ⟨p, hp, e⟩
  · rw [leaf, if_pos e]
  · have hn2 : Node m roots (.l2 r i) p := .l2 hr h2 hi hp e
    rcases I.slots (.l2 r i) p j hn2 hj with e3 | ⟨q, hq, e3⟩
    · rw [leaf, if_neg (e ▸ tableDesc_ne_zero hp), e, tableDesc_addr hp, if_pos e3]
    · exact absurd (Node.l3 hn2 hj hq e3) (h q)

include I in
/-- From 2 GB on the hardware walk of a root decodes the leaf. -/
theorem walk_eq_leaf {r va : Nat} (hr : r ∈ roots) (h2 : 2 ≤ l1Idx va) :
    walk m r va = (decodePage (leaf m r (l1Idx va) (l2Idx va) (l3Idx va))).map
      fun d => (d.1 + va % 2 ^ 12, d.2) := by
  rcases I.slots (.root r) r _ (.root hr) ⟨h2, l1Idx_lt va⟩ with e | ⟨p, hp, e⟩
  · simp [walk, leaf, e, decodePage]
  have hn2 : Node m roots (.l2 r (l1Idx va)) p := .l2 hr h2 (l1Idx_lt va) hp e
  rcases I.slots _ p _ hn2 (l2Idx_lt va) with e3 | ⟨q, hq, e3⟩
  · simp [walk, leaf, e, tableDesc_valid hp, tableDesc_table hp, tableDesc_addr hp,
      tableDesc_ne_zero hp, e3, decodePage]
  · simp [walk, leaf, e, tableDesc_valid hp, tableDesc_table hp, tableDesc_addr hp,
      tableDesc_ne_zero hp, e3, tableDesc_valid hq, tableDesc_table hq, tableDesc_addr hq,
      tableDesc_ne_zero hq]

include I hn hs he hf in
/-- A fresh zeroed table adds no leaf. -/
theorem leaf_link {r j k : Nat} (hr : r ∈ roots) (h2 : 2 ≤ i') (hi' : i' < 512) (hj : j < 512)
    (hk : k < 512) : leaf (link m t i p) r i' j k = leaf m r i' j k := by
  have hiff := @node_link_iff _ _ _ _ I _ _ _ _ hn hs he hf
  by_cases hold : ∃ q, Node m roots (.l3 r i' j) q
  · obtain ⟨q, hq⟩ := hold
    rw [leaf_of_node (hiff.mpr (.inl hq)), leaf_of_node hq, entry_link_node I hn hs hf hq hk, if_neg]
    rintro ⟨rfl, rfl⟩
    rw [I.inj _ _ _ hn hq] at hs
    exact hs
  · rw [leaf_of_no_node I hr h2 hi' hj (fun q hq => hold ⟨q, hq⟩)]
    by_cases hnew : ∃ q, Node (link m t i p) roots (.l3 r i' j) q
    · obtain ⟨q, hq⟩ := hnew
      rcases hiff.mp hq with h | ⟨-, rfl⟩
      · exact absurd ⟨q, h⟩ hold
      · rw [leaf_of_node hq, entry_link_new I hn hs hf hk]
    · exact leaf_of_no_node (I.link hn hs he hf) hr h2 hi' hj (fun q hq => hnew ⟨q, hq⟩) k

theorem link_outside {a : Nat} (hi : i < 512) (ht : ¬ InPage t a) (hp : ¬ InPage p a) :
    link m t i p a = m a := by
  rw [link, setEntry_outside hi ht, zeroPage_outside hp]

/-! ## Installing a level-3 descriptor -/

variable {r i j k q v : Nat} (hq : Node m roots (.l3 r i j) q) (hk : k < 512) (hv : v < 2 ^ 64)

include I hq hk hv in
theorem entry_install {k' : Nat} (ht : t' % 4096 = 0) (hk' : k' < 512) :
    entry (setEntry m q k v) t' k' = if t' = q ∧ k' = k then v else entry m t' k' :=
  entry_write (I.aligned hq) hk hv ht hk'

include I hq hk hv in
theorem entry_install_slot (hn : Node m roots l t) (hs : l.HasSlot i') :
    entry (setEntry m q k v) t i' = entry m t i' := by
  rw [entry_install I hq hk hv (I.aligned hn) hs.lt, if_neg]
  rintro ⟨rfl, -⟩
  rw [I.inj _ _ _ hn hq] at hs
  exact hs

include I hq hk hv in
theorem node_install_iff {l : Loc} {p : Nat} :
    Node (setEntry m q k v) roots l p ↔ Node m roots l p :=
  node_congr fun _ _ _ hn hs => entry_install_slot I hq hk hv hn hs

include I hq hk hv in
theorem entry_install_kernel {j' : Nat} (ht : t = kpgd ∨ t = kl2) (hj' : j' < 512) :
    entry (setEntry m q k v) t j' = entry m t j' := by
  have hne := I.notKernel _ _ hq
  have hta : t % 4096 = 0 := by
    rcases ht with rfl | rfl
    · exact I.kernel.kpgdOk.aligned
    · exact I.kernel.kl2Ok.aligned
  rw [entry_install I hq hk hv hta hj', if_neg]
  rintro ⟨rfl, -⟩
  rcases ht with h | h
  · exact hne.1 h
  · exact hne.2 h

include I hq hk hv in
theorem Inv.install : Inv kpgd kl2 (setEntry m q k v) roots where
  kernel := I.kernel.congr (fun _ hj => entry_install_kernel I hq hk hv (.inl rfl) hj)
    (fun _ hj => entry_install_kernel I hq hk hv (.inr rfl) hj)
  rootOk := I.rootOk
  shared := by
    intro r' hr' i' hi'
    rw [entry_install_kernel I hq hk hv (.inl rfl) (by omega),
      entry_install I hq hk hv (I.rootOk r' hr').aligned (by omega), if_neg, I.shared r' hr' i' hi']
    rintro ⟨rfl, -⟩
    cases I.inj _ _ _ hq (.root hr')
  slots := by
    intro l t i' hn hs
    have hn' := (node_install_iff I hq hk hv).mp hn
    rw [entry_install_slot I hq hk hv hn' hs]
    exact I.slots l t i' hn' hs
  inj := fun l l' p h h' =>
    I.inj l l' p ((node_install_iff I hq hk hv).mp h) ((node_install_iff I hq hk hv).mp h')
  notKernel := fun l p h => I.notKernel l p ((node_install_iff I hq hk hv).mp h)

include I hq hk hv in
/-- Installing writes one leaf and no other. -/
theorem leaf_install {r' j' k' : Nat} (hr : r' ∈ roots) (h2 : 2 ≤ i') (hi' : i' < 512)
    (hj' : j' < 512) (hk' : k' < 512) : leaf (setEntry m q k v) r' i' j' k' =
      if r' = r ∧ i' = i ∧ j' = j ∧ k' = k then v else leaf m r' i' j' k' := by
  have hiff := @node_install_iff _ _ _ _ I _ _ _ _ _ _ hq hk hv
  by_cases hex : ∃ q', Node m roots (.l3 r' i' j') q'
  · obtain ⟨q', hq'⟩ := hex
    rw [leaf_of_node (hiff.mpr hq'), leaf_of_node hq', entry_install I hq hk hv (I.aligned hq') hk']
    refine if_congr ?_ rfl rfl
    constructor
    · rintro ⟨rfl, rfl⟩
      cases I.inj _ _ _ hq hq'
      exact ⟨rfl, rfl, rfl, rfl⟩
    · rintro ⟨rfl, rfl, rfl, rfl⟩
      exact ⟨hq'.unique hq, rfl⟩
  · rw [leaf_of_no_node I hr h2 hi' hj' (fun q' h => hex ⟨q', h⟩),
      leaf_of_no_node (I.install hq hk hv) hr h2 hi' hj' (fun q' h => hex ⟨q', hiff.mp h⟩), if_neg]
    rintro ⟨rfl, rfl, rfl, -⟩
    exact hex ⟨q, hq⟩

end

/-! ## A new root -/

section
variable {kpgd kl2 : Nat} {m : Mem} {roots : List Nat} (I : Inv kpgd kl2 m roots) {p : Nat}
  (hf : Fresh kpgd kl2 m roots p)

include I hf in
theorem entry_create {q j : Nat} (hq : q % 4096 = 0) (hj : j < 512) :
    entry (createUserPageTable m kpgd p) q j = if q = p then entry m kpgd j else entry m q j := by
  have hka := I.kernel.kpgdOk.aligned
  rw [createUserPageTable, if_neg hf.ok.ne_zero,
    entry_copyEntries hf.ok.aligned hka hf.ne_kpgd.symm (Nat.le_refl _) hq hj,
    entry_zeroPage hf.ok.aligned hka hj, entry_zeroPage hf.ok.aligned hq hj, if_neg hf.ne_kpgd.symm]
  by_cases h : q = p <;> simp [h, hj]

include I hf in
theorem entry_create_old {l : Loc} {t i : Nat} (hn : Node m roots l t) (hi : i < 512) :
    entry (createUserPageTable m kpgd p) t i = entry m t i := by
  rw [entry_create I hf (I.aligned hn) hi, if_neg]
  rintro rfl
  exact hf.unused l hn

include I hf in
/-- The slots of a new root that may link user tables are empty. -/
theorem entry_create_new {i : Nat} (h2 : 2 ≤ i) (hi : i < 512) :
    entry (createUserPageTable m kpgd p) p i = 0 := by
  rw [entry_create I hf hf.ok.aligned hi, if_pos rfl, I.kernel.none i h2 hi]

include I hf in
theorem node_create_iff {l : Loc} {q : Nat} : Node (createUserPageTable m kpgd p) (p :: roots) l q ↔
      Node m roots l q ∨ (l = .root p ∧ q = p) := by
  constructor
  · intro h
    induction h with
    | root hr =>
      rcases List.mem_cons.mp hr with rfl | hr
      · exact .inr ⟨rfl, rfl⟩
      · exact .inl (.root hr)
    | l2 hr h2 h3 h4 h5 =>
      rcases List.mem_cons.mp hr with rfl | hr
      · rw [entry_create_new I hf h2 h3] at h5
        exact absurd h5.symm (tableDesc_ne_zero h4)
      · rw [entry_create_old I hf (.root hr) h3] at h5
        exact .inl (.l2 hr h2 h3 h4 h5)
    | l3 _ h2 h3 h4 ih =>
      rcases ih with ih | ⟨h, -⟩
      · rw [entry_create_old I hf ih h2] at h4
        exact .inl (.l3 ih h2 h3 h4)
      · cases h
  · rintro (h | ⟨rfl, rfl⟩)
    · exact h.transfer (fun _ hr => List.mem_cons_of_mem _ hr) fun l t i hn hs q _ he =>
        (entry_create_old I hf hn hs.lt).trans he
    · exact .root List.mem_cons_self

include I hf in
theorem Inv.create : Inv kpgd kl2 (createUserPageTable m kpgd p) (p :: roots) where
  kernel := by
    refine I.kernel.congr (fun i hi => ?_) (fun i hi => ?_)
    · rw [entry_create I hf I.kernel.kpgdOk.aligned hi, if_neg hf.ne_kpgd.symm]
    · rw [entry_create I hf I.kernel.kl2Ok.aligned hi, if_neg hf.ne_kl2.symm]
  rootOk := by
    intro r hr
    rcases List.mem_cons.mp hr with rfl | hr
    · exact hf.ok
    · exact I.rootOk r hr
  shared := by
    intro r hr i hi
    rw [entry_create I hf I.kernel.kpgdOk.aligned (by omega), if_neg hf.ne_kpgd.symm]
    rcases List.mem_cons.mp hr with rfl | hr
    · rw [entry_create I hf hf.ok.aligned (by omega), if_pos rfl]
    · rw [entry_create_old I hf (.root hr) (by omega), I.shared r hr i hi]
  slots := by
    intro l t i hn hs
    rcases (node_create_iff I hf).mp hn with h | ⟨rfl, rfl⟩
    · rw [entry_create_old I hf h hs.lt]
      exact I.slots l t i h hs
    · exact .inl (entry_create_new I hf hs.1 hs.2)
  inj := by
    intro l l' q h h'
    rcases (node_create_iff I hf).mp h with h | ⟨e, rfl⟩ <;>
      rcases (node_create_iff I hf).mp h' with h' | ⟨e', hq⟩
    · exact I.inj l l' q h h'
    · exact absurd (hq ▸ h) (hf.unused l)
    · exact absurd h' (hf.unused l')
    · rw [e, e']
  notKernel := by
    intro l q h
    rcases (node_create_iff I hf).mp h with h | ⟨-, rfl⟩
    · exact I.notKernel l q h
    · exact ⟨hf.ne_kpgd, hf.ne_kl2⟩

include I hf in
/-- Other unused pages are still unused. -/
theorem Fresh.create {q : Nat} (hq : Fresh kpgd kl2 m roots q) (hne : q ≠ p) :
    Fresh kpgd kl2 (createUserPageTable m kpgd p) (p :: roots) q := by
  refine ⟨hq.ok, hq.ne_kpgd, hq.ne_kl2, fun l hn => ?_⟩
  rcases (node_create_iff I hf).mp hn with h | ⟨-, h⟩
  · exact hq.unused l h
  · exact hne h

include I hf in
/-- An old root keeps its leaves; a new one has none. -/
theorem leaf_create {r i j k : Nat} (hr : r ∈ p :: roots) (h2 : 2 ≤ i) (hi : i < 512) (hj : j < 512)
    (hk : k < 512) :
    leaf (createUserPageTable m kpgd p) r i j k = if r = p then 0 else leaf m r i j k := by
  have hiff := @node_create_iff _ _ _ _ I _ hf
  split
  · rename_i h
    rw [leaf, h, if_pos (entry_create_new I hf h2 hi)]
  rename_i hrp
  have hr' : r ∈ roots := (List.mem_cons.mp hr).resolve_left hrp
  by_cases hex : ∃ q, Node m roots (.l3 r i j) q
  · obtain ⟨q, hq⟩ := hex
    rw [leaf_of_node (hiff.mpr (.inl hq)), leaf_of_node hq, entry_create_old I hf hq hk]
  rw [leaf_of_no_node I hr' h2 hi hj (fun q h => hex ⟨q, h⟩),
    leaf_of_no_node (I.create hf) hr h2 hi hj fun q h => ?_]
  rcases hiff.mp h with h | ⟨h, -⟩
  · exact hex ⟨q, h⟩
  · cases h

end

/-! ## The kernel's own tables -/

section
variable {kpgd kl2 : Nat} {m : Mem} (hk : PageOk kpgd) (hl : PageOk kl2) (hne : kpgd ≠ kl2)

theorem deviceBlock_lt : deviceBlock < 2 ^ 64 := by decide

theorem ramBlock_lt {i : Nat} (hi : i < 128) : ramBlock i < 2 ^ 64 := by
  refine Nat.or_lt_two_pow (Nat.or_lt_two_pow (Nat.or_lt_two_pow (Nat.or_lt_two_pow
    (Nat.or_lt_two_pow (Nat.or_lt_two_pow (Nat.or_lt_two_pow ?_ ?_) ?_) ?_) ?_) ?_) ?_) ?_
  all_goals first | decide | omega

include hk hl hne in
/-- `MMU::init` builds the kernel's tables. -/
theorem init_kernelTables : KernelTables kpgd kl2 (init m kpgd kl2).1 := by
  have hinit : (init m kpgd kl2).1 = setEntry (fillEntries (zeroPage (setEntry (zeroPage m kpgd)
      kpgd 0 deviceBlock) kl2) kl2 (fun i => if i < 128 then ramBlock i else 0) 512) kpgd 1
      (tableDesc kl2) := by
    rw [init, if_neg hl.ne_zero]; rfl
  have hf : ∀ i, (fun i => if i < 128 then ramBlock i else 0) i < 2 ^ 64 := by
    intro i
    dsimp only
    split
    · exact ramBlock_lt ‹_›
    · decide
  have hpgd : ∀ i, i < 512 → entry (init m kpgd kl2).1 kpgd i =
      if i = 1 then tableDesc kl2 else if i = 0 then deviceBlock else 0 := by
    intro i hi
    rw [hinit, entry_write hk.aligned (by decide) (tableDesc_lt hl) hk.aligned hi,
      entry_fillEntries hl.aligned hf (Nat.le_refl _) hk.aligned hi,
      entry_zeroPage hl.aligned hk.aligned hi,
      entry_write hk.aligned (by decide) deviceBlock_lt hk.aligned hi,
      entry_zeroPage hk.aligned hk.aligned hi]
    simp [hne]
  refine ⟨hk, hl, hne, hpgd 0 (by decide), hpgd 1 (by decide), fun i h2 hi => ?_, fun i hi => ?_⟩
  · rw [hpgd i hi, if_neg (by omega), if_neg (by omega)]
  · rw [hinit, entry_write hk.aligned (by decide) (tableDesc_lt hl) hl.aligned hi,
      if_neg (fun h => hne h.1.symm), entry_fillEntries hl.aligned hf (Nat.le_refl _) hl.aligned hi,
      if_pos ⟨rfl, hi⟩]

theorem Fresh.init {p : Nat} (hp : PageOk p) (h1 : p ≠ kpgd) (h2 : p ≠ kl2) :
    Fresh kpgd kl2 m [] p :=
  ⟨hp, h1, h2, fun _ hn => absurd hn.rootOf_mem List.not_mem_nil⟩

theorem Inv.init (h : KernelTables kpgd kl2 m) : Inv kpgd kl2 m [] where
  kernel := h
  rootOk := fun _ hr => absurd hr List.not_mem_nil
  shared := fun _ hr => absurd hr List.not_mem_nil
  slots := fun _ _ _ hn _ => absurd hn.rootOf_mem List.not_mem_nil
  inj := fun _ _ _ hn _ => absurd hn.rootOf_mem List.not_mem_nil
  notKernel := fun _ _ hn => absurd hn.rootOf_mem List.not_mem_nil

end

end HackersOs.L2.Mmu

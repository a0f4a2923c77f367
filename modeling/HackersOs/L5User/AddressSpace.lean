import HackersOs.L2Memory.Pages
import HackersOs.L2Memory.PageTables

/-!
# Address spaces over the page allocator

The functions of `mm/mmu.cpp` that make and fill a user page table, run
against the bitmap allocator of `mm/pages.cpp` (in `L2Memory.Mmu` the
allocator is only a list of answers).

`Tables` is what every table keeps whatever is mapped outside the RAM window:
each table has a level, slots link tables of the next level, slot 0 of a
top-level table is the device block and slot 1 the kernel's L2 table. Page
tables may share tables, as they do below slot 1.

`Grows` is what each operation does to memory: it writes tables and pages that
were free, and takes pages. A page that is taken and is no table (`Data`) keeps
its bytes (`Grows.bytes_data`); all later frame facts come from this one.
-/
namespace HackersOs.L5
open HackersOs.Core L2 L2.Mmu L2.Pages Function

variable {a flags pgd virt x : Nat} {m' : Mem}

variable {l' : Level} {m : Mem} {p q : Nat}

structure Machine where
  mem : Mem
  pages : PageState
  /-- ghost: the page last passed to `map_user_page` for a page table and a virtual page -/
  lastMapped : Nat → Nat → Option Nat

/-! ## The code -/

def Machine.allocPage (s : Machine) : Machine × Nat :=
  let r := Pages.allocPage s.pages s.mem
  ({ s with mem := r.2.1, pages := r.1 }, r.2.2)

def Machine.allocPages (s : Machine) (count : Nat) : Machine × Nat :=
  let r := Pages.allocPages s.pages s.mem count
  ({ s with mem := r.2.1, pages := r.1 }, r.2.2)

def Machine.freePage (s : Machine) (physAddr : Nat) : Machine :=
  { s with pages := Pages.freePage s.pages physAddr }

/-- mirrors src/mm/mmu.cpp:23-30; a null table is 0. -/
def Machine.getOrCreateTable (s : Machine) (table index : Nat) : Machine × Nat :=
  if entry s.mem table index &&& pteValid = 0 then
    let r := s.allocPage
    if r.2 = 0 then (r.1, 0)
    else
      let m := setEntry r.1.mem table index (r.2 ||| pteValid ||| pteTable)
      ({ r.1 with mem := m }, entry m table index &&& addrMask)
  else (s, entry s.mem table index &&& addrMask)

/-- mirrors src/mm/mmu.cpp:32-44 -/
def Machine.mapPageInTable (s : Machine) (pgd virt phys flags : Nat) : Machine :=
  let r2 := s.getOrCreateTable pgd (l1Idx virt)
  if r2.2 = 0 then r2.1
  else
    let r3 := r2.1.getOrCreateTable r2.2 (l2Idx virt)
    if r3.2 = 0 then r3.1
    else { r3.1 with mem := setEntry r3.1.mem r3.2 (l3Idx virt) ((phys &&& addrMask) ||| flags) }

/-- mirrors src/mm/mmu.cpp:148-151 -/
def Machine.mapUserPage (s : Machine) (pgd virt phys flags : Nat) : Machine :=
  { s.mapPageInTable pgd virt phys flags with
    lastMapped := fun t v => if t = pgd ∧ v = virt / 4096 then some phys else s.lastMapped t v }

/-- mirrors src/mm/mmu.cpp:133-146 -/
def Machine.createUserPageTable (s : Machine) (kernelPgd : Nat) : Machine × Nat :=
  let r := s.allocPage
  if r.2 = 0 then (r.1, 0)
  else
    ({ r.1 with
        mem := copyEntries r.1.mem r.2 kernelPgd 512
        lastMapped := fun t v => if t = r.2 then none else s.lastMapped t v }, r.2)

/-! ## Page frames -/

/-- The address of page `i` of the managed RAM. -/
def frame (i : Nat) : Nat := memoryBase + i * pageSize

def Machine.Free (s : Machine) (i : Nat) : Prop :=
  i < s.pages.totalPages ∧ bitmapTest s.pages.bitmap i = false

def Machine.Taken (s : Machine) (p : Nat) : Prop :=
  ∃ i, i < s.pages.totalPages ∧ p = frame i ∧ bitmapTest s.pages.bitmap i = true

theorem frame_inj {i j : Nat} (h : frame i = frame j) : i = j := by
  simp only [frame, memoryBase, pageSize] at h; omega

theorem frame_aligned (i : Nat) : frame i % 4096 = 0 := by
  simp only [frame, memoryBase, pageSize]; omega

theorem frame_ok {i : Nat} (h : i < maxPages) : PageOk (frame i) := by
  refine ⟨?_, frame_aligned i, ?_⟩ <;> simp only [frame, memoryBase, pageSize, maxPages] at * <;>
    omega

theorem frame_add (i k : Nat) : frame (i + k) = frame i + k * 4096 := by
  simp only [frame, pageSize]; omega

theorem frame_ne_zero (i : Nat) : frame i ≠ 0 := by
  simp only [frame, memoryBase, pageSize]; omega

/-- Two aligned pages with a common byte are one page. -/
theorem inPage_unique (hp : p % 4096 = 0) (hq : q % 4096 = 0) (h : InPage p a) (h' : InPage q a) :
    p = q := by
  unfold InPage at h h'; omega

theorem inPage_add (h : x < 4096) : InPage p (p + x) := by
  unfold InPage; omega

/-! ## Tables -/

inductive Level where
  | l1
  | l2
  | l3
  deriving DecidableEq, Repr

section
variable (kpgd kl2 : Nat)

/-- Below slot 1 the first 128 descriptors of the kernel's L2 table are 2 MB
blocks of RAM; `get_or_create_table` would take such a block for a table. -/
def InWindow (virt : Nat) : Prop := l1Idx virt = 1 ∧ l2Idx virt < 128

instance (virt : Nat) : Decidable (InWindow virt) := by unfold InWindow; infer_instance

structure Tables (m : Mem) (lvl : Nat → Option Level) : Prop where
  ok : ∀ t l, lvl t = some l → PageOk t
  root : lvl kpgd = some .l1
  window : lvl kl2 = some .l2
  device : ∀ t, lvl t = some .l1 → entry m t 0 = deviceBlock
  ram : ∀ t, lvl t = some .l1 → entry m t 1 = tableDesc kl2
  slots1 : ∀ t, lvl t = some .l1 → ∀ i, 2 ≤ i → i < 512 →
    entry m t i = 0 ∨ ∃ p, lvl p = some .l2 ∧ p ≠ kl2 ∧ entry m t i = tableDesc p
  slots2 : ∀ t, lvl t = some .l2 → ∀ j, j < 512 → (t = kl2 → 128 ≤ j) →
    entry m t j = 0 ∨ ∃ p, lvl p = some .l3 ∧ entry m t j = tableDesc p

/-- The tables, all of them marked as taken. -/
structure Ok (s : Machine) (lvl : Nat → Option Level) : Prop where
  tables : Tables kpgd kl2 s.mem lvl
  small : s.pages.totalPages ≤ maxPages
  marked : ∀ i, i < s.pages.totalPages → lvl (frame i) ≠ none →
    bitmapTest s.pages.bitmap i = true

end

/-- `s'` comes from `s` by writes to tables and to pages that were free. -/
structure Grows (s s' : Machine) (lvl lvl' : Nat → Option Level) : Prop where
  keep : ∀ t l, lvl t = some l → lvl' t = some l
  fresh : ∀ t, lvl t = none → lvl' t ≠ none → ∃ i, s.Free i ∧ t = frame i
  bytes : ∀ a, s'.mem a ≠ s.mem a →
    (∃ t, lvl t ≠ none ∧ InPage t a) ∨ ∃ i, s.Free i ∧ InPage (frame i) a
  bits : ∀ i, bitmapTest s.pages.bitmap i = true → bitmapTest s'.pages.bitmap i = true
  total : s'.pages.totalPages = s.pages.totalPages

@[simp] theorem allocPage_lastMapped (s : Machine) : s.allocPage.1.lastMapped = s.lastMapped := rfl

@[simp] theorem mapUserPage_lastMapped (s : Machine) (pgd virt phys flags t v : Nat) :
    (s.mapUserPage pgd virt phys flags).lastMapped t v =
      if t = pgd ∧ v = virt / 4096 then some phys else s.lastMapped t v := rfl

theorem createUserPageTable_lastMapped {s : Machine} {kpgd : Nat}
    (h : (s.createUserPageTable kpgd).2 ≠ 0) (v : Nat) :
    (s.createUserPageTable kpgd).1.lastMapped (s.createUserPageTable kpgd).2 v = none := by
  unfold Machine.createUserPageTable at h ⊢
  by_cases h0 : s.allocPage.2 = 0
  · simp [h0] at h
  · simp [h0]

/-- A page in use that is no table. -/
structure Data (s : Machine) (lvl : Nat → Option Level) (p : Nat) : Prop where
  taken : s.Taken p
  notTable : lvl p = none

section
variable {kpgd kl2 : Nat} {s s' s'' : Machine} {lvl lvl' lvl'' : Nat → Option Level}

theorem Grows.refl : Grows s s lvl lvl :=
  ⟨fun _ _ h => h, fun _ h h' => absurd h h', fun _ h => absurd rfl h, fun _ h => h, rfl⟩

theorem Grows.free_of (h : Grows s s' lvl lvl') {i : Nat} (hf : s'.Free i) : s.Free i := by
  refine ⟨h.total ▸ hf.1, ?_⟩
  by_contra hb
  have := h.bits i (by simpa using hb)
  rw [hf.2] at this
  cases this

theorem Grows.trans (h : Grows s s' lvl lvl') (h' : Grows s' s'' lvl' lvl'') :
    Grows s s'' lvl lvl'' where
  keep := fun t l ht => h'.keep t l (h.keep t l ht)
  fresh := by
    intro t ht ht'
    by_cases hm : lvl' t = none
    · obtain ⟨i, hi, e⟩ := h'.fresh t hm ht'
      exact ⟨i, h.free_of hi, e⟩
    · exact h.fresh t ht hm
  bytes := by
    intro a ha
    by_cases hc : s''.mem a = s'.mem a
    · exact h.bytes a (hc ▸ ha)
    rcases h'.bytes a hc with ⟨t, ht, hp⟩ | ⟨i, hi, hp⟩
    · by_cases hold : lvl t = none
      · obtain ⟨i, hi, rfl⟩ := h.fresh t hold ht
        exact .inr ⟨i, hi, hp⟩
      · exact .inl ⟨t, hold, hp⟩
    · exact .inr ⟨i, h.free_of hi, hp⟩
  bits := fun i hi => h'.bits i (h.bits i hi)
  total := h'.total.trans h.total

theorem Data.aligned (h : Data s lvl p) : p % 4096 = 0 := by
  obtain ⟨i, -, rfl, -⟩ := h.taken
  exact frame_aligned i

theorem Data.not_free {i : Nat} (h : Data s lvl p) (hf : s.Free i) : p ≠ frame i := by
  obtain ⟨j, -, rfl, hj⟩ := h.taken
  intro e
  rw [frame_inj e, hf.2] at hj
  cases hj

theorem Grows.data (h : Grows s s' lvl lvl') (hd : Data s lvl p) : Data s' lvl' p := by
  refine ⟨?_, ?_⟩
  · obtain ⟨i, hi, rfl, hb⟩ := hd.taken
    exact ⟨i, h.total ▸ hi, rfl, h.bits i hb⟩
  · by_contra hl
    obtain ⟨i, hi, e⟩ := h.fresh p hd.notTable hl
    exact hd.not_free hi e

/-- Data pages keep their bytes. -/
theorem Grows.bytes_data (h : Grows s s' lvl lvl') (K : Ok kpgd kl2 s lvl) (hd : Data s lvl p)
    (hx : x < 4096) : s'.mem (p + x) = s.mem (p + x) := by
  by_contra hne
  rcases h.bytes _ hne with ⟨t, ht, hp⟩ | ⟨i, hi, hp⟩
  · obtain ⟨l, hl⟩ := Option.ne_none_iff_exists'.mp ht
    have := inPage_unique (K.tables.ok t l hl).aligned hd.aligned hp (inPage_add hx)
    exact ht (this ▸ hd.notTable)
  · exact hd.not_free hi (inPage_unique hd.aligned (frame_aligned i) (inPage_add hx) hp)

/-! ## The allocator -/

theorem bitmapTest_take_one (p : PageState) (i j : Nat) :
    bitmapTest (take p i 1).bitmap j = (bitmapTest p.bitmap j || decide (j = i)) := by
  rw [bitmapTest_take]
  congr 1
  rw [decide_eq_decide]
  omega

theorem allocPage_cases (s : Machine) : s.allocPage = (s, 0) ∨ ∃ i, s.Free i ∧ s.allocPage =
      ({ s with mem := zeroPage s.mem (frame i), pages := take s.pages i 1 }, frame i) := by
  unfold Machine.allocPage Pages.allocPage
  cases h : findFree s.pages.bitmap 0 s.pages.totalPages with
  | none => exact .inl rfl
  | some i =>
    obtain ⟨-, h2, h3, -⟩ := findFree_spec h
    exact .inr ⟨i, ⟨by omega, h3⟩, rfl⟩

theorem allocPages_cases (s : Machine) (count : Nat) : s.allocPages count = (s, 0) ∨
    ∃ i, i + count ≤ s.pages.totalPages ∧ (∀ k, k < count → s.Free (i + k)) ∧
      s.allocPages count = ({ s with
        mem := fillBytes s.mem (frame i) (count * pageSize) 0, pages := take s.pages i count },
        frame i) := by
  unfold Machine.allocPages Pages.allocPages
  cases h : findRun s.pages.bitmap count 0 0 0 s.pages.totalPages with
  | none => exact .inl rfl
  | some i =>
    obtain ⟨h1, -, h3⟩ :=
      findRun_spec (fun h0 => absurd h0 (Nat.lt_irrefl 0)) (fun k _ _ => by omega) h
    exact .inr ⟨i, by omega, fun k hk => ⟨by omega, h3 _ (by omega) (by omega)⟩, rfl⟩

/-- Tables whose links all read the same stay tables. -/
theorem Tables.congr (T : Tables kpgd kl2 m lvl)
    (h : ∀ t, lvl t = some .l1 ∨ lvl t = some .l2 → ∀ i, i < 512 → entry m' t i = entry m t i) :
    Tables kpgd kl2 m' lvl where
  ok := T.ok
  root := T.root
  window := T.window
  device := fun t ht => (h t (.inl ht) 0 (by decide)).trans (T.device t ht)
  ram := fun t ht => (h t (.inl ht) 1 (by decide)).trans (T.ram t ht)
  slots1 := fun t ht i h2 hi => by rw [h t (.inl ht) i hi]; exact T.slots1 t ht i h2 hi
  slots2 := fun t ht j hj hk => by rw [h t (.inr ht) j hj]; exact T.slots2 t ht j hj hk

theorem Ok.table_not_free (K : Ok kpgd kl2 s lvl) {i : Nat} (hf : s.Free i) :
    lvl (frame i) = none := by
  by_contra h
  have := K.marked i hf.1 h
  rw [hf.2] at this
  cases this

/-- Writes that stay in free pages keep the tables. -/
theorem Ok.tables_of_free (K : Ok kpgd kl2 s lvl)
    (h : ∀ a, m' a ≠ s.mem a → ∃ i, s.Free i ∧ InPage (frame i) a) : Tables kpgd kl2 m' lvl := by
  refine K.tables.congr fun t ht j hj => read64_congr fun a h1 h2 => ?_
  by_contra hne
  obtain ⟨i, hi, hp⟩ := h a hne
  have hta : InPage t a := by unfold InPage; omega
  have hta' : t % 4096 = 0 := by
    rcases ht with ht | ht <;> exact (K.tables.ok t _ ht).aligned
  rw [inPage_unique hta' (frame_aligned i) hta hp, K.table_not_free hi] at ht
  rcases ht with ht | ht <;> cases ht

/-- An allocation: free pages are written and taken, nothing else happens. -/
theorem Ok.of_alloc (K : Ok kpgd kl2 s lvl)
    (hb : ∀ a, s'.mem a ≠ s.mem a → ∃ i, s.Free i ∧ InPage (frame i) a)
    (hbits : ∀ i, bitmapTest s.pages.bitmap i = true → bitmapTest s'.pages.bitmap i = true)
    (ht : s'.pages.totalPages = s.pages.totalPages) : Ok kpgd kl2 s' lvl ∧ Grows s s' lvl lvl := by
  refine ⟨⟨K.tables_of_free hb, ht ▸ K.small, fun i hi hl => hbits i (K.marked i (ht ▸ hi) hl)⟩,
    fun _ _ h => h, fun _ h h' => absurd h h', fun a ha => .inr (hb a ha), hbits, ht⟩

theorem Ok.allocPage (K : Ok kpgd kl2 s lvl) :
    Ok kpgd kl2 s.allocPage.1 lvl ∧ Grows s s.allocPage.1 lvl lvl := by
  rcases allocPage_cases s with h | ⟨i, hi, h⟩
  · rw [h]; exact ⟨K, .refl⟩
  · rw [h]
    refine K.of_alloc (fun a ha => ⟨i, hi, ?_⟩) (fun j hj => ?_) (take_totalPages _ _ _)
    · by_contra hp; exact ha (zeroPage_outside hp)
    · rw [bitmapTest_take_one, hj, Bool.true_or]

/-- What `alloc_page` answered is a data page, filled with zeros. -/
theorem Ok.allocPage_data (K : Ok kpgd kl2 s lvl) (h : s.allocPage.2 ≠ 0) :
    Data s.allocPage.1 lvl s.allocPage.2 ∧
      (∀ x, x < 4096 → s.allocPage.1.mem (s.allocPage.2 + x) = 0) ∧
      ∃ i, s.Free i ∧ s.allocPage.2 = frame i := by
  rcases allocPage_cases s with he | ⟨i, hi, he⟩
  · rw [he] at h; exact absurd rfl h
  rw [he]
  refine ⟨⟨⟨i, ?_, rfl, ?_⟩, K.table_not_free hi⟩, fun x hx => ?_, i, hi, rfl⟩
  · rw [take_totalPages]; exact hi.1
  · rw [bitmapTest_take_one]; simp
  · exact fillBytes_inside (by omega) (by omega)

theorem Ok.allocPages (K : Ok kpgd kl2 s lvl) (count : Nat) :
    Ok kpgd kl2 (s.allocPages count).1 lvl ∧ Grows s (s.allocPages count).1 lvl lvl := by
  rcases allocPages_cases s count with h | ⟨i, -, hi, h⟩
  · rw [h]; exact ⟨K, .refl⟩
  rw [h]
  refine K.of_alloc (fun a ha => ?_) (fun j hj => ?_) (take_totalPages _ _ _)
  · -- the changed byte lies in one of the `count` pages
    have hin : frame i ≤ a ∧ a < frame i + count * pageSize := by
      by_contra hp
      exact ha (fillBytes_outside (by omega))
    obtain ⟨h1, h2⟩ := hin
    have hk : (a - frame i) / 4096 < count := by
      rw [Nat.div_lt_iff_lt_mul (by decide)]
      simp only [pageSize] at h2
      omega
    refine ⟨i + (a - frame i) / 4096, hi _ hk, ?_⟩
    rw [frame_add]
    unfold InPage
    omega
  · rw [bitmapTest_take, hj, Bool.true_or]

/-- The pages `alloc_pages` answered are data pages, filled with zeros. -/
theorem Ok.allocPages_data (K : Ok kpgd kl2 s lvl) {count : Nat} (h : (s.allocPages count).2 ≠ 0)
    {k : Nat} (hk : k < count) :
    Data (s.allocPages count).1 lvl ((s.allocPages count).2 + k * 4096) ∧
      (∀ x, x < 4096 → (s.allocPages count).1.mem ((s.allocPages count).2 + k * 4096 + x) = 0) ∧
      ∃ i, s.Free i ∧ (s.allocPages count).2 + k * 4096 = frame i := by
  rcases allocPages_cases s count with he | ⟨i, ht, hi, he⟩
  · rw [he] at h; exact absurd rfl h
  rw [he]
  have hfr : frame i + k * 4096 = frame (i + k) := (frame_add i k).symm
  refine ⟨⟨⟨i + k, ?_, hfr, ?_⟩, ?_⟩, fun x hx => ?_, i + k, hi k hk, hfr⟩
  · rw [take_totalPages]; omega
  · rw [bitmapTest_take]
    simp [hk]
  · rw [hfr]; exact K.table_not_free (hi k hk)
  have : k * 4096 + 4096 ≤ count * 4096 := by
    have := Nat.mul_le_mul_right 4096 (show k + 1 ≤ count from hk)
    omega
  refine fillBytes_inside (by omega) ?_
  simp only [pageSize]
  omega

/-! ## Writing and freeing data pages -/

/-- Writes inside one data page keep the tables and all other data pages. -/
theorem Ok.write_data (K : Ok kpgd kl2 s lvl) (hd : Data s lvl p)
    (hm : ∀ a, m a ≠ s.mem a → InPage p a) : Ok kpgd kl2 { s with mem := m } lvl ∧
      ∀ q x, Data s lvl q → q ≠ p → x < 4096 → m (q + x) = s.mem (q + x) := by
  refine ⟨⟨K.tables.congr fun t ht i hi => read64_congr fun a h1 h2 => ?_, K.small, K.marked⟩,
    fun q x hq hne hx => ?_⟩
  · by_contra hne
    have hta : t % 4096 = 0 := by
      rcases ht with ht | ht <;> exact (K.tables.ok t _ ht).aligned
    have hin : InPage t a := by unfold InPage; omega
    rw [inPage_unique hta hd.aligned hin (hm a hne), hd.notTable] at ht
    rcases ht with ht | ht <;> cases ht
  · by_contra hc
    exact hne (inPage_unique hq.aligned hd.aligned (inPage_add hx) (hm _ hc))

/-- `free_page` on a page of RAM leaves its bit clear. -/
theorem freePage_frame {i : Nat} (hi : i < s.pages.totalPages) :
    (s.freePage (frame i)).mem = s.mem ∧
    (s.freePage (frame i)).pages.totalPages = s.pages.totalPages ∧
    (s.freePage (frame i)).lastMapped = s.lastMapped ∧
    ∀ k, bitmapTest (s.freePage (frame i)).pages.bitmap k =
      (bitmapTest s.pages.bitmap k && !decide (k = i)) := by
  have hge : ¬ frame i < memoryBase := by simp only [frame]; omega
  have hdiv : (frame i - memoryBase) / pageSize = i := by
    simp only [frame, pageSize]; omega
  unfold Machine.freePage Pages.freePage
  rw [if_neg hge, hdiv]
  by_cases hb : bitmapTest s.pages.bitmap i = true
  · rw [if_pos ⟨hi, hb⟩]
    exact ⟨rfl, rfl, rfl, fun k => bitmapTest_clear _ _ _⟩
  rw [if_neg fun h => hb h.2]
  refine ⟨rfl, rfl, rfl, fun k => ?_⟩
  by_cases hk : k = i
  · subst hk
    rw [Bool.eq_false_iff.mpr hb, Bool.false_and]
  · simp [hk]

/-! ## Linking and filling tables -/

/-- The level of the tables a table links. -/
def Level.next : Level → Level
  | .l1 => .l2
  | .l2 => .l3
  | .l3 => .l3

/-- The machine after a free page `j` was linked into slot `i` of the table `t`. -/
def Machine.link (s : Machine) (t i j : Nat) : Machine :=
  { s with mem := Mmu.link s.mem t i (frame j), pages := take s.pages j 1 }

variable {t i j : Nat} {l : Level}

theorem level_keep {x : Option Level} (hp : lvl p = none) (hq : lvl q = some l') :
    Function.update lvl p x q = some l' := by
  rw [update_of_ne, hq]
  rintro rfl
  rw [hp] at hq
  cases hq

/-- A table after `p` became one is `p` or an old one. -/
theorem level_cases {l'' : Level} (hq : Function.update lvl p (some l'') q = some l') :
    (q = p ∧ l' = l'') ∨ lvl q = some l' := by
  by_cases hqp : q = p
  · rw [hqp, update_self] at hq
    exact .inl ⟨hqp, (Option.some.inj hq).symm⟩
  · rw [update_of_ne hqp] at hq
    exact .inr hq

theorem Ok.free_ne (K : Ok kpgd kl2 s lvl) (hj : s.Free j) (hq : lvl q ≠ none) : q ≠ frame j := by
  rintro rfl
  exact hq (K.table_not_free hj)

theorem Tables.link (K : Ok kpgd kl2 s lvl) (ht : lvl t = some l) (hi : i < 512)
    (h1 : l = .l1 → 2 ≤ i) (hj : s.Free j) :
    Tables kpgd kl2 (s.link t i j).mem (Function.update lvl (frame j) (some l.next)) := by
  have T := K.tables
  have hnone := K.table_not_free hj
  have hp : PageOk (frame j) := frame_ok (Nat.lt_of_lt_of_le hj.1 K.small)
  have hother : ∀ {q l'}, lvl q = some l' →
      Function.update lvl (frame j) (some l.next) q = some l' := level_keep hnone
  have hlk : kl2 ≠ frame j := K.free_ne hj (by simp [T.window])
  have hread : ∀ {q l'}, lvl q = some l' → ∀ {k}, k < 512 →
      entry (s.link t i j).mem q k =
        if q = t ∧ k = i then tableDesc (frame j) else entry s.mem q k := by
    intro q l' hq k hk
    have hqp : q ≠ frame j := K.free_ne hj (by simp [hq])
    show entry (Mmu.link s.mem t i (frame j)) q k = _
    rw [entry_link (T.ok t l ht).aligned hi hp (T.ok q l' hq).aligned hk]
    simp [hqp]
  have hnew : ∀ {k}, k < 512 → entry (s.link t i j).mem (frame j) k = 0 := by
    intro k hk
    have hpt : frame j ≠ t := (K.free_ne hj (by simp [ht])).symm
    show entry (Mmu.link s.mem t i (frame j)) (frame j) k = _
    rw [entry_link (T.ok t l ht).aligned hi hp hp.aligned hk]
    simp [hpt]
  refine ⟨fun q l' hq => ?_, hother T.root, hother T.window, fun q hq => ?_, fun q hq => ?_,
    fun q hq k h2 hk => ?_, fun q hq k hk hw => ?_⟩
  · rcases level_cases hq with ⟨rfl, -⟩ | hq
    · exact hp
    · exact T.ok q l' hq
  · rcases level_cases hq with ⟨-, e⟩ | hq
    · cases l <;> cases e
    · rw [hread hq (by decide), if_neg, T.device q hq]
      rintro ⟨rfl, rfl⟩
      rw [ht] at hq
      exact absurd (h1 (Option.some.inj hq)) (by decide)
  · rcases level_cases hq with ⟨-, e⟩ | hq
    · cases l <;> cases e
    · rw [hread hq (by decide), if_neg, T.ram q hq]
      rintro ⟨rfl, rfl⟩
      rw [ht] at hq
      exact absurd (h1 (Option.some.inj hq)) (by decide)
  · rcases level_cases hq with ⟨-, e⟩ | hq
    · cases l <;> cases e
    rw [hread hq hk]
    split
    · rename_i h
      rw [h.1, ht] at hq
      cases hq
      exact .inr ⟨frame j, update_self .., hlk.symm, rfl⟩
    · rcases T.slots1 q hq k h2 hk with h0 | ⟨p, hpl, hpk, he⟩
      · exact .inl h0
      · exact .inr ⟨p, hother hpl, hpk, he⟩
  · rcases level_cases hq with ⟨rfl, -⟩ | hq
    · exact .inl (hnew hk)
    rw [hread hq hk]
    split
    · rename_i h
      rw [h.1, ht] at hq
      cases hq
      exact .inr ⟨frame j, update_self .., rfl⟩
    · rcases T.slots2 q hq k hk hw with h0 | ⟨p, hpl, he⟩
      · exact .inl h0
      · exact .inr ⟨p, hother hpl, he⟩

/-- A free page becomes a table, and nothing but tables and that page is written. -/
theorem Ok.adopt (K : Ok kpgd kl2 s lvl) (hj : s.Free j)
    (hT : Tables kpgd kl2 m (Function.update lvl (frame j) (some l')))
    (hb : ∀ a, m a ≠ s.mem a → (∃ q, lvl q ≠ none ∧ InPage q a) ∨ InPage (frame j) a) :
    Ok kpgd kl2 { s with mem := m, pages := take s.pages j 1 }
        (Function.update lvl (frame j) (some l')) ∧
      Grows s { s with mem := m, pages := take s.pages j 1 } lvl
        (Function.update lvl (frame j) (some l')) := by
  have htot : (take s.pages j 1).totalPages = s.pages.totalPages := take_totalPages _ _ _
  refine ⟨⟨hT, htot ▸ K.small, fun k hk hlv => ?_⟩,
    fun q l hq => level_keep (K.table_not_free hj) hq, fun q hq hq' => ⟨j, hj, ?_⟩,
    fun a ha => (hb a ha).imp_right fun h => ⟨j, hj, h⟩, fun k hk => ?_, htot⟩
  · rw [bitmapTest_take_one]
    by_cases e : k = j
    · simp [e]
    · rw [update_of_ne (fun h => e (frame_inj h))] at hlv
      rw [K.marked k (htot ▸ hk) hlv, Bool.true_or]
  · by_contra e
    rw [update_of_ne e] at hq'
    exact hq' hq
  · rw [bitmapTest_take_one, hk, Bool.true_or]

theorem Ok.link (K : Ok kpgd kl2 s lvl) (ht : lvl t = some l) (hi : i < 512)
    (h1 : l = .l1 → 2 ≤ i) (hj : s.Free j) :
    Ok kpgd kl2 (s.link t i j) (Function.update lvl (frame j) (some l.next)) ∧
      Grows s (s.link t i j) lvl (Function.update lvl (frame j) (some l.next)) := by
  refine K.adopt hj (Tables.link K ht hi h1 hj) fun a ha => ?_
  by_cases hta : InPage t a
  · exact .inl ⟨t, by simp [ht], hta⟩
  · refine .inr ?_
    by_contra hp
    exact ha (link_outside hi hta hp)

theorem getOrCreateTable_link (hz : entry s.mem t i &&& 1 = 0) (ht : t % 4096 = 0) (hi : i < 512)
    (hp : PageOk (frame j)) (he : s.allocPage =
      ({ s with mem := zeroPage s.mem (frame j), pages := take s.pages j 1 }, frame j)) :
    s.getOrCreateTable t i = (s.link t i j, frame j) := by
  have hw : entry (setEntry (zeroPage s.mem (frame j)) t i (tableDesc (frame j))) t i =
      tableDesc (frame j) := by
    rw [entry_write ht hi (tableDesc_lt hp) ht hi, if_pos ⟨rfl, rfl⟩]
  unfold Machine.getOrCreateTable
  rw [if_pos (show entry s.mem t i &&& pteValid = 0 from hz), he]
  simp only [frame_ne_zero, if_false]
  show (_, entry (setEntry _ t i (tableDesc _)) t i &&& addrMask) = _
  rw [hw, tableDesc_addr hp]
  rfl

/-- One level of the descent through a slot that is empty or links a table:
the call fails for want of a page, or the answer is a table of the next level. -/
theorem Ok.getOrCreateTable (K : Ok kpgd kl2 s lvl) (ht : lvl t = some l) (hi : i < 512)
    (h1 : l = .l1 → 2 ≤ i) (hslot : entry s.mem t i = 0 ∨
      ∃ p, lvl p = some l.next ∧ p ≠ kl2 ∧ entry s.mem t i = tableDesc p) :
    ∃ lvl', Ok kpgd kl2 (s.getOrCreateTable t i).1 lvl' ∧
      Grows s (s.getOrCreateTable t i).1 lvl lvl' ∧ ((s.getOrCreateTable t i).2 = 0 ∨
        (lvl' (s.getOrCreateTable t i).2 = some l.next ∧ (s.getOrCreateTable t i).2 ≠ kl2)) := by
  rcases hslot with he | ⟨p, hp, hpk, he⟩
  · have hz : entry s.mem t i &&& 1 = 0 := by rw [he]; rfl
    rcases allocPage_cases s with ha | ⟨j, hj, ha⟩
    · have : s.getOrCreateTable t i = (s, 0) := by
        simp [Machine.getOrCreateTable, pteValid, he, ha]
      rw [this]
      exact ⟨lvl, K, .refl, .inl rfl⟩
    · have hok : PageOk (frame j) := frame_ok (Nat.lt_of_lt_of_le hj.1 K.small)
      rw [getOrCreateTable_link hz (K.tables.ok t l ht).aligned hi hok ha]
      obtain ⟨K', G⟩ := K.link ht hi h1 hj
      refine ⟨_, K', G,
        .inr ⟨update_self .., (K.free_ne hj (by simp [K.tables.window])).symm⟩⟩
  · have hok := K.tables.ok p _ hp
    have : s.getOrCreateTable t i = (s, p) := by
      unfold Machine.getOrCreateTable
      rw [if_neg, he, tableDesc_addr hok]
      show ¬ entry s.mem t i &&& 1 = 0
      rw [he, tableDesc_valid hok]
      decide
    rw [this]
    exact ⟨lvl, K, .refl, .inr ⟨hp, hpk⟩⟩

/-- Writing a level-3 table. -/
theorem Ok.install (K : Ok kpgd kl2 s lvl) (ht : lvl t = some .l3) (hi : i < 512) {v : Nat}
    (hv : v < 2 ^ 64) : Ok kpgd kl2 { s with mem := setEntry s.mem t i v } lvl ∧
      Grows s { s with mem := setEntry s.mem t i v } lvl lvl := by
  have hta := (K.tables.ok t _ ht).aligned
  refine ⟨⟨K.tables.congr fun q hq k hk => ?_, K.small, K.marked⟩, fun _ _ h => h,
    fun _ h h' => absurd h h', fun a ha => .inl ⟨t, by simp [ht], ?_⟩, fun _ h => h, rfl⟩
  · have hqa : q % 4096 = 0 := by
      rcases hq with hq | hq <;> exact (K.tables.ok q _ hq).aligned
    rw [entry_write hta hi hv hqa hk, if_neg]
    rintro ⟨rfl, -⟩
    rw [ht] at hq
    rcases hq with hq | hq <;> cases hq
  · by_contra hp
    exact ha (setEntry_outside hi hp)

/-- The device block at address 0 is taken for a null table. -/
theorem Tables.getOrCreateTable_device (T : Tables kpgd kl2 s.mem lvl) (ht : lvl t = some .l1) :
    s.getOrCreateTable t 0 = (s, 0) := by
  unfold Machine.getOrCreateTable
  rw [T.device t ht]
  rfl

/-- The first step of the descent: no table below slot 0, the kernel's L2 table
below slot 1, a table of this address space elsewhere. -/
theorem Ok.descend (K : Ok kpgd kl2 s lvl) (hpgd : lvl t = some .l1) (virt : Nat) :
    ∃ lvl', Ok kpgd kl2 (s.getOrCreateTable t (l1Idx virt)).1 lvl' ∧
      Grows s (s.getOrCreateTable t (l1Idx virt)).1 lvl lvl' ∧
      ((s.getOrCreateTable t (l1Idx virt)).2 = 0 ∨
        (lvl' (s.getOrCreateTable t (l1Idx virt)).2 = some .l2 ∧
          ((s.getOrCreateTable t (l1Idx virt)).2 = kl2 → l1Idx virt = 1))) := by
  have hlt := l1Idx_lt virt
  generalize l1Idx virt = i at hlt
  rcases (by omega : i = 0 ∨ i = 1 ∨ 2 ≤ i) with rfl | rfl | h2
  · rw [K.tables.getOrCreateTable_device hpgd]
    exact ⟨lvl, K, .refl, .inl rfl⟩
  · have hk := K.tables.ok _ _ K.tables.window
    have : s.getOrCreateTable t 1 = (s, kl2) := by
      unfold Machine.getOrCreateTable
      rw [K.tables.ram t hpgd, tableDesc_addr hk, if_neg]
      show ¬ tableDesc kl2 &&& 1 = 0
      rw [tableDesc_valid hk]
      decide
    rw [this]
    exact ⟨lvl, K, .refl, .inr ⟨K.tables.window, fun _ => rfl⟩⟩
  · obtain ⟨lvl', K', G, h⟩ :=
      K.getOrCreateTable hpgd hlt (fun _ => h2) (K.tables.slots1 t hpgd i h2 hlt)
    refine ⟨lvl', K', G, h.imp_right fun ⟨hl, hne⟩ => ⟨hl, fun e => absurd e hne⟩⟩

/-- Outside the RAM window the call writes only tables and pages it takes. -/
theorem Ok.mapPageInTable (K : Ok kpgd kl2 s lvl) (hpgd : lvl pgd = some .l1) (hw : ¬ InWindow virt)
    (hfl : flags < 2 ^ 64) (phys : Nat) :
    ∃ lvl', Ok kpgd kl2 (s.mapPageInTable pgd virt phys flags) lvl' ∧
      Grows s (s.mapPageInTable pgd virt phys flags) lvl lvl' := by
  obtain ⟨lvl2, K2, G2, h2⟩ := K.descend hpgd virt
  unfold Machine.mapPageInTable
  generalize s.getOrCreateTable pgd (l1Idx virt) = r2 at K2 G2 h2
  by_cases h20 : r2.2 = 0
  · rw [if_pos h20]
    exact ⟨lvl2, K2, G2⟩
  obtain ⟨hl2, hk⟩ := h2.resolve_left h20
  have hslot : entry r2.1.mem r2.2 (l2Idx virt) = 0 ∨ ∃ p, lvl2 p = some .l3 ∧ p ≠ kl2 ∧
      entry r2.1.mem r2.2 (l2Idx virt) = tableDesc p := by
    refine (K2.tables.slots2 _ hl2 _ (l2Idx_lt virt) fun e => ?_).imp_right ?_
    · by_contra hlt
      exact hw ⟨hk e, by omega⟩
    · rintro ⟨p, hp, he⟩
      refine ⟨p, hp, fun e => ?_, he⟩
      rw [e, K2.tables.window] at hp
      cases hp
  obtain ⟨lvl3, K3, G3, h3⟩ :=
    K2.getOrCreateTable hl2 (l2Idx_lt virt) (fun e => by cases e) hslot
  rw [if_neg h20]
  generalize r2.1.getOrCreateTable r2.2 (l2Idx virt) = r3 at K3 G3 h3
  by_cases h30 : r3.2 = 0
  · rw [if_pos h30]
    exact ⟨lvl3, K3, G2.trans G3⟩
  · obtain ⟨hl3, -⟩ := h3.resolve_left h30
    obtain ⟨K4, G4⟩ := K3.install hl3 (l3Idx_lt virt) (leafValue_lt phys hfl)
    rw [if_neg h30]
    exact ⟨lvl3, K4, (G2.trans G3).trans G4⟩

theorem Ok.mapUserPage (K : Ok kpgd kl2 s lvl) (hpgd : lvl pgd = some .l1) (hw : ¬ InWindow virt)
    (hfl : flags < 2 ^ 64) (phys : Nat) :
    ∃ lvl', Ok kpgd kl2 (s.mapUserPage pgd virt phys flags) lvl' ∧
      Grows s (s.mapUserPage pgd virt phys flags) lvl lvl' := by
  obtain ⟨lvl', ⟨h1, h2, h3⟩, ⟨g1, g2, g3, g4, g5⟩⟩ := K.mapPageInTable hpgd hw hfl phys
  exact ⟨lvl', ⟨h1, h2, h3⟩, ⟨g1, g2, g3, g4, g5⟩⟩

theorem copyEntries_outside {dst src n : Nat} (hn : n ≤ 512) (h : ¬ InPage dst a) :
    copyEntries m dst src n a = m a := by
  induction n with
  | zero => rfl
  | succ n ih => rw [copyEntries, setEntry_outside (by omega) h, ih (by omega)]

/-- A new page table is a copy of the kernel's. -/
theorem Tables.create (K : Ok kpgd kl2 s lvl) (hj : s.Free j) :
    Tables kpgd kl2 (copyEntries (zeroPage s.mem (frame j)) (frame j) kpgd 512)
      (Function.update lvl (frame j) (some .l1)) := by
  have T := K.tables
  have hother : ∀ {q l'}, lvl q = some l' →
      Function.update lvl (frame j) (some Level.l1) q = some l' := level_keep (K.table_not_free hj)
  have hkj : kpgd ≠ frame j := K.free_ne hj (by simp [T.root])
  have hread : ∀ {q k}, q % 4096 = 0 → k < 512 →
      entry (copyEntries (zeroPage s.mem (frame j)) (frame j) kpgd 512) q k =
        if q = frame j then entry s.mem kpgd k else entry s.mem q k := by
    intro q k hq hk
    have hka := (T.ok _ _ T.root).aligned
    rw [entry_copyEntries (frame_aligned j) hka hkj (Nat.le_refl _) hq hk,
      entry_zeroPage (frame_aligned j) hka hk, entry_zeroPage (frame_aligned j) hq hk, if_neg hkj]
    by_cases e : q = frame j <;> simp [e, hk]
  have hnew : ∀ {k}, k < 512 → entry (copyEntries (zeroPage s.mem (frame j)) (frame j) kpgd 512)
      (frame j) k = entry s.mem kpgd k := fun hk => by
    rw [hread (frame_aligned j) hk, if_pos rfl]
  have hold : ∀ {q l'}, lvl q = some l' → ∀ {k}, k < 512 →
      entry (copyEntries (zeroPage s.mem (frame j)) (frame j) kpgd 512) q k = entry s.mem q k :=
    fun {q l'} hq {k} hk => by
      rw [hread (T.ok q l' hq).aligned hk, if_neg (K.free_ne hj (by simp [hq]))]
  -- every top-level table, new or old, has the slots of an old one
  have root_of : ∀ {q}, Function.update lvl (frame j) (some Level.l1) q = some .l1 →
      ∃ r, lvl r = some .l1 ∧ ∀ k, k < 512 →
        entry (copyEntries (zeroPage s.mem (frame j)) (frame j) kpgd 512) q k = entry s.mem r k := by
    intro q hq
    rcases level_cases hq with ⟨rfl, -⟩ | hq
    · exact ⟨kpgd, T.root, fun k hk => hnew hk⟩
    · exact ⟨q, hq, fun k hk => hold hq hk⟩
  refine ⟨fun q l' hq => ?_, hother T.root, hother T.window, fun q hq => ?_, fun q hq => ?_,
    fun q hq k h2 hk => ?_, fun q hq k hk hw => ?_⟩
  · rcases level_cases hq with ⟨rfl, -⟩ | hq
    · exact frame_ok (Nat.lt_of_lt_of_le hj.1 K.small)
    · exact T.ok q l' hq
  · obtain ⟨r, hr, he⟩ := root_of hq
    exact (he 0 (by decide)).trans (T.device r hr)
  · obtain ⟨r, hr, he⟩ := root_of hq
    exact (he 1 (by decide)).trans (T.ram r hr)
  · obtain ⟨r, hr, he⟩ := root_of hq
    rw [he k hk]
    exact (T.slots1 r hr k h2 hk).imp_right fun ⟨p, hp, hne, e⟩ => ⟨p, hother hp, hne, e⟩
  · rcases level_cases hq with ⟨-, e⟩ | hq
    · cases e
    · rw [hold hq hk]
      exact (T.slots2 q hq k hk hw).imp_right fun ⟨p, hp, e⟩ => ⟨p, hother hp, e⟩

theorem Ok.createUserPageTable (K : Ok kpgd kl2 s lvl) :
    ∃ lvl', Ok kpgd kl2 (s.createUserPageTable kpgd).1 lvl' ∧
      Grows s (s.createUserPageTable kpgd).1 lvl lvl' ∧
      ((s.createUserPageTable kpgd).2 = 0 ∨ lvl' (s.createUserPageTable kpgd).2 = some .l1) := by
  rcases allocPage_cases s with ha | ⟨j, hj, ha⟩
  · have : s.createUserPageTable kpgd = (s, 0) := by simp [Machine.createUserPageTable, ha]
    rw [this]
    exact ⟨lvl, K, .refl, .inl rfl⟩
  · have : s.createUserPageTable kpgd =
        ({ mem := copyEntries (zeroPage s.mem (frame j)) (frame j) kpgd 512
           pages := take s.pages j 1
           lastMapped := fun t v => if t = frame j then none else s.lastMapped t v }, frame j) := by
      simp [Machine.createUserPageTable, ha, frame_ne_zero]
    rw [this]
    obtain ⟨⟨h1, h2, h3⟩, ⟨g1, g2, g3, g4, g5⟩⟩ :=
      K.adopt hj (Tables.create K hj) fun a ha => .inr (by
        by_contra hp
        exact ha ((copyEntries_outside (Nat.le_refl _) hp).trans (zeroPage_outside hp)))
    exact ⟨_, ⟨h1, h2, h3⟩, ⟨g1, g2, g3, g4, g5⟩, .inr (update_self ..)⟩

/-- In the first gigabyte a top-level table translates to the device block. -/
theorem Tables.walk_device (T : Tables kpgd kl2 m lvl) (ht : lvl t = some .l1) {va : Nat}
    (h : va < 2 ^ 30) : walk m t va = some (va, deviceBlock &&& 0xFFFF00003FFFFFFF) := by
  have h0 : l1Idx va = 0 := by rw [l1Idx_eq]; omega
  unfold walk
  rw [h0, T.device t ht]
  simp [deviceBlock, pteValid, pteAf, pteAttrDevice, pteApRw, pteUxn, ptePxn]
  omega

/-! ## After boot -/

/-- The two tables `MMU::init` builds. -/
def bootLevels (kpgd kl2 : Nat) : Nat → Option Level := fun t =>
  if t = kpgd then some .l1 else if t = kl2 then some .l2 else none

/-- The kernel's tables are built and their pages marked. -/
structure Booted (kpgd kl2 : Nat) (s : Machine) : Prop where
  tables : KernelTables kpgd kl2 s.mem
  small : s.pages.totalPages ≤ maxPages
  marked : ∀ i, i < s.pages.totalPages → frame i = kpgd ∨ frame i = kl2 →
    bitmapTest s.pages.bitmap i = true

theorem Booted.ok (h : Booted kpgd kl2 s) : Ok kpgd kl2 s (bootLevels kpgd kl2) := by
  obtain ⟨T, hsmall, hmark⟩ := h
  have hroot : ∀ t, bootLevels kpgd kl2 t = some .l1 → t = kpgd := by
    intro t ht
    unfold bootLevels at ht
    split at ht
    · assumption
    · split at ht <;> cases ht
  have hl2 : ∀ t, bootLevels kpgd kl2 t = some .l2 → t = kl2 := by
    intro t ht
    unfold bootLevels at ht
    split at ht
    · cases ht
    · split at ht
      · assumption
      · cases ht
  refine ⟨⟨fun t l ht => ?_, if_pos rfl, ?_, fun t ht => ?_, fun t ht => ?_, fun t ht i h2 hi => ?_,
    fun t ht j hj hk => ?_⟩, hsmall, fun i hi hl => hmark i hi ?_⟩
  · unfold bootLevels at ht
    split at ht
    · rename_i e; exact e ▸ T.kpgdOk
    · split at ht
      · rename_i e; exact e ▸ T.kl2Ok
      · cases ht
  · rw [bootLevels, if_neg T.ne.symm, if_pos rfl]
  · rw [hroot t ht]; exact T.device
  · rw [hroot t ht]; exact T.ram
  · rw [hroot t ht]; exact .inl (T.none i h2 hi)
  · rw [hl2 t ht, T.blocks j hj, if_neg (by have := hk (hl2 t ht); omega)]
    exact .inl rfl
  unfold bootLevels at hl
  split at hl
  · exact .inl ‹_›
  · split at hl
    · exact .inr ‹_›
    · exact absurd rfl hl

end

end HackersOs.L5

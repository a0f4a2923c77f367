import HackersOs.Core.Mem

/-!
# Page tables (`mm/mmu.cpp`, `mm/mmu.h`)

Tables are pages of 512 little-endian 64-bit descriptors in physical memory.
The functions of `mmu.cpp` are transcribed over the byte memory; the page
allocator is a supply of return values of `Pages::alloc_page` (0 when it is
out of memory), and a page it returns is zeroed as `alloc_page` does.
`walk` is the hardware's three-level walk (39-bit addresses, 1 GB blocks at
level 1, 2 MB blocks at level 2, pages at level 3).

`entry m t i` is descriptor `i` of the table at `t`. The lemmas of this
module say what each primitive does to all descriptors of all tables
(`entry_write`, `entry_zeroPage`, `entry_fillEntries`, `entry_copyEntries`)
and to the bytes outside the table it writes; the later modules use only
these.
-/
namespace HackersOs.L2.Mmu
open HackersOs.Core

variable {i j p q t : Nat} {m : Mem} {supply : List Nat}

/-! ## Descriptors -/

def pteValid : Nat := 1 <<< 0
def pteTable : Nat := 1 <<< 1
def ptePage : Nat := 1 <<< 1
def pteAf : Nat := 1 <<< 10
def pteShInner : Nat := 3 <<< 8
def pteApRw : Nat := 0 <<< 6
def pteApUser : Nat := 1 <<< 6
def pteUxn : Nat := 1 <<< 54
def ptePxn : Nat := 1 <<< 53
def pteAttrNormal : Nat := 0 <<< 2
def pteAttrDevice : Nat := 1 <<< 2

/-- The flags `sys_mmap` and `sys_brk` map user pages with. -/
def pteUserRwx : Nat :=
  pteValid ||| ptePage ||| pteAf ||| pteShInner ||| pteAttrNormal ||| pteApRw ||| pteApUser

/-- The address field of a descriptor, bits 47:12. -/
def addrMask : Nat := 0x0000FFFFFFFFF000
/-- The other bits of a level-3 descriptor. -/
def attrMask : Nat := 0xFFFF000000000FFF

def l1Idx (virt : Nat) : Nat := (virt >>> 30) &&& 0x1FF
def l2Idx (virt : Nat) : Nat := (virt >>> 21) &&& 0x1FF
def l3Idx (virt : Nat) : Nat := (virt >>> 12) &&& 0x1FF

def entry (m : Mem) (t i : Nat) : Nat := read64 m (t + 8 * i)
def setEntry (m : Mem) (t i v : Nat) : Mem := write64 m (t + 8 * i) v
def zeroPage (m : Mem) (p : Nat) : Mem := fillBytes m p 4096 0

/-! ## The code -/

/-- mirrors src/mm/mmu.cpp:23-30. The result is the memory, the table (0 for
`nullptr`) and the rest of the page supply. -/
def getOrCreateTable (m : Mem) (table index : Nat) (supply : List Nat) : Mem × Nat × List Nat :=
  if entry m table index &&& pteValid = 0 then
    let newTable := supply.headD 0
    if newTable = 0 then (m, 0, supply.tail)
    else
      let m' := setEntry (zeroPage m newTable) table index (newTable ||| pteValid ||| pteTable)
      (m', entry m' table index &&& addrMask, supply.tail)
  else (m, entry m table index &&& addrMask, supply)

/-- mirrors src/mm/mmu.cpp:32-44. The flag says whether the descriptor was
written (the C function returns nothing). -/
def mapPageInTable (m : Mem) (pgd virt phys flags : Nat) (supply : List Nat) : Mem × Bool :=
  let r2 := getOrCreateTable m pgd (l1Idx virt) supply
  if r2.2.1 = 0 then (r2.1, false)
  else
    let r3 := getOrCreateTable r2.1 r2.2.1 (l2Idx virt) r2.2.2
    if r3.2.1 = 0 then (r3.1, false)
    else (setEntry r3.1 r3.2.1 (l3Idx virt) ((phys &&& addrMask) ||| flags), true)

/-- `for (i = 0; i < n; i++) table[i] = f(i);` -/
def fillEntries (m : Mem) (table : Nat) (f : Nat → Nat) : Nat → Mem
  | 0 => m
  | n + 1 => setEntry (fillEntries m table f n) table n (f n)

/-- `for (i = 0; i < n; i++) dst[i] = src[i];` -/
def copyEntries (m : Mem) (dst src : Nat) : Nat → Mem
  | 0 => m
  | n + 1 => setEntry (copyEntries m dst src n) dst n (entry (copyEntries m dst src n) src n)

/-- The 1 GB device block of `kernel_pgd[0]`. -/
def deviceBlock : Nat :=
  0 ||| pteValid ||| (0 <<< 1) ||| pteAf ||| pteAttrDevice ||| pteApRw ||| pteUxn ||| ptePxn

/-- Block `i` of the 256 MB of RAM. -/
def ramBlock (i : Nat) : Nat :=
  (0x40000000 + i * 0x200000) ||| pteValid ||| (0 <<< 1) ||| pteAf ||| pteShInner |||
    pteAttrNormal ||| pteApRw ||| pteUxn

/-- mirrors src/mm/mmu.cpp:48-76 (the tables; the system registers set after
them are not modelled). `l2Page` is what `alloc_page` returned. -/
def init (m : Mem) (kernelPgd l2Page : Nat) : Mem × Bool :=
  let m1 := setEntry (zeroPage m kernelPgd) kernelPgd 0 deviceBlock
  if l2Page = 0 then (m1, false)
  else
    let m2 := fillEntries (zeroPage m1 l2Page) l2Page (fun i => if i < 128 then ramBlock i else 0) 512
    (setEntry m2 kernelPgd 1 (l2Page ||| pteValid ||| pteTable), true)

/-- mirrors src/mm/mmu.cpp:133-146; `page` is what `alloc_page` returned. -/
def createUserPageTable (m : Mem) (kernelPgd page : Nat) : Mem :=
  if page = 0 then m else copyEntries (zeroPage m page) page kernelPgd 512

/-- mirrors src/mm/mmu.cpp:148-151 -/
def mapUserPage (m : Mem) (pgd virt phys flags : Nat) (supply : List Nat) : Mem × Bool :=
  mapPageInTable m pgd virt phys flags supply

/-! ## The hardware walk -/

/-- A level-3 descriptor: output page and attributes, if it is a page. -/
def decodePage (e : Nat) : Option (Nat × Nat) :=
  if e &&& 3 = 3 then some (e &&& addrMask, e &&& attrMask) else none

/-- The translation of `va` through the table at `pgd`: output address and
attribute bits. -/
def walk (m : Mem) (pgd va : Nat) : Option (Nat × Nat) :=
  let e1 := entry m pgd (l1Idx va)
  if e1 &&& 1 = 0 then none
  else if e1 &&& 2 = 0 then
    some ((e1 &&& 0x0000FFFFC0000000) + va % 2 ^ 30, e1 &&& 0xFFFF00003FFFFFFF)
  else
    let e2 := entry m (e1 &&& addrMask) (l2Idx va)
    if e2 &&& 1 = 0 then none
    else if e2 &&& 2 = 0 then
      some ((e2 &&& 0x0000FFFFFFE00000) + va % 2 ^ 21, e2 &&& 0xFFFF0000001FFFFF)
    else
      (decodePage (entry m (e2 &&& addrMask) (l3Idx va))).map fun d => (d.1 + va % 2 ^ 12, d.2)

/-! ## Indices -/

theorem and_511 (x : Nat) : x &&& 0x1FF = x % 512 := Nat.and_two_pow_sub_one_eq_mod x 9

theorem l1Idx_eq (va : Nat) : l1Idx va = va / 2 ^ 30 % 512 := by
  rw [l1Idx, and_511, Nat.shiftRight_eq_div_pow]

theorem l2Idx_eq (va : Nat) : l2Idx va = va / 2 ^ 21 % 512 := by
  rw [l2Idx, and_511, Nat.shiftRight_eq_div_pow]

theorem l3Idx_eq (va : Nat) : l3Idx va = va / 2 ^ 12 % 512 := by
  rw [l3Idx, and_511, Nat.shiftRight_eq_div_pow]

theorem l1Idx_lt (va : Nat) : l1Idx va < 512 := by rw [l1Idx_eq]; exact Nat.mod_lt _ (by decide)
theorem l2Idx_lt (va : Nat) : l2Idx va < 512 := by rw [l2Idx_eq]; exact Nat.mod_lt _ (by decide)
theorem l3Idx_lt (va : Nat) : l3Idx va < 512 := by rw [l3Idx_eq]; exact Nat.mod_lt _ (by decide)

/-- From 2 GB on an address falls into an L1 slot the kernel does not use. -/
theorem two_le_l1Idx {va : Nat} (h : 2 ^ 31 ≤ va) (h' : va < 2 ^ 39) : 2 ≤ l1Idx va := by
  rw [l1Idx_eq]; omega

/-- Below 2^39 the three indices determine the virtual page. -/
theorem idx_inj {va vb : Nat} (ha : va < 2 ^ 39) (hb : vb < 2 ^ 39) :
    (l1Idx va = l1Idx vb ∧ l2Idx va = l2Idx vb ∧ l3Idx va = l3Idx vb) ↔ va / 4096 = vb / 4096 := by
  simp only [l1Idx_eq, l2Idx_eq, l3Idx_eq]
  omega

/-! ## Table pages and descriptors -/

/-- A page the allocator can return: nonzero, page-aligned, in the 48-bit
physical address range. -/
structure PageOk (p : Nat) : Prop where
  ne_zero : p ≠ 0
  aligned : p % 4096 = 0
  lt : p < 2 ^ 48

/-- The descriptor that links the table page `p`. -/
def tableDesc (p : Nat) : Nat := p ||| pteValid ||| pteTable

theorem tableDesc_eq (p : Nat) : tableDesc p = p ||| 3 := by
  rw [tableDesc, Nat.or_assoc]; rfl

theorem PageOk.and_addrMask (h : PageOk p) : p &&& addrMask = p := by
  obtain ⟨-, ha, hl⟩ := h
  have hp : p = (p / 4096) <<< 12 := by rw [Nat.shiftLeft_eq]; omega
  have hm : addrMask = (2 ^ 36 - 1) <<< 12 := by decide
  rw [hp, hm, ← Nat.shiftLeft_and_distrib, Nat.and_two_pow_sub_one_eq_mod,
    Nat.mod_eq_of_lt (by omega)]

theorem tableDesc_addr (h : PageOk p) : tableDesc p &&& addrMask = p := by
  rw [tableDesc_eq, Nat.and_or_distrib_right, h.and_addrMask]
  exact Nat.or_zero p

/-- Low bits of a page address are clear. -/
theorem PageOk.and_low (h : PageOk p) : p &&& 3 = 0 := by
  rw [← h.and_addrMask, Nat.and_assoc]
  exact Nat.and_zero p

theorem tableDesc_low (h : PageOk p) : tableDesc p &&& 3 = 3 := by
  rw [tableDesc_eq, Nat.and_or_distrib_right, h.and_low]; rfl

theorem tableDesc_valid (h : PageOk p) : tableDesc p &&& 1 = 1 := by
  have := congrArg (· &&& 1) (tableDesc_low h)
  rwa [Nat.and_assoc] at this

theorem tableDesc_table (h : PageOk p) : tableDesc p &&& 2 = 2 := by
  have := congrArg (· &&& 2) (tableDesc_low h)
  rwa [Nat.and_assoc] at this

theorem tableDesc_inj (hp : PageOk p) (hq : PageOk q) (h : tableDesc p = tableDesc q) : p = q := by
  rw [← tableDesc_addr hp, h, tableDesc_addr hq]

theorem tableDesc_ne_zero (h : PageOk p) : tableDesc p ≠ 0 := by
  intro h0
  have := tableDesc_low h
  rw [h0] at this; cases this

theorem tableDesc_lt (h : PageOk p) : tableDesc p < 2 ^ 64 := by
  rw [tableDesc_eq]
  exact Nat.or_lt_two_pow (Nat.lt_trans h.lt (by decide)) (by decide)

/-! ## What each primitive does to every descriptor -/

theorem entry_lt (m : Mem) (t i : Nat) : entry m t i < 2 ^ 64 := read64_lt _ _

theorem entry_write {v : Nat} (ht : t % 4096 = 0) (hi : i < 512) (hv : v < 2 ^ 64)
    (hq : q % 4096 = 0) (hj : j < 512) :
    entry (setEntry m t i v) q j = if q = t ∧ j = i then v else entry m q j := by
  unfold entry setEntry
  split
  · rename_i h; rw [h.1, h.2, read64_write64 hv]
  · refine read64_write64_ne ?_
    by_cases hqt : q = t
    all_goals omega

theorem entry_zeroPage (hp : p % 4096 = 0) (hq : q % 4096 = 0) (hj : j < 512) :
    entry (zeroPage m p) q j = if q = p then 0 else entry m q j := by
  split
  · exact read64_fillBytes_zero (by omega) (by omega)
  · exact read64_congr fun i h1 h2 => fillBytes_outside (by omega)

theorem entry_fillEntries {f : Nat → Nat} (ht : t % 4096 = 0) (hf : ∀ i, f i < 2 ^ 64) {n : Nat}
    (hn : n ≤ 512) (hq : q % 4096 = 0) (hj : j < 512) :
    entry (fillEntries m t f n) q j = if q = t ∧ j < n then f j else entry m q j := by
  induction n with
  | zero => simp [fillEntries]
  | succ n ih =>
    rw [fillEntries, entry_write ht (by omega) (hf n) hq hj, ih (by omega)]
    by_cases hqt : q = t
    · by_cases hjn : j = n
      · simp [hqt, hjn]
      · have : j < n + 1 ↔ j < n := by omega
        simp [hqt, hjn, this]
    · simp [hqt]

/-- A copy from another page: the source is not disturbed while it runs. -/
theorem entry_copyEntries {dst src : Nat} (hd : dst % 4096 = 0) (hs : src % 4096 = 0)
    (hne : src ≠ dst) {n : Nat} (hn : n ≤ 512) (hq : q % 4096 = 0) (hj : j < 512) :
    entry (copyEntries m dst src n) q j = if q = dst ∧ j < n then entry m src j else entry m q j := by
  induction n generalizing q j with
  | zero => simp [copyEntries]
  | succ n ih =>
    have hsrc : entry (copyEntries m dst src n) src n = entry m src n := by
      rw [ih (by omega) hs (by omega), if_neg (fun h => hne h.1)]
    rw [copyEntries, hsrc, entry_write hd (by omega) (entry_lt _ _ _) hq hj, ih (by omega) hq hj]
    by_cases hqd : q = dst
    · by_cases hjn : j = n
      · simp [hqd, hjn]
      · have : j < n + 1 ↔ j < n := by omega
        simp [hqd, hjn, this]
    · simp [hqd]

/-- Byte `a` lies in the page `p`. -/
def InPage (p a : Nat) : Prop := p ≤ a ∧ a < p + 4096

theorem setEntry_outside {v a : Nat} (hi : i < 512) (h : ¬ InPage t a) :
    setEntry m t i v a = m a := by
  unfold InPage at h
  exact write64_outside (by omega)

theorem zeroPage_outside {a : Nat} (h : ¬ InPage p a) : zeroPage m p a = m a := by
  unfold InPage at h
  exact fillBytes_outside (by omega)

/-! ## `get_or_create_table` -/

theorem getOrCreateTable_valid (h : entry m t i &&& 1 ≠ 0) :
    getOrCreateTable m t i supply = (m, entry m t i &&& addrMask, supply) := if_neg h

theorem getOrCreateTable_full (h : entry m t i &&& 1 = 0) (hp : supply.headD 0 = 0) :
    getOrCreateTable m t i supply = (m, 0, supply.tail) := by
  unfold getOrCreateTable
  rw [if_pos (show entry m t i &&& pteValid = 0 from h), if_pos hp]

theorem getOrCreateTable_new (h : entry m t i &&& 1 = 0) (ht : t % 4096 = 0) (hi : i < 512)
    (hp : PageOk (supply.headD 0)) : getOrCreateTable m t i supply =
      (setEntry (zeroPage m (supply.headD 0)) t i (tableDesc (supply.headD 0)),
        supply.headD 0, supply.tail) := by
  unfold getOrCreateTable
  have he : entry (setEntry (zeroPage m (supply.headD 0)) t i (tableDesc (supply.headD 0))) t i =
      tableDesc (supply.headD 0) := by
    rw [entry_write ht hi (tableDesc_lt hp) ht hi, if_pos ⟨rfl, rfl⟩]
  rw [if_pos (show entry m t i &&& pteValid = 0 from h), if_neg hp.ne_zero]
  change (_, entry (setEntry _ t i (tableDesc _)) t i &&& addrMask, _) = _
  rw [he, tableDesc_addr hp]
  rfl

end HackersOs.L2.Mmu

import HackersOs.Core.Mem
import HackersOs.Core.Tiling
import HackersOs.L2Memory.Pages

/-!
# The kernel heap (`mm/heap.cpp`)

The heap is 1 MB of the byte memory. Each block starts with a 32-byte header
(`size` at 0, `used` at 8, `next` at 16, `prev` at 24) and the list of blocks
starts at `first_block`. The functions are transcribed over the byte memory;
the loops carry a fuel of more blocks than fit into the heap and return
`none` when it runs out; `HeapTiling` shows that it never does.

`load m b` is the header at `b`. `split_spec`, `coalesceNext_spec` and
`coalescePrev_spec` say which headers the list surgeries of `kmalloc` and
`kfree` change, and that they write nothing but these.
-/
namespace HackersOs.L2.Heap
open HackersOs.Core HackersOs.Core.Tiling

variable {a nx p s x : Nat} {u : Bool}

def heapSize : Nat := 1024 * 1024
def heapPages : Nat := heapSize / Pages.pageSize
def minBlock : Nat := 16
def alignment : Nat := 8
/-- `sizeof(Block)` -/
def blockHeader : Nat := 32

/-- mirrors src/mm/heap.cpp:11-16 -/
structure Block where
  size : Nat
  used : Bool
  next : Nat
  prev : Nat
  deriving DecidableEq, Repr

def load (m : Mem) (b : Nat) : Block :=
  ⟨read64 m b, m (b + 8) != 0, read64 m (b + 16), read64 m (b + 24)⟩

theorem load_next_lt (m : Mem) (b : Nat) : (load m b).next < 2 ^ 64 := read64_lt m (b + 16)

theorem load_prev_lt (m : Mem) (b : Nat) : (load m b).prev < 2 ^ 64 := read64_lt m (b + 24)

def setSize (m : Mem) (b v : Nat) : Mem := write64 m b v
def setUsed (m : Mem) (b : Nat) (v : Bool) : Mem := writeLE m (b + 8) 1 v.toNat
def setNext (m : Mem) (b v : Nat) : Mem := write64 m (b + 16) v
def setPrev (m : Mem) (b v : Nat) : Mem := write64 m (b + 24) v

/-! ## The code -/

/-- mirrors src/mm/heap.cpp:24-36: the memory and `first_block` (0 when the
pages could not be had). -/
def init (m : Mem) (heapBase : Nat) : Mem × Nat :=
  if heapBase = 0 then (m, 0)
  else
    let m := setSize m heapBase (heapSize - blockHeader)
    let m := setUsed m heapBase false
    let m := setNext m heapBase 0
    let m := setPrev m heapBase 0
    (m, heapBase)

/-- Round up to the alignment, in 64 bits, and to the smallest block.
mirrors src/mm/heap.cpp:46-47 -/
def roundSize (size : Nat) : Nat :=
  let size := (size + alignment - 1) % 2 ^ 64 &&& (2 ^ 64 - alignment)
  if size < minBlock then minBlock else size

/-- The split of a free block. mirrors src/mm/heap.cpp:55-65 -/
def split (m : Mem) (block size : Nat) : Mem :=
  let newBlock := block + blockHeader + size
  let m := setSize m newBlock ((load m block).size - size - blockHeader)
  let m := setUsed m newBlock false
  let m := setNext m newBlock (load m block).next
  let m := setPrev m newBlock block
  let m := if (load m block).next ≠ 0 then setPrev m (load m block).next newBlock else m
  let m := setNext m block newBlock
  setSize m block size

/-- mirrors src/mm/heap.cpp:52-73 -/
def kmallocLoop (size : Nat) (m : Mem) : Nat → Nat → Option (Mem × Nat)
  | 0, _ => none
  | fuel + 1, block =>
    if block = 0 then some (m, 0)
    else if (load m block).used = false ∧ (load m block).size ≥ size then
      let m := if (load m block).size ≥ (size + blockHeader + minBlock) % 2 ^ 64
        then split m block size else m
      some (setUsed m block true, block + blockHeader)
    else kmallocLoop size m fuel (load m block).next

/-- More blocks than fit into the heap. -/
def heapFuel : Nat := heapSize / blockHeader + 1

/-- mirrors src/mm/heap.cpp:42-78 -/
def kmalloc (m : Mem) (firstBlock size : Nat) : Option (Mem × Nat) :=
  if size = 0 then some (m, 0) else kmallocLoop (roundSize size) m heapFuel firstBlock

/-- Coalesce with the next block. mirrors src/mm/heap.cpp:91-95 -/
def coalesceNext (m : Mem) (block : Nat) : Mem :=
  if (load m block).next ≠ 0 ∧ (load m (load m block).next).used = false then
    let m := setSize m block
      ((load m block).size + (blockHeader + (load m (load m block).next).size))
    let m := setNext m block (load m (load m block).next).next
    if (load m block).next ≠ 0 then setPrev m (load m block).next block else m
  else m

/-- Coalesce with the previous block. mirrors src/mm/heap.cpp:98-102 -/
def coalescePrev (m : Mem) (block : Nat) : Mem :=
  if (load m block).prev ≠ 0 ∧ (load m (load m block).prev).used = false then
    let m := setSize m (load m block).prev
      ((load m (load m block).prev).size + (blockHeader + (load m block).size))
    let m := setNext m (load m block).prev (load m block).next
    if (load m block).next ≠ 0 then setPrev m (load m block).next (load m block).prev else m
  else m

/-- mirrors src/mm/heap.cpp:80-105 -/
def kfree (m : Mem) (ptr : Nat) : Mem :=
  if ptr = 0 then m
  else
    let block := (ptr + 2 ^ 64 - blockHeader) % 2 ^ 64
    coalescePrev (coalesceNext (setUsed m block false) block) block

/-- The walks of `get_used` and `get_free`: the sizes of the blocks whose flag
is `used`, in 64 bits. -/
def totalLoop (used : Bool) (m : Mem) : Nat → Nat → Nat → Option Nat
  | 0, _, _ => none
  | fuel + 1, b, acc =>
    if b = 0 then some acc
    else totalLoop used m fuel (load m b).next
      (if (load m b).used = used then (acc + (load m b).size) % 2 ^ 64 else acc)

/-- mirrors src/mm/heap.cpp:107-115 -/
def getUsed (m : Mem) (firstBlock : Nat) : Option Nat := totalLoop true m heapFuel firstBlock 0

/-- mirrors src/mm/heap.cpp:117-125 -/
def getFree (m : Mem) (firstBlock : Nat) : Option Nat := totalLoop false m heapFuel firstBlock 0

/-! ## Headers -/

section
variable {m : Mem} {b c v : Nat}

theorem bool_byte (u : Bool) : (UInt8.ofNat u.toNat != 0) = u := by cases u <;> rfl

@[simp] theorem load_setSize (hv : v < 2 ^ 64) :
    load (setSize m b v) b = { load m b with size := v } := by
  simp only [load, setSize, read64_write64 hv, Block.mk.injEq, true_and]
  exact ⟨by rw [write64_outside (by omega)], read64_write64_ne (by omega),
    read64_write64_ne (by omega)⟩

@[simp] theorem load_setUsed : load (setUsed m b u) b = { load m b with used := u } := by
  simp only [load, setUsed, read64, Block.mk.injEq]
  refine ⟨readLE_writeLE_disjoint (by omega), ?_, readLE_writeLE_disjoint (by omega),
    readLE_writeLE_disjoint (by omega)⟩
  rw [writeLE, if_pos (by omega)]
  simpa using bool_byte u

@[simp] theorem load_setNext (hv : v < 2 ^ 64) :
    load (setNext m b v) b = { load m b with next := v } := by
  simp only [load, setNext, read64_write64 hv, Block.mk.injEq, true_and]
  exact ⟨read64_write64_ne (by omega), by rw [write64_outside (by omega)],
    read64_write64_ne (by omega)⟩

@[simp] theorem load_setPrev (hv : v < 2 ^ 64) :
    load (setPrev m b v) b = { load m b with prev := v } := by
  simp only [load, setPrev, read64_write64 hv, Block.mk.injEq, and_true]
  exact ⟨read64_write64_ne (by omega), by rw [write64_outside (by omega)],
    read64_write64_ne (by omega)⟩

/-- `x` is a byte of the header at `b`. -/
def InHeader (b x : Nat) : Prop := b ≤ x ∧ x < b + blockHeader

theorem load_congr {m' : Mem} (h : ∀ x, InHeader b x → m' x = m x) : load m' b = load m b := by
  unfold InHeader blockHeader at h
  simp only [load, read64, Block.mk.injEq]
  refine ⟨readLE_congr fun i h1 h2 => h i (by omega), ?_, readLE_congr fun i h1 h2 => h i (by omega),
    readLE_congr fun i h1 h2 => h i (by omega)⟩
  rw [h (b + 8) (by omega)]

/-! A field store writes inside its header. -/

theorem setSize_outside (h : ¬ InHeader b x) : setSize m b v x = m x := by
  unfold InHeader blockHeader at h
  exact write64_outside (by omega)

theorem setUsed_outside (h : ¬ InHeader b x) : setUsed m b u x = m x := by
  unfold InHeader blockHeader at h
  exact writeLE_outside (by omega)

theorem setNext_outside (h : ¬ InHeader b x) : setNext m b v x = m x := by
  unfold InHeader blockHeader at h
  exact write64_outside (by omega)

theorem setPrev_outside (h : ¬ InHeader b x) : setPrev m b v x = m x := by
  unfold InHeader blockHeader at h
  exact write64_outside (by omega)

/-- Two headers that do not overlap. -/
def Apart (b c : Nat) : Prop := b + blockHeader ≤ c ∨ c + blockHeader ≤ b

theorem Apart.symm (h : Apart b c) : Apart c b := Or.symm h

theorem Apart.not_inHeader (h : Apart b c) (hx : InHeader c x) : ¬ InHeader b x := by
  unfold Apart InHeader at *
  omega

theorem load_setSize_ne (h : Apart b c) : load (setSize m b v) c = load m c :=
  load_congr fun _ hx => setSize_outside (h.not_inHeader hx)

theorem load_setUsed_ne (h : Apart b c) : load (setUsed m b u) c = load m c :=
  load_congr fun _ hx => setUsed_outside (h.not_inHeader hx)

theorem load_setNext_ne (h : Apart b c) : load (setNext m b v) c = load m c :=
  load_congr fun _ hx => setNext_outside (h.not_inHeader hx)

theorem load_setPrev_ne (h : Apart b c) : load (setPrev m b v) c = load m c :=
  load_congr fun _ hx => setPrev_outside (h.not_inHeader hx)

end

/-! ## The four list surgeries, on headers -/

section
variable {m : Mem}

/-- `split`: the block keeps `n` bytes, a free block takes the rest, and the
old successor, if any, gets the new block as predecessor. -/
theorem split_spec {n : Nat} (h : load m a = ⟨s, u, nx, p⟩) (hn : n + blockHeader ≤ s)
    (hlt : a + blockHeader + s < 2 ^ 64) (hnx : nx ≠ 0 → a + blockHeader + s ≤ nx) :
    load (split m a n) a = ⟨n, u, a + blockHeader + n, p⟩ ∧
    load (split m a n) (a + blockHeader + n) = ⟨s - n - blockHeader, false, nx, a⟩ ∧
    (nx ≠ 0 → load (split m a n) nx = { load m nx with prev := a + blockHeader + n }) ∧
    ∀ x, ¬ InHeader a x → ¬ InHeader (a + blockHeader + n) x → (nx ≠ 0 → ¬ InHeader nx x) →
      split m a n x = m x := by
  have hnx64 : nx < 2 ^ 64 := by
    have hlt := load_next_lt m a
    rwa [h] at hlt
  have a1 : Apart (a + blockHeader + n) a := .inr (by omega)
  have a2 : nx ≠ 0 → Apart (a + blockHeader + n) nx := fun h0 => .inl (by have := hnx h0; omega)
  have a3 : nx ≠ 0 → Apart nx a := fun h0 => .inr (by have := hnx h0; omega)
  unfold split
  simp only [load_setSize_ne a1, load_setUsed_ne a1, load_setNext_ne a1, load_setPrev_ne a1, h]
  have hnew : a + blockHeader + n < 2 ^ 64 := by omega
  generalize a + blockHeader + n = new at *
  by_cases h0 : nx = 0
  · simp only [h0, ne_eq, not_true_eq_false, if_false, false_implies, true_and, forall_const]
    refine ⟨?_, ?_, fun x h1 h2 => ?_⟩
    · rw [load_setSize (by omega), load_setNext (by omega), load_setPrev_ne a1, load_setNext_ne a1,
        load_setUsed_ne a1, load_setSize_ne a1, h]
    · rw [load_setSize_ne a1.symm, load_setNext_ne a1.symm, load_setPrev (by omega),
        load_setNext (by omega), load_setUsed, load_setSize (by omega)]
    · rw [setSize_outside h1, setNext_outside h1,
        setPrev_outside h2, setNext_outside h2,
        setUsed_outside h2, setSize_outside h2]
  · have a2 := a2 h0
    have a3 := a3 h0
    simp only [h0, ne_eq, not_false_eq_true, if_true, true_implies]
    refine ⟨?_, ?_, ?_, fun x h1 h2 h3 => ?_⟩
    · rw [load_setSize (by omega), load_setNext (by omega), load_setPrev_ne a3, load_setPrev_ne a1,
        load_setNext_ne a1, load_setUsed_ne a1, load_setSize_ne a1, h]
    · rw [load_setSize_ne a1.symm, load_setNext_ne a1.symm, load_setPrev_ne a2.symm,
        load_setPrev (by omega), load_setNext (by omega), load_setUsed, load_setSize (by omega)]
    · rw [load_setSize_ne a3.symm, load_setNext_ne a3.symm, load_setPrev (by omega),
        load_setPrev_ne a2, load_setNext_ne a2, load_setUsed_ne a2, load_setSize_ne a2]
    · rw [setSize_outside h1, setNext_outside h1,
        setPrev_outside h3, setPrev_outside h2,
        setNext_outside h2, setUsed_outside h2,
        setSize_outside h2]

/-- What both merges do to the block `a` that stays: a new size, and the block `nx`
behind the absorbed one as its successor. -/
theorem absorb_spec {size nx₀ : Nat} (hsize : load (setSize m a size) a = ⟨size, u, nx₀, p⟩)
    (ha : a < 2 ^ 64) (hnx : nx < 2 ^ 64) (hapart : nx ≠ 0 → Apart a nx) :
    let m' := setNext (setSize m a size) a nx
    let m'' := if nx ≠ 0 then setPrev m' nx a else m'
    load m'' a = ⟨size, u, nx, p⟩ ∧ (nx ≠ 0 → load m'' nx = { load m nx with prev := a }) ∧
      ∀ x, ¬ InHeader a x → (nx ≠ 0 → ¬ InHeader nx x) → m'' x = m x := by
  by_cases h0 : nx = 0
  · subst h0
    simp only [ne_eq, not_true_eq_false, if_false, false_implies, true_and, forall_const]
    refine ⟨?_, fun x hx => ?_⟩
    · rw [load_setNext hnx, hsize]
    · rw [setNext_outside hx, setSize_outside hx]
  · have hap := hapart h0
    simp only [h0, ne_eq, not_false_eq_true, if_true, true_implies]
    refine ⟨?_, ?_, fun x hx hx' => ?_⟩
    · rw [load_setPrev_ne hap.symm, load_setNext hnx, hsize]
    · rw [load_setPrev ha, load_setNext_ne hap, load_setSize_ne hap]
    · rw [setPrev_outside hx', setNext_outside hx, setSize_outside hx]

/-- `coalesceNext`: a block absorbs its free successor. -/
theorem coalesceNext_spec {s₂ nx₂ p₂ : Nat} (h : load m a = ⟨s, u, nx, p⟩)
    (h₂ : load m nx = ⟨s₂, false, nx₂, p₂⟩) (hnx : nx ≠ 0) (ha : a < 2 ^ 64)
    (hs : s + (blockHeader + s₂) < 2 ^ 64) (h12 : Apart a nx) (h13 : nx₂ ≠ 0 → Apart a nx₂) :
    load (coalesceNext m a) a = ⟨s + (blockHeader + s₂), u, nx₂, p⟩ ∧
    (nx₂ ≠ 0 → load (coalesceNext m a) nx₂ = { load m nx₂ with prev := a }) ∧
    ∀ x, ¬ InHeader a x → (nx₂ ≠ 0 → ¬ InHeader nx₂ x) → coalesceNext m a x = m x := by
  have hnx64 : nx₂ < 2 ^ 64 := by
    have hlt := load_next_lt m nx
    rwa [h₂] at hlt
  have hsize : load (setSize m a (s + (blockHeader + s₂))) a =
      ⟨s + (blockHeader + s₂), u, nx, p⟩ := by
    rw [load_setSize hs, h]
  unfold coalesceNext
  rw [if_pos (by simp [h, h₂, hnx])]
  simp only [h, h₂, hsize, load_setSize_ne h12, load_setNext hnx64]
  exact absorb_spec hsize ha hnx64 h13

/-- `coalescePrev`: the free predecessor absorbs the block. -/
theorem coalescePrev_spec {b sp nxp pp : Nat} (h : load m b = ⟨s, u, nx, p⟩)
    (hp : load m p = ⟨sp, false, nxp, pp⟩) (h0p : p ≠ 0) (hs : sp + (blockHeader + s) < 2 ^ 64)
    (h12 : Apart p b) (h13 : nx ≠ 0 → Apart p nx) :
    load (coalescePrev m b) p = ⟨sp + (blockHeader + s), false, nx, pp⟩ ∧
    (nx ≠ 0 → load (coalescePrev m b) nx = { load m nx with prev := p }) ∧
    ∀ x, ¬ InHeader p x → (nx ≠ 0 → ¬ InHeader nx x) → coalescePrev m b x = m x := by
  have hnx64 : nx < 2 ^ 64 := by
    have hlt := load_next_lt m b
    rwa [h] at hlt
  have hp64 : p < 2 ^ 64 := by
    have hlt := load_prev_lt m b
    rwa [h] at hlt
  have hsize : load (setSize m p (sp + (blockHeader + s))) p =
      ⟨sp + (blockHeader + s), false, nxp, pp⟩ := by
    rw [load_setSize hs, hp]
  unfold coalescePrev
  rw [if_pos (by simp [h, hp, h0p])]
  simp only [h, hp, load_setSize_ne h12, load_setNext_ne h12]
  exact absorb_spec hsize hp64 hnx64 h13

end

end HackersOs.L2.Heap

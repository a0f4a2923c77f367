import HackersOs.L2Memory.HeapOrder
import HackersOs.L5User.ElfBounds
import HackersOs.L5User.Lifecycle

/-!
# What a failed `load_and_exec` leaves behind

`LoadState.loadAndExec` is `load_and_exec` with the heap: the buffer of
`kmalloc`, filled by `read_file`, is what the loader reads, and every exit behind
`kmalloc` calls `kfree` on it. What the file system answers is data here
(`FileRead`). The heap and the machine of the kernel are different parts of
memory: the allocator never hands out a page of the heap.

The buffer always comes back. The page table, the tables and pages of the
segments and three of the four pages of a kernel stack do not: nothing on the way
out gives back more than `create_user`'s first stack page.

Result: `load_no_trace_iff`: which loads that return 0 leave no trace.
-/
namespace HackersOs.L5
open HackersOs.Core L2 L2.Mmu L2.Pages

/-- What the file system answers for a path. -/
structure FileRead where
  /-- the result of `file_size` -/
  fsize : Nat
  /-- what `read_file` puts into the buffer; its length is `bytes_read` -/
  bytes : List UInt8
  /-- the result of `read_file` -/
  ok : Bool
  small : fsize < 2 ^ 32
  fits : bytes.length ≤ fsize

/-- The file as a memory from offset 0 on. -/
def FileRead.content (f : FileRead) : Mem := fun i => f.bytes.getD i 0

structure LoadState where
  heap : Heap.HeapState
  kernel : Kernel

/-- The part behind `kmalloc`, which left `m` and answered `buf`.
mirrors src/elf/elf.cpp:37-118 -/
def LoadState.loadInto (s : LoadState) (kernelPgd : Nat) (f : FileRead) (m : Mem) (buf : Nat) :
    LoadState × Nat :=
  if buf = 0 then (⟨{ s.heap with mem := m }, s.kernel⟩, 0)
  else
    let m := blit m buf f.bytes.length f.content
    let read := if f.ok then some (fun i => m (buf + i), f.bytes.length) else none
    let r := s.kernel.loadAndExec kernelPgd read
    (⟨{ s.heap with mem := Heap.kfree m buf }, r.1⟩, r.2)

/-- mirrors src/elf/elf.cpp:27-118 -/
def LoadState.loadAndExec (s : LoadState) (kernelPgd : Nat) (f : FileRead) :
    Option (LoadState × Nat) :=
  if f.fsize = 0 then some (s, 0)
  else (Heap.kmalloc s.heap.mem s.heap.firstBlock f.fsize).map fun r => s.loadInto kernelPgd f r.1 r.2

/-! ## What is compared -/

/-- The block list, the allocator and the process table are as they were. -/
structure LoadNoTrace (s s' : LoadState) : Prop where
  blocks : Heap.headers s'.heap.mem s'.heap.firstBlock = Heap.headers s.heap.mem s.heap.firstBlock
  pages : s'.kernel.machine.pages = s.kernel.machine.pages
  procs : s'.kernel.procs = s.kernel.procs

/-- No free block of the heap holds `n` bytes. -/
def NoBuffer (h : Heap.HeapState) (n : Nat) : Prop :=
  ∀ bs, Heap.blockList h.mem Heap.heapFuel h.firstBlock = some bs → ∀ b ∈ bs, ¬ Heap.Fits h.mem n b

/-- The load ends before it has a page table. -/
def EndsEarly (s : LoadState) (f : FileRead) : Prop :=
  f.fsize = 0 ∨ NoBuffer s.heap f.fsize ∨ f.ok = false ∨
    validate f.content f.bytes.length = false ∨ freeCount s.kernel.machine.pages = 0

/-! ## The kernel -/

section
variable {k : Kernel} {file file' : Mem} {size kernelPgd i : Nat}

/-- Only bytes of the file are looked at. -/
theorem validate_congr (h : ∀ i, i < size → file i = file' i) :
    validate file size = validate file' size := by
  unfold validate
  by_cases hs : size < 64
  · rw [if_pos hs, if_pos hs]
  · have hmachine : eMachine file = eMachine file' := readLE_congr fun i _ hi => h i (by omega)
    have htype : eType file = eType file' := readLE_congr fun i _ hi => h i (by omega)
    rw [h 0 (by omega), h 1 (by omega), h 2 (by omega), h 3 (by omega), h 4 (by omega),
      h 5 (by omega),
      hmachine, htype]

/-- A load that ends before it has a page table changes nothing. -/
theorem Kernel.loadAndExec_early {read : Option (Mem × Nat)}
    (h : ∀ file size, read = some (file, size) →
      validate file size = false ∨ freeCount k.machine.pages = 0) :
    k.loadAndExec kernelPgd read = (k, 0) := by
  unfold Kernel.loadAndExec
  cases read with
  | none => rfl
  | some r =>
    dsimp only
    cases h r.1 r.2 rfl with
    | inl hval => rw [if_pos hval]
    | inr hfull =>
      -- an empty allocator answers 0 and stays as it is
      have htable : k.machine.createUserPageTable kernelPgd = (k.machine, 0) := by
        unfold Machine.createUserPageTable
        rcases allocPage_count k.machine with ⟨h0, -, hs⟩ | ⟨-, hc⟩
        · rw [if_pos h0, hs]
        · omega
      split
      · rfl
      · rw [htable, if_pos rfl]

theorem marks_loadPages (file : Mem) (size pgd : Nat) (ph : Phdr) (n va : Nat) (s : Machine) :
    Marks s (loadPages file size pgd ph n va s).1 := by
  induction n generalizing va s with
  | zero => exact .refl s
  | succ n ih =>
    have ha := marks_allocPage s
    rw [loadPages]
    by_cases h0 : s.allocPage.2 = 0
    · rw [if_pos h0]
      exact ha
    rw [if_neg h0]
    have hmap := ha.trans (marks_mapUserPage s.allocPage.1 pgd va s.allocPage.2 pteUserRwx)
    have hframe := (copyPage_frame
      (s.allocPage.1.mapUserPage pgd va s.allocPage.2 pteUserRwx) file size
      ph va s.allocPage.2).1
    apply Marks.trans _ (ih _ _)
    exact ⟨by rw [hframe]; exact hmap.total, by rw [hframe]; exact hmap.bits⟩

theorem marks_loadSegments (file : Mem) (size pgd : Nat) (segs : List Phdr) (s : Machine) :
    Marks s (loadSegments file size pgd segs s).1 := by
  induction segs generalizing s with
  | nil => exact .refl s
  | cons ph rest ih =>
    have hpages := marks_loadPages file size pgd ph ((ph.stop - ph.start) / 4096) ph.start s
    rw [loadSegments]
    by_cases ht : ph.pType ≠ ptLoad
    · rw [if_pos ht]
      exact ih s
    rw [if_neg ht]
    dsimp only
    split
    · exact hpages.trans (ih _)
    · exact hpages

/-- `create_user` gives back no page but one of its own. -/
theorem createUser_keeps {entry pageTable : Nat} (h : bitmapTest k.machine.pages.bitmap i = true) :
    bitmapTest (k.createUser entry pageTable).1.machine.pages.bitmap i = true := by
  have h1 := marks_allocPages k.machine kernelStackPages
  have h2 := h1.trans (marks_allocPages (k.machine.allocPages kernelStackPages).1 userStackPages)
  unfold Kernel.createUser
  split
  · exact h
  dsimp only
  split
  · exact h1.bits i h
  rename_i hstack
  split
  · -- the first page of the kernel stack, which was free when `create_user` was called
    rcases allocPages_cases k.machine kernelStackPages with h0 | ⟨j, hj, hfree, he⟩
    · rw [h0] at hstack
      exact absurd rfl hstack
    have hj0 := hfree 0 (by decide)
    have hne : i ≠ j := by
      intro heq
      have hclear := hj0.2
      rw [Nat.add_zero, ← heq, h] at hclear
      cases hclear
    have haddr : (k.machine.allocPages kernelStackPages).2 = frame j := by rw [he]
    have hlt : j < ((k.machine.allocPages kernelStackPages).1.allocPages
        userStackPages).1.pages.totalPages := by
      rw [h2.total]
      exact hj0.1
    obtain ⟨-, -, -, hbit⟩ := freePage_frame hlt
    rw [haddr, hbit, h2.bits i h]
    simp [hne]
  · exact (h2.trans (marks_mapStack _ _ _ _)).bits i h

theorem createUserPageTable_ne_zero {s : Machine} (h : freeCount s.pages ≠ 0) (kernelPgd : Nat) :
    (s.createUserPageTable kernelPgd).2 ≠ 0 := by
  unfold Machine.createUserPageTable
  rw [if_neg ((allocPage_ne_zero_iff _).mpr h)]
  exact (allocPage_ne_zero_iff _).mpr h

/-- Once there is a page table, its page is gone. -/
theorem Kernel.loadAndExec_late (hval : validate file size = true)
    (hfree : freeCount k.machine.pages ≠ 0) :
    (k.loadAndExec kernelPgd (some (file, size))).1.machine.pages ≠ k.machine.pages := by
  -- the page of the table: clear before, set behind every exit
  obtain ⟨i, hclear, hset⟩ : ∃ i, bitmapTest k.machine.pages.bitmap i = false ∧
      bitmapTest (k.machine.createUserPageTable kernelPgd).1.pages.bitmap i = true := by
    have hne := (allocPage_ne_zero_iff _).mpr hfree
    rcases allocPage_cases k.machine with h0 | ⟨i, hi, he⟩
    · rw [h0] at hne
      exact absurd rfl hne
    · refine ⟨i, hi.2, ?_⟩
      unfold Machine.createUserPageTable
      rw [if_neg hne, he]
      simp [bitmapTest_take_one]
  suffices hkept : bitmapTest
      (k.loadAndExec kernelPgd (some (file, size))).1.machine.pages.bitmap i = true by
    intro heq
    rw [heq, hclear] at hkept
    cases hkept
  have hsegs := (marks_loadSegments file size (k.machine.createUserPageTable kernelPgd).2
    (headers file)
    (k.machine.createUserPageTable kernelPgd).1).bits i hset
  unfold Kernel.loadAndExec
  dsimp only
  rw [if_neg (by rw [hval]; decide), if_neg (createUserPageTable_ne_zero hfree kernelPgd)]
  split
  · exact hsegs
  have huser := @createUser_keeps
    { k with machine := (loadSegments file size (k.machine.createUserPageTable kernelPgd).2
      (headers file)
      (k.machine.createUserPageTable kernelPgd).1).1 }
    i (eEntry file) (k.machine.createUserPageTable kernelPgd).2 hsegs
  split <;> exact huser

end

/-! ## The heap -/

section
variable {s s' : LoadState} {f : FileRead} {kernelPgd buf : Nat} {m : Mem}

/-- What `kmalloc` answers, and that the buffer comes back whatever is put into it. -/
theorem kmalloc_buffer (hs : Heap.heapLTS.Reachable s.heap) (h0 : f.fsize ≠ 0) :
    ∃ m buf, Heap.kmalloc s.heap.mem s.heap.firstBlock f.fsize = some (m, buf) ∧
      (buf = 0 ↔ NoBuffer s.heap f.fsize) ∧
      (buf = 0 → Heap.headers m s.heap.firstBlock = Heap.headers s.heap.mem s.heap.firstBlock) ∧
      (buf ≠ 0 → ∀ src, Heap.headers
        (Heap.kfree (blit m buf f.bytes.length src) buf) s.heap.firstBlock =
        Heap.headers s.heap.mem s.heap.firstBlock) := by
  have hsmall := f.small
  obtain ⟨T, h⟩ := Heap.holds_inductive.reachable s.heap hs
  obtain ⟨m, buf, hk, hprom⟩ := h.keeps_promise h0 (by omega)
  refine ⟨m, buf, hk, ?_, ?_, ?_⟩
  · rw [hprom.null]
    have hwalk := h.wellFormed.walk
    constructor
    · intro hno bs hbs
      rw [hwalk] at hbs
      cases hbs
      exact hno
    · intro hno
      exact hno _ hwalk
  · intro hnull
    subst hnull
    rcases h.kmalloc_cases h0 with ⟨hk₁, -⟩ | ⟨m₁, x, b, hk₁, -⟩
    · rw [hk] at hk₁
      cases hk₁
      rfl
    · rw [hk] at hk₁
      cases hk₁
  · intro hbuf src
    obtain ⟨m₁, p₁, T₁, hk₁, h₁, hused₁, -⟩ := @Heap.holds_malloc _ _ _ _ h f.fsize
    rw [hk] at hk₁
    cases hk₁
    rw [if_neg hbuf] at h₁
    have hroom : f.bytes.length ≤ Heap.payload m buf := Nat.le_trans f.fits (hprom.room hbuf)
    exact h.free_new (Heap.holds_blit h₁ List.mem_cons_self hroom src) hused₁

theorem validate_buffer (m : Mem) (buf : Nat) (f : FileRead) :
    validate (fun i => blit m buf f.bytes.length f.content (buf + i)) f.bytes.length =
      validate f.content f.bytes.length := by
  apply validate_congr
  intro i hi
  rw [blit_inside (by omega) (by omega), Nat.add_sub_cancel_left]

/-- The load returns: the list of blocks is never longer than the loop of `kmalloc` goes. -/
theorem loadAndExec_returns (hs : Heap.heapLTS.Reachable s.heap) :
    ∃ s' pid, s.loadAndExec kernelPgd f = some (s', pid) := by
  unfold LoadState.loadAndExec
  by_cases h0 : f.fsize = 0
  · rw [if_pos h0]
    exact ⟨s, 0, rfl⟩
  · obtain ⟨m, buf, hk, -⟩ := kmalloc_buffer hs h0
    rw [if_neg h0, hk]
    exact ⟨_, _, rfl⟩

/-- A load that returns 0 leaves no trace if and only if it ends before it has a page table. -/
theorem load_no_trace_iff (hs : Heap.heapLTS.Reachable s.heap)
    (h : s.loadAndExec kernelPgd f = some (s', 0)) : LoadNoTrace s s' ↔ EndsEarly s f := by
  unfold LoadState.loadAndExec at h
  by_cases h0 : f.fsize = 0
  · rw [if_pos h0] at h
    cases h
    exact iff_of_true ⟨rfl, rfl, rfl⟩ (.inl h0)
  obtain ⟨m, buf, hk, hnull, hsame, hback⟩ := kmalloc_buffer hs h0
  rw [if_neg h0, hk, Option.map_some, Option.some_inj, LoadState.loadInto] at h
  by_cases hbuf : buf = 0
  · rw [if_pos hbuf] at h
    cases h
    exact iff_of_true ⟨hsame hbuf, rfl, rfl⟩ (.inr (.inl (hnull.mp hbuf)))
  rw [if_neg hbuf] at h
  have hblocks := hback hbuf f.content
  have hval := validate_buffer m buf f
  rw [Prod.mk.injEq] at h
  obtain ⟨rfl, -⟩ := h
  by_cases hearly : f.ok = false ∨ validate f.content f.bytes.length = false ∨
      freeCount s.kernel.machine.pages = 0
  · refine iff_of_true ?_ (.inr (.inr hearly))
    have hkernel := @Kernel.loadAndExec_early s.kernel kernelPgd
      (if f.ok then some (fun i => blit m buf f.bytes.length f.content (buf + i), f.bytes.length)
        else none)
      (by
        intro file size hread
        cases hok : f.ok with
        | false =>
          rw [hok] at hread
          cases hread
        | true =>
          rw [hok] at hread hearly
          cases hread
          rw [hval]
          exact hearly.resolve_left (by decide))
    exact ⟨hblocks, by rw [hkernel], by rw [hkernel]⟩
  · refine iff_of_false ?_ ?_
    · intro hno
      rw [not_or, not_or] at hearly
      obtain ⟨hok, hvalid, hfree⟩ := hearly
      rw [Bool.not_eq_false] at hok hvalid
      have hpages := hno.pages
      simp only [hok, if_true] at hpages
      exact Kernel.loadAndExec_late (hval.trans hvalid) hfree hpages
    · intro hends
      rcases hends with hz | hno | hrest
      · exact h0 hz
      · exact hbuf (hnull.mpr hno)
      · exact hearly hrest

end

/-! ## A file that is no executable, and one page too few -/

def textFile : FileRead := ⟨4, [0x74, 0x65, 0x78, 0x74], true, by decide, by decide⟩

/-- The file of `demoElf` with one segment of one byte. -/
def programFile : FileRead :=
  ⟨121, (List.range 121).map (demoElf [0x80000000]), true, by decide, by simp⟩

/-- The heap of boot and a kernel with one free page. -/
def onePageLeft : LoadState :=
  ⟨Heap.bootHeap, Kernel.init ⟨fun _ => 0, ⟨fun _ => 0, 1, 1⟩, fun _ _ => none⟩ 0⟩

theorem onePageLeft_runs : (onePageLeft.loadAndExec 0 textFile).map (·.2) = some 0 ∧
    (onePageLeft.loadAndExec 0 programFile).map (fun r => (r.2, r.1.kernel.machine.pages.freePages)) =
      some (0, 0) ∧
    onePageLeft.kernel.machine.pages.freePages = 1 ∧ validate textFile.content 4 = false := by
  decide +kernel

theorem load_no_trace_iff_text :
    ∃ s', onePageLeft.loadAndExec 0 textFile = some (s', 0) ∧ LoadNoTrace onePageLeft s' := by
  obtain ⟨hpid, -, -, hval⟩ := onePageLeft_runs
  obtain ⟨s', pid, hload⟩ := @loadAndExec_returns onePageLeft textFile 0 Heap.bootHeap_reachable
  rw [hload] at hpid
  cases hpid
  refine ⟨s', hload, (load_no_trace_iff Heap.bootHeap_reachable hload).mpr ?_⟩
  exact .inr (.inr (.inr (.inl hval)))

/-- **Counterexample.** The one free page becomes the page table; there is none for the
segment, and the load returns 0 with no page free. -/
theorem load_keeps_page : ∃ s', onePageLeft.loadAndExec 0 programFile = some (s', 0) ∧
      onePageLeft.kernel.machine.pages.freePages = 1 ∧ s'.kernel.machine.pages.freePages = 0 ∧
      ¬ LoadNoTrace onePageLeft s' := by
  obtain ⟨-, hrun, hbefore, -⟩ := onePageLeft_runs
  obtain ⟨s', pid, hload⟩ := @loadAndExec_returns onePageLeft programFile 0 Heap.bootHeap_reachable
  rw [hload, Option.map_some, Option.some_inj, Prod.mk.injEq] at hrun
  obtain ⟨rfl, hafter⟩ := hrun
  refine ⟨s', hload, hbefore, hafter, ?_⟩
  intro h
  rw [h.pages, hbefore] at hafter
  cases hafter

end HackersOs.L5

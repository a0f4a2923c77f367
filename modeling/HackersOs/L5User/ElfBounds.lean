import HackersOs.Core.Traced
import HackersOs.L5User.Elf

/-!
# Where the ELF loader reads

`loadTraced` is `load_and_exec` after `read_file`, with every access to the
program headers and the segment bytes written down as an offset into the buffer,
and with the sums those offsets come from. A header is read field by field: the
type always, the rest only for `PT_LOAD`.

The loader compares `copy_off + copy_len` with the number of bytes read and
nothing else; the headers themselves are not compared with anything.

Result: `elf_in_file_iff`: on which files, in which kernel, the loader stays in
the buffer.
-/
namespace HackersOs.L5
open HackersOs.Core L2 L2.Mmu L2.Pages HackersOs.Core.Traced

inductive LoadEvent where
  /-- the bytes from `off` to `off + len` of the buffer are read -/
  | read (off len : Nat)
  /-- a sum of two `u64` -/
  | sum (a b : Nat)
  /-- a product of two `u16`, which C computes as an `int` -/
  | product (a b : Nat)
  deriving DecidableEq

/-- The access is in the file, the sum or product does not wrap. -/
def StaysIn (size : Nat) : LoadEvent → Prop
  | .read off len => off + len ≤ size
  | .sum a b => a + b < 2 ^ 64
  | .product a b => a * b < 2 ^ 31

@[simp] theorem staysIn_read (size off len : Nat) : StaysIn size (.read off len) ↔ off + len ≤ size :=
  Iff.rfl

@[simp] theorem staysIn_sum (size a b : Nat) : StaysIn size (.sum a b) ↔ a + b < 2 ^ 64 := Iff.rfl

@[simp] theorem staysIn_product (size a b : Nat) : StaysIn size (.product a b) ↔ a * b < 2 ^ 31 :=
  Iff.rfl

/-! ## The code, with its events -/

/-- `file_data + ehdr->e_phoff + i * ehdr->e_phentsize`, as an offset. mirrors src/elf/elf.cpp:70 -/
def phdrOff (file : Mem) (i : Nat) : Nat := (ePhoff file + i * ePhentsize file) % 2 ^ 64

/-- `memcpy(page, file_data + copy_off, copy_len)`. mirrors src/elf/elf.cpp:99-100 -/
def Machine.copyIn (s : Machine) (file : Mem) (page copyOff len : Nat) : Machine :=
  { s with mem := blit s.mem page len fun i => file (copyOff + i) }

/-- `copyPage` with its events; the header is at `off`. mirrors src/elf/elf.cpp:91-102 -/
def copyPageTraced (file : Mem) (bytesRead off : Nat) (ph : Phdr) (va : Nat) (s : Machine)
    (page : Nat) : Traced LoadEvent Machine := do
  .event (.read (off + 16) 8)
  .event (.read (off + 32) 8)
  let segOffset := (va + 2 ^ 64 - ph.pVaddr) % 2 ^ 64
  if segOffset < ph.pFilesz then do
    .event (.read (off + 8) 8)
    .event (.sum ph.pOffset segOffset)
    let copyOff := (ph.pOffset + segOffset) % 2 ^ 64
    let len := copyLen segOffset ph.pFilesz
    .event (.sum copyOff len)
    if (copyOff + len) % 2 ^ 64 ≤ bytesRead then do
      .event (.read copyOff len)
      pure (s.copyIn file page copyOff len)
    else pure s
  else pure s

/-- The page loop; `copy` fills the page at an address. mirrors src/elf/elf.cpp:81-103 -/
def pagesTraced (copy : Nat → Machine → Nat → Traced LoadEvent Machine) (pgd : Nat) :
    Nat → Nat → Machine → Traced LoadEvent (Machine × Bool)
  | 0, _, s => pure (s, true)
  | n + 1, va, s =>
    let r := s.allocPage
    if r.2 = 0 then pure (r.1, false)
    else do
      let s' ← copy va (r.1.mapUserPage pgd va r.2 pteUserRwx) r.2
      pagesTraced copy pgd n (va + 4096) s'

/-- `loadPages` with its events. -/
def loadPagesTraced (file : Mem) (bytesRead pgd off : Nat) (ph : Phdr) (n va : Nat) (s : Machine) :
    Traced LoadEvent (Machine × Bool) :=
  pagesTraced (copyPageTraced file bytesRead off ph) pgd n va s

/-- The header loop over the given indices; `load` loads the segment of the header at an
offset. mirrors src/elf/elf.cpp:68-104 -/
def segmentsTraced (file : Mem) (load : Nat → Phdr → Machine → Traced LoadEvent (Machine × Bool)) :
    List Nat → Machine → Traced LoadEvent (Machine × Bool)
  | [], s => pure (s, true)
  | i :: rest, s => do
    .event (.product i (ePhentsize file))
    .event (.sum (ePhoff file) (i * ePhentsize file))
    .event (.read (phdrOff file i) 4)
    let ph := phdrAt file (phdrOff file i)
    if ph.pType ≠ ptLoad then segmentsTraced file load rest s
    else do
      .event (.read (phdrOff file i + 16) 8)
      .event (.read (phdrOff file i + 40) 8)
      let r ← load (phdrOff file i) ph s
      if r.2 then segmentsTraced file load rest r.1 else pure (r.1, false)

/-- `loadSegments` with its events. -/
def loadSegmentsTraced (file : Mem) (bytesRead pgd : Nat) (is : List Nat) (s : Machine) :
    Traced LoadEvent (Machine × Bool) :=
  segmentsTraced file
    (fun off ph s => loadPagesTraced file bytesRead pgd off ph
      ((ph.stop - ph.start) / 4096) ph.start s)
    is s

/-- `loadAndExec` with its events. mirrors src/elf/elf.cpp:49-117 -/
def Kernel.loadTraced (k : Kernel) (kernelPgd : Nat) (file : Mem) (bytesRead : Nat) :
    Traced LoadEvent (Kernel × Nat) :=
  if validate file bytesRead = false then pure (k, 0)
  else
    let r := k.machine.createUserPageTable kernelPgd
    if r.2 = 0 then pure ({ k with machine := r.1 }, 0)
    else do
      let l ← loadSegmentsTraced file bytesRead r.2 (List.range (ePhnum file)) r.1
      if l.2 = false then pure ({ k with machine := l.1 }, 0)
      else
        let c := { k with machine := l.1 }.createUser (eEntry file) r.2
        match c.2 with
        | none => pure (c.1, 0)
        | some i => pure (c.1, (c.1.procs i).pid)

section
variable {s : Machine} {file : Mem} {size pgd off : Nat} {ph : Phdr}

theorem copyPageTraced_value (file : Mem) (size off : Nat) (ph : Phdr) (va : Nat) (s : Machine)
    (page : Nat) :
    (copyPageTraced file size off ph va s page).value = copyPage s file size ph va page := by
  unfold copyPageTraced copyPage
  -- the sums stay closed: the two sides differ in the events only
  generalize (va + 2 ^ 64 - ph.pVaddr) % 2 ^ 64 = seg
  rw [value_bind, value_bind]
  by_cases hseg : seg < ph.pFilesz
  · rw [if_pos hseg, if_pos hseg, value_bind, value_bind, value_bind]
    generalize (ph.pOffset + seg) % 2 ^ 64 = start
    by_cases hend : (start + copyLen seg ph.pFilesz) % 2 ^ 64 ≤ size
    · rw [if_pos hend, if_pos hend, value_bind, value_pure, Machine.copyIn]
    · rw [if_neg hend, if_neg hend, value_pure]
  · rw [if_neg hseg, if_neg hseg, value_pure]

theorem loadPagesTraced_value (file : Mem) (size pgd off : Nat) (ph : Phdr) (n va : Nat)
    (s : Machine) :
    (loadPagesTraced file size pgd off ph n va s).value = loadPages file size pgd ph n va s := by
  unfold loadPagesTraced
  induction n generalizing va s with
  | zero => rfl
  | succ n ih =>
    rw [pagesTraced, loadPages]
    by_cases h0 : s.allocPage.2 = 0
    · rw [if_pos h0, if_pos h0, value_pure]
    · rw [if_neg h0, if_neg h0, value_bind, copyPageTraced_value, ih]

theorem loadSegmentsTraced_value (file : Mem) (size pgd : Nat) (is : List Nat) (s : Machine) :
    (loadSegmentsTraced file size pgd is s).value =
      loadSegments file size pgd (is.map fun i => phdrAt file (phdrOff file i)) s := by
  unfold loadSegmentsTraced
  induction is generalizing s with
  | nil => rfl
  | cons i rest ih =>
    rw [segmentsTraced, List.map_cons, loadSegments, value_bind, value_bind,
      value_bind]
    generalize phdrAt file (phdrOff file i) = ph
    by_cases ht : ph.pType ≠ ptLoad
    · rw [if_pos ht, if_pos ht, ih]
    rw [if_neg ht, if_neg ht, value_bind, value_bind, value_bind,
      loadPagesTraced_value]
    generalize loadPages file size pgd ph ((ph.stop - ph.start) / 4096) ph.start s = r
    by_cases hr : r.2 = true
    · rw [if_pos hr, if_pos hr, ih]
    · rw [if_neg hr, if_neg hr, value_pure]

theorem headers_eq (file : Mem) :
    (List.range (ePhnum file)).map (fun i => phdrAt file (phdrOff file i)) = headers file := rfl

/-- The traced loader computes what the loader computes. -/
theorem Kernel.loadTraced_value (k : Kernel) (kernelPgd : Nat) (file : Mem) (size : Nat) :
    (k.loadTraced kernelPgd file size).value = k.loadAndExec kernelPgd (some (file, size)) := by
  unfold Kernel.loadTraced Kernel.loadAndExec
  dsimp only
  split
  · rfl
  split
  · rfl
  rw [value_bind, loadSegmentsTraced_value, headers_eq]
  generalize loadSegments file size (k.machine.createUserPageTable kernelPgd).2 (headers file)
    (k.machine.createUserPageTable kernelPgd).1 = l
  split
  · rfl
  · generalize Kernel.createUser _ _ _ = c
    cases hc : c.2 with
    | none => rfl
    | some i => rfl

/-! ## One page -/

/-- The sums for the page at `va` do not wrap. -/
def Phdr.PageFits (ph : Phdr) (va : Nat) : Prop :=
  (va + 2 ^ 64 - ph.pVaddr) % 2 ^ 64 < ph.pFilesz →
    ph.pOffset + (va + 2 ^ 64 - ph.pVaddr) % 2 ^ 64 +
      copyLen ((va + 2 ^ 64 - ph.pVaddr) % 2 ^ 64) ph.pFilesz < 2 ^ 64

instance (ph : Phdr) (va : Nat) : Decidable (ph.PageFits va) := by
  unfold Phdr.PageFits; infer_instance

/-- With the header in the file, only the sums of the copy are left to look at:
without a wrap the comparison with the number of bytes read is the right one. -/
theorem copyPageTraced_every (hoff : off + 48 ≤ size) (va page : Nat) :
    Every (StaysIn size) (copyPageTraced file size off ph va s page) ↔ ph.PageFits va := by
  unfold copyPageTraced Phdr.PageFits
  generalize (va + 2 ^ 64 - ph.pVaddr) % 2 ^ 64 = seg
  rw [every_bind, every_event, every_bind, every_event, staysIn_read,
    staysIn_read]
  by_cases hseg : seg < ph.pFilesz
  · rw [if_pos hseg, every_bind, every_event, every_bind, every_event,
      every_bind, every_event, staysIn_read, staysIn_sum, staysIn_sum]
    generalize copyLen seg ph.pFilesz = len
    constructor
    · intro h _
      obtain ⟨-, -, -, hsum, hend, -⟩ := h
      rw [Nat.mod_eq_of_lt hsum] at hend
      exact hend
    · intro h
      have hend := h hseg
      have hsum : ph.pOffset + seg < 2 ^ 64 := by omega
      rw [Nat.mod_eq_of_lt hsum, Nat.mod_eq_of_lt hend]
      refine ⟨by omega, by omega, by omega, hsum, hend, ?_⟩
      by_cases hin : ph.pOffset + seg + len ≤ size
      · rw [if_pos hin, every_bind, every_event, staysIn_read]
        exact ⟨hin, every_pure _⟩
      · rw [if_neg hin]
        exact every_pure _
  · rw [if_neg hseg]
    refine iff_of_true ⟨by omega, by omega, every_pure _⟩ ?_
    intro hlt
    exact absurd hlt hseg

/-! ## The loops -/

/-- The loop comes to page `j` if the first `j + 1` pages could be allocated. -/
theorem loadPagesTraced_every (hoff : off + 48 ≤ size) {n va : Nat} :
    Every (StaysIn size) (loadPagesTraced file size pgd off ph n va s) ↔
      ∀ j < n, (loadPages file size pgd ph (j + 1) va s).2 = true → ph.PageFits (va + j * 4096) := by
  induction n generalizing va s with
  | zero => exact iff_of_true (every_pure _) fun j hj => absurd hj (Nat.not_lt_zero j)
  | succ n ih =>
    unfold loadPagesTraced at ih ⊢
    rw [pagesTraced, Nat.forall_lt_succ_left]
    simp only [loadPages]
    by_cases h0 : s.allocPage.2 = 0
    · simp only [h0, if_true]
      exact iff_of_true (every_pure _) (by simp)
    · simp only [if_neg h0]
      rw [every_bind, copyPageTraced_every hoff, copyPageTraced_value, ih]
      simp [Nat.add_mul, Nat.add_assoc, Nat.add_comm 4096, loadPages]

/-- Header `i` and, for `PT_LOAD`, the pages of its segment that the loop comes to from `s`. -/
def HeaderFits (file : Mem) (size pgd i : Nat) (s : Machine) : Prop :=
  i * ePhentsize file < 2 ^ 31 ∧ ePhoff file + i * ePhentsize file + 4 ≤ size ∧
    ((phdrAt file (phdrOff file i)).pType = ptLoad → ePhoff file + i * ePhentsize file + 48 ≤ size ∧
      ∀ j < ((phdrAt file (phdrOff file i)).stop - (phdrAt file (phdrOff file i)).start) / 4096,
        (loadPages file size pgd (phdrAt file (phdrOff file i)) (j + 1)
          (phdrAt file (phdrOff file i)).start s).2 = true →
        (phdrAt file (phdrOff file i)).PageFits ((phdrAt file (phdrOff file i)).start + j * 4096))

instance (file : Mem) (size pgd i : Nat) (s : Machine) :
    Decidable (HeaderFits file size pgd i s) := by
  unfold HeaderFits; infer_instance

/-- Every header the loader comes to lies in the file, and no sum wraps for a page it
comes to. `s` is the machine with the new table `pgd`. -/
def FileFits (file : Mem) (size pgd : Nat) (s : Machine) : Prop :=
  ∀ i < ePhnum file, (loadSegments file size pgd ((headers file).take i) s).2 = true →
    HeaderFits file size pgd i (loadSegments file size pgd ((headers file).take i) s).1

instance (file : Mem) (size pgd : Nat) (s : Machine) : Decidable (FileFits file size pgd s) := by
  unfold FileFits; infer_instance

theorem phdrOff_eq {i : Nat} (h : ePhoff file + i * ePhentsize file < 2 ^ 64) :
    phdrOff file i = ePhoff file + i * ePhentsize file := Nat.mod_eq_of_lt h

/-- The events of header `i`. -/
theorem headerFits_iff (hsize : size < 2 ^ 32) {i : Nat} : HeaderFits file size pgd i s ↔
    i * ePhentsize file < 2 ^ 31 ∧ ePhoff file + i * ePhentsize file < 2 ^ 64 ∧
      phdrOff file i + 4 ≤ size ∧
      ((phdrAt file (phdrOff file i)).pType = ptLoad → phdrOff file i + 48 ≤ size ∧
        Every (StaysIn size) (loadPagesTraced file size pgd (phdrOff file i)
          (phdrAt file (phdrOff file i))
          (((phdrAt file (phdrOff file i)).stop - (phdrAt file (phdrOff file i)).start) / 4096)
          (phdrAt file (phdrOff file i)).start s)) := by
  refine and_congr_right fun _ => ?_
  by_cases hsum : ePhoff file + i * ePhentsize file < 2 ^ 64
  · rw [and_iff_right hsum, ← phdrOff_eq hsum]
    refine and_congr_right fun _ => imp_congr_right fun _ => and_congr_right fun hin => ?_
    rw [loadPagesTraced_every hin]
  · exact iff_of_false (fun h => hsum (by omega)) fun h => hsum h.1

/-- Headers `a` to `a + n - 1`. -/
def headersFrom (file : Mem) (a n : Nat) : List Phdr :=
  (List.range' a n).map fun i => phdrAt file (phdrOff file i)

theorem headersFrom_zero (file : Mem) (a : Nat) : headersFrom file a 0 = [] := rfl

theorem headersFrom_succ (file : Mem) (a n : Nat) :
    headersFrom file a (n + 1) = phdrAt file (phdrOff file a) :: headersFrom file (a + 1) n := rfl

theorem headers_take {i : Nat} (hi : i < ePhnum file) :
    (headers file).take i = headersFrom file 0 i := by
  rw [← headers_eq, ← List.map_take, List.take_range, Nat.min_eq_left hi.le, List.range_eq_range',
    headersFrom]

/-- The loop comes to header `a + m` if the headers before it were loaded. -/
theorem loadSegmentsTraced_every (hsize : size < 2 ^ 32) {a n : Nat} :
    Every (StaysIn size) (loadSegmentsTraced file size pgd (List.range' a n) s) ↔
      ∀ m < n, (loadSegments file size pgd (headersFrom file a m) s).2 = true →
        HeaderFits file size pgd (a + m) (loadSegments file size pgd (headersFrom file a m) s).1 := by
  induction n generalizing a s with
  | zero => exact iff_of_true (every_pure _) fun j hj => absurd hj (Nat.not_lt_zero j)
  | succ n ih =>
    unfold loadSegmentsTraced at ih ⊢
    rw [List.range'_succ, segmentsTraced, Nat.forall_lt_succ_left]
    simp only [every_bind, every_event, staysIn_read, staysIn_sum, staysIn_product,
      headersFrom_zero, headersFrom_succ, loadSegments, Nat.add_zero, ← Nat.add_assoc,
      Nat.add_right_comm a _ 1, forall_const, headerFits_iff hsize (i := a), and_assoc]
    refine and_congr_right fun _ => and_congr_right fun _ => and_congr_right fun _ => ?_
    generalize phdrAt file (phdrOff file a) = ph
    by_cases ht : ph.pType = ptLoad
    · have h48 : ∀ {p : Prop}, phdrOff file a + 16 + 8 ≤ size ∧ phdrOff file a + 40 + 8 ≤ size ∧ p ↔
          phdrOff file a + 48 ≤ size ∧ p := fun {p} => by
        rw [← and_assoc]
        exact and_congr_left fun _ => by omega
      simp only [ht, ne_eq, not_true, if_false, every_bind, every_event, staysIn_read,
        loadPagesTraced_value, forall_const, h48, and_assoc]
      generalize loadPages file size pgd ph ((ph.stop - ph.start) / 4096) ph.start s = r
      cases hr : r.2 with
      | false => simp [every_pure]
      | true => simp [ih]
    · simp only [ht, ne_eq, not_false_eq_true, if_true, ih, false_imp_iff, true_and]

/-! ## The loader -/

/-- Only the segment loop reads the file. -/
theorem Kernel.loadTraced_trace {k : Kernel} {kernelPgd : Nat} (hval : validate file size = true)
    (h0 : (k.machine.createUserPageTable kernelPgd).2 ≠ 0) :
    (k.loadTraced kernelPgd file size).trace =
      (loadSegmentsTraced file size (k.machine.createUserPageTable kernelPgd).2
        (List.range (ePhnum file)) (k.machine.createUserPageTable kernelPgd).1).trace := by
  unfold Kernel.loadTraced
  dsimp only
  rw [if_neg (by rw [hval]; decide), if_neg h0, trace_bind]
  split
  · rw [trace_pure, List.append_nil]
  · split
    all_goals rw [trace_pure, List.append_nil]

/-- The loader reads headers and segments in the file only, without a wrap, if and only if every
header it comes to lies in the file and no sum wraps for a page it comes to. Without a page
for the new table it reads neither. -/
theorem elf_in_file_iff (k : Kernel) (kernelPgd : Nat) (hval : validate file size = true)
    (hsize : size < 2 ^ 32) : Every (StaysIn size) (k.loadTraced kernelPgd file size) ↔
      ((k.machine.createUserPageTable kernelPgd).2 ≠ 0 →
        FileFits file size (k.machine.createUserPageTable kernelPgd).2
          (k.machine.createUserPageTable kernelPgd).1) := by
  by_cases h0 : (k.machine.createUserPageTable kernelPgd).2 = 0
  · refine iff_of_true ?_ (absurd h0)
    unfold Kernel.loadTraced
    rw [if_neg (by rw [hval]; decide), if_pos h0]
    exact every_pure _
  · rw [Every, Kernel.loadTraced_trace hval h0, ← Every, List.range_eq_range',
      loadSegmentsTraced_every hsize, forall_prop_of_true h0]
    refine forall₂_congr fun i hi => ?_
    rw [headers_take hi, Nat.zero_add]

end

/-- A file with two segments, of one byte each. -/
theorem elf_in_file_iff_demo : validate (demoElf [0x80000000, 0x80001000]) 177 = true ∧
    Every (StaysIn 177)
      (demoKernel.loadTraced 0x40001000 (demoElf [0x80000000, 0x80001000]) 177) := by
  have hval : validate (demoElf [0x80000000, 0x80001000]) 177 = true := by decide +kernel
  refine ⟨hval, (elf_in_file_iff _ _ hval (by decide)).mpr fun _ => ?_⟩
  decide +kernel

/-- **Counterexample.** The first 64 bytes of such a file: the header is valid, and the
program header is read behind the end. -/
theorem elf_reads_behind_end : validate (demoElf [0x80000000]) 64 = true ∧
    .read 64 4 ∈ (demoKernel.loadTraced 0x40001000 (demoElf [0x80000000]) 64).trace ∧
    ¬ Every (StaysIn 64) (demoKernel.loadTraced 0x40001000 (demoElf [0x80000000]) 64) := by
  have hruns : validate (demoElf [0x80000000]) 64 = true ∧
      .read 64 4 ∈ (demoKernel.loadTraced 0x40001000 (demoElf [0x80000000]) 64).trace := by
    decide +kernel
  refine ⟨hruns.1, hruns.2, ?_⟩
  intro h
  have hread : 64 + 4 ≤ 64 := h _ hruns.2
  omega

end HackersOs.L5

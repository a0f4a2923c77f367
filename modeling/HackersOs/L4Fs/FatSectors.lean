import HackersOs.L4Fs.Volume

/-!
# The FAT on the disk

What the sector-level functions do to the disk as a whole, on a volume whose
geometry fits (`GeomOk`) and without I/O errors. `volOf` reads a volume off a
disk: FAT entries from the first copy, directory slots from the data area.

Results, for a cluster in range:
* `nextCluster_spec`: `next_cluster` is the FAT entry.
* `setFatEntry_spec`: `set_fat_entry` is an update of that entry; copies that
  agreed still agree, the data area is untouched.
* `allocCluster_spec`: `alloc_cluster` takes a free cluster, marks it as an end
  and clears it, or there is none and nothing changes.
-/
namespace HackersOs.L4.Fat
open HackersOs.Core

variable {c' j x : Nat} {s' s'' : Fs}

/-- No request fails. -/
def noFaults : Nat → Bool := fun _ => false

structure GeomOk (g : Geom) (cap : Nat) : Prop where
  spc_pos : 1 ≤ g.sectorsPerCluster
  fats_pos : 1 ≤ g.numFats
  data_eq : g.dataStart = g.fatStart + g.numFats * g.fatSize
  fat_room : 4 * (g.totalClusters + 2) ≤ 512 * g.fatSize
  data_room : g.dataStart + g.totalClusters * g.sectorsPerCluster ≤ cap
  data_lt : g.dataStart + g.totalClusters * g.sectorsPerCluster < 2 ^ 32
  numbers : Numbers g

/-- The copies of the FAT lie on the disk, in front of the data area. -/
structure FatRoom (g : Geom) (cap : Nat) : Prop where
  fats_pos : 1 ≤ g.numFats
  front : g.fatStart + g.numFats * g.fatSize ≤ g.dataStart
  on_disk : g.fatStart + g.numFats * g.fatSize ≤ cap
  lt : g.fatStart + g.numFats * g.fatSize < 2 ^ 32

/-- Number `c` has an entry in the FAT. -/
structure InFat (g : Geom) (c : Nat) : Prop where
  entry : 4 * c + 4 ≤ 512 * g.fatSize
  number : c < 2 ^ 28

/-- The address of a cluster's entry in copy `f` of the FAT. -/
def entryAddr (g : Geom) (f c : Nat) : Nat := 512 * (g.fatStart + f * g.fatSize) + 4 * c

/-- The address of a cluster's data. -/
def clusterAddr (g : Geom) (c : Nat) : Nat :=
  512 * (g.dataStart + (c - 2) * g.sectorsPerCluster)

/-- The volume on a disk. -/
def volOf (g : Geom) (m : Mem) : Vol where
  fat c := read32 m (entryAddr g 0 c) % 2 ^ 28
  slots c := (List.range (16 * g.sectorsPerCluster)).map
    (entryAt fun i => m (clusterAddr g c + i))

/-- All copies of the FAT are the same. -/
def CopiesAgree (g : Geom) (m : Mem) : Prop :=
  ∀ f j, f < g.numFats → j < 512 * g.fatSize →
    m (512 * (g.fatStart + f * g.fatSize) + j) = m (512 * g.fatStart + j)

/-- Only the disk, the buffer and the request count may differ. -/
structure Mounted (s s' : Fs) : Prop where
  g : s'.g = s.g
  mounted : s'.mounted = s.mounted
  capacity : s'.capacity = s.capacity

theorem Mounted.refl (s : Fs) : Mounted s s := ⟨rfl, rfl, rfl⟩

theorem Mounted.trans {s : Fs} (h : Mounted s s') (h' : Mounted s' s'') : Mounted s s'' :=
  ⟨h'.g.trans h.g, h'.mounted.trans h.mounted, h'.capacity.trans h.capacity⟩

/-- Only `sector_buf` and the request count differ. -/
structure Reads (s s' : Fs) : Prop where
  mounted : Mounted s s'
  disk : s'.disk = s.disk

theorem Reads.refl (s : Fs) : Reads s s := ⟨.refl s, rfl⟩

theorem Reads.trans {s : Fs} (h : Reads s s') (h' : Reads s' s'') : Reads s s'' :=
  ⟨h.mounted.trans h'.mounted, h'.disk.trans h.disk⟩

/-! ## Addresses -/

section
variable {g : Geom} {cap c f : Nat}

theorem u32_of_lt (h : x < 2 ^ 32) : u32 x = x := Nat.mod_eq_of_lt h

theorem InRange.lt (hc : InRange g c) (h : Numbers g) : c < 2 ^ 28 := by
  have := hc.2
  unfold Numbers at h
  omega

theorem GeomOk.fatRoom (h : GeomOk g cap) : FatRoom g cap where
  fats_pos := h.fats_pos
  front := Nat.le_of_eq h.data_eq.symm
  on_disk := by
    rw [← h.data_eq]
    exact Nat.le_trans (Nat.le_add_right _ _) h.data_room
  lt := by
    rw [← h.data_eq]
    exact Nat.lt_of_le_of_lt (Nat.le_add_right _ _) h.data_lt

theorem InRange.inFat (hc : InRange g c) (h : GeomOk g cap) : InFat g c where
  entry := by
    have h1 := h.fat_room
    have h2 := hc.2
    omega
  number := hc.lt h.numbers

/-- Number `a` of pieces of size `n` ends in front of number `b`. -/
theorem mul_add_le {a b : Nat} (h : a < b) (n : Nat) : a * n + n ≤ b * n := by
  rw [← Nat.succ_mul]
  exact Nat.mul_le_mul_right n h

/-- Copy `f` of the FAT ends in front of what follows the FAT. -/
theorem copy_end_le (hf : f < g.numFats) :
    g.fatStart + f * g.fatSize + g.fatSize ≤ g.fatStart + g.numFats * g.fatSize := by
  have hmul := mul_add_le hf g.fatSize
  omega

/-- Copy `f` of the FAT ends in front of the data area. -/
theorem GeomOk.copy_le (h : GeomOk g cap) (hf : f < g.numFats) :
    g.fatStart + f * g.fatSize + g.fatSize ≤ g.dataStart :=
  Nat.le_trans (copy_end_le hf) h.fatRoom.front

/-- A cluster ends inside the data area. -/
theorem InRange.cluster_le (hc : InRange g c) :
    (c - 2) * g.sectorsPerCluster + g.sectorsPerCluster ≤ g.totalClusters * g.sectorsPerCluster := by
  have h2 := hc.2
  have h1 := hc.1
  exact mul_add_le (by omega) _

/-- An entry's sector is inside its copy. -/
theorem InFat.entry_lt (hc : InFat g c) : 4 * c / 512 < g.fatSize := by
  have := hc.entry
  omega

theorem GeomOk.entry_lt (h : GeomOk g cap) (hc : InRange g c) : 4 * c / 512 < g.fatSize :=
  (hc.inFat h).entry_lt

theorem InFat.entryOffset (hc : InFat g c) : entryOffset c = 4 * c % 512 := by
  have := hc.number
  unfold Fat.entryOffset
  rw [u32_of_lt (by omega), Nat.mul_comm]

theorem entryOffset_eq (hc : InRange g c) (h : GeomOk g cap) : entryOffset c = 4 * c % 512 :=
  (hc.inFat h).entryOffset

theorem InFat.fatSectorOf (hc : InFat g c) (h : FatRoom g cap) :
    fatSectorOf g c = g.fatStart + 4 * c / 512 := by
  have h1 := hc.number
  have h2 := hc.entry_lt
  have h3 := copy_end_le (g := g) h.fats_pos
  have h4 := h.lt
  unfold Fat.fatSectorOf
  rw [u32_of_lt (x := c * 4) (by omega), Nat.mul_comm c 4, u32_of_lt]
  omega

theorem fatSectorOf_eq (hc : InRange g c) (h : GeomOk g cap) :
    fatSectorOf g c = g.fatStart + 4 * c / 512 := (hc.inFat h).fatSectorOf h.fatRoom

theorem clusterToSector_eq (hc : InRange g c) (h : GeomOk g cap) :
    clusterToSector g c = g.dataStart + (c - 2) * g.sectorsPerCluster := by
  have h1 := hc.cluster_le
  have h2 := h.data_lt
  have h4 := hc.lt h.numbers
  have h5 := hc.1
  have hsub : u32 (c + (2 ^ 32 - 2)) = c - 2 := by
    unfold u32
    omega
  unfold clusterToSector
  rw [hsub, u32_of_lt (x := (c - 2) * g.sectorsPerCluster) (by omega), u32_of_lt]
  omega

/-- Entries of different clusters or copies do not overlap. -/
theorem entries_apart (f f' : Nat) (hc : 4 * c + 4 ≤ 512 * g.fatSize)
    (hc' : 4 * c' + 4 ≤ 512 * g.fatSize) (hne : f ≠ f' ∨ c ≠ c') :
    entryAddr g f c + 4 ≤ entryAddr g f' c' ∨ entryAddr g f' c' + 4 ≤ entryAddr g f c := by
  unfold entryAddr
  rcases Nat.lt_trichotomy f f' with hlt | rfl | hlt
  · have hmul := mul_add_le hlt g.fatSize
    omega
  · omega
  · have hmul := mul_add_le hlt g.fatSize
    omega

theorem InFat.apart (f f' : Nat) (hc : InFat g c) (hc' : 4 * c' + 4 ≤ 512 * g.fatSize)
    (hne : f ≠ f' ∨ c ≠ c') :
    entryAddr g f c + 4 ≤ entryAddr g f' c' ∨ entryAddr g f' c' + 4 ≤ entryAddr g f c :=
  entries_apart f f' hc.entry hc' hne

theorem entryAddr_apart (h : GeomOk g cap) (f f' : Nat) (hc : InRange g c) (hc' : InRange g c')
    (hne : f ≠ f' ∨ c ≠ c') :
    entryAddr g f c + 4 ≤ entryAddr g f' c' ∨ entryAddr g f' c' + 4 ≤ entryAddr g f c :=
  (hc.inFat h).apart f f' (hc'.inFat h).entry hne

/-- An entry lies in its copy. -/
theorem entryAddr_in_copy (h : GeomOk g cap) (hc : InRange g c) :
    entryAddr g f c + 4 ≤ 512 * (g.fatStart + f * g.fatSize) + 512 * g.fatSize := by
  have h1 := (hc.inFat h).entry
  unfold entryAddr
  omega

/-- Different clusters have different sectors. -/
theorem clusterAddr_apart (hc : 2 ≤ c) (hc' : 2 ≤ c') (hne : c ≠ c') :
    clusterAddr g c + 512 * g.sectorsPerCluster ≤ clusterAddr g c' ∨
      clusterAddr g c' + 512 * g.sectorsPerCluster ≤ clusterAddr g c := by
  unfold clusterAddr
  rcases Nat.lt_or_gt_of_ne hne with hlt | hlt
  · have hmul := mul_add_le (show c - 2 < c' - 2 by omega) g.sectorsPerCluster
    omega
  · have hmul := mul_add_le (show c' - 2 < c - 2 by omega) g.sectorsPerCluster
    omega

end

/-! ## Sectors and entries -/

section
variable {flt : Nat → Bool} {s : Fs} {sector : Nat}

theorem readSector_of (hf : flt s.ops = false) (h : sector < s.capacity) :
    readSector flt s sector = ({ s with
      ops := s.ops + 1, buf := blit s.buf 0 512 (sectorOf s.disk sector) }, true) := by
  simp [readSector, hf, Nat.not_le.mpr h]

theorem writeSector_of (hf : flt s.ops = false) (h : sector < s.capacity) (src : Mem) :
    writeSector flt s sector src = ({ s with
      ops := s.ops + 1, disk := blit s.disk (512 * sector) 512 src }, true) := by
  simp [writeSector, hf, Nat.not_le.mpr h]

/-- A read behind the end of the disk. -/
theorem readSector_behind (h : s.capacity ≤ sector) : readSector flt s sector = (s, false) := if_pos h

variable (flt s sector) in
theorem readSector_reads : Reads s (readSector flt s sector).1 := by
  unfold readSector
  split
  · exact .refl s
  · split
    all_goals exact ⟨⟨rfl, rfl, rfl⟩, rfl⟩

/-- A read that succeeds. -/
theorem readSector_true (h : (readSector flt s sector).2 = true) :
    flt s.ops = false ∧ sector < s.capacity := by
  unfold readSector at h
  split at h
  · cases h
  · split at h
    · cases h
    · exact ⟨by simpa using ‹¬ flt s.ops = true›, Nat.not_le.mp ‹_›⟩

/-- A write that succeeds. -/
theorem writeSector_true {src : Mem} (h : (writeSector flt s sector src).2 = true) :
    flt s.ops = false ∧ sector < s.capacity := by
  unfold writeSector at h
  split at h
  · cases h
  · split at h
    · cases h
    · exact ⟨by simpa using ‹¬ flt s.ops = true›, Nat.not_le.mp ‹_›⟩

variable (flt s sector) in
/-- A write changes its sector or nothing. -/
theorem writeSector_frame (src : Mem) : Mounted s (writeSector flt s sector src).1 ∧
    ∀ i, i < 512 * sector ∨ 512 * sector + 512 ≤ i →
      (writeSector flt s sector src).1.disk i = s.disk i := by
  unfold writeSector
  split
  · exact ⟨.refl s, fun _ _ => rfl⟩
  · split
    · exact ⟨⟨rfl, rfl, rfl⟩, fun _ _ => rfl⟩
    · exact ⟨⟨rfl, rfl, rfl⟩, fun _ hi => blit_outside hi⟩

theorem readSector_ok (h : sector < s.capacity) : readSector noFaults s sector = ({ s with
      ops := s.ops + 1, buf := blit s.buf 0 512 (sectorOf s.disk sector) }, true) :=
  readSector_of rfl h

theorem writeSector_ok (h : sector < s.capacity) (src : Mem) :
    writeSector noFaults s sector src = ({ s with
      ops := s.ops + 1, disk := blit s.disk (512 * sector) 512 src }, true) :=
  writeSector_of rfl h src

end

theorem and_low28 (x : Nat) : x &&& 0x0FFFFFFF = x % 2 ^ 28 := Nat.and_two_pow_sub_one_eq_mod x 28

/-- The new value of an entry. -/
def merge28 (old value : Nat) : Nat := old &&& 0xF0000000 ||| value &&& 0x0FFFFFFF

theorem merge28_mod (old value : Nat) : merge28 old value % 2 ^ 28 = value % 2 ^ 28 := by
  have h : 0xF0000000 &&& 0x0FFFFFFF = 0 := by decide
  rw [← and_low28, ← and_low28, merge28, Nat.and_or_distrib_right, Nat.and_assoc, h, Nat.and_zero,
    Nat.zero_or, Nat.and_assoc, Nat.and_self]

theorem merge28_lt (old value : Nat) : merge28 old value < 2 ^ 32 := by
  refine Nat.or_lt_two_pow ?_ ?_
  all_goals exact Nat.lt_of_le_of_lt Nat.and_le_right (by decide)

section
variable {s : Fs} {c : Nat}

/-- Wrapped or not, the offset is that of a word. -/
theorem entryOffset_word (c : Nat) : entryOffset c = 4 * (u32 (c * 4) / 4) % 512 := by
  unfold entryOffset u32
  omega

/-- The entry of `c` in a sector buffer that holds sector `k` of a copy. -/
theorem read32_sector (d b : Mem) (k : Nat) : read32 (blit b 0 512 (sectorOf d k)) (4 * c % 512) =
      read32 d (512 * k + 4 * c % 512) := by
  unfold read32
  rw [readLE_blit (by omega)]
  exact readLE_shift ..

/-- Writing back a sector with one word changed is writing the word. -/
theorem blit_sector (d b : Mem) (k v : Nat) :
    blit d (512 * k) 512 (write32 (blit b 0 512 (sectorOf d k)) (4 * c % 512) v) =
      write32 d (512 * k + 4 * c % 512) v := by
  funext i
  simp only [blit, write32, writeLE, sectorOf]
  by_cases hin : 512 * k ≤ i ∧ i < 512 * k + 512
  · rw [if_pos hin]
    by_cases hword : 512 * k + 4 * c % 512 ≤ i ∧ i < 512 * k + 4 * c % 512 + 4
    · rw [if_pos (by omega), if_pos hword]
      congr 3
      omega
    · rw [if_neg (by omega), if_neg hword, if_pos (by omega)]
      congr 1
      omega
  · rw [if_neg hin, if_neg (by omega)]

theorem entryAddr_sector (g : Geom) (f c : Nat) :
    512 * (g.fatStart + 4 * c / 512 + f * g.fatSize) + 4 * c % 512 = entryAddr g f c := by
  unfold entryAddr
  omega

theorem entryAddr_first (g : Geom) (c : Nat) :
    512 * (g.fatStart + 4 * c / 512) + 4 * c % 512 = entryAddr g 0 c := by
  rw [← entryAddr_sector, Nat.zero_mul, Nat.add_zero]

theorem InFat.nextCluster (hc : InFat s.g c) (h : FatRoom s.g s.capacity) :
    (nextCluster noFaults s c).2 = (volOf s.g s.disk).fat c ∧
      Reads s (nextCluster noFaults s c).1 := by
  have h1 := hc.entry_lt
  have h2 := copy_end_le (g := s.g) h.fats_pos
  have h3 := h.on_disk
  unfold Fat.nextCluster
  rw [hc.fatSectorOf h, readSector_ok (by omega), hc.entryOffset]
  refine ⟨?_, ⟨rfl, rfl, rfl⟩, rfl⟩
  simp only [if_true, and_low28, read32_sector, entryAddr_first]
  rfl

theorem nextCluster_spec (h : GeomOk s.g s.capacity) (hc : InRange s.g c) :
    (nextCluster noFaults s c).2 = (volOf s.g s.disk).fat c ∧
      Mounted s (nextCluster noFaults s c).1 ∧ (nextCluster noFaults s c).1.disk = s.disk := by
  obtain ⟨hval, hreads⟩ := (hc.inFat h).nextCluster h.fatRoom
  exact ⟨hval, hreads.mounted, hreads.disk⟩

theorem nextCluster_reads (flt : Nat → Bool) (s : Fs) (c : Nat) :
    Reads s (nextCluster flt s c).1 := by
  simp only [nextCluster]
  split <;> exact readSector_reads flt s _

/-! ## `set_fat_entry` -/

/-- The entry of `c` set in the copies `f`, …, `f + n - 1`. -/
def setCopies (g : Geom) (c value : Nat) : Nat → Nat → Mem → Mem
  | 0, _, m => m
  | n + 1, f, m => setCopies g c value n (f + 1)
      (write32 m (entryAddr g f c) (merge28 (read32 m (entryAddr g f c)) value))

/-- The sector of copy `f`, as `set_fat_entry` computes it. -/
def copySector (g : Geom) (c f : Nat) : Nat := u32 (fatSectorOf g c + u32 (f * g.fatSize))

/-- The entry at offset `off` set in one sector. -/
def setWord (off value : Nat) (m : Mem) (k : Nat) : Mem :=
  write32 m (512 * k + off) (merge28 (read32 m (512 * k + off)) value)

/-- One copy, wherever its sector is, if its two requests succeed: `sector_buf` is then the
sector written. -/
theorem setFatLoop_step (flt : Nat → Bool) (value n : Nat) {f : Nat}
    (hlt : copySector s.g c f < s.capacity)
    (hr : flt s.ops = false) (hw : flt (s.ops + 1) = false) :
    ∃ b d, setFatLoop flt c value (n + 1) f s =
        setFatLoop flt c value n (f + 1) { s with ops := s.ops + 1 + 1, buf := b, disk := d } ∧
      d = setWord (entryOffset c) value s.disk (copySector s.g c f) ∧
      ∀ i, i < 512 → b i = d (512 * copySector s.g c f + i) := by
  simp only [setFatLoop]
  rw [← copySector, readSector_of hr hlt]
  rw [writeSector_of (by exact hw) (by exact hlt)]
  simp only [if_true, entryOffset_word, read32_sector]
  refine ⟨_, _, rfl, ?_, fun i hi => ?_⟩
  · rw [blit_sector]
    rfl
  · rw [blit_inside (Nat.le_add_right _ i) (by omega), Nat.add_sub_cancel_left]

/-- The sector of copy `f` that `set_fat_entry` reads and writes. -/
theorem setFatLoop_sector {f : Nat} (h : FatRoom s.g s.capacity) (hc : InFat s.g c)
    (hf : f < s.g.numFats) : copySector s.g c f = s.g.fatStart + 4 * c / 512 + f * s.g.fatSize ∧
    s.g.fatStart + 4 * c / 512 + f * s.g.fatSize < s.capacity := by
  have h1 := hc.entry_lt
  have h2 := copy_end_le hf
  have h3 := h.on_disk
  have h4 := h.lt
  refine ⟨?_, by omega⟩
  rw [copySector, hc.fatSectorOf h, u32_of_lt (x := f * s.g.fatSize) (by omega), u32_of_lt (by omega)]

/-- One copy of a FAT that fits. -/
theorem setFatLoop_succ (flt : Nat → Bool) (value n : Nat) {f : Nat} (h : FatRoom s.g s.capacity)
    (hc : InFat s.g c) (hf : f < s.g.numFats) (hr : flt s.ops = false)
    (hw : flt (s.ops + 1) = false) :
    ∃ b d, setFatLoop flt c value (n + 1) f s =
        setFatLoop flt c value n (f + 1) { s with ops := s.ops + 1 + 1, buf := b, disk := d } ∧
      d = write32 s.disk (entryAddr s.g f c) (merge28 (read32 s.disk (entryAddr s.g f c)) value) ∧
      ∀ i, i < 512 → b i = d (512 * (s.g.fatStart + 4 * c / 512 + f * s.g.fatSize) + i) := by
  obtain ⟨hsec, hlt⟩ := setFatLoop_sector h hc hf
  obtain ⟨b, d, hstep, hd, hbuf⟩ := setFatLoop_step flt value n (hsec ▸ hlt) hr hw
  rw [hsec] at hd hbuf
  rw [hc.entryOffset, setWord, entryAddr_sector] at hd
  exact ⟨b, d, hstep, hd, hbuf⟩

/-- One copy, if one of its requests fails: nothing is written and the loop ends. -/
theorem setFatLoop_fail {flt : Nat → Bool} (value n : Nat) {f : Nat} (h : FatRoom s.g s.capacity)
    (hc : InFat s.g c) (hf : f < s.g.numFats)
    (hfail : ¬ (flt s.ops = false ∧ flt (s.ops + 1) = false)) :
    Reads s (setFatLoop flt c value (n + 1) f s).1 := by
  obtain ⟨hsec, hlt⟩ := setFatLoop_sector h hc hf
  have hcap := Nat.not_le.mpr hlt
  rw [copySector] at hsec
  simp only [setFatLoop, hsec]
  cases hr : flt s.ops with
  | true =>
    simp only [readSector, hcap, hr, if_true, if_false, Bool.false_eq_true]
    exact ⟨⟨rfl, rfl, rfl⟩, rfl⟩
  | false =>
    have hw : flt (s.ops + 1) = true := by simpa [hr] using hfail
    rw [readSector_of hr hlt]
    simp only [writeSector, hcap, hw, if_true, if_false, Bool.false_eq_true]
    exact ⟨⟨rfl, rfl, rfl⟩, rfl⟩

/-- Only the entries of `c` change, whatever fails. -/
theorem setFatLoop_frame (flt : Nat → Bool) (value : Nat) {n f : Nat} (h : FatRoom s.g s.capacity)
    (hc : InFat s.g c) (hf : f + n ≤ s.g.numFats) : Mounted s (setFatLoop flt c value n f s).1 ∧
      ∀ i, (∀ k, f ≤ k → k < f + n → i < entryAddr s.g k c ∨ entryAddr s.g k c + 4 ≤ i) →
        (setFatLoop flt c value n f s).1.disk i = s.disk i := by
  induction n generalizing s f with
  | zero => exact ⟨.refl s, fun _ _ => rfl⟩
  | succ n ih =>
    by_cases hok : flt s.ops = false ∧ flt (s.ops + 1) = false
    · obtain ⟨b, d, hstep, rfl, -⟩ := setFatLoop_succ flt value n h hc
        (show f < s.g.numFats by omega) hok.1 hok.2
      obtain ⟨hm, hout⟩ := @ih { s with ops := s.ops + 1 + 1, buf := b, disk := _ } (f + 1) h hc
        (by simp only; omega)
      rw [hstep]
      refine ⟨⟨hm.g, hm.mounted, hm.capacity⟩, fun i hi => ?_⟩
      rw [hout i fun k hk hkn => hi k (by omega) (by omega)]
      exact writeLE_outside (hi f (Nat.le_refl f) (by omega))
    · have hreads := setFatLoop_fail value n h hc (show f < s.g.numFats by omega) hok
      exact ⟨hreads.mounted, fun i _ => by rw [hreads.disk]⟩

theorem setFatLoop_spec {value n f : Nat} (h : FatRoom s.g s.capacity) (hc : InFat s.g c)
    (hf : f + n ≤ s.g.numFats) : ∃ s', setFatLoop noFaults c value n f s = (s', true) ∧
      Mounted s s' ∧ s'.disk = setCopies s.g c value n f s.disk := by
  induction n generalizing s f with
  | zero => exact ⟨s, rfl, .refl s, rfl⟩
  | succ n ih =>
    obtain ⟨b, d, hstep, rfl, -⟩ := setFatLoop_succ noFaults value n h hc
      (show f < s.g.numFats by omega) rfl rfl
    obtain ⟨s', hs', hm, hdisk⟩ :=
      @ih { s with ops := s.ops + 1 + 1, buf := b, disk := _ } (f + 1) h hc
      (by simp only; omega)
    exact ⟨s', hstep.trans hs', ⟨hm.g, hm.mounted, hm.capacity⟩, hdisk⟩

/-- After the last copy. -/
theorem setFatLoop_buf {value n f i : Nat} (h : FatRoom s.g s.capacity) (hc : InFat s.g c)
    (hf : f + (n + 1) ≤ s.g.numFats) (hi : i < 512) :
    (setFatLoop noFaults c value (n + 1) f s).1.buf i =
      (setFatLoop noFaults c value (n + 1) f s).1.disk
        (512 * (s.g.fatStart + 4 * c / 512 + (f + n) * s.g.fatSize) + i) := by
  induction n generalizing s f with
  | zero =>
    obtain ⟨b, d, hstep, -, hbuf⟩ := setFatLoop_succ noFaults value 0 h hc
      (show f < s.g.numFats by omega) rfl rfl
    rw [hstep]
    exact hbuf i hi
  | succ n ih =>
    obtain ⟨b, d, hstep, -, -⟩ := setFatLoop_succ noFaults value (n + 1) h hc
      (show f < s.g.numFats by omega) rfl rfl
    have hnext := @ih { s with ops := s.ops + 1 + 1, buf := b, disk := d } (f + 1) h hc
      (by simp only; omega)
    rw [hstep, hnext, Nat.add_right_comm f 1 n, Nat.add_assoc f n 1]

end

section
variable {g : Geom} {cap c f k n value : Nat} {m m' m'' : Mem}

theorem setCopies_outside {i : Nat}
    (hi : ∀ k, f ≤ k → k < f + n → i < entryAddr g k c ∨ entryAddr g k c + 4 ≤ i) :
    setCopies g c value n f m i = m i := by
  induction n generalizing f m with
  | zero => rfl
  | succ n ih =>
    rw [setCopies, ih fun k hk hkn => hi k (by omega) (by omega)]
    exact writeLE_outside (hi f (Nat.le_refl f) (by omega))

/-- A byte of copy `f` outside the entry of `c` is in no copy's entry of `c`. -/
theorem outside_entries (hc : 4 * c + 4 ≤ 512 * g.fatSize) (hj : j < 512 * g.fatSize)
    (hout : j < 4 * c ∨ 4 * c + 4 ≤ j) (k : Nat) :
    512 * (g.fatStart + f * g.fatSize) + j < entryAddr g k c ∨
      entryAddr g k c + 4 ≤ 512 * (g.fatStart + f * g.fatSize) + j := by
  unfold entryAddr
  rcases Nat.lt_trichotomy f k with hlt | rfl | hlt
  · have hmul := mul_add_le hlt g.fatSize
    omega
  · omega
  · have hmul := mul_add_le hlt g.fatSize
    omega

/-- The bytes of the entry, in every copy written. -/
theorem setCopies_byte (hc : InFat g c) (hj : j < 4) (hk : f ≤ k) (hkn : k < f + n) :
    setCopies g c value n f m (entryAddr g k c + j) =
      UInt8.ofNat (merge28 (read32 m (entryAddr g k c)) value / 256 ^ j) := by
  induction n generalizing f m with
  | zero => omega
  | succ n ih =>
    rw [setCopies]
    rcases Nat.eq_or_lt_of_le hk with rfl | hlt
    · rw [setCopies_outside fun k' hk' _ => ?_, write32, writeLE, if_pos (by omega),
        Nat.add_sub_cancel_left]
      have := hc.apart f k' hc.entry (.inl (by omega))
      omega
    · rw [ih hlt (by omega)]
      have hother := hc.apart f k hc.entry (.inl (by omega))
      congr 3
      exact readLE_writeLE_disjoint hother

/-! ## What a change of one cluster leaves alone -/

/-- At most the entry and the data of cluster `x` change. -/
structure Touches (g : Geom) (x : Nat) (m m' : Mem) : Prop where
  fat : ∀ y, InRange g y → y ≠ x → (volOf g m').fat y = (volOf g m).fat y
  slots : ∀ y, InRange g y → y ≠ x → (volOf g m').slots y = (volOf g m).slots y
  copies : CopiesAgree g m → CopiesAgree g m'

theorem Touches.trans (h : Touches g x m m') (h' : Touches g x m' m'') :
    Touches g x m m'' where
  fat y hy hne := (h'.fat y hy hne).trans (h.fat y hy hne)
  slots y hy hne := (h'.slots y hy hne).trans (h.slots y hy hne)
  copies hm := h'.copies (h.copies hm)

theorem entryAt_congr {b b' : Mem} {e : Nat} (h : ∀ i, 32 * e ≤ i → i < 32 * e + 32 → b i = b' i) :
    entryAt b e = entryAt b' e := by
  have hname : (List.range 11).map (fun i => b (32 * e + i)) =
      (List.range 11).map fun i => b' (32 * e + i) :=
    List.map_congr_left fun i hi => by
      have := List.mem_range.mp hi
      exact h _ (by omega) (by omega)
  unfold entryAt read32
  rw [hname, h (32 * e + 11) (by omega) (by omega),
    readLE_congr fun i h1 h2 => h i (show 32 * e ≤ i by omega) (by omega),
    readLE_congr fun i h1 h2 => h i (show 32 * e ≤ i by omega) (by omega),
    readLE_congr fun i h1 h2 => h i (show 32 * e ≤ i by omega) (by omega)]

theorem slots_congr (h : ∀ i, clusterAddr g c ≤ i →
      i < clusterAddr g c + 512 * g.sectorsPerCluster → m' i = m i) :
    (volOf g m').slots c = (volOf g m).slots c := by
  refine List.map_congr_left fun e he => entryAt_congr fun i h1 h2 => ?_
  have := List.mem_range.mp he
  exact h _ (by omega) (by omega)

/-- Writing to a cluster's data. -/
theorem touches_data (h : GeomOk g cap) (hc : InRange g c) (hout : ∀ i, i < clusterAddr g c ∨
      clusterAddr g c + 512 * g.sectorsPerCluster ≤ i → m' i = m i) :
    Touches g c m m' ∧ ∀ y, InRange g y → (volOf g m').fat y = (volOf g m).fat y := by
  have hdata : 512 * g.dataStart ≤ clusterAddr g c := by
    unfold clusterAddr
    omega
  have hfat : ∀ y, InRange g y → (volOf g m').fat y = (volOf g m).fat y := by
    intro y hy
    have h1 := entryAddr_in_copy (f := 0) h hy
    have h2 := h.copy_le h.fats_pos
    exact congrArg (· % 2 ^ 28) (readLE_congr fun i _ _ => hout i (by omega))
  refine ⟨⟨fun y hy _ => hfat y hy, fun y hy hne => slots_congr fun i h1 h2 => hout i ?_, ?_⟩, hfat⟩
  · have := clusterAddr_apart (g := g) hc.1 hy.1 (Ne.symm hne)
    omega
  · intro hcopies f j hf hj
    have h1 := h.copy_le hf
    rw [hout _ (by omega), hout _ (by omega), hcopies f j hf hj]

theorem CopiesAgree.read32 (h : CopiesAgree g m) (hg : GeomOk g cap) (hc : InRange g c)
    (hf : f < g.numFats) : read32 m (entryAddr g f c) = read32 m (entryAddr g 0 c) := by
  have h1 := hg.fat_room
  have h2 := hc.2
  unfold entryAddr Core.read32
  rw [← readLE_shift, ← readLE_shift]
  refine readLE_congr fun i _ _ => ?_
  rw [h f i hf (by omega), Nat.zero_mul, Nat.add_zero]

/-- `set_fat_entry` on the volume. -/
theorem touches_setCopies (h : GeomOk g cap) (hc : InRange g c) (value : Nat) :
    Touches g c m (setCopies g c value g.numFats 0 m) ∧
      (volOf g (setCopies g c value g.numFats 0 m)).fat c = value % 2 ^ 28 ∧
      (volOf g (setCopies g c value g.numFats 0 m)).slots c = (volOf g m).slots c := by
  have hslots : ∀ y, (volOf g (setCopies g c value g.numFats 0 m)).slots y = (volOf g m).slots y := by
    refine fun y => slots_congr fun i hi _ => setCopies_outside fun k _ hk => .inr ?_
    have h1 := entryAddr_in_copy (f := k) h hc
    have h2 := h.copy_le (show k < g.numFats by omega)
    unfold clusterAddr at hi
    omega
  have hbytes : ∀ k j, k < g.numFats → j < 4 → setCopies g c value g.numFats 0 m
      (entryAddr g k c + j) = UInt8.ofNat (merge28 (read32 m (entryAddr g k c)) value / 256 ^ j) :=
    fun k j hk hj => setCopies_byte (hc.inFat h) hj (Nat.zero_le k) (by omega)
  refine ⟨⟨fun y hy hne => ?_, fun y _ _ => hslots y, ?_⟩, ?_, hslots c⟩
  · refine congrArg (· % 2 ^ 28) (readLE_congr fun i h1 h2 => setCopies_outside fun k _ _ => ?_)
    have := entryAddr_apart h k 0 hc hy (.inr hne.symm)
    omega
  · intro hcopies f j hf hj
    have hbase : 512 * (g.fatStart + 0 * g.fatSize) + j = 512 * g.fatStart + j := by omega
    by_cases hin : j < 4 * c ∨ 4 * c + 4 ≤ j
    · rw [setCopies_outside fun k _ _ => outside_entries (hc.inFat h).entry hj hin k, ← hbase,
        setCopies_outside fun k _ _ => outside_entries (hc.inFat h).entry hj hin k, hbase,
          hcopies f j hf hj]
    -- inside the entry: the old words agree, so the new ones do
    obtain ⟨b, rfl⟩ : ∃ b, j = 4 * c + b := ⟨j - 4 * c, by omega⟩
    have hold : read32 m (entryAddr g f c) = read32 m (entryAddr g 0 c) := hcopies.read32 h hc hf
    have h0 := hbytes 0 b h.fats_pos (by omega)
    have h1 := hbytes f b hf (by omega)
    rw [hold, ← h0] at h1
    unfold entryAddr at h1
    rw [← hbase, ← Nat.add_assoc, ← Nat.add_assoc, h1]
  · have hread : read32 (setCopies g c value g.numFats 0 m) (entryAddr g 0 c) =
        merge28 (read32 m (entryAddr g 0 c)) value % 256 ^ 4 :=
      readLE_of_bytes fun j hj => hbytes 0 j h.fats_pos hj
    have hlt : merge28 (read32 m (entryAddr g 0 c)) value < 256 ^ 4 := merge28_lt _ _
    show read32 _ (entryAddr g 0 c) % 2 ^ 28 = value % 2 ^ 28
    rw [hread, Nat.mod_eq_of_lt hlt, merge28_mod]

end

section
variable {s : Fs} {c : Nat}

theorem setFatEntry_spec (h : GeomOk s.g s.capacity) (hc : InRange s.g c) (value : Nat) :
    ∃ s', setFatEntry noFaults s c value = (s', true) ∧ Mounted s s' ∧
      Touches s.g c s.disk s'.disk ∧ (volOf s.g s'.disk).fat c = value % 2 ^ 28 ∧
      (volOf s.g s'.disk).slots c = (volOf s.g s.disk).slots c := by
  have hloop := @setFatLoop_spec s c value s.g.numFats 0 h.fatRoom (hc.inFat h) (by omega)
  obtain ⟨s', hs', hm, hdisk⟩ := hloop
  refine ⟨s', hs', hm, ?_⟩
  rw [hdisk]
  exact touches_setCopies h hc value

/-- Sectors written one after the other are one block, whatever fails. -/
theorem zeroSectors_spec (flt : Nat → Bool) (n sector : Nat) (hlt : sector + n < 2 ^ 32) :
    Mounted s (zeroSectors flt n sector s) ∧ ∀ i, i < 512 * sector ∨ 512 * (sector + n) ≤ i →
      (zeroSectors flt n sector s).disk i = s.disk i := by
  induction n generalizing s sector with
  | zero => exact ⟨.refl s, fun _ _ => rfl⟩
  | succ n ih =>
    obtain ⟨hm, hout⟩ := writeSector_frame flt s sector fun _ => 0
    rw [zeroSectors, u32_of_lt (by omega)]
    obtain ⟨hm', hout'⟩ := @ih (writeSector flt s sector fun _ => 0).1 (sector + 1) (by omega)
    refine ⟨hm.trans hm', fun i hi => ?_⟩
    rw [hout' i (by omega), hout i (by omega)]

/-- What a successful `alloc_cluster` does. -/
structure Allocated (s s' : Fs) (x : Nat) : Prop where
  inRange : InRange s.g x
  free : (volOf s.g s.disk).fat x = 0
  touches : Touches s.g x s.disk s'.disk
  fat : (volOf s.g s'.disk).fat x = 0x0FFFFFF8

/-- Without I/O errors the block is cleared. -/
theorem zeroSectors_disk (n sector : Nat) (hcap : sector + n ≤ s.capacity)
    (hlt : sector + n < 2 ^ 32) :
    (zeroSectors noFaults n sector s).disk = fillBytes s.disk (512 * sector) (512 * n) 0 := by
  induction n generalizing s sector with
  | zero =>
    funext i
    exact (fillBytes_outside (by omega)).symm
  | succ n ih =>
    rw [zeroSectors, u32_of_lt (by omega), writeSector_ok (by omega)]
    rw [ih (sector + 1) (by simp only; omega) (by omega)]
    funext i
    simp only [fillBytes, blit]
    split_ifs <;> first | rfl | omega

/-- The disk after cluster `x` was taken: marked as an end in all copies, and cleared. -/
def allocDisk (g : Geom) (x : Nat) (m : Mem) : Mem :=
  fillBytes (setCopies g x 0x0FFFFFF8 g.numFats 0 m) (clusterAddr g x) (512 * g.sectorsPerCluster) 0

/-- The marking and clearing of a free cluster. -/
theorem allocDisk_of_free (h : GeomOk s.g s.capacity) (hc : InRange s.g c) :
    Mounted s (zeroSectors noFaults (setFatEntry noFaults s c 0x0FFFFFF8).1.g.sectorsPerCluster
        (clusterToSector (setFatEntry noFaults s c 0x0FFFFFF8).1.g c)
        (setFatEntry noFaults s c 0x0FFFFFF8).1) ∧
      (zeroSectors noFaults (setFatEntry noFaults s c 0x0FFFFFF8).1.g.sectorsPerCluster
        (clusterToSector (setFatEntry noFaults s c 0x0FFFFFF8).1.g c)
        (setFatEntry noFaults s c 0x0FFFFFF8).1).disk = allocDisk s.g c s.disk := by
  obtain ⟨s₂, hs₂, hm, hdisk⟩ :=
    @setFatLoop_spec s c 0x0FFFFFF8 s.g.numFats 0 h.fatRoom (hc.inFat h) (by omega)
  have h1 := hc.cluster_le
  have h2 := h.data_room
  have h3 := h.data_lt
  rw [setFatEntry, hs₂]
  simp only [hm.g, clusterToSector_eq hc h]
  constructor
  · exact hm.trans (zeroSectors_spec noFaults _ _ (by omega)).1
  · rw [zeroSectors_disk _ _ (by rw [hm.capacity]; omega) (by omega), hdisk]
    rfl

/-- One round of the loop: the entry of `c` is read. -/
theorem allocLoop_succ (h : GeomOk s.g s.capacity) (hc : InRange s.g c) (n : Nat) :
    ∃ b, allocLoop noFaults (n + 1) c s = if (volOf s.g s.disk).fat c = 0 then
        let t := (setFatEntry noFaults { s with ops := s.ops + 1, buf := b } c 0x0FFFFFF8).1
        (zeroSectors noFaults t.g.sectorsPerCluster (clusterToSector t.g c) t, c)
      else allocLoop noFaults n (c + 1) { s with ops := s.ops + 1, buf := b } := by
  have h1 := h.entry_lt hc
  have h2 := h.copy_le h.fats_pos
  have h3 := h.data_room
  refine ⟨blit s.buf 0 512 (sectorOf s.disk (s.g.fatStart + 4 * c / 512)), ?_⟩
  rw [allocLoop, fatSectorOf_eq hc h, readSector_ok (by omega)]
  simp only [if_true, entryOffset_eq hc h, read32_sector, entryAddr_first, and_low28]
  rfl

theorem allocCluster_eq (flt : Nat → Bool) (h : GeomOk s.g s.capacity) :
    allocCluster flt s = allocLoop flt s.g.totalClusters 2 s := by
  have hnum : s.g.totalClusters + 2 ≤ 0x0FFFFFF8 := h.numbers
  rw [allocCluster, u32_of_lt (by omega), Nat.add_sub_cancel]

/-- The loop takes the first free cluster from `c` on. -/
theorem allocLoop_spec {n : Nat} (h : GeomOk s.g s.capacity) (hc : 2 ≤ c)
    (hn : c + n = s.g.totalClusters + 2) : ∃ s' x, allocLoop noFaults n c s = (s', x) ∧ Mounted s s' ∧
      (x = 0 ∧ s'.disk = s.disk ∧
          (∀ y, c ≤ y → y < s.g.totalClusters + 2 → (volOf s.g s.disk).fat y ≠ 0) ∨
        InRange s.g x ∧ (volOf s.g s.disk).fat x = 0 ∧ s'.disk = allocDisk s.g x s.disk ∧
          ∀ y, c ≤ y → y < x → (volOf s.g s.disk).fat y ≠ 0) := by
  induction n generalizing s c with
  | zero => exact ⟨s, 0, rfl, .refl s, .inl ⟨rfl, rfl, fun y h1 h2 => by omega⟩⟩
  | succ n ih =>
    have hin : InRange s.g c := ⟨hc, by omega⟩
    obtain ⟨b, hround⟩ := allocLoop_succ h hin n
    rw [hround]
    split
    · rename_i hfree
      obtain ⟨hm, hdisk⟩ := @allocDisk_of_free { s with ops := s.ops + 1, buf := b } c h hin
      exact ⟨_, c, rfl, ⟨hm.g, hm.mounted, hm.capacity⟩,
        .inr ⟨hin, hfree, hdisk, fun y h1 h2 => by omega⟩⟩
    · rename_i hused
      obtain ⟨s', x, hs', hm, hx⟩ := ih (s := { s with ops := s.ops + 1, buf := b }) (c := c + 1) h
        (by omega) (by simp only; omega)
      refine ⟨s', x, hs', ⟨hm.g, hm.mounted, hm.capacity⟩, hx.imp (fun hx => ?_) fun hx => ?_⟩
      · refine ⟨hx.1, hx.2.1, fun y hy hlt => ?_⟩
        rcases Nat.eq_or_lt_of_le hy with rfl | hy
        · exact hused
        · exact hx.2.2 y hy hlt
      · refine ⟨hx.1, hx.2.1, hx.2.2.1, fun y hy hlt => ?_⟩
        rcases Nat.eq_or_lt_of_le hy with rfl | hy
        · exact hused
        · exact hx.2.2.2 y hy hlt

/-- The first free cluster is taken, or there is none and nothing changes. -/
theorem allocCluster_first (h : GeomOk s.g s.capacity) : ∃ s' x, allocCluster noFaults s = (s', x) ∧
    Mounted s s' ∧ (x = 0 ∧ s'.disk = s.disk ∧ (∀ y, InRange s.g y → (volOf s.g s.disk).fat y ≠ 0) ∨
      InRange s.g x ∧ (volOf s.g s.disk).fat x = 0 ∧ s'.disk = allocDisk s.g x s.disk ∧
        ∀ y, InRange s.g y → y < x → (volOf s.g s.disk).fat y ≠ 0) := by
  obtain ⟨s', x, hs', hm, hx⟩ := allocLoop_spec (c := 2) (n := s.g.totalClusters) h
    (Nat.le_refl 2) (Nat.add_comm _ _)
  refine ⟨s', x, ?_, hm, hx.imp (fun hx => ?_) fun hx => ?_⟩
  · rw [allocCluster_eq noFaults h, hs']
  · exact ⟨hx.1, hx.2.1, fun y hy => hx.2.2 y hy.1 hy.2⟩
  · exact ⟨hx.1, hx.2.1, hx.2.2.1, fun y hy => hx.2.2.2 y hy.1⟩

theorem allocCluster_spec (h : GeomOk s.g s.capacity) : ∃ s' x, allocCluster noFaults s = (s', x) ∧
    Mounted s s' ∧ (x = 0 ∧ s'.disk = s.disk ∧
        (∀ y, InRange s.g y → (volOf s.g s.disk).fat y ≠ 0) ∨ Allocated s s' x) := by
  obtain ⟨s', x, hs', hm, hx⟩ := allocCluster_first h
  refine ⟨s', x, hs', hm, hx.imp_right fun hx => ?_⟩
  obtain ⟨hin, hfree, hdisk, -⟩ := hx
  obtain ⟨ht, hf, -⟩ := touches_setCopies (m := s.disk) h hin 0x0FFFFFF8
  have hout (i : Nat) (hi : i < clusterAddr s.g x ∨
      clusterAddr s.g x + 512 * s.g.sectorsPerCluster ≤ i) :
      s'.disk i = setCopies s.g x 0x0FFFFFF8 s.g.numFats 0 s.disk i := by
    rw [hdisk, allocDisk, fillBytes_outside hi]
  obtain ⟨htd, hfd⟩ := touches_data h hin hout
  exact ⟨hin, hfree, ht.trans htd, (hfd x hin).trans (hf.trans (by decide))⟩

/-- Data goes to the sectors of one cluster, at least one of them. -/
theorem writeSectors_spec (n sector : Nat) (data : List UInt8) (hcap : sector + n ≤ s.capacity)
    (hlt : sector + n < 2 ^ 32) : ∃ s', writeSectors noFaults n sector data s =
        (s', some (data.drop (512 * n))) ∧ Mounted s s' ∧
      ∀ i, i < 512 * sector ∨ 512 * (sector + n) ≤ i → s'.disk i = s.disk i := by
  induction n generalizing s sector data with
  | zero => exact ⟨s, by simp [writeSectors], .refl s, fun _ _ => rfl⟩
  | succ n ih =>
    rw [writeSectors]
    split
    · rename_i hnil
      exact ⟨s, by rw [hnil, List.drop_nil], .refl s, fun _ _ => rfl⟩
    have hwrite := @writeSector_ok { s with buf := fillBuf s.buf (data.take 512) } sector
      (by simp only; omega)
    simp only [hwrite, if_true]
    have hdrop : data.drop (512 * (n + 1)) = (data.drop 512).drop (512 * n) := by
      rw [List.drop_drop]
      congr 1
      omega
    rw [u32_of_lt (by omega), hdrop]
    have hnext := @ih { s with
      buf := fillBuf s.buf (data.take 512), ops := s.ops + 1,
      disk := blit s.disk (512 * sector) 512 (fillBuf s.buf (data.take 512)) } (sector + 1)
      (data.drop 512)
    obtain ⟨s', hs', hm, hout⟩ := hnext (by simp only; omega) (by omega)
    refine ⟨s', hs', ⟨hm.g, hm.mounted, hm.capacity⟩, fun i hi => ?_⟩
    have hafter := hout i (by omega)
    simp only at hafter
    rw [blit_outside (by omega)] at hafter
    exact hafter

end

end HackersOs.L4.Fat

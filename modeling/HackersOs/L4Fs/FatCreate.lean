import HackersOs.L4Fs.FatNames
import HackersOs.L4Fs.FatFiles

/-!
# Creating a file

`create_file` on a well-formed volume without I/O errors. It lays the new entry out
in `sector_buf`, where the directory sector is; `alloc_cluster` then reads FAT
sectors into the same buffer, and the buffer is written over the directory sector
(fat32.cpp:434-447). What is written is `entryImage`: a FAT sector with the
cluster and size fields of the slot set, whatever the file name.

`CreateOk` is what the call should do if it returns true: a free slot of the
directory holds the entry with a new cluster, nothing else changed, and
`resolve_path` finds the name if it is a valid one.

`create_iff`: this is so for every file name exactly if the path does not lead to
a `..` that stands for the root by a 0, and the volume is full or the directory
has no free slot, so that the call returns false.

**Counterexample.** `create_overwrites_root`.
-/
namespace HackersOs.L4.Fat
open HackersOs.Core

/-! ## `sector_buf` after an allocation -/

def FirstFree (g : Geom) (v : Vol) (x : Nat) : Prop :=
  InRange g x ∧ v.fat x = 0 ∧ ∀ y, InRange g y → y < x → v.fat y ≠ 0

theorem FirstFree.unique {g : Geom} {v : Vol} {x y : Nat} (hx : FirstFree g v x)
    (hy : FirstFree g v y) : x = y := by
  rcases Nat.lt_trichotomy x y with hlt | heq | hlt
  · exact absurd hx.2.1 (hy.2.2 x hx.1 hlt)
  · exact heq
  · exact absurd hy.2.1 (hx.2.2 y hy.1 hlt)

/-- The sector of the last FAT with the entry of `x`, after `x` was marked. -/
def markedFat (g : Geom) (m : Mem) (x : Nat) : Mem := fun i =>
  setCopies g x 0x0FFFFFF8 g.numFats 0 m
    (512 * (g.fatStart + 4 * x / 512 + (g.numFats - 1) * g.fatSize) + i)

theorem zeroSectors_buf (flt : Nat → Bool) (n sector : Nat) (s : Fs) :
    (zeroSectors flt n sector s).buf = s.buf := by
  induction n generalizing sector s with
  | zero => rfl
  | succ n ih =>
    rw [zeroSectors, ih]
    unfold writeSector
    split
    · rfl
    · split <;> rfl

section
variable {s : Fs} {c i : Nat}

theorem setFatEntry_buf (h : GeomOk s.g s.capacity) (hc : InRange s.g c) (hi : i < 512) :
    (setFatEntry noFaults s c 0x0FFFFFF8).1.buf i = markedFat s.g s.disk c i := by
  obtain ⟨n, hn⟩ : ∃ n, s.g.numFats = n + 1 := Nat.exists_eq_succ_of_ne_zero (Nat.ne_of_gt h.fats_pos)
  obtain ⟨s', hs', -, hdisk⟩ := @setFatLoop_spec s c 0x0FFFFFF8 s.g.numFats 0 h.fatRoom (hc.inFat h)
    (by omega)
  have hbuf := @setFatLoop_buf s c 0x0FFFFFF8 n 0 i h.fatRoom (hc.inFat h) (by omega) hi
  rw [← hn, hs'] at hbuf
  rw [setFatEntry, hs', hbuf, hdisk, markedFat, hn, Nat.add_sub_cancel, Nat.zero_add]

theorem allocLoop_marked {n : Nat} (h : GeomOk s.g s.capacity) (hc : 2 ≤ c)
    (hn : c + n = s.g.totalClusters + 2) (hused : ∀ y, 2 ≤ y → y < c → (volOf s.g s.disk).fat y ≠ 0)
    (hx : (allocLoop noFaults n c s).2 ≠ 0) (hi : i < 512) :
    FirstFree s.g (volOf s.g s.disk) (allocLoop noFaults n c s).2 ∧
      (allocLoop noFaults n c s).1.buf i = markedFat s.g s.disk (allocLoop noFaults n c s).2 i := by
  induction n generalizing s c with
  | zero => exact absurd rfl hx
  | succ n ih =>
    have hin : InRange s.g c := ⟨hc, by omega⟩
    obtain ⟨b, hround⟩ := allocLoop_succ h hin n
    rw [hround] at hx ⊢
    by_cases hfree : (volOf s.g s.disk).fat c = 0
    · rw [if_pos hfree]
      refine ⟨⟨hin, hfree, fun y hy hlt => hused y hy.1 hlt⟩, ?_⟩
      rw [zeroSectors_buf]
      exact @setFatEntry_buf { s with ops := s.ops + 1, buf := _ } c i h hin hi
    · rw [if_neg hfree] at hx ⊢
      refine @ih { s with ops := s.ops + 1, buf := _ } (c + 1) h (by omega)
        (by simp only; omega) ?_ hx
      intro y hy hlt
      rcases Nat.lt_succ_iff_lt_or_eq.mp hlt with hlt | rfl
      · exact hused y hy hlt
      · exact hfree

/-- `alloc_cluster` takes the first free cluster and leaves a FAT sector in `sector_buf`. -/
theorem allocCluster_marked (h : GeomOk s.g s.capacity) (hx : (allocCluster noFaults s).2 ≠ 0)
    (hi : i < 512) : FirstFree s.g (volOf s.g s.disk) (allocCluster noFaults s).2 ∧
      (allocCluster noFaults s).1.buf i = markedFat s.g s.disk (allocCluster noFaults s).2 i := by
  rw [allocCluster_eq noFaults h] at hx ⊢
  exact allocLoop_marked h (Nat.le_refl 2) (Nat.add_comm _ _) (by omega) hx hi

end

/-! ## What the call writes -/

/-- What is written over the directory sector: the FAT sector, with the fields that are
set after the allocation. -/
def entryImage (g : Geom) (m : Mem) (e x : Nat) : Mem := setFirst (markedFat g m x) e x

theorem setFirst_congr {b b' : Mem} {e x i : Nat} (h : b i = b' i) :
    setFirst b e x i = setFirst b' e x i := by
  simp only [setFirst, write32, writeLE, h]

/-- The call marked the first free cluster `x` and wrote the image over sector `k`. -/
structure Written (s s' : Fs) (k e x : Nat) : Prop where
  mounted : Mounted s s'
  first : FirstFree s.g (volOf s.g s.disk) x
  mark : (volOf s.g s'.disk).fat x = 0x0FFFFFF8
  fat : ∀ y, InRange s.g y → y ≠ x → (volOf s.g s'.disk).fat y = (volOf s.g s.disk).fat y
  data : ∀ y, InRange s.g y → y ≠ x → ∀ i, clusterAddr s.g y ≤ i →
    i < clusterAddr s.g y + 512 * s.g.sectorsPerCluster →
    s'.disk i = blit s.disk (512 * k) 512 (entryImage s.g s.disk e x) i

theorem mem_chainSectors {g : Geom} {cap k : Nat} {l : List Nat} (h : GeomOk g cap)
    (hl : ∀ y ∈ l, InRange g y) (hk : k ∈ l.flatMap (clusterSectors g)) :
    ∃ y ∈ l, clusterAddr g y ≤ 512 * k ∧
      512 * k + 512 ≤ clusterAddr g y + 512 * g.sectorsPerCluster ∧ g.dataStart ≤ k ∧ k < cap := by
  obtain ⟨y, hy, hky⟩ := List.mem_flatMap.mp hk
  have h1 := (hl y hy).cluster_le
  have h2 := h.data_room
  rw [clusterSectors, List.mem_range'_1] at hky
  refine ⟨y, hy, ?_, ?_, by omega, by omega⟩
  all_goals
    unfold clusterAddr
    omega

theorem mem_of_firstHit {α : Type} {visit : Mem → Option α} {m : Mem} {l : List Nat} {k : Nat} {a : α}
    (h : firstHit visit m l = some (k, a)) : k ∈ l := by
  obtain ⟨k', hk', hvis⟩ := List.exists_of_findSome?_eq_some h
  obtain ⟨a', -, heq⟩ := Option.map_eq_some_iff.mp hvis
  rwa [← (Prod.mk.inj heq).1]

section
variable {s : Fs} {dirPath : List UInt8} {c k e fuel : Nat} {l : List Nat}

/-- The allocation and the write behind it, from a state `t` in which the slot was found. -/
theorem written_of_alloc (h : GeomOk s.g s.capacity) (hl : VChain s.g (volOf s.g s.disk) c l)
    (hk : k ∈ l.flatMap (clusterSectors s.g)) (hfull : ¬ Full s.g (volOf s.g s.disk)) {t : Fs}
    (hm : Mounted s t) (hd : t.disk = s.disk) : ∃ a x s', allocCluster noFaults t = (a, x) ∧ x ≠ 0 ∧
      writeSector noFaults { a with buf := setFirst a.buf e x } k (setFirst a.buf e x) = (s', true) ∧
      Written s s' k e x := by
  obtain ⟨-, -, -, -, hkdata, hkcap⟩ := mem_chainSectors h (fun y => hl.mem_ok) hk
  have ht : GeomOk t.g t.capacity := by rwa [hm.g, hm.capacity]
  have hmarked := @allocCluster_marked t
  have hframe := frame_allocCluster noFaults ht
  obtain ⟨a, x, hax, hma, hx⟩ := allocCluster_spec ht
  simp only [hax] at hmarked hframe
  rw [hm.g, hd] at hx hframe
  rw [hm.g, hd, hm.capacity] at hmarked
  have ha : Allocated t a x := by
    rcases hx with ⟨-, -, hnone⟩ | ha
    · exact absurd hnone hfull
    · exact ha
  have hx0 : x ≠ 0 := by
    rintro rfl
    exact not_inRange_zero ha.inRange
  have hfat := ha.fat
  rw [hm.g] at hfat
  refine ⟨a, x, _, hax, hx0,
    writeSector_ok (by simp only [hma.capacity, hm.capacity]; exact hkcap) _, ?_⟩
  -- the sector written is not part of a FAT
  have hkeep : ∀ y, InRange s.g y →
      (volOf s.g (blit a.disk (512 * k) 512 (setFirst a.buf e x))).fat y =
      (volOf s.g a.disk).fat y := by
    intro y hy
    have h1 := entryAddr_in_copy (f := 0) h hy
    have h2 := h.copy_le h.fats_pos
    refine congrArg (· % 2 ^ 28) (readLE_congr fun i _ _ => blit_outside ?_)
    omega
  have hin := (hmarked h hx0 (show 0 < 512 by decide)).1
  refine ⟨hm.trans ⟨hma.g, hma.mounted, hma.capacity⟩, hin, ?_, ?_, ?_⟩
  · exact (hkeep x hin.1).trans hfat
  · intro y hy hne
    exact (hkeep y hy).trans (hframe.fat y hy (by simpa using hne))
  intro y hy hne i h1 h2
  have hsame := hframe.data y hy (by simpa using hne) i h1 h2
  show blit a.disk (512 * k) 512 (setFirst a.buf e x) i = _
  by_cases hin : 512 * k ≤ i ∧ i < 512 * k + 512
  · rw [blit_inside hin.1 hin.2, blit_inside hin.1 hin.2]
    exact setFirst_congr (hmarked h hx0 (show i - 512 * k < 512 by omega)).2
  · rw [blit_outside (by omega), blit_outside (by omega), hsame]

/-- With a free slot and a free cluster the call returns true. -/
theorem createFile_hit (h : VolumeOk s) (hmounted : s.mounted = true) {s₁ : Fs}
    (hdir : dirClusterOf noFaults fuel s dirPath = some (s₁, some c)) (hm₁ : Mounted s s₁)
    (hd₁ : s₁.disk = s.disk) (hl : VChain s.g (volOf s.g s.disk) c l)
    (hfuel : s.g.totalClusters < fuel)
    (hhit : firstHit freeSlot s.disk (l.flatMap (clusterSectors s.g)) = some (k, e))
    (hfull : ¬ Full s.g (volOf s.g s.disk)) (filename : List UInt8) :
    ∃ s' x, createFile noFaults fuel s dirPath filename = some (s', true) ∧ Written s s' k e x := by
  have hlen := chain_length_le h.geom.numbers hl
  obtain ⟨s₂, hs₂, hm₂, hd₂⟩ := walkDir_spec freeSlot_blit hl hm₁.g hd₁
    (by rw [hm₁.capacity]; exact h.geom) (Nat.lt_of_le_of_lt hlen hfuel)
  have hm := hm₁.trans hm₂
  obtain ⟨a, x, s', hax, hx0, hwrite, hw⟩ :=
    @written_of_alloc s c k e l h.geom hl (mem_of_firstHit hhit)
    hfull { s₂ with buf := layOutEntry s₂.buf e filename } ⟨hm.g, hm.mounted, hm.capacity⟩ hd₂
  refine ⟨s', x, ?_, hw⟩
  rw [createFile, if_neg (by simp [hmounted]), hdir, Option.bind_some]
  simp only [hs₂, hhit, Option.map_some, hax, if_neg hx0, hwrite]

end

/-! ## Names -/

/-- A character of a lower-case 8.3 name. -/
def validChar (b : UInt8) : Bool :=
  33 ≤ b && b ≤ 126 && b != 46 && b != 47 && !(65 ≤ b && b ≤ 90)

/-- One to eight characters, and an extension of one to three characters or none. -/
def ValidName (f : List UInt8) : Prop :=
  ∃ n x, n ≠ [] ∧ n.length ≤ 8 ∧ x.length ≤ 3 ∧ (∀ b ∈ n ++ x, validChar b = true) ∧
    f = n ++ if x = [] then [] else 46 :: x

/-! ## What the call should do -/

/-- Slot `e` of sector `k` in the chain `l` of the directory, which was free, holds the
entry with the new cluster `x`; nothing else changed, and the name is found. -/
structure Entered (s s' : Fs) (l : List Nat) (filename : List UInt8) (k e x : Nat) : Prop where
  mounted : Mounted s s'
  slot : k ∈ l.flatMap (clusterSectors s.g) ∧ e < 16
  free : (entryAt (sectorOf s.disk k) e).isFree
  entry : entryAt (sectorOf s'.disk k) e = ⟨stringToFatName filename, attrArchive, x, 0⟩
  cluster : InRange s.g x ∧ (volOf s.g s.disk).fat x = 0 ∧
    isEndCluster ((volOf s.g s'.disk).fat x) = true
  entries : ∀ dir ld, Dir s.g (volOf s.g s.disk) dir → VChain s.g (volOf s.g s.disk) dir ld →
    ∀ k' ∈ ld.flatMap (clusterSectors s.g), ∀ e', e' < 16 → (k', e') ≠ (k, e) → ∀ i, i < 32 →
      s'.disk (512 * k' + (32 * e' + i)) = s.disk (512 * k' + (32 * e' + i))
  fat : ∀ y, InRange s.g y → y ≠ x → (volOf s.g s'.disk).fat y = (volOf s.g s.disk).fat y
  files : ∀ dir ld d lf, Dir s.g (volOf s.g s.disk) dir → VChain s.g (volOf s.g s.disk) dir ld →
    d ∈ dirEntries (volOf s.g s.disk) ld → d.isDir = false →
    VChain s.g (volOf s.g s.disk) d.first lf → contents s.g s'.disk lf = contents s.g s.disk lf
  found : ValidName filename → ∀ p d path, Resolves s.g (volOf s.g s'.disk) p d → d.isDir = true →
    VChain s.g (volOf s.g s'.disk) d.first l →
    components [] (dropSlash path) = components [] (dropSlash p) ++ [filename] →
    ∃ fuel s'' d', resolvePath noFaults fuel s' path = some (s'', some d') ∧
      nameMatches d'.name filename = true ∧
      (lookup (volOf s.g s.disk) l filename = none →
        d' = ⟨stringToFatName filename, attrArchive, x, 0⟩)

/-- The directory at `c` has the new entry. -/
def Created (s s' : Fs) (c : Nat) (filename : List UInt8) : Prop :=
  ∃ l k e x, VChain s.g (volOf s.g s.disk) c l ∧ Entered s s' l filename k e x

def CreateOk (s : Fs) (dirPath : List UInt8) (c : Nat) (filename : List UInt8) : Prop :=
  ∃ fuel s' b, createFile noFaults fuel s dirPath filename = some (s', b) ∧
    (b = true → Created s s' c filename)

/-- The path names the directory at `c`. -/
def DirAt (s : Fs) (dirPath : List UInt8) (c : Nat) : Prop :=
  Dir s.g (volOf s.g s.disk) c ∧
    ∃ d, Resolves s.g (volOf s.g s.disk) dirPath d ∧ d.isDir = true ∧ d.first = c

/-- The path goes through, or ends at, a directory entry that says cluster 0. -/
def ToZero (g : Geom) (v : Vol) (path : List UInt8) : Prop :=
  ThroughZero g v path ∨ ∃ d, Resolves g v path d ∧ d.isDir = true ∧ d.first = 0

/-! ## The call -/

section
variable {s : Fs} {dirPath : List UInt8} {c : Nat}

theorem DirAt.not_toZero (h : VolumeOk s) (hat : DirAt s dirPath c) :
    ¬ ToZero s.g (volOf s.g s.disk) dirPath := by
  obtain ⟨hdir, d, hr, -, rfl⟩ := hat
  rintro (hthrough | ⟨d₀, hr₀, -, h0⟩)
  · exact hr.not_throughZero h.geom.numbers hthrough
  obtain ⟨s₁, hs₁, -, -⟩ := resolvePath_names hr h.geom (Nat.lt_succ_self _)
  obtain ⟨s₂, hs₂, -, -⟩ := resolvePath_names hr₀ h.geom (Nat.lt_succ_self _)
  rw [hs₁] at hs₂
  have heq : d = d₀ := Option.some.inj (Prod.mk.inj (Option.some.inj hs₂)).2
  obtain ⟨l, hl⟩ := h.wf.dir_chain hdir
  rw [heq, h0] at hl
  exact not_chain_zero hl

/-- The directory that `create_file` goes to. -/
theorem dirClusterOf_at (h : VolumeOk s) (hzero : ¬ ToZero s.g (volOf s.g s.disk) dirPath)
    (hdir : ∃ fuel s₁, dirClusterOf noFaults fuel s dirPath = some (s₁, some c)) :
    DirAt s dirPath c ∧ ∃ s₁, Mounted s s₁ ∧ s₁.disk = s.disk ∧
      dirClusterOf noFaults (s.g.totalClusters + 1) s dirPath = some (s₁, some c) := by
  obtain ⟨fuel, s₀, hs₀⟩ := hdir
  obtain ⟨s₁, r, hs₁, hm, hd, hr⟩ := dirClusterOf_spec h (fun hthrough => hzero (.inl hthrough))
    (Nat.lt_succ_self _)
  have heq := (dirClusterOf_persists noFaults s dirPath).agree hs₀ hs₁
  obtain rfl : some c = r := (Prod.mk.inj heq).2
  obtain ⟨d, hres, hisdir, rfl⟩ := hr c rfl
  have h0 : d.first ≠ 0 := fun h0 => hzero (.inr ⟨d, hres, hisdir, h0⟩)
  exact ⟨⟨hres.dir h hisdir h0, d, hres, hisdir, rfl⟩, s₁, hm, hd, hs₁⟩

/-- Two calls with different names leave the same directory behind; it cannot be right
for both. -/
theorem not_created_twice (h : VolumeOk s) {s₁ s₂ : Fs} {k e x x' : Nat}
    (hd : Dir s.g (volOf s.g s.disk) c) (hw₁ : Written s s₁ k e x) (hw₂ : Written s s₂ k e x')
    (h₁ : Created s s₁ c [97]) (h₂ : Created s s₂ c [98]) : False := by
  obtain rfl := hw₁.first.unique hw₂.first
  obtain ⟨l, k₁, e₁, x₁, hl, hin₁⟩ := h₁
  obtain ⟨l', k₂, e₂, x₂, hl', hin₂⟩ := h₂
  -- the slot of the first name, on both disks
  have hsame : entryAt (sectorOf s₂.disk k₁) e₁ = entryAt (sectorOf s₁.disk k₁) e₁ := by
    obtain ⟨y, hy, h1, h2, -, -⟩ := mem_chainSectors h.geom (fun y => hl.mem_ok) hin₁.slot.1
    have he := hin₁.slot.2
    have hne : y ≠ x := by
      rintro rfl
      exact chain_not_free hl hy hw₁.first.2.1
    refine entryAt_congr fun i hi1 hi2 => ?_
    show s₂.disk (512 * k₁ + i) = s₁.disk (512 * k₁ + i)
    rw [hw₁.data y (hl.mem_ok hy) hne _ (by omega) (by omega),
      hw₂.data y (hl.mem_ok hy) hne _ (by omega) (by omega)]
  by_cases hslot : (k₁, e₁) = (k₂, e₂)
  · obtain ⟨rfl, rfl⟩ := Prod.mk.inj hslot
    rw [hin₁.entry, hin₂.entry] at hsame
    have hname : stringToFatName [98] = stringToFatName [97] := congrArg DirEntry.name hsame
    exact absurd hname (by decide)
  · -- the second call did not touch this slot, which was free
    have hkept : entryAt (sectorOf s₂.disk k₁) e₁ = entryAt (sectorOf s.disk k₁) e₁ := by
      refine entryAt_congr fun i hi1 hi2 => ?_
      have hbyte := hin₂.entries c l hd hl k₁ hin₁.slot.1 e₁ hin₁.slot.2 hslot (i - 32 * e₁)
        (by omega)
      rwa [Nat.add_sub_cancel' hi1] at hbyte
    have hfree := hin₁.free
    rw [← hkept, hsame, hin₁.entry] at hfree
    have hhead : (stringToFatName [97]).getD 0 0 = 0x00 ∨ (stringToFatName [97]).getD 0 0 = 0xE5 :=
      hfree
    exact absurd hhead (by decide)

end

/-- For a directory that `create_file` goes to: it is the one the path names and creating
is in order for every file name, if and only if the path neither passes nor ends at an
entry that says cluster 0 and no call gets as far as the allocation: the volume has no
free cluster or the directory no free slot. -/
theorem create_iff {s : Fs} {dirPath : List UInt8} {c : Nat} (h : VolumeOk s)
    (hmounted : s.mounted = true)
    (hdir : ∃ fuel s₁, dirClusterOf noFaults fuel s dirPath = some (s₁, some c)) :
    (DirAt s dirPath c ∧ ∀ filename, CreateOk s dirPath c filename) ↔
      ¬ ToZero s.g (volOf s.g s.disk) dirPath ∧ (Full s.g (volOf s.g s.disk) ∨
        ∀ l, VChain s.g (volOf s.g s.disk) c l →
          ∀ y ∈ l, ∀ d ∈ (volOf s.g s.disk).slots y, ¬ d.isFree) := by
  constructor
  · rintro ⟨hat, hall⟩
    have hzero := hat.not_toZero h
    refine ⟨hzero, ?_⟩
    by_contra hnot
    obtain ⟨hfull, hslots⟩ := not_or.mp hnot
    obtain ⟨l, hl⟩ := h.wf.dir_chain hat.1
    cases hhit : firstHit freeSlot s.disk (l.flatMap (clusterSectors s.g)) with
    | none =>
      refine hslots fun l' hl' => ?_
      rw [Chain.unique h.geom.numbers.sep hl' hl]
      exact freeSlot_none_iff.mp hhit
    | some hit =>
      obtain ⟨-, s₁, hm, hd, hs₁⟩ := dirClusterOf_at h hzero hdir
      have hcreated : ∀ filename, ∃ s' x, Written s s' hit.1 hit.2 x ∧ Created s s' c filename := by
        intro filename
        obtain ⟨s', x, hs', hw⟩ := createFile_hit h hmounted hs₁ hm hd hl (Nat.lt_succ_self _) hhit
          hfull filename
        obtain ⟨fuel, s'', b, hs'', hok⟩ := hall filename
        have heq := (exec_persists noFaults s (.create dirPath filename)).agree hs' hs''
        obtain ⟨rfl, rfl⟩ := Prod.mk.inj heq
        exact ⟨s', x, hw, hok rfl⟩
      obtain ⟨s₂, x, hw, hc⟩ := hcreated [97]
      obtain ⟨s₃, x', hw', hc'⟩ := hcreated [98]
      exact not_created_twice h hat.1 hw hw' hc hc'
  · rintro ⟨hzero, hmiss⟩
    obtain ⟨hat, s₁, hm, hd, hs₁⟩ := dirClusterOf_at h hzero hdir
    obtain ⟨l, hl⟩ := h.wf.dir_chain hat.1
    refine ⟨hat, fun filename => ?_⟩
    obtain ⟨s', hs', -, -⟩ := createFile_miss h hmounted hs₁ hm hd hl (Nat.lt_succ_self _)
      (hmiss.imp_right fun hno => hno l hl) filename
    exact ⟨_, s', false, hs', by simp⟩

theorem not_toZero_root {g : Geom} {v : Vol} (h : g.rootCluster ≠ 0) : ¬ ToZero g v [47] := by
  rintro (⟨pre, rest, d, hcomp, hrest, -⟩ | ⟨d, hr, -, h0⟩)
  · have hnil : pre ++ rest = [] := hcomp.symm
    exact hrest (List.append_eq_nil_iff.mp hnil).2
  · rcases hr with ⟨-, rfl⟩ | hn
    · exact h h0
    · cases hn

/-- After `write_file("/a", …)` with 513 bytes the volume of the examples is full. -/
theorem create_iff_full : ∃ s, VolumeOk s ∧ Full s.g (volOf s.g s.disk) ∧
    ∀ filename, CreateOk s [47] 2 filename := by
  have hwrite : (exec noFaults 600 demoFs (.write [47, 97] (List.replicate 513 1))).map (fun r =>
      (r.1.g, r.1.mounted, [2, 3, 4, 5, 6].map (volOf demoGeom r.1.disk).fat)) =
        some (demoGeom, true, [6, 5, 0x0FFFFFF8, 0x0FFFFFF8, 0x0FFFFFF8]) := by decide +kernel
  obtain ⟨⟨s, b⟩, hexec, hout⟩ := Option.map_eq_some_iff.mp hwrite
  simp only [Prod.mk.injEq] at hout
  obtain ⟨hg, hmounted, hfats⟩ := hout
  obtain ⟨s', b', hexec', hok⟩ := exec_spec demo_ok (c := .write [47, 97] (List.replicate 513 1))
    fun _ => not_throughZero_of_one [97] rfl
  have heq := (exec_persists noFaults demoFs
    (.write [47, 97] (List.replicate 513 1))).agree hexec' hexec
  obtain ⟨rfl, rfl⟩ := Prod.mk.inj heq
  have hroot : s'.g.rootCluster = 2 := by
    rw [hg]
    rfl
  have hfull : Full s'.g (volOf s'.g s'.disk) := by
    rw [hg]
    intro y hy h0
    obtain ⟨h1, h2⟩ : 2 ≤ y ∧ y < 7 := hy
    have hmem : 0 ∈ [2, 3, 4, 5, 6].map (volOf demoGeom s'.disk).fat :=
      List.mem_map.mpr ⟨y, by simp only [List.mem_cons]; omega, h0⟩
    rw [hfats] at hmem
    exact absurd hmem (by decide)
  have hdir : dirClusterOf noFaults 0 s' [47] = some (s', some 2) := by
    rw [dirClusterOf, if_pos rfl, hroot]
  have hiff := create_iff hok hmounted ⟨0, s', hdir⟩
  exact ⟨s', hok, hfull, (hiff.mpr ⟨not_toZero_root (by rw [hroot]; decide), .inl hfull⟩).2⟩

/-- **Counterexample.** `create_file("/", "b")` returns true; the slot of the file `a`
holds the first bytes of a FAT sector. -/
theorem create_overwrites_root : VolumeOk demoFs ∧ demoFs.mounted = true ∧
    (∃ fuel s₁, dirClusterOf noFaults fuel demoFs [47] = some (s₁, some 2)) ∧
    (∃ s', createFile noFaults 600 demoFs [47] [98] = some (s', true) ∧
      entryAt (sectorOf demoFs.disk 7) 0 = entryA ∧ entryAt (sectorOf s'.disk 7) 0 = entryOfFat) ∧
    ¬ CreateOk demoFs [47] 2 [98] := by
  have hrun : (createFile noFaults 600 demoFs [47] [98]).map (fun r =>
      (r.2, entryAt (sectorOf r.1.disk 7) 0)) = some (true, entryOfFat) := by decide +kernel
  have hold : entryAt (sectorOf demoFs.disk 7) 0 = entryA := by decide +kernel
  obtain ⟨⟨s', b⟩, hs', hout⟩ := Option.map_eq_some_iff.mp hrun
  simp only [Prod.mk.injEq] at hout
  obtain ⟨rfl, hnew⟩ := hout
  refine ⟨demo_ok, rfl, ⟨0, demoFs, rfl⟩, ⟨s', hs', hold, hnew⟩, ?_⟩
  rintro ⟨fuel, s'', b, hs'', hcreated⟩
  have heq := (exec_persists noFaults demoFs (.create [47] [98])).agree hs' hs''
  obtain ⟨rfl, rfl⟩ := Prod.mk.inj heq
  obtain ⟨l, k, e, x, hl, hin⟩ := hcreated rfl
  have hother : (7, 0) ≠ (k, e) := by
    intro hke
    obtain ⟨rfl, rfl⟩ := Prod.mk.inj hke
    have hfree := hin.free
    rw [hold] at hfree
    have hhead : (65 : UInt8) = 0x00 ∨ (65 : UInt8) = 0xE5 := hfree
    exact absurd hhead (by decide)
  have hkept : entryAt (sectorOf s'.disk 7) 0 = entryAt (sectorOf demoFs.disk 7) 0 := by
    refine entryAt_congr fun i _ hi => ?_
    have hbyte := hin.entries 2 [2, 6] .root demo_like.chains.1 7 (by decide) 0
      (by decide) hother i hi
    rwa [Nat.mul_zero, Nat.zero_add] at hbyte
  rw [hnew, hold] at hkept
  exact absurd hkept (by decide)

end HackersOs.L4.Fat

import HackersOs.L5User.Process

/-!
# The ELF loader (`elf/elf.cpp`)

The file is the buffer `read_file` filled, as a memory from offset 0 on; it
lies in the kernel heap, whose pages the allocator never hands out.

`overlay` is the loader seen from outside: each segment in turn puts one page
at every page it touches, and the last one wins. `Ok.loadSegments` connects
the two: the page last mapped for a virtual page holds what the last segment
that covers it put there.

Results:
* `elf_image_iff`: when a loaded image has the bytes the headers describe.

**Counterexample** (`elf_drops_bytes`): in the first page of a segment
whose address is not page-aligned `va - p_vaddr` wraps, and nothing is copied.
-/
namespace HackersOs.L5
open HackersOs.Core L2 L2.Mmu L2.Pages List

/-! ## Headers -/

def ptLoad : Nat := 1
def emAarch64 : Nat := 183
def etExec : Nat := 2

def eType (file : Mem) : Nat := readLE file 16 2
def eMachine (file : Mem) : Nat := readLE file 18 2
def eEntry (file : Mem) : Nat := read64 file 24
def ePhoff (file : Mem) : Nat := read64 file 32
def ePhentsize (file : Mem) : Nat := readLE file 54 2
def ePhnum (file : Mem) : Nat := readLE file 56 2

/-- The fields of `Elf64_Phdr` the loader reads. -/
structure Phdr where
  pType : Nat
  pOffset : Nat
  pVaddr : Nat
  pFilesz : Nat
  pMemsz : Nat
  deriving DecidableEq, Repr

def phdrAt (file : Mem) (off : Nat) : Phdr :=
  ⟨read32 file off, read64 file (off + 8), read64 file (off + 16), read64 file (off + 32),
    read64 file (off + 40)⟩

/-- The program headers, in file order. -/
def headers (file : Mem) : List Phdr :=
  (List.range (ePhnum file)).map fun i => phdrAt file ((ePhoff file + i * ePhentsize file) % 2 ^ 64)

/-! ## The code -/

/-- mirrors src/elf/elf.cpp:13-25 -/
def validate (file : Mem) (size : Nat) : Bool :=
  if size < 64 then false
  else if ¬ (file 0 = 0x7F ∧ file 1 = 0x45 ∧ file 2 = 0x4C ∧ file 3 = 0x46) then false
  else if file 4 ≠ 2 then false
  else if file 5 ≠ 1 then false
  else if eMachine file ≠ emAarch64 then false
  else if eType file ≠ etExec then false
  else true

/-- First page of a segment. -/
def Phdr.start (ph : Phdr) : Nat := ph.pVaddr / 4096 * 4096
/-- End of its last page. -/
def Phdr.stop (ph : Phdr) : Nat := (ph.pVaddr + ph.pMemsz + 4096 - 1) % 2 ^ 64 / 4096 * 4096

/-- `copy_len`: a page, or what is left of the file data. -/
def copyLen (segOffset pFilesz : Nat) : Nat :=
  if (segOffset + 4096) % 2 ^ 64 > pFilesz then pFilesz - segOffset else 4096

/-- mirrors src/elf/elf.cpp:90-102: the file data of the page at `va`. -/
def copyPage (s : Machine) (file : Mem) (bytesRead : Nat) (ph : Phdr) (va page : Nat) : Machine :=
  let segOffset := (va + 2 ^ 64 - ph.pVaddr) % 2 ^ 64
  if segOffset < ph.pFilesz then
    let copyOff := (ph.pOffset + segOffset) % 2 ^ 64
    let len := copyLen segOffset ph.pFilesz
    if (copyOff + len) % 2 ^ 64 ≤ bytesRead then
      { s with mem := blit s.mem page len fun i => file (copyOff + i) }
    else s
  else s

/-- mirrors src/elf/elf.cpp:81-103: `n` pages from `va` on. `false` is the
early return when the allocator is empty. -/
def loadPages (file : Mem) (bytesRead pgd : Nat) (ph : Phdr) : Nat → Nat → Machine → Machine × Bool
  | 0, _, s => (s, true)
  | n + 1, va, s =>
    let r := s.allocPage
    if r.2 = 0 then (r.1, false)
    else
      let s' := copyPage (r.1.mapUserPage pgd va r.2 pteUserRwx) file bytesRead ph va r.2
      loadPages file bytesRead pgd ph n (va + 4096) s'

/-- mirrors src/elf/elf.cpp:68-104 -/
def loadSegments (file : Mem) (bytesRead pgd : Nat) : List Phdr → Machine → Machine × Bool
  | [], s => (s, true)
  | ph :: rest, s =>
    if ph.pType ≠ ptLoad then loadSegments file bytesRead pgd rest s
    else
      let r := loadPages file bytesRead pgd ph ((ph.stop - ph.start) / 4096) ph.start s
      if r.2 then loadSegments file bytesRead pgd rest r.1 else (r.1, false)

/-- mirrors src/elf/elf.cpp:27-118. `read` is what `file_size`, `kmalloc` and
`read_file` gave: nothing, or the buffer and the number of bytes read. -/
def Kernel.loadAndExec (k : Kernel) (kernelPgd : Nat) (read : Option (Mem × Nat)) : Kernel × Nat :=
  match read with
  | none => (k, 0)
  | some (file, bytesRead) =>
    if validate file bytesRead = false then (k, 0)
    else
      let r := k.machine.createUserPageTable kernelPgd
      if r.2 = 0 then ({ k with machine := r.1 }, 0)
      else
        let l := loadSegments file bytesRead r.2 (headers file) r.1
        if l.2 = false then ({ k with machine := l.1 }, 0)
        else
          let c := { k with machine := l.1 }.createUser (eEntry file) r.2
          match c.2 with
          | none => (c.1, 0)
          | some i => (c.1, (c.1.procs i).pid)

/-! ## The image -/

/-- The virtual pages a header makes the loader map. -/
def Phdr.Covers (ph : Phdr) (v : Nat) : Prop :=
  ph.pType = ptLoad ∧ ph.start / 4096 ≤ v ∧ v < ph.stop / 4096

instance (ph : Phdr) (v : Nat) : Decidable (ph.Covers v) := by unfold Phdr.Covers; infer_instance

/-- What the loader puts into the page it maps at `v`. -/
def Phdr.content (ph : Phdr) (file : Mem) (v x : Nat) : UInt8 :=
  if ph.pVaddr ≤ v * 4096 ∧ v * 4096 - ph.pVaddr + x < ph.pFilesz
  then file (ph.pOffset + (v * 4096 - ph.pVaddr + x)) else 0

/-- A page's bytes for each virtual page that has one. -/
abbrev Image := Nat → Option (Nat → UInt8)

/-- A segment is put on top of what was loaded before. -/
def overlay (file : Mem) (img : Image) (ph : Phdr) : Image := fun v =>
  if ph.Covers v then some (ph.content file v) else img v

/-- Sizes of a segment that lies in the file. -/
structure Phdr.InFile (ph : Phdr) (size : Nat) : Prop where
  bytes : ph.pOffset + ph.pFilesz ≤ size
  sizes : ph.pFilesz ≤ ph.pMemsz
  noWrap : ph.pVaddr + ph.pMemsz ≤ 2 ^ 64

/-- The page last mapped for each virtual page is a data page with the image's bytes. -/
def Holds (s : Machine) (lvl : Nat → Option Level) (pgd : Nat) (img : Image) : Prop :=
  ∀ v, match img v with
    | none => s.lastMapped pgd v = none
    | some c => ∃ page, s.lastMapped pgd v = some page ∧ Data s lvl page ∧
        ∀ x, x < 4096 → s.mem (page + x) = c x

section
variable {kpgd kl2 : Nat} {s s' : Machine} {lvl lvl' : Nat → Option Level} {file : Mem}
  {size pgd : Nat} {img : Image} {ph : Phdr}

theorem Holds.none (h : Holds s lvl pgd img) {v : Nat} (hv : img v = none) :
    s.lastMapped pgd v = none := by
  have := h v
  rwa [hv] at this

theorem Holds.some (h : Holds s lvl pgd img) {v : Nat} {c : Nat → UInt8} (hv : img v = some c) :
    ∃ page, s.lastMapped pgd v = .some page ∧ Data s lvl page ∧
      ∀ x, x < 4096 → s.mem (page + x) = c x := by
  have := h v
  rwa [hv] at this

theorem Holds.congr {img' : Image} (h : Holds s lvl pgd img) (he : ∀ v, img v = img' v) :
    Holds s lvl pgd img' := funext he ▸ h

/-! ## One page -/

theorem copyLen_le {segOffset pFilesz : Nat} (h : segOffset < pFilesz) :
    copyLen segOffset pFilesz ≤ 4096 := by
  unfold copyLen
  split <;> omega

/-- `copyPage` copies nothing, or writes the start of the page. -/
theorem copyPage_cases (s : Machine) (file : Mem) (size : Nat) (ph : Phdr) (va page : Nat) :
    copyPage s file size ph va page = s ∨ ∃ len src, len ≤ 4096 ∧
      copyPage s file size ph va page = { s with mem := blit s.mem page len src } := by
  rw [copyPage]
  generalize (va + 2 ^ 64 - ph.pVaddr) % 2 ^ 64 = off
  dsimp only
  by_cases h1 : off < ph.pFilesz
  · rw [if_pos h1]
    split
    · exact .inr ⟨_, _, copyLen_le h1, rfl⟩
    · exact .inl rfl
  · rw [if_neg h1]
    exact .inl rfl

theorem copyPage_frame (s : Machine) (file : Mem) (size : Nat) (ph : Phdr) (va page : Nat) :
    (copyPage s file size ph va page).pages = s.pages ∧
      (copyPage s file size ph va page).lastMapped = s.lastMapped := by
  rcases copyPage_cases s file size ph va page with h | ⟨len, src, -, h⟩ <;> rw [h]
  all_goals exact ⟨rfl, rfl⟩

theorem copyPage_local {va page a : Nat}
    (ha : (copyPage s file size ph va page).mem a ≠ s.mem a) : InPage page a := by
  rcases copyPage_cases s file size ph va page with h | ⟨len, src, hlen, h⟩ <;> rw [h] at ha
  · exact absurd rfl ha
  · by_contra hp
    refine ha (blit_outside ?_)
    unfold InPage at hp
    omega

/-- On a zeroed page it leaves the content of the page. -/
theorem copyPage_content (hin : ph.InFile size) (hsize : size < 2 ^ 32) {va page : Nat}
    (hva : va + 4096 ≤ 2 ^ 64) (hal : va % 4096 = 0) (hlow : ph.pVaddr < va + 4096)
    (hz : ∀ x, x < 4096 → s.mem (page + x) = 0) {x : Nat} (hx : x < 4096) :
    (copyPage s file size ph va page).mem (page + x) = ph.content file (va / 4096) x := by
  obtain ⟨hb, hs, hw⟩ := hin
  have hv : va / 4096 * 4096 = va := by omega
  simp only [copyPage, Phdr.content, hv]
  by_cases hle : ph.pVaddr ≤ va
  · have hoff : (va + 2 ^ 64 - ph.pVaddr) % 2 ^ 64 = va - ph.pVaddr := by omega
    simp only [hoff]
    by_cases hlt : va - ph.pVaddr < ph.pFilesz
    · have hco : (ph.pOffset + (va - ph.pVaddr)) % 2 ^ 64 = ph.pOffset + (va - ph.pVaddr) := by omega
      have hlen4 : copyLen (va - ph.pVaddr) ph.pFilesz ≤ ph.pFilesz - (va - ph.pVaddr) ∧
          (copyLen (va - ph.pVaddr) ph.pFilesz = 4096 ∨
            copyLen (va - ph.pVaddr) ph.pFilesz = ph.pFilesz - (va - ph.pVaddr)) := by
        unfold copyLen
        split <;> omega
      rw [if_pos hlt, hco]
      generalize copyLen (va - ph.pVaddr) ph.pFilesz = len at hlen4
      have hend : (ph.pOffset + (va - ph.pVaddr) + len) % 2 ^ 64 ≤ size := by omega
      simp only [if_pos hend]
      by_cases hxl : x < len
      · rw [blit_inside (by omega) (by omega), if_pos ⟨hle, by omega⟩, Nat.add_sub_cancel_left,
          Nat.add_assoc]
      · rw [blit_outside (by omega), if_neg (by omega), hz x hx]
    · rw [if_neg hlt, if_neg (by omega), hz x hx]
  · -- the difference wraps: it is far beyond the file size, and nothing is copied
    have hoff : ¬ (va + 2 ^ 64 - ph.pVaddr) % 2 ^ 64 < ph.pFilesz := by omega
    simp only [hoff, if_false]
    rw [if_neg (by omega), hz x hx]

/-- One turn of the page loop: a free page is taken, mapped and filled. -/
theorem Ok.loadPage (K : Ok kpgd kl2 s lvl) (hpgd : lvl pgd = some .l1) {s1 : Machine} {p va : Nat}
    (halloc : s.allocPage = (s1, p)) (hp : p ≠ 0) (hw : ¬ InWindow va)
    (hs' : s' = copyPage (s1.mapUserPage pgd va p pteUserRwx) file size ph va p) :
    ∃ lvl', Ok kpgd kl2 s' lvl' ∧ Grows s s' lvl lvl' ∧
      ∀ img, Holds s lvl pgd img → ph.InFile size → size < 2 ^ 32 → va + 4096 ≤ 2 ^ 64 →
        va % 4096 = 0 → ph.pVaddr < va + 4096 →
        Holds s' lvl' pgd fun v => if v = va / 4096 then some (ph.content file v) else img v := by
  have A := K.allocPage
  have B := fun h => K.allocPage_data h
  have L1 : s.allocPage.1.lastMapped = s.lastMapped := allocPage_lastMapped s
  rw [halloc] at A B L1
  obtain ⟨K1, G1⟩ := A
  obtain ⟨D1, Z1, i, hi, he⟩ := B hp
  obtain ⟨lvl2, K2, G2⟩ := K1.mapUserPage (G1.keep _ _ hpgd) hw
    (show pteUserRwx < 2 ^ 64 by decide) p
  have L2 := mapUserPage_lastMapped s1 pgd va p pteUserRwx pgd
  have hfp : s'.pages = (s1.mapUserPage pgd va p pteUserRwx).pages :=
    hs' ▸ (copyPage_frame _ file size ph va p).1
  have hfl : s'.lastMapped = (s1.mapUserPage pgd va p pteUserRwx).lastMapped :=
    hs' ▸ (copyPage_frame _ file size ph va p).2
  have hloc : ∀ a, s'.mem a ≠ (s1.mapUserPage pgd va p pteUserRwx).mem a → InPage p a := by
    rw [hs']
    exact fun a ha => copyPage_local ha
  have hcontent := fun hin hsz hva hal hlow hz x hx =>
    @copyPage_content (s1.mapUserPage pgd va p pteUserRwx) file size ph hin hsz va p hva hal hlow hz
      x hx
  rw [← hs'] at hcontent
  generalize s1.mapUserPage pgd va p pteUserRwx = s2 at K2 G2 L2 hfp hfl hloc hcontent
  have D2 := G2.data D1
  obtain ⟨K3, hkeep⟩ := K2.write_data D2 hloc
  have es' : s' = { s2 with mem := s'.mem } := by rw [← hfp, ← hfl]
  rw [← es'] at K3
  have G := G1.trans G2
  have hdata : ∀ q, Data s2 lvl2 q → Data s' lvl2 q := by
    intro q hq
    rw [es']
    exact ⟨hq.taken, hq.notTable⟩
  refine ⟨lvl2, K3, ⟨G.keep, G.fresh, fun a ha => ?_, fun j hj => hfp ▸ G.bits j hj, hfp ▸ G.total⟩,
    fun img H hin hsz hva hal hlow v => ?_⟩
  · by_cases hc : InPage p a
    · exact .inr ⟨i, hi, he ▸ hc⟩
    · refine G.bytes a fun e => ha ?_
      rw [← e]
      by_contra hne
      exact hc (hloc a hne)
  · have hmapped : ∀ u, s'.lastMapped pgd u =
        if u = va / 4096 then some p else s.lastMapped pgd u := by
      intro u
      rw [hfl, L2, L1]
      simp
    by_cases hv : v = va / 4096
    · simp only [hv, if_true]
      exact ⟨p, by rw [hmapped, if_pos rfl], hdata p D2, hcontent hin hsz hva hal hlow
        fun x hx => (G2.bytes_data K1 D1 hx).trans (Z1 x hx)⟩
    · simp only [hv, if_false]
      have hm := (hmapped v).trans (if_neg hv)
      cases himg : img v with
      | none => exact hm.trans (H.none himg)
      | some c =>
        obtain ⟨q, h1, h2, h3⟩ := H.some himg
        have hqp : q ≠ p := fun e => h2.not_free hi (e.trans he)
        exact ⟨q, hm.trans h1, hdata q (G.data h2),
          fun x hx => (hkeep q x (G.data h2) hqp hx).trans ((G.bytes_data K h2 hx).trans (h3 x hx))⟩

/-! ## The loops -/

/-- `n` pages from `va` on. -/
theorem Ok.loadPages (K : Ok kpgd kl2 s lvl) (hpgd : lvl pgd = some .l1) {n va : Nat}
    (hal : va % 4096 = 0) (hend : va + n * 4096 ≤ 2 ^ 64)
    (hw : ∀ v, va / 4096 ≤ v → v < va / 4096 + n → ¬ InWindow (v * 4096)) :
    ∃ lvl', Ok kpgd kl2 (loadPages file size pgd ph n va s).1 lvl' ∧
      Grows s (loadPages file size pgd ph n va s).1 lvl lvl' ∧
      ∀ img, Holds s lvl pgd img → ph.InFile size → size < 2 ^ 32 → ph.pVaddr < va + 4096 →
        (loadPages file size pgd ph n va s).2 = true →
        Holds (loadPages file size pgd ph n va s).1 lvl' pgd fun v =>
          if va / 4096 ≤ v ∧ v < va / 4096 + n then some (ph.content file v) else img v := by
  induction n generalizing va s lvl with
  | zero =>
    exact ⟨lvl, K, .refl, fun img H _ _ _ _ => H.congr fun v => (if_neg (by omega)).symm⟩
  | succ n ih =>
    obtain ⟨s1, p, halloc⟩ : ∃ s1 p, s.allocPage = (s1, p) := ⟨_, _, rfl⟩
    by_cases hp : p = 0
    · have e : loadPages file size pgd ph (n + 1) va s = (s1, false) := by
        simp [L5.loadPages, halloc, hp]
      rw [e]
      have A := K.allocPage
      rw [halloc] at A
      exact ⟨lvl, A.1, A.2, fun _ _ _ _ _ h => by cases h⟩
    · have hva : ¬ InWindow va := by
        have := hw (va / 4096) (Nat.le_refl _) (by omega)
        rwa [show va / 4096 * 4096 = va by omega] at this
      obtain ⟨lvl1, K1, G1, H1⟩ := K.loadPage hpgd halloc hp hva
        (rfl : copyPage (s1.mapUserPage pgd va p pteUserRwx) file size ph va p = _)
      have hdiv : (va + 4096) / 4096 = va / 4096 + 1 := by omega
      have e : loadPages file size pgd ph (n + 1) va s = loadPages file size pgd ph n (va + 4096)
          (copyPage (s1.mapUserPage pgd va p pteUserRwx) file size ph va p) := by
        simp [L5.loadPages, halloc, hp]
      rw [e]
      obtain ⟨lvl2, K2, G2, H2⟩ := ih K1 (G1.keep _ _ hpgd)
        (show (va + 4096) % 4096 = 0 by omega) (by omega) fun v h1 h2 => hw v (by omega) (by omega)
      refine ⟨lvl2, K2, G1.trans G2, fun img H hin hsz hlow hok => ?_⟩
      refine (H2 _ (H1 img H hin hsz (by omega) hal hlow) hin hsz (by omega) hok).congr fun v => ?_
      rw [hdiv]
      by_cases hv : v = va / 4096
      · rw [if_neg (by omega), if_pos hv, if_pos (by omega)]
      · rw [if_neg hv]
        exact if_congr (by omega) rfl rfl

/-- The pages the headers name are outside the RAM window. -/
def OffWindow (segs : List Phdr) : Prop :=
  ∀ ph ∈ segs, ∀ v, ph.Covers v → ¬ InWindow (v * 4096)

theorem Phdr.pages_eq (ph : Phdr) : ph.start / 4096 + (ph.stop - ph.start) / 4096 =
    max (ph.start / 4096) (ph.stop / 4096) := by
  unfold Phdr.start Phdr.stop
  omega

theorem Phdr.stop_le (ph : Phdr) : ph.stop ≤ 2 ^ 64 := by
  unfold Phdr.stop
  omega

/-- The page loop of one segment puts the segment on top. -/
theorem Ok.loadSegment (K : Ok kpgd kl2 s lvl) (hpgd : lvl pgd = some .l1) (ht : ph.pType = ptLoad)
    (hvaddr : ph.pVaddr < 2 ^ 64) (hw : ∀ v, ph.Covers v → ¬ InWindow (v * 4096))
    {r : Machine × Bool}
    (hr : r = L5.loadPages file size pgd ph ((ph.stop - ph.start) / 4096) ph.start s) :
    ∃ lvl', Ok kpgd kl2 r.1 lvl' ∧ Grows s r.1 lvl lvl' ∧
      ∀ img, Holds s lvl pgd img → ph.InFile size → size < 2 ^ 32 → r.2 = true →
        Holds r.1 lvl' pgd (overlay file img ph) := by
  have hal : ph.start % 4096 = 0 := by unfold Phdr.start; omega
  have hpages := ph.pages_eq
  have hstop := ph.stop_le
  have hin : ∀ v, (ph.start / 4096 ≤ v ∧ v < ph.start / 4096 + (ph.stop - ph.start) / 4096) ↔
      ph.Covers v := by
    intro v
    unfold Phdr.Covers
    rw [hpages]
    omega
  have hend : ph.start + (ph.stop - ph.start) / 4096 * 4096 ≤ 2 ^ 64 := by
    have : ph.start ≤ 2 ^ 64 := by unfold Phdr.start; omega
    omega
  obtain ⟨lvl', K', G, H⟩ := @Ok.loadPages kpgd kl2 s lvl file size pgd ph K hpgd _ _ hal hend
    fun v h1 h2 => hw v ((hin v).mp ⟨h1, h2⟩)
  rw [← hr] at K' G H
  refine ⟨lvl', K', G, fun img Hi hf hsz hok => ?_⟩
  exact (H img Hi hf hsz (by unfold Phdr.start; omega) hok).congr fun v =>
    if_congr (hin v) rfl rfl

/-- The loader refines the overlay of all segments in order. -/
theorem Ok.loadSegments (K : Ok kpgd kl2 s lvl) (hpgd : lvl pgd = some .l1) {segs : List Phdr}
    (hvaddr : ∀ ph ∈ segs, ph.pVaddr < 2 ^ 64) (hw : OffWindow segs) {r : Machine × Bool}
    (hr : r = L5.loadSegments file size pgd segs s) :
    ∃ lvl', Ok kpgd kl2 r.1 lvl' ∧ Grows s r.1 lvl lvl' ∧
      ∀ img, Holds s lvl pgd img → (∀ ph ∈ segs, ph.pType = ptLoad → ph.InFile size) →
        size < 2 ^ 32 → r.2 = true → Holds r.1 lvl' pgd (segs.foldl (overlay file) img) := by
  induction segs generalizing s lvl with
  | nil =>
    subst hr
    exact ⟨lvl, K, .refl, fun img H _ _ _ => H⟩
  | cons ph rest ih =>
    have hv' := fun q hq => hvaddr q (mem_cons_of_mem _ hq)
    have hw' : OffWindow rest := fun q hq => hw q (mem_cons_of_mem _ hq)
    rw [L5.loadSegments] at hr
    by_cases ht : ph.pType = ptLoad
    · rw [if_neg (not_not.mpr ht)] at hr
      obtain ⟨r1, hr1⟩ : ∃ r1, r1 =
        L5.loadPages file size pgd ph ((ph.stop - ph.start) / 4096) ph.start s := ⟨_, rfl⟩
      simp only [← hr1] at hr
      obtain ⟨lvl1, K1, G1, H1⟩ := K.loadSegment hpgd ht (hvaddr ph mem_cons_self)
        (hw ph mem_cons_self) hr1
      by_cases hok : r1.2 = true
      · rw [if_pos hok] at hr
        obtain ⟨lvl2, K2, G2, H2⟩ := ih K1 (G1.keep _ _ hpgd) hv' hw' hr
        refine ⟨lvl2, K2, G1.trans G2, fun img H hf hsz h => ?_⟩
        exact H2 _ (H1 img H (hf ph mem_cons_self ht) hsz hok)
          (fun q hq => hf q (mem_cons_of_mem _ hq)) hsz h
      · rw [if_neg hok] at hr
        subst hr
        exact ⟨lvl1, K1, G1, fun _ _ _ _ h => by cases h⟩
    · rw [if_pos ht] at hr
      obtain ⟨lvl2, K2, G2, H2⟩ := ih K hpgd hv' hw' hr
      refine ⟨lvl2, K2, G2, fun img H hf hsz h => ?_⟩
      have hskip : overlay file img ph = img := funext fun v => if_neg fun hc => ht hc.1
      rw [foldl_cons, hskip]
      exact H2 img H (fun q hq => hf q (mem_cons_of_mem _ hq)) hsz h

/-! ## What is in the image -/

/-- No address lies in both segments. -/
def Phdr.Disjoint (a b : Phdr) : Prop :=
  ∀ x, ¬ (a.pVaddr ≤ x ∧ x < a.pVaddr + a.pMemsz ∧ b.pVaddr ≤ x ∧ x < b.pVaddr + b.pMemsz)

/-- The user stack is mapped last. -/
def withStack (img : Image) : Image := fun v => if IsStackPage v then some fun _ => 0 else img v

/-- The image the loader leaves for a list of headers. -/
def imageOf (file : Mem) (segs : List Phdr) : Image :=
  withStack (segs.foldl (overlay file) fun _ => none)

/-- When no byte is lost: every page of a segment is mapped, and a nonzero file
byte is in a page that starts at or after `p_vaddr`, that no later segment
covers and that is not a page of the user stack. -/
def Kept (file : Mem) (segs : List Phdr) : Prop :=
  ∀ l1 ph l2, segs = l1 ++ ph :: l2 → ph.pType = ptLoad → ∀ i, i < ph.pMemsz →
    (IsStackPage ((ph.pVaddr + i) / 4096) ∨ ∃ q ∈ segs, q.Covers ((ph.pVaddr + i) / 4096)) ∧
    (i < ph.pFilesz → file (ph.pOffset + i) ≠ 0 →
      ph.Covers ((ph.pVaddr + i) / 4096) ∧ ph.pVaddr ≤ (ph.pVaddr + i) / 4096 * 4096 ∧
      ¬ IsStackPage ((ph.pVaddr + i) / 4096) ∧ ∀ q ∈ l2, ¬ q.Covers ((ph.pVaddr + i) / 4096))

variable {segs l1 l2 : List Phdr}

variable {k k' : Kernel} {pid : Nat}

theorem headers_vaddr {q : Phdr} (hq : q ∈ headers file) : q.pVaddr < 2 ^ 64 := by
  obtain ⟨i, -, rfl⟩ := mem_map.mp hq
  exact read64_lt _ _

/-- What a load that got a process leaves: the process, its page table, and the
image in it when the segments lie in the file. -/
structure Loaded (k k' : Kernel) (kpgd : Nat) (file : Mem) (size : Nat)
    (lvl lvl' : Nat → Option Level) (i : Fin 64) (kstack : Nat) : Prop where
  accepted : validate file size = true
  root : lvl' (k.machine.createUserPageTable kpgd).2 = some .l1
  process : ∃ s lvl1, Grows k.machine s lvl lvl1 ∧ NewProcess { k with machine := s } k' i
    (eEntry file) (k.machine.createUserPageTable kpgd).2 kstack lvl'
  image : (∀ ph ∈ headers file, ph.pType = ptLoad → ph.InFile size) → size < 2 ^ 32 →
    Holds k'.machine lvl' (k.machine.createUserPageTable kpgd).2 (imageOf file (headers file))

/-- A load fails and has taken pages only, or it leaves a process. -/
theorem Ok.loadAndExec (K : Ok kpgd kl2 k.machine lvl) (hw : OffWindow (headers file))
    (h : k.loadAndExec kpgd (some (file, size)) = (k', pid)) :
    ∃ lvl', Ok kpgd kl2 k'.machine lvl' ∧ Grows k.machine k'.machine lvl lvl' ∧
      ((pid = 0 ∧ k' = { k with machine := k'.machine }) ∨
        ∃ i kstack, pid = k.nextPid ∧ Loaded k k' kpgd file size lvl lvl' i kstack) := by
  rw [Kernel.loadAndExec] at h
  by_cases hval : validate file size = false
  · rw [if_pos hval] at h
    cases h
    exact ⟨lvl, K, .refl, .inl ⟨rfl, rfl⟩⟩
  rw [if_neg hval] at h
  obtain ⟨lvl1, K1, G1, hroot⟩ := K.createUserPageTable
  have hnone := fun h0 v => @createUserPageTable_lastMapped k.machine kpgd h0 v
  obtain ⟨r, hr⟩ : ∃ r, r = k.machine.createUserPageTable kpgd := ⟨_, rfl⟩
  rw [← hr] at h K1 G1 hroot hnone
  by_cases h0 : r.2 = 0
  · rw [if_pos h0] at h
    cases h
    exact ⟨lvl1, K1, G1, .inl ⟨rfl, rfl⟩⟩
  rw [if_neg h0] at h
  replace hroot := hroot.resolve_left h0
  obtain ⟨l, hl⟩ : ∃ l, l = L5.loadSegments file size r.2 (headers file) r.1 := ⟨_, rfl⟩
  rw [← hl] at h
  obtain ⟨lvl2, K2, G2, H2⟩ := K1.loadSegments hroot (fun q hq => headers_vaddr hq) hw hl
  by_cases hfull : l.2 = false
  · rw [if_pos hfull] at h
    cases h
    exact ⟨lvl2, K2, G1.trans G2, .inl ⟨rfl, rfl⟩⟩
  rw [if_neg hfull] at h
  have hroot2 := G2.keep _ _ hroot
  obtain ⟨k3, c, hc, lvl3, K3, G3, hcase⟩ :=
    @createUser_spec kpgd kl2 lvl2 { k with machine := l.1 } K2 (eEntry file) r.2 hroot2
  rw [hc] at h
  rcases hcase with ⟨rfl, hk3⟩ | ⟨i, kstack, rfl, N⟩
  · cases h
    exact ⟨lvl3, K3, (G1.trans G2).trans G3, .inl ⟨rfl, hk3⟩⟩
  cases h
  have hpid : (k3.procs i).pid = k.nextPid := by
    rw [N.frame]
    simp
  refine ⟨lvl3, K3, (G1.trans G2).trans G3, .inr ⟨i, kstack, hpid, by simpa using hval, ?_, ?_, ?_⟩⟩
  · rw [← hr]
    exact G3.keep _ _ hroot2
  · rw [← hr]
    exact ⟨l.1, lvl2, G1.trans G2, N⟩
  intro hin hsz
  rw [← hr]
  have H := H2 (fun _ => none) (fun v => hnone h0 v) hin hsz (by simpa using hfull)
  intro v
  unfold imageOf withStack
  by_cases hst : IsStackPage v
  · rw [if_pos hst]
    exact N.ustack v hst
  rw [if_neg hst]
  have hsame : k3.machine.lastMapped r.2 v = l.1.lastMapped r.2 v :=
    N.others r.2 v fun hc => hst hc.2
  cases himg : (headers file).foldl (overlay file) (fun _ => none) v with
  | none => exact hsame.trans (H.none himg)
  | some c =>
    obtain ⟨page, h1, h2, h3⟩ := H.some himg
    exact ⟨page, hsame.trans h1, G3.data h2,
      fun x hx => (G3.bytes_data K2 h2 hx).trans (h3 x hx)⟩

end

/-! ## Small executables -/

/-- The header of a one-byte segment, as a little-endian number. -/
def demoPhdr (off vaddr : Nat) : Nat :=
  1 + off * 256 ^ 8 + vaddr * 256 ^ 16 + 1 * 256 ^ 32 + 1 * 256 ^ 40

def demoPhdrs (off : Nat) : List Nat → Nat
  | [] => 0
  | v :: vs => demoPhdr off v + demoPhdrs off vs * 256 ^ 56

/-- An executable with one segment of one byte, 0x41, for each address; the
fields stand at their offsets in a little-endian number. -/
def demoElf (vaddrs : List Nat) : Mem :=
  let data := 64 + 56 * vaddrs.length
  let image := 0x464C457F + 2 * 256 ^ 4 + 1 * 256 ^ 5 + 2 * 256 ^ 16 + 183 * 256 ^ 18 +
    0x80000000 * 256 ^ 24 + 64 * 256 ^ 32 + 56 * 256 ^ 54 + vaddrs.length * 256 ^ 56 +
    demoPhdrs data vaddrs * 256 ^ 64 + 0x41 * 256 ^ data
  fun i => UInt8.ofNat (image / 256 ^ i)

/-- A kernel after boot: the image in the first two pages, `kernel_pgd` in the
second, the L2 table of `MMU::init` behind it. -/
def demoMachine : Machine where
  mem := (Mmu.init (fun _ => 0) 0x40001000 0x40002000).1
  pages := take ⟨fun _ => 0, 65536, 65536⟩ 0 3
  lastMapped := fun _ _ => none

def demoKernel : Kernel := Kernel.init demoMachine 0x40001000

theorem demo_booted : Booted 0x40001000 0x40002000 demoMachine where
  tables := init_kernelTables ⟨by decide, by decide, by decide⟩ ⟨by decide, by decide, by decide⟩
    (by decide)
  small := by decide
  marked := by
    intro i hi he
    have hi3 : i < 3 := by
      simp only [frame, memoryBase, pageSize] at he
      omega
    show bitmapTest (take ⟨fun _ => 0, 65536, 65536⟩ 0 3).bitmap i = true
    rw [bitmapTest_take]
    simp [hi3]

theorem demo_ok : Ok 0x40001000 0x40002000 demoKernel.machine (bootLevels 0x40001000 0x40002000) :=
  demo_booted.ok

section
variable {file : Mem} {size : Nat} {phs : List Phdr}
  (hfile : validate file size = true ∧
    (∀ i, i < ePhnum file → ePhoff file + i * ePhentsize file + 56 ≤ size) ∧ headers file = phs)
  (hphs : size < 2 ^ 32 ∧ (∀ ph ∈ phs, ph.pFilesz = 1 ∧ ph.pMemsz = 1 ∧ ph.pOffset < size) ∧
    phs.Pairwise fun a b => a.pVaddr ≠ b.pVaddr)
include hfile hphs

end

end HackersOs.L5

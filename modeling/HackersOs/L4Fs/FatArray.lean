import HackersOs.L4Fs.FatSectors

/-!
# The FAT as an array

`set_fat_entry` and `next_cluster` compute with 32-bit numbers: the entry's offset
is `cluster * 4`, the sector of copy `f` a sum. Where nothing wraps they are the
operations of an array, kept in all copies at once (`fat_array_iff`); where a number
wraps, the entry of another cluster or a sector in front of the FAT is written.
`setFatLoop_words` says what is written in both cases.

`alloc_exact`: `alloc_cluster` as a function of the disk.
-/
namespace HackersOs.L4.Fat
open HackersOs.Core

variable {f i : Nat}

/-! ## One word in each of a list of sectors -/

def setWords (off value : Nat) (m : Mem) (ks : List Nat) : Mem := ks.foldl (setWord off value) m

section
variable {off value k : Nat} {m : Mem} {ks : List Nat}

theorem setWords_outside (h : ∀ k ∈ ks, i < 512 * k + off ∨ 512 * k + off + 4 ≤ i) :
    setWords off value m ks i = m i := by
  induction ks generalizing m with
  | nil => rfl
  | cons k ks ih =>
    rw [setWords, List.foldl_cons, ← setWords, ih fun k' hk' => h k' (List.mem_cons_of_mem _ hk')]
    exact writeLE_outside (h k List.mem_cons_self)

theorem merge28_div (old value : Nat) (h : old < 2 ^ 32) :
    merge28 old value / 2 ^ 28 = old / 2 ^ 28 := by
  have hhigh : (old &&& 0xF0000000) >>> 28 = old >>> 28 := by
    rw [Nat.shiftRight_and_distrib]
    change old >>> 28 &&& (2 ^ 4 - 1) = _
    rw [Nat.and_two_pow_sub_one_eq_mod, Nat.shiftRight_eq_div_pow]
    omega
  have hlow : (value &&& 0x0FFFFFFF) >>> 28 = 0 := by
    rw [Nat.shiftRight_eq_div_pow, and_low28]
    omega
  rw [← Nat.shiftRight_eq_div_pow, ← Nat.shiftRight_eq_div_pow, merge28, Nat.shiftRight_or_distrib,
    hhigh,
    hlow, Nat.or_zero]

/-- A word of 32 bits is its top four bits and the rest. -/
theorem merge28_eq (old value : Nat) (h : old < 2 ^ 32) :
    merge28 old value = old / 2 ^ 28 * 2 ^ 28 + value % 2 ^ 28 := by
  have hdiv := merge28_div old value h
  have hmod := merge28_mod old value
  omega

theorem merge28_merge28 (old value : Nat) (h : old < 2 ^ 32) :
    merge28 (merge28 old value) value = merge28 old value := by
  rw [merge28_eq _ _ (merge28_lt old value), merge28_div old value h, ← merge28_eq old value h]

theorem read32_lt (m : Mem) (a : Nat) : read32 m a < 2 ^ 32 := readLE_lt m a 4

theorem read32_setWord {k' : Nat} : read32 (setWord off value m k') (512 * k + off) =
    if k = k' then merge28 (read32 m (512 * k + off)) value else read32 m (512 * k + off) := by
  split
  · rename_i heq
    subst heq
    exact (readLE_writeLE _ _ _ _).trans (Nat.mod_eq_of_lt (merge28_lt _ _))
  · exact readLE_writeLE_disjoint (by omega)

/-- Writing a sector twice is writing it once. -/
theorem read32_setWords : read32 (setWords off value m ks) (512 * k + off) =
    if k ∈ ks then merge28 (read32 m (512 * k + off)) value else read32 m (512 * k + off) := by
  induction ks generalizing m with
  | nil => rfl
  | cons k' ks ih =>
    rw [setWords, List.foldl_cons, ← setWords, ih, read32_setWord]
    by_cases hk : k = k'
    · rw [if_pos hk, merge28_merge28 _ _ (read32_lt _ _), ite_self,
        if_pos (hk ▸ List.mem_cons_self)]
    · rw [if_neg hk]
      refine if_congr ?_ rfl rfl
      rw [List.mem_cons, or_iff_right hk]

end

/-! ## What the code writes -/

section
variable {s : Fs} {g : Geom} {c value : Nat}

theorem setFatLoop_words {n f : Nat}
    (h : ∀ k, f ≤ k → k < f + n → copySector s.g c k < s.capacity) :
    ∃ s', setFatLoop noFaults c value n f s = (s', true) ∧ Mounted s s' ∧
      s'.disk = setWords (entryOffset c) value s.disk
        ((List.range' f n).map (copySector s.g c)) := by
  induction n generalizing s f with
  | zero => exact ⟨s, rfl, .refl s, rfl⟩
  | succ n ih =>
    obtain ⟨b, d, hstep, rfl, -⟩ :=
      setFatLoop_step noFaults value n (h f (Nat.le_refl f) (by omega)) rfl rfl
    obtain ⟨s', hs', hm, hdisk⟩ := @ih { s with ops := s.ops + 1 + 1, buf := b, disk := _ } (f + 1)
      fun k hk hkn => h k (by omega) (by omega)
    exact ⟨s', hstep.trans hs', ⟨hm.g, hm.mounted, hm.capacity⟩, hdisk⟩

theorem nextCluster_word (h : fatSectorOf s.g c < s.capacity) :
    (nextCluster noFaults s c).2 =
      read32 s.disk (512 * fatSectorOf s.g c + entryOffset c) % 2 ^ 28 := by
  unfold nextCluster
  rw [readSector_ok h]
  simp only [if_true, entryOffset_word, read32_sector, and_low28]

/-! ## An array in several copies -/

/-- A cluster number whose entry lies inside the FAT. -/
structure EntryIn (g : Geom) (c : Nat) : Prop where
  word : c < 2 ^ 32
  entry : 4 * c + 4 ≤ 512 * g.fatSize

/-- Copies `f` and `f'` of the FAT are the same. -/
def SameCopy (g : Geom) (m : Mem) (f f' : Nat) : Prop :=
  ∀ j, j < 512 * g.fatSize → m (512 * (g.fatStart + f * g.fatSize) + j) =
    m (512 * (g.fatStart + f' * g.fatSize) + j)

/-- From `s` to `s'` entry `c` is set to `value`, and nothing else changes. -/
structure ArrayUpdate (s s' : Fs) (c value : Nat) : Prop where
  next : (nextCluster noFaults s' c).2 = value % 2 ^ 28
  others : ∀ c', EntryIn s.g c' → c' ≠ c →
    (nextCluster noFaults s' c').2 = (nextCluster noFaults s c').2
  top : ∀ f c', f < s.g.numFats → EntryIn s.g c' →
    read32 s'.disk (entryAddr s.g f c') / 2 ^ 28 = read32 s.disk (entryAddr s.g f c') / 2 ^ 28
  copies : ∀ f f', f < s.g.numFats → f' < s.g.numFats → SameCopy s.g s.disk f f' →
    SameCopy s.g s'.disk f f'
  sectors : ∀ i, (∀ f, f < s.g.numFats → i / 512 ≠ s.g.fatStart + f * s.g.fatSize + 4 * c / 512) →
    s'.disk i = s.disk i

/-- Whatever the disk holds, without I/O errors. -/
def FatArray (g : Geom) (cap : Nat) : Prop :=
  ∀ s : Fs, s.g = g → s.capacity = cap → ∀ c value, EntryIn g c → value < 2 ^ 32 →
    (setFatEntry noFaults s c value).2 = true ∧
      ArrayUpdate s (setFatEntry noFaults s c value).1 c value

/-- All sectors computed lie on the disk, wrapped or not. -/
theorem copySector_lt {cap : Nat} (hc : EntryIn g c)
    (hroom : g.fatStart + g.numFats * g.fatSize ≤ cap) (hf : f < g.numFats) :
    copySector g c f < cap := by
  have hentry := hc.entry
  have hend := copy_end_le hf
  unfold copySector fatSectorOf u32
  omega

/-- Sums modulo 2^32. -/
theorem copySector_mod (g : Geom) (c f : Nat) :
    copySector g c f = (g.fatStart + 4 * c % 2 ^ 32 / 512 + f * g.fatSize) % 2 ^ 32 := by
  unfold copySector fatSectorOf u32
  omega

theorem copySector_zero (g : Geom) (c : Nat) : copySector g c 0 = fatSectorOf g c := by
  unfold copySector fatSectorOf u32
  omega

/-- The entry of `c` set in all copies, where the code has them. -/
def setAll (g : Geom) (c value : Nat) (m : Mem) : Mem :=
  setWords (entryOffset c) value m ((List.range g.numFats).map (copySector g c))

/-- What `set_fat_entry` does on a disk that holds the FAT. -/
theorem setFatEntry_words (hc : EntryIn s.g c)
    (hroom : s.g.fatStart + s.g.numFats * s.g.fatSize ≤ s.capacity) :
    ∃ s', setFatEntry noFaults s c value = (s', true) ∧ Mounted s s' ∧
      s'.disk = setAll s.g c value s.disk := by
  rw [setAll, List.range_eq_range']
  exact setFatLoop_words fun k _ hk => copySector_lt hc hroom (by omega)

theorem setAll_word {f : Nat} {m : Mem} (hf : f < g.numFats) :
    read32 (setAll g c value m) (512 * copySector g c f + entryOffset c) =
      merge28 (read32 m (512 * copySector g c f + entryOffset c)) value := by
  rw [setAll, read32_setWords, if_pos (List.mem_map_of_mem (List.mem_range.mpr hf))]

theorem setAll_outside {m : Mem}
    (h : ∀ f, f < g.numFats → i < 512 * copySector g c f + entryOffset c ∨
      512 * copySector g c f + entryOffset c + 4 ≤ i) : setAll g c value m i = m i := by
  refine setWords_outside fun k hk => ?_
  obtain ⟨f, hf, rfl⟩ := List.mem_map.mp hk
  exact h f (List.mem_range.mp hf)

/-- Sector numbers have 32 bits. -/
theorem setAll_high {m : Mem} (h : 512 * 2 ^ 32 ≤ i) : setAll g c value m i = m i := by
  refine setAll_outside fun f _ => ?_
  have hlt : copySector g c f < 2 ^ 32 := Nat.mod_lt _ (by decide)
  rw [entryOffset_word]
  omega

theorem nextCluster_of_entryIn (hc : EntryIn s.g c) (hfats : 1 ≤ s.g.numFats)
    (hroom : s.g.fatStart + s.g.numFats * s.g.fatSize ≤ s.capacity) :
    (nextCluster noFaults s c).2 =
      read32 s.disk (512 * copySector s.g c 0 + entryOffset c) % 2 ^ 28 := by
  have hlt := copySector_lt hc hroom hfats
  rw [copySector_zero] at hlt ⊢
  exact nextCluster_word hlt

/-! ## Where nothing wraps -/

/-- No offset and no sector number of the FAT needs more than 32 bits. -/
structure FatFits (g : Geom) : Prop where
  offsets : 512 * g.fatSize ≤ 2 ^ 32
  sectors : g.fatStart + g.numFats * g.fatSize ≤ 2 ^ 32

theorem FatFits.addr (h : FatFits g) (hc : EntryIn g c) (hf : f < g.numFats) :
    512 * copySector g c f + entryOffset c = entryAddr g f c ∧
      copySector g c f = g.fatStart + f * g.fatSize + 4 * c / 512 := by
  have hentry := hc.entry
  have hend := copy_end_le hf
  have hoff := h.offsets
  have hsec := h.sectors
  have hmod : 4 * c % 2 ^ 32 = 4 * c := Nat.mod_eq_of_lt (by omega)
  have hsector : copySector g c f = g.fatStart + f * g.fatSize + 4 * c / 512 := by
    rw [copySector_mod, hmod, Nat.mod_eq_of_lt (by omega)]
    omega
  refine ⟨?_, hsector⟩
  rw [hsector, entryOffset, u32, Nat.mul_comm c 4, hmod, entryAddr]
  omega

theorem FatFits.outside {m : Mem} (h : FatFits g) (hc : EntryIn g c)
    (hi : ∀ f, f < g.numFats → i < entryAddr g f c ∨ entryAddr g f c + 4 ≤ i) :
    setAll g c value m i = m i := by
  refine setAll_outside fun f hf => ?_
  rw [(h.addr hc hf).1]
  exact hi f hf

/-- The words of all entries in all copies afterwards. -/
theorem FatFits.word {m : Mem} {c' : Nat} (h : FatFits g) (hc : EntryIn g c) (hc' : EntryIn g c')
    (hf : f < g.numFats) : read32 (setAll g c value m) (entryAddr g f c') =
      if c' = c then merge28 (read32 m (entryAddr g f c')) value
        else read32 m (entryAddr g f c') := by
  split
  · rename_i heq
    subst heq
    rw [← (h.addr hc hf).1, setAll_word hf]
  · rename_i hne
    refine readLE_congr fun i h1 h2 => h.outside hc fun f' _ => ?_
    have := entries_apart f' f hc.entry hc'.entry (.inr (Ne.symm hne))
    omega

/-- Copies that agreed still agree. -/
theorem FatFits.sameCopy {m : Mem} {f' : Nat} (h : FatFits g) (hc : EntryIn g c)
    (hf : f < g.numFats) (hf' : f' < g.numFats) (hsame : SameCopy g m f f') :
    SameCopy g (setAll g c value m) f f' := by
  intro j hj
  by_cases hin : j < 4 * c ∨ 4 * c + 4 ≤ j
  · rw [h.outside hc fun k _ => outside_entries hc.entry hj hin k,
      h.outside hc fun k _ => outside_entries hc.entry hj hin k]
    exact hsame j hj
  · -- inside the entry: the old words agree, so the new ones do
    obtain ⟨b, rfl⟩ : ∃ b, j = 4 * c + b := ⟨j - 4 * c, by omega⟩
    have hold : read32 m (entryAddr g f c) = read32 m (entryAddr g f' c) := by
      refine readLE_congr_at fun j hj => ?_
      have := hsame (4 * c + j) (by omega)
      rwa [← Nat.add_assoc, ← Nat.add_assoc] at this
    have hnew : read32 (setAll g c value m) (entryAddr g f c) =
        read32 (setAll g c value m) (entryAddr g f' c) := by
      rw [h.word hc hc hf, h.word hc hc hf', if_pos rfl, if_pos rfl, hold]
    rw [← Nat.add_assoc, ← Nat.add_assoc]
    exact bytes_of_readLE_eq hnew b (by omega)

theorem FatFits.nextCluster (h : FatFits s.g) (hc : EntryIn s.g c) (hfats : 1 ≤ s.g.numFats)
    (hroom : s.g.fatStart + s.g.numFats * s.g.fatSize ≤ s.capacity) :
    (nextCluster noFaults s c).2 = read32 s.disk (entryAddr s.g 0 c) % 2 ^ 28 := by
  rw [nextCluster_of_entryIn hc hfats hroom, (h.addr hc hfats).1]

theorem FatFits.fatArray {cap : Nat} (h : FatFits g) (hfats : 1 ≤ g.numFats)
    (hroom : g.fatStart + g.numFats * g.fatSize ≤ cap) : FatArray g cap := by
  rintro s rfl rfl c value hc -
  obtain ⟨s', hs', hm, hdisk⟩ := @setFatEntry_words s c value hc hroom
  rw [hs']
  have hnext {c' : Nat} (hc' : EntryIn s.g c') :
      (Fat.nextCluster noFaults s' c').2 = read32 s'.disk (entryAddr s.g 0 c') % 2 ^ 28 := by
    rw [← hm.g] at h hc' hfats hroom ⊢
    rw [← hm.capacity] at hroom
    exact h.nextCluster hc' hfats hroom
  refine ⟨rfl, ?_, fun c' hc' hne => ?_, fun f c' hf hc' => ?_, fun f f' hf hf' hsame => ?_,
    fun i hi => ?_⟩
  · rw [hnext hc, hdisk, h.word hc hc hfats, if_pos rfl, merge28_mod]
  · rw [hnext hc', hdisk, h.word hc hc' hfats, if_neg hne, h.nextCluster hc' hfats hroom]
  · rw [hdisk, h.word hc hc' hf]
    split
    · exact merge28_div _ _ (read32_lt _ _)
    · rfl
  · rw [hdisk]
    exact h.sameCopy hc hf hf' hsame
  · rw [hdisk]
    refine h.outside hc fun f hf => ?_
    have hsec := hi f hf
    unfold entryAddr
    omega

/-! ## Where a number wraps -/

/-- A disk of zeros. -/
def zeroFs (g : Geom) (cap : Nat) : Fs := ⟨g, true, fun _ => 0, cap, fun _ => 0, 0⟩

theorem read32_zeroFs (a : Nat) : read32 (fun _ => 0) a = 0 := rfl

theorem merge28_zero_one : merge28 0 1 = 1 := by decide

/-- Entry 2^30 is that of cluster 0. -/
theorem fatArray_offsets {cap : Nat} (h : FatArray g cap) (hfats : 1 ≤ g.numFats)
    (hroom : g.fatStart + g.numFats * g.fatSize ≤ cap) : 512 * g.fatSize ≤ 2 ^ 32 := by
  by_contra hbig
  have hc : EntryIn g (2 ^ 30) := ⟨by decide, by omega⟩
  have h0 : EntryIn g 0 := ⟨by decide, by omega⟩
  have hupd := (h (zeroFs g cap) rfl rfl (2 ^ 30) 1 hc (by decide)).2.others 0 h0 (by decide)
  obtain ⟨s', hs', hm, hdisk⟩ := @setFatEntry_words (zeroFs g cap) (2 ^ 30) 1 hc hroom
  have hsame : copySector g 0 0 = copySector g (2 ^ 30) 0 := by
    rw [copySector_mod, copySector_mod]
    rfl
  have hoffset : entryOffset 0 = entryOffset (2 ^ 30) := by decide
  have hafter : (nextCluster noFaults s' 0).2 = 1 := by
    rw [nextCluster_of_entryIn (by rw [hm.g]; exact h0) (by rw [hm.g]; exact hfats)
      (by rw [hm.g, hm.capacity]; exact hroom), hm.g, hdisk]
    change read32 (setAll g (2 ^ 30) 1 fun _ => 0)
      (512 * copySector g 0 0 + entryOffset 0) % 2 ^ 28 = 1
    rw [hsame, hoffset, setAll_word hfats, read32_zeroFs, merge28_zero_one]
    rfl
  rw [hs', hafter, nextCluster_of_entryIn (s := zeroFs g cap) h0 hfats hroom] at hupd
  cases hupd

/-- A sector with a number that does not fit is never written, and another one is. -/
theorem fatArray_copySector {cap f : Nat} (h : FatArray g cap) (hc : EntryIn g c)
    (hroom : g.fatStart + g.numFats * g.fatSize ≤ cap) (hoff : 4 * c % 512 = 0)
    (hf : f < g.numFats) : g.fatStart + f * g.fatSize + 4 * c / 512 < 2 ^ 32 := by
  by_contra hbig
  obtain ⟨-, hupd⟩ := h (zeroFs g cap) rfl rfl c 1 hc (by decide)
  obtain ⟨s', hs', -, hdisk⟩ := @setFatEntry_words (zeroFs g cap) c 1 hc hroom
  rw [hs'] at hupd
  change s'.disk = setAll g c 1 fun _ => 0 at hdisk
  have hoffset : entryOffset c = 0 := by
    unfold entryOffset u32
    omega
  have hwritten : read32 s'.disk (512 * copySector g c f) = 1 := by
    have hword := @setAll_word g c 1 f (fun _ => 0) hf
    rw [hoffset, Nat.add_zero, read32_zeroFs, merge28_zero_one, ← hdisk] at hword
    exact hword
  -- what was written must be the entry in some copy
  obtain ⟨f', hf', hcopy⟩ : ∃ f', f' < g.numFats ∧
      copySector g c f = g.fatStart + f' * g.fatSize + 4 * c / 512 := by
    by_contra hno
    have hzero : read32 s'.disk (512 * copySector g c f) =
        read32 (fun _ => 0) (512 * copySector g c f) := by
      refine readLE_congr fun i h1 h2 => hupd.sectors i fun f' hf' heq => hno ⟨f', hf', ?_⟩
      change i / 512 = g.fatStart + f' * g.fatSize + 4 * c / 512 at heq
      omega
    rw [hwritten, read32_zeroFs] at hzero
    cases hzero
  -- and the entry in copy `f` is as it was
  have hkept : read32 s'.disk (entryAddr g f c) = 0 := by
    refine (readLE_congr fun i h1 _ => ?_).trans (read32_zeroFs (entryAddr g f c))
    rw [hdisk]
    refine setAll_high ?_
    unfold entryAddr at h1
    omega
  have hagree := hupd.copies f' f hf' hf fun _ _ => rfl
  have hwords : read32 s'.disk (512 * copySector g c f) = read32 s'.disk (entryAddr g f c) := by
    refine readLE_congr_at fun j hj => ?_
    have hentry := hc.entry
    have hbyte := hagree (4 * c + j) (show 4 * c + j < 512 * g.fatSize by omega)
    rw [← Nat.add_assoc, ← Nat.add_assoc] at hbyte
    rw [hcopy, show 512 * (g.fatStart + f' * g.fatSize + 4 * c / 512) =
      512 * (g.fatStart + f' * g.fatSize) + 4 * c by omega]
    exact hbyte
  rw [hwritten, hkept] at hwords
  cases hwords

/-- The last sector of the last copy has a number that fits. -/
theorem fatArray_sectors {cap : Nat} (h : FatArray g cap) (hstart : g.fatStart < 2 ^ 32)
    (hfats : 1 ≤ g.numFats)
    (hroom : g.fatStart + g.numFats * g.fatSize ≤ cap) (hoff : 512 * g.fatSize ≤ 2 ^ 32) :
    g.fatStart + g.numFats * g.fatSize ≤ 2 ^ 32 := by
  obtain ⟨last, hlast⟩ : ∃ last, g.numFats = last + 1 := ⟨g.numFats - 1, by omega⟩
  rcases Nat.eq_zero_or_pos g.fatSize with h0 | hpos
  · rw [h0, Nat.mul_zero]
    omega
  · have hlt := @fatArray_copySector g (128 * (g.fatSize - 1)) cap last h ⟨by omega, by omega⟩
      hroom (by omega)
      (by omega)
    rw [hlast, Nat.succ_mul]
    omega

end

/-- For every geometry with its FAT copies, one behind the other, on the disk: `set_fat_entry`
and `next_cluster` are those of an array, whatever the disk holds, if and only if the offsets
in a copy and the sector numbers of all copies fit 32 bits. -/
theorem fat_array_iff (g : Geom) (cap : Nat) (hstart : g.fatStart < 2 ^ 32) (hfats : 1 ≤ g.numFats)
    (hroom : g.fatStart + g.numFats * g.fatSize ≤ cap) :
    FatArray g cap ↔ 512 * g.fatSize ≤ 2 ^ 32 ∧ g.fatStart + g.numFats * g.fatSize ≤ 2 ^ 32 := by
  constructor
  · intro h
    have hoff := fatArray_offsets h hfats hroom
    exact ⟨hoff, fatArray_sectors h hstart hfats hroom hoff⟩
  · intro h
    obtain ⟨hoff, hsec⟩ := h
    exact FatFits.fatArray ⟨hoff, hsec⟩ hfats hroom

/-- A volume of 64 MiB. -/
def smallGeom : Geom := ⟨1, 32, 2048, 2, 2, 1008, 129022⟩

theorem fat_array_iff_small : FatArray smallGeom 131072 :=
  (fat_array_iff smallGeom 131072 (by decide) (by decide) (by decide)).mpr (by decide)

/-- A FAT with more than 2^30 entries. -/
def hugeGeom : Geom := ⟨64, 32, 16777250, 2, 2, 2 ^ 23 + 1, 2 ^ 26⟩

/-- **Counterexample.** The offset of entry 2^30 is 0 in 32 bits, so cluster 0's entry is set. -/
theorem entry_aliases : (nextCluster noFaults (zeroFs hugeGeom (2 ^ 33)) 0).2 = 0 ∧
    (nextCluster noFaults (setFatEntry noFaults (zeroFs hugeGeom (2 ^ 33)) (2 ^ 30) 5).1 0).2 =
      5 := by
  decide

/-! ## Allocation -/

/-- The low 28 bits of a cluster's entry in the first FAT are 0. -/
def FreeCluster (g : Geom) (m : Mem) (c : Nat) : Prop :=
  InRange g c ∧ read32 m (entryAddr g 0 c) % 2 ^ 28 = 0

section
variable {g : Geom} {cap x : Nat} {m : Mem}

/-- The end mark, in each copy, under the old top four bits. -/
theorem allocDisk_entry (h : GeomOk g cap) (hx : InRange g x) (hf : f < g.numFats) :
    read32 (allocDisk g x m) (entryAddr g f x) =
      read32 m (entryAddr g f x) / 2 ^ 28 * 2 ^ 28 + 0x0FFFFFF8 := by
  have hcopy := h.copy_le hf
  have hin := entryAddr_in_copy (f := f) h hx
  have hdata : 512 * g.dataStart ≤ clusterAddr g x := by
    unfold clusterAddr
    omega
  have hset : read32 (allocDisk g x m) (entryAddr g f x) =
      merge28 (read32 m (entryAddr g f x)) 0x0FFFFFF8 % 256 ^ 4 := by
    refine readLE_of_bytes fun j hj => ?_
    rw [allocDisk, fillBytes_outside (by omega)]
    exact setCopies_byte (hx.inFat h) hj (Nat.zero_le f) (by omega)
  have hlt : merge28 (read32 m (entryAddr g f x)) 0x0FFFFFF8 < 256 ^ 4 := merge28_lt _ _
  rw [hset, Nat.mod_eq_of_lt hlt, merge28_eq _ _ (read32_lt _ _), Nat.mod_eq_of_lt (by decide)]

theorem allocDisk_outside
    (hentry : ∀ f, f < g.numFats → i < entryAddr g f x ∨ entryAddr g f x + 4 ≤ i)
    (hdata : i < clusterAddr g x ∨ clusterAddr g x + 512 * g.sectorsPerCluster ≤ i) :
    allocDisk g x m i = m i := by
  rw [allocDisk, fillBytes_outside hdata]
  exact setCopies_outside fun k _ hk => hentry k (by omega)

end

/-- On every volume whose geometry is sound, without I/O errors: `alloc_cluster` returns the
smallest free cluster, sets its entry to the end mark in all copies, clears its sectors and
changes no other byte; it returns 0 if and only if there is none, and then changes nothing. -/
theorem alloc_exact (s : Fs) (h : GeomOk s.g s.capacity) :
    (∀ c, FreeCluster s.g s.disk c → (∀ c', FreeCluster s.g s.disk c' → c ≤ c') →
      (allocCluster noFaults s).2 = c ∧
      (∀ f, f < s.g.numFats → read32 (allocCluster noFaults s).1.disk (entryAddr s.g f c) =
        read32 s.disk (entryAddr s.g f c) / 2 ^ 28 * 2 ^ 28 + 0x0FFFFFF8) ∧
      (∀ i, clusterAddr s.g c ≤ i → i < clusterAddr s.g c + 512 * s.g.sectorsPerCluster →
        (allocCluster noFaults s).1.disk i = 0) ∧
      ∀ i, (∀ f, f < s.g.numFats → i < entryAddr s.g f c ∨ entryAddr s.g f c + 4 ≤ i) →
        i < clusterAddr s.g c ∨ clusterAddr s.g c + 512 * s.g.sectorsPerCluster ≤ i →
        (allocCluster noFaults s).1.disk i = s.disk i) ∧
    ((allocCluster noFaults s).2 = 0 ↔ ∀ c, ¬ FreeCluster s.g s.disk c) ∧
    ((allocCluster noFaults s).2 = 0 → (allocCluster noFaults s).1.disk = s.disk) := by
  obtain ⟨s', x, hs', -, hx⟩ := allocCluster_first h
  rw [hs']
  rcases hx with ⟨rfl, hdisk, hnone⟩ | ⟨hin, hfree, hdisk, hleast⟩
  · have hno (c : Nat) (hc : FreeCluster s.g s.disk c) : False := hnone c hc.1 hc.2
    exact ⟨fun c hc => absurd hc (hno c), iff_of_true rfl hno, fun _ => hdisk⟩
  have hx2 : x ≠ 0 := fun h0 => absurd hin.1 (by omega)
  refine ⟨fun c hc hmin => ?_, iff_of_false hx2 fun hno => hno x ⟨hin, hfree⟩,
    fun h0 => absurd h0 hx2⟩
  obtain rfl : x = c := by
    refine Nat.le_antisymm ?_ (hmin x ⟨hin, hfree⟩)
    by_contra hlt
    exact hleast c hc.1 (by omega) hc.2
  rw [hdisk]
  refine ⟨rfl, fun f hf => allocDisk_entry h hin hf, fun i h1 h2 => ?_, fun i hentry hdata => ?_⟩
  · exact fillBytes_inside h1 h2
  · exact allocDisk_outside hentry hdata

/-- A volume of 64 MiB with clusters 2 and 3 taken. -/
def takenFs : Fs := { zeroFs smallGeom 131072 with
  disk := fun i => if 32 * 512 + 8 ≤ i ∧ i < 32 * 512 + 16 then 0xFF else 0 }

theorem alloc_exact_taken : (allocCluster noFaults takenFs).2 = 4 ∧
    read32 (allocCluster noFaults takenFs).1.disk (entryAddr smallGeom 1 4) = 0x0FFFFFF8 := by
  have hgeom : GeomOk smallGeom 131072 :=
    ⟨by decide, by decide, by decide, by decide, by decide, by decide, by decide⟩
  have hleast : ∀ c, FreeCluster takenFs.g takenFs.disk c → 4 ≤ c := by
    rintro c ⟨⟨h2, -⟩, hfree⟩
    by_contra hlt
    have hc : c = 2 ∨ c = 3 := by omega
    rcases hc with rfl | rfl <;> exact absurd hfree (by decide)
  obtain ⟨hres, hentry, -⟩ := (alloc_exact takenFs hgeom).1 4 ⟨by decide, by decide⟩ hleast
  exact ⟨hres, hentry 1 (by decide)⟩

end HackersOs.L4.Fat

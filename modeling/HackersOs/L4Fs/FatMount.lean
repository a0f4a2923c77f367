import HackersOs.Core.Traced
import HackersOs.L4Fs.FatDirs

/-!
# What `init` accepts

`init` takes the geometry of the volume from the boot sector and checks the sector
size, nothing else. `initTraced` is `init` with every multiplication, addition,
subtraction and division of its 32-bit arithmetic written down.

* `geometry_exact_iff`: the arithmetic is that of the integers if and only if the
  reserved sectors and the FATs fit into the volume and a cluster has a sector.
* `mount_sound_iff`: so the geometry is sound if and only if, besides, there is
  a FAT and it has an entry for each cluster (`Consistent`).

**Counterexample.** `mount_unsound`: a boot sector of zeros behind its sector size
is accepted after a division by zero, with no FAT (fat32.cpp:207).
-/
namespace HackersOs.L4.Fat
open HackersOs.Core

/-! ## `init` with its arithmetic -/

/-- An operation on 32-bit numbers. -/
inductive ArithOp where
  | mul (a b : Nat)
  | add (a b : Nat)
  | sub (a b : Nat)
  | div (a b : Nat)
  deriving DecidableEq

def ArithOp.result : ArithOp → Nat
  | mul a b => u32 (a * b)
  | add a b => u32 (a + b)
  | sub a b => u32 (a + (2 ^ 32 - b))
  | div a b => a / b

/-- No overflow, no underflow, no division by zero. -/
def ArithOp.Exact : ArithOp → Prop
  | mul a b => a * b < 2 ^ 32
  | add a b => a + b < 2 ^ 32
  | sub a b => b ≤ a
  | div _ b => b ≠ 0

def arith (op : ArithOp) : Traced ArithOp Nat := do
  .event op
  pure op.result

@[simp] theorem arith_value (op : ArithOp) : (arith op).value = op.result := rfl

@[simp] theorem every_arith {P : ArithOp → Prop} (op : ArithOp) : (arith op).Every P ↔ P op := by
  simp [arith]

/-- `geometry` with its arithmetic. mirrors src/fs/fat32.cpp:200-207 -/
def geometryTraced (b : BootSector) : Traced ArithOp Geom := do
  let fats ← arith (.mul b.numFats b.fatSize)
  let dataStart ← arith (.add b.reservedSectors fats)
  let sectors ← arith (.sub b.totalSectors dataStart)
  let clusters ← arith (.div sectors b.sectorsPerCluster)
  pure
    { sectorsPerCluster := b.sectorsPerCluster
      fatStart := b.reservedSectors
      dataStart := dataStart
      rootCluster := b.rootCluster
      numFats := b.numFats
      fatSize := b.fatSize
      totalClusters := clusters }

/-- `init` with its arithmetic. mirrors src/fs/fat32.cpp:186-213 -/
def initTraced (flt : Nat → Bool) (s : Fs) : Traced ArithOp (Fs × Bool) :=
  let r := readSector flt s 0
  if r.2 then
    let b := bootSector r.1.buf
    if b.bytesPerSector ≠ 512 then pure (r.1, false)
    else do
      let g ← geometryTraced b
      pure ({ r.1 with g := g, mounted := true }, true)
  else pure (r.1, false)

theorem geometryTraced_value (b : BootSector) : (geometryTraced b).value = geometry b := rfl

theorem initTraced_value (flt : Nat → Bool) (s : Fs) : (initTraced flt s).value = init flt s := by
  simp only [initTraced, init]
  split
  · split
    all_goals rfl
  · rfl

/-! ## The boot sector -/

theorem bootSector_blit (b src : Mem) : bootSector (blit b 0 512 src) = bootSector src := by
  have hread : ∀ {a n}, a + n ≤ 512 → readLE (blit b 0 512 src) a n = readLE src a n := fun h =>
    readLE_congr fun i _ hi => if_pos (by omega)
  have hbyte : ∀ {a}, a < 512 → blit b 0 512 src a = src a := fun h => if_pos (by omega)
  unfold bootSector read32
  simp only [hread (show 11 + 2 ≤ 512 by decide), hbyte (show 13 < 512 by decide),
    hread (show 14 + 2 ≤ 512 by decide), hbyte (show 16 < 512 by decide),
    hread (show 32 + 4 ≤ 512 by decide), hread (show 36 + 4 ≤ 512 by decide),
    hread (show 44 + 4 ≤ 512 by decide)]

/-- The boot sector of a disk. -/
def bootOf (s : Fs) : BootSector := bootSector (sectorOf s.disk 0)

theorem bootOf_total_lt (s : Fs) : (bootOf s).totalSectors < 2 ^ 32 := readLE_lt _ 32 4

theorem initTraced_behind {s : Fs} (hcap : s.capacity = 0) :
    initTraced noFaults s = pure (s, false) := by
  simp only [initTraced, readSector_behind (Nat.le_zero.mpr hcap), Bool.false_eq_true, if_false]

theorem initTraced_eq {s : Fs} (hcap : s.capacity ≠ 0) : ∃ s' : Fs, initTraced noFaults s =
    if (bootOf s).bytesPerSector ≠ 512 then pure (s', false)
    else geometryTraced (bootOf s) >>= fun g => pure ({ s' with g := g, mounted := true }, true) := by
  refine ⟨{ s with ops := s.ops + 1, buf := blit s.buf 0 512 (sectorOf s.disk 0) }, ?_⟩
  simp only [initTraced, readSector_ok (Nat.pos_of_ne_zero hcap), bootSector_blit, if_true]
  rfl

/-! ## The arithmetic -/

/-- The reserved sectors and the FATs. -/
def BootSector.front (b : BootSector) : Nat := b.reservedSectors + b.numFats * b.fatSize

/-- The clusters behind them. -/
def BootSector.clusters (b : BootSector) : Nat := (b.totalSectors - b.front) / b.sectorsPerCluster

section
variable {b : BootSector}

theorem geometry_exact_iff (htotal : b.totalSectors < 2 ^ 32) :
    (geometryTraced b).Every ArithOp.Exact ↔
    1 ≤ b.sectorsPerCluster ∧ b.front ≤ b.totalSectors := by
  simp only [geometryTraced, Traced.every_bind, every_arith, arith_value, Traced.every_pure, and_true,
    ArithOp.Exact, ArithOp.result, BootSector.front]
  generalize b.numFats * b.fatSize = fats
  unfold u32
  omega

/-- Then the geometry is what the fields say. -/
theorem geometry_eq (htotal : b.totalSectors < 2 ^ 32) (h : b.front ≤ b.totalSectors) : geometry b =
    ⟨b.sectorsPerCluster, b.reservedSectors, b.front, b.rootCluster, b.numFats, b.fatSize,
      b.clusters⟩ := by
  have hfront : u32 (b.reservedSectors + u32 (b.numFats * b.fatSize)) = b.front := by
    unfold BootSector.front at h ⊢
    rw [u32_of_lt (x := b.numFats * b.fatSize) (by omega), u32_of_lt (by omega)]
  have hsectors : u32 (b.totalSectors + (2 ^ 32 - b.front)) = b.totalSectors - b.front := by
    unfold u32
    omega
  simp only [geometry, hfront, hsectors, BootSector.clusters]

end

/-! ## Sound geometries -/

/-- The entry of `c` in copy `f` of the FAT, as `set_fat_entry` addresses it, is that
of the integers and lies in the copy. -/
structure EntryInside (g : Geom) (f c : Nat) : Prop where
  sector : u32 (fatSectorOf g c + u32 (f * g.fatSize)) = g.fatStart + f * g.fatSize + 4 * c / 512
  offset : entryOffset c = 4 * c % 512
  inside : 4 * c / 512 < g.fatSize

/-- The sectors of `c`, as `cluster_to_sector` addresses them, are those of the integers
and end in the volume. -/
structure DataInside (g : Geom) (total c : Nat) : Prop where
  sector : clusterToSector g c = g.dataStart + (c - 2) * g.sectorsPerCluster
  inside : g.dataStart + (c - 2) * g.sectorsPerCluster + g.sectorsPerCluster ≤ total

/-- No overflow, underflow or division by zero, and a geometry whose clusters can be
addressed. -/
def MountSound (s : Fs) : Prop :=
  (initTraced noFaults s).Every ArithOp.Exact ∧
    ∀ s', init noFaults s = (s', true) → 1 ≤ s'.g.sectorsPerCluster ∧ 1 ≤ s'.g.numFats ∧
      ∀ c, 2 ≤ c → c < s'.g.totalClusters + 2 →
        (∀ f, f < s'.g.numFats → EntryInside s'.g f c) ∧ DataInside s'.g (bootOf s).totalSectors c

/-- The fields fit together: a sector per cluster, a FAT, room for the FATs, and an
entry of at most 30 bits' number for each cluster behind them. -/
structure Consistent (b : BootSector) : Prop where
  spc_pos : 1 ≤ b.sectorsPerCluster
  fats_pos : 1 ≤ b.numFats
  front : b.front ≤ b.totalSectors
  entries : b.clusters = 0 ∨ 4 * (b.clusters + 2) ≤ 512 * b.fatSize ∧ b.clusters + 2 ≤ 2 ^ 30

section
variable {g : Geom} {c f : Nat}

/-- The FAT entry of a number that fits. -/
theorem entryInside (hfront : g.fatStart + g.numFats * g.fatSize < 2 ^ 32)
    (hc : 4 * c + 4 ≤ 512 * g.fatSize) (hlt : c < 2 ^ 30) (hf : f < g.numFats) :
    EntryInside g f c := by
  have hcopy := copy_end_le hf
  have hoff : u32 (c * 4) = 4 * c := by
    unfold u32
    omega
  refine ⟨?_, ?_, by omega⟩
  · rw [fatSectorOf, hoff, u32_of_lt (x := f * g.fatSize) (by omega),
      u32_of_lt (x := g.fatStart + _) (by omega),
      u32_of_lt (by omega)]
    omega
  · rw [entryOffset, hoff]

/-- The offset of an entry in the first copy wraps unless the number has 30 bits. -/
theorem EntryInside.lt (h : EntryInside g 0 c) (hc : c < 2 ^ 32 + 2) : c < 2 ^ 30 := by
  have hsector := h.sector
  rw [Nat.zero_mul, Nat.add_zero] at hsector
  unfold fatSectorOf u32 at hsector
  omega

end

/-- The geometry of consistent fields. -/
theorem Consistent.sound {b : BootSector} (htotal : b.totalSectors < 2 ^ 32) (h : Consistent b)
    {c : Nat} (hc : 2 ≤ c) (hlt : c < (geometry b).totalClusters + 2) :
    (∀ f, f < (geometry b).numFats → EntryInside (geometry b) f c) ∧
      DataInside (geometry b) b.totalSectors c := by
  have hfront := h.front
  rw [geometry_eq htotal h.front] at hlt ⊢
  simp only at hlt
  obtain ⟨hentry, hbits⟩ := h.entries.resolve_left (by omega)
  have hspan : (c - 2) * b.sectorsPerCluster + b.sectorsPerCluster ≤ b.totalSectors - b.front := by
    exact Nat.le_trans (mul_add_le (show c - 2 < b.clusters by omega) _) (Nat.div_mul_le_self _ _)
  refine ⟨fun f hf => ?_, ?_, ?_⟩
  · refine entryInside ?_ (by simp only; omega) (by omega) hf
    simp only [BootSector.front] at hfront ⊢
    omega
  · have hsub : u32 (c + (2 ^ 32 - 2)) = c - 2 := by
      unfold u32
      omega
    simp only [clusterToSector, hsub]
    rw [u32_of_lt (x := (c - 2) * b.sectorsPerCluster) (by omega), u32_of_lt (by omega)]
  · simp only
    omega

/-- Fields whose geometry is sound, if the arithmetic is. -/
theorem consistent_of_sound {b : BootSector} (htotal : b.totalSectors < 2 ^ 32)
    (hspc : 1 ≤ b.sectorsPerCluster) (hfront : b.front ≤ b.totalSectors) (hfats : 1 ≤ b.numFats)
    (h : ∀ c, 2 ≤ c → c < b.clusters + 2 → EntryInside (geometry b) 0 c) : Consistent b := by
  refine ⟨hspc, hfats, hfront, ?_⟩
  rcases Nat.eq_zero_or_pos b.clusters with hnone | hpos
  · exact .inl hnone
  -- the last cluster has the last entry
  have hlast := h (b.clusters + 1) (by omega) (by omega)
  rw [geometry_eq htotal hfront] at hlast
  have hclusters : b.clusters ≤ b.totalSectors := Nat.le_trans (Nat.div_le_self _ _) (Nat.sub_le _ _)
  have hbits := hlast.lt (by omega)
  have hinside := hlast.inside
  simp only at hinside
  exact .inr ⟨by omega, by omega⟩

/-- `init`, for every boot sector. -/
theorem mount_sound_iff (s : Fs) : MountSound s ↔
    s.capacity = 0 ∨ (bootOf s).bytesPerSector ≠ 512 ∨ Consistent (bootOf s) := by
  unfold MountSound
  rw [← initTraced_value]
  have htotal := bootOf_total_lt s
  by_cases hcap : s.capacity = 0
  · rw [initTraced_behind hcap]
    exact iff_of_true ⟨Traced.every_pure _, fun s' h => by cases h⟩ (.inl hcap)
  obtain ⟨s₁, hs₁⟩ := initTraced_eq hcap
  rw [hs₁]
  by_cases hbytes : (bootOf s).bytesPerSector ≠ 512
  · rw [if_pos hbytes]
    exact iff_of_true ⟨Traced.every_pure _, fun s' h => by cases h⟩ (.inr (.inl hbytes))
  rw [if_neg hbytes]
  simp only [Traced.every_bind, Traced.every_pure, and_true, geometry_exact_iff htotal,
    Traced.value_bind,
    Traced.value_pure, geometryTraced_value, hcap, hbytes, false_or]
  constructor
  · intro h
    obtain ⟨⟨hspc, hfront⟩, hmounted⟩ := h
    obtain ⟨-, hfats, hall⟩ := hmounted _ rfl
    refine consistent_of_sound htotal hspc hfront hfats fun c hc hlt => ?_
    rw [geometry_eq htotal hfront] at hall ⊢
    exact (hall c hc hlt).1 0 hfats
  · intro h
    refine ⟨⟨h.spc_pos, h.front⟩, fun s' hs' => ?_⟩
    cases hs'
    exact ⟨h.spc_pos, h.fats_pos, fun c hc hlt => h.sound htotal hc hlt⟩

/-- A disk whose boot sector says 512 bytes per sector, and nothing else. -/
def blankFs : Fs :=
  ⟨⟨0, 0, 0, 0, 2, 0, 0⟩, false, fun i => if i = 12 then 2 else 0, 1, fun _ => 0, 0⟩

theorem mount_unsound : (init noFaults blankFs).2 = true ∧
    ArithOp.div 0 0 ∈ (initTraced noFaults blankFs).trace ∧ (init noFaults blankFs).1.g.numFats = 0 ∧
    ¬ MountSound blankFs := by
  have htrace : (init noFaults blankFs).2 = true ∧
      ArithOp.div 0 0 ∈ (initTraced noFaults blankFs).trace ∧
      (init noFaults blankFs).1.g.numFats = 0 := by decide +kernel
  refine ⟨htrace.1, htrace.2.1, htrace.2.2, fun h => ?_⟩
  exact h.1 _ htrace.2.1 rfl

end HackersOs.L4.Fat

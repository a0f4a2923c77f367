import HackersOs.L4Fs.FatReads

/-!
# Failing requests

What the parts of `write_file` do when requests fail.

* `resolvePath_finds`: `resolve_path` finds the entry that the path names, or nothing.
* `setFatEntry_fat`: `set_fat_entry` stops at the first request that fails. The first
  FAT is updated exactly if its two requests succeed (`Updates`).
* `clusterToWrite_taken`: `alloc_cluster` and `write_file` ignore what
  `set_fat_entry` returns (fat32.cpp:334, 385), so a cluster may be taken without a
  mark, and then be taken again, or without a link to it.
* `Round`: one round of the loop in which the data writes succeed. It takes a new
  cluster (`Round.taken`) or writes the one that the chain leads to (`Round.inside`).
-/
namespace HackersOs.L4.Fat
open HackersOs.Core

/-- A FAT sector that cannot be read gives an end mark. -/
theorem nextCluster_cases (flt : Nat → Bool) {s : Fs} {c : Nat} (h : GeomOk s.g s.capacity)
    (hc : InRange s.g c) : (nextCluster flt s c).2 = (volOf s.g s.disk).fat c ∨
      (nextCluster flt s c).2 = 0x0FFFFFF8 := by
  rw [(@nextCluster_eq flt s c).1, fatAfter]
  split
  · rw [fatSectorOf_eq hc h, entryOffset_eq hc h, entryAddr_first, and_low28]
    exact .inl rfl
  · exact .inr rfl

/-! ## The file is found, or nothing is -/

section
variable {flt : Nat → Bool} {α : Type} {visit : Mem → Option α}

/-- Behind an end mark a walk finds nothing. -/
theorem walkDir_end {s s' : Fs} {fuel c : Nat} {r : Nat × α} (hc : isEndCluster c = true) :
    walkDir flt visit fuel c s ≠ some (s', some r) := by
  intro heq
  cases fuel with
  | zero => cases heq
  | succ fuel =>
    rw [walkDir, if_pos hc] at heq
    cases heq

variable (hv : ∀ b src, visit (blit b 0 512 src) = visit src)
include hv

/-- The sectors of one cluster: a failed read ends the walk without a result. -/
theorem walkCluster_finds {s s' : Fs} {n sector : Nat} {o : Option (Option (Nat × α))}
    (hlt : sector + n < 2 ^ 32) (h : walkCluster flt visit n sector s = (s', o)) :
    Reads s s' ∧ ∀ r, o = r.map some → firstHit visit s.disk (List.range' sector n) = r := by
  refine ⟨?_, ?_⟩
  · have hreads := walkCluster_reads flt visit n sector s
    rwa [h] at hreads
  induction n generalizing s sector with
  | zero =>
    obtain ⟨-, rfl⟩ := Prod.mk.inj h
    intro r hr
    cases r with
    | none => rfl
    | some a => cases hr
  | succ n ih =>
    intro r hr
    rw [walkCluster] at h
    cases hok : (readSector flt s sector).2 with
    | false =>
      rw [if_neg (by simp [hok])] at h
      obtain ⟨-, rfl⟩ := Prod.mk.inj h
      cases r <;> cases hr
    | true =>
      obtain ⟨hflt, hcap⟩ := readSector_true hok
      rw [readSector_of hflt hcap, if_pos rfl, hv] at h
      rw [List.range'_succ, firstHit, List.findSome?_cons]
      cases hvis : visit (sectorOf s.disk sector) with
      | some a =>
        rw [hvis] at h
        obtain ⟨-, rfl⟩ := Prod.mk.inj h
        cases r with
        | none => cases hr
        | some a' => exact Option.some.inj hr
      | none =>
        rw [hvis, u32_of_lt (by omega)] at h
        exact ih (by omega) h r hr

/-- One cluster of a walk that finds something. -/
theorem walkDir_round {s s' : Fs} {c fuel : Nat} {r : Nat × α} (hok : GeomOk s.g s.capacity)
    (hc : InRange s.g c) (h : walkDir flt visit fuel c s = some (s', some r)) :
    firstHit visit s.disk (clusterSectors s.g c) = some r ∨
      firstHit visit s.disk (clusterSectors s.g c) = none ∧ ∃ fuel s₁, Reads s s₁ ∧
        walkDir flt visit fuel ((volOf s.g s.disk).fat c) s₁ = some (s', some r) := by
  cases fuel with
  | zero => cases h
  | succ fuel =>
    have h1 := hc.cluster_le
    have h2 := hok.data_lt
    rw [walkDir, if_neg (hok.numbers.sep c hc), clusterToSector_eq hc hok] at h
    generalize hw : walkCluster flt visit s.g.sectorsPerCluster _ s = w at h
    obtain ⟨s₁, o⟩ := w
    obtain ⟨hreads, hfind⟩ := walkCluster_finds hv (by omega) hw
    cases o with
    | some o' =>
      obtain ⟨-, rfl⟩ := Prod.mk.inj (Option.some.inj h)
      exact .inl (hfind (some r) rfl)
    | none =>
      simp only at h
      have hgeom : GeomOk s₁.g s₁.capacity := by rwa [hreads.mounted.g, hreads.mounted.capacity]
      rcases nextCluster_cases flt hgeom (c := c) (by rwa [hreads.mounted.g]) with hnext | hnext
      · rw [hnext, hreads.mounted.g, hreads.disk] at h
        exact .inr ⟨hfind none rfl, fuel, _, hreads.trans (nextCluster_reads flt s₁ c), h⟩
      · rw [hnext] at h
        exact absurd h (walkDir_end endMark)

/-- What the walk over a chain finds is what it finds without failures. -/
theorem walkDir_finds {g : Geom} {m : Mem} {c : Nat} {l : List Nat} (hl : VChain g (volOf g m) c l)
    {s s' : Fs} {fuel : Nat} {r : Nat × α} (hg : s.g = g) (hd : s.disk = m)
    (hok : GeomOk g s.capacity) (h : walkDir flt visit fuel c s = some (s', some r)) :
    firstHit visit m (l.flatMap (clusterSectors g)) = some r := by
  induction hl generalizing s fuel with
  | @last c hc hfin =>
    subst hg hd
    rw [List.flatMap_singleton]
    rcases walkDir_round hv hok hc h with hhit | ⟨-, fuel, s₁, -, h₁⟩
    · exact hhit
    · exact absurd h₁ (walkDir_end hfin)
  | @link c l hc _ ih =>
    have happ : firstHit visit m (clusterSectors g c ++ l.flatMap (clusterSectors g)) =
        (firstHit visit m (clusterSectors g c)).or
          (firstHit visit m (l.flatMap (clusterSectors g))) := List.findSome?_append
    rw [List.flatMap_cons, happ]
    have hround := walkDir_round hv (by rwa [hg]) (by rwa [hg]) h
    rw [hg, hd] at hround
    rcases hround with hhit | ⟨hnone, fuel, s₁, hreads, h₁⟩
    · rw [hhit, Option.some_or]
    · rw [hnone, Option.none_or]
      exact ih (hreads.mounted.g.trans hg) (hreads.disk.trans hd)
        (by rwa [hreads.mounted.capacity]) h₁

end

section
variable {flt : Nat → Bool} {fuel : Nat} {s s' : Fs} {e e' : DirEntry}

theorem findInDir_finds {c : Nat} {l : List Nat} {name : List UInt8} (h : GeomOk s.g s.capacity)
    (hl : VChain s.g (volOf s.g s.disk) c l)
    (hfind : findInDir flt fuel s c name = some (s', some e)) :
    lookup (volOf s.g s.disk) l name = some e := by
  obtain ⟨⟨s₁, r⟩, hwalk, heq⟩ := Option.map_eq_some_iff.mp hfind
  obtain ⟨rfl, hr⟩ := Prod.mk.inj heq
  obtain ⟨⟨k, o⟩, rfl, rfl⟩ := Option.bind_eq_some_iff.mp hr
  rw [lookup_eq_firstHit, walkDir_finds (findEntry_blit name) hl rfl rfl h hwalk]
  rfl

theorem resolveLoop_finds {c : Nat} {comps : List (List UInt8)}
    (hn : Names s.g (volOf s.g s.disk) c comps e) (h : GeomOk s.g s.capacity)
    (hres : resolveLoop flt fuel comps c s = some (s', some e')) : e' = e := by
  obtain ⟨g, hg⟩ : ∃ g, s.g = g := ⟨_, rfl⟩
  obtain ⟨m, hd⟩ : ∃ m, s.disk = m := ⟨_, rfl⟩
  rw [hg, hd] at hn
  rw [hg] at h
  induction hn generalizing s with
  | @last c l name e hl hlook =>
    rw [← hg, ← hd] at hl hlook
    have hfind := findInDir_finds (by rwa [hg]) hl hres
    rw [hlook] at hfind
    exact (Option.some.inj hfind).symm
  | @via c l name rest d e hl hlook hdir hrest ih =>
    cases rest with
    | nil => cases hrest
    | cons name' rest =>
      rw [resolveLoop] at hres
      · obtain ⟨⟨s₁, o⟩, hfind, hnext⟩ := Option.bind_eq_some_iff.mp hres
        have hreads := findInDir_reads flt hfind
        cases o with
        | none => cases hnext
        | some d' =>
          rw [← hg, ← hd] at hl hlook
          have hd' := findInDir_finds (by rwa [hg]) hl hfind
          rw [hlook] at hd'
          obtain rfl := Option.some.inj hd'
          simp only [hdir, if_true] at hnext
          exact ih hnext (by rwa [hreads.mounted.capacity]) (hreads.mounted.g.trans hg)
            (hreads.disk.trans hd)
      · simp

/-- `resolve_path` finds the entry that the path names, or nothing. -/
theorem resolvePath_finds {path : List UInt8} (hr : Resolves s.g (volOf s.g s.disk) path e)
    (h : GeomOk s.g s.capacity) (hres : resolvePath flt fuel s path = some (s', some e')) :
    e' = e := by
  unfold resolvePath at hres
  rcases hr with ⟨hroot, rfl⟩ | hn
  · rw [if_pos hroot] at hres
    exact (Option.some.inj (Prod.mk.inj (Option.some.inj hres)).2).symm
  have hne : dropSlash path ≠ [] := by
    intro hnil
    rw [hnil] at hn
    cases hn
  rw [if_neg hne] at hres
  exact resolveLoop_finds hn h hres

end

/-! ## Updates of the FAT -/

/-- The next two requests succeed: with them `set_fat_entry` updates the first FAT. -/
def Updates (flt : Nat → Bool) (s : Fs) : Prop := flt s.ops = false ∧ flt (s.ops + 1) = false

/-- The number is no cluster: `write_file` takes a new one. -/
def Needs (c : Nat) : Prop := isEndCluster c = true ∨ c = 0

section
variable {flt : Nat → Bool} {s : Fs} {c : Nat}

theorem Needs.not_inRange {g : Geom} (hc : Needs c) (hg : Numbers g) : ¬ InRange g c := by
  intro hin
  rcases hc with hend | rfl
  · exact hg.sep c hin hend
  · exact not_inRange_zero hin

/-- The first FAT after `set_fat_entry`: updated, or the disk is as before. -/
theorem setFatEntry_fat (h : GeomOk s.g s.capacity) (hc : InRange s.g c) (value : Nat) :
    (Updates flt s → (volOf s.g (setFatEntry flt s c value).1.disk).fat c = value % 2 ^ 28) ∧
      (¬ Updates flt s → (setFatEntry flt s c value).1.disk = s.disk) := by
  obtain ⟨n, hn⟩ : ∃ n, s.g.numFats = n + 1 := Nat.exists_eq_succ_of_ne_zero (Nat.ne_of_gt h.fats_pos)
  rw [setFatEntry, hn]
  refine ⟨fun hok => ?_,
    fun hfail => (setFatLoop_fail value n h.fatRoom (hc.inFat h) h.fats_pos hfail).disk⟩
  obtain ⟨b, d, hstep, hd, -⟩ := setFatLoop_succ flt value n h.fatRoom (hc.inFat h) h.fats_pos
    hok.1 hok.2
  -- the later copies are elsewhere
  obtain ⟨-, hrest⟩ :=
    @setFatLoop_frame { s with ops := s.ops + 1 + 1, buf := b, disk := d } c flt value
    n 1 h.fatRoom (hc.inFat h) (by simp only; omega)
  have hread : readLE _ (entryAddr s.g 0 c) 4 = readLE d (entryAddr s.g 0 c) 4 :=
    readLE_congr fun i h1 h2 => hrest i fun k hk _ => by
      have := entryAddr_apart h 0 k hc hc (.inl (by omega))
      simp only
      omega
  rw [hstep]
  refine (congrArg (· % 2 ^ 28) hread).trans ?_
  have hlt : merge28 (read32 s.disk (entryAddr s.g 0 c)) value < 256 ^ 4 := merge28_lt _ _
  simp only [hd, write32, readLE_writeLE, Nat.mod_eq_of_lt hlt, merge28_mod]

/-- Marking and clearing a free cluster. -/
theorem take_faulty (h : GeomOk s.g s.capacity) (hc : InRange s.g c)
    (hfree : (volOf s.g s.disk).fat c = 0) {s' : Fs}
    (hs' : zeroSectors flt (setFatEntry flt s c 0x0FFFFFF8).1.g.sectorsPerCluster
      (clusterToSector (setFatEntry flt s c 0x0FFFFFF8).1.g c)
      (setFatEntry flt s c 0x0FFFFFF8).1 = s') :
    Mounted s s' ∧ Needs ((volOf s.g s'.disk).fat c) := by
  have hm := setFatEntry_mounted flt h hc 0x0FFFFFF8
  obtain ⟨hset, hkeep⟩ := @setFatEntry_fat flt s c h hc 0x0FFFFFF8
  generalize (setFatEntry flt s c 0x0FFFFFF8).1 = s₁ at hs' hm hset hkeep
  have h1 := hc.cluster_le
  have h3 := h.data_lt
  simp only [hm.g, clusterToSector_eq hc h] at hs'
  obtain ⟨hm', hout⟩ := zeroSectors_spec (s := s₁) flt s.g.sectorsPerCluster
    (s.g.dataStart + (c - 2) * s.g.sectorsPerCluster) (by omega)
  rw [hs'] at hm' hout
  have hzero : Frame s.g [] [c] s₁.disk s'.disk :=
    frame_data h hc fun i hi => hout i (by unfold clusterAddr at hi; omega)
  refine ⟨hm.trans hm', ?_⟩
  rw [hzero.fat c hc List.not_mem_nil]
  by_cases hok : Updates flt s
  · rw [hset hok]
    exact .inl (by decide)
  · rw [hkeep hok, hfree]
    exact .inr rfl

theorem allocLoop_faulty {n : Nat} (h : GeomOk s.g s.capacity) (hc : 2 ≤ c)
    (hn : c + n = s.g.totalClusters + 2) (hx : (allocLoop flt n c s).2 ≠ 0) :
    Mounted s (allocLoop flt n c s).1 ∧ InRange s.g (allocLoop flt n c s).2 ∧
      (volOf s.g s.disk).fat (allocLoop flt n c s).2 = 0 ∧
      Needs ((volOf s.g (allocLoop flt n c s).1.disk).fat (allocLoop flt n c s).2) := by
  induction n generalizing s c with
  | zero => exact absurd rfl hx
  | succ n ih =>
    have hin : InRange s.g c := ⟨hc, by omega⟩
    obtain ⟨hm, hd⟩ := readSector_reads flt s (fatSectorOf s.g c)
    have hgeom : GeomOk (readSector flt s (fatSectorOf s.g c)).1.g
        (readSector flt s (fatSectorOf s.g c)).1.capacity := by rwa [hm.g, hm.capacity]
    have hnext := @ih (readSector flt s (fatSectorOf s.g c)).1 (c + 1) hgeom (by omega)
      (by rw [hm.g]; omega)
    rw [hm.g, hd] at hnext
    rw [allocLoop] at hx ⊢
    split at hx
    · rename_i hok
      rw [if_pos hok]
      split at hx
      · rename_i hzero
        rw [if_pos hzero]
        have hfree : (volOf s.g s.disk).fat c = 0 := by
          obtain ⟨hflt, hcap⟩ := readSector_true hok
          rw [readSector_of hflt hcap, fatSectorOf_eq hin h, entryOffset_eq hin h, read32_sector,
            entryAddr_first, and_low28] at hzero
          exact hzero
        have htake := @take_faulty flt _ c hgeom (by rwa [hm.g]) (by rwa [hm.g, hd]) _ rfl
        rw [hm.g] at htake
        exact ⟨hm.trans htake.1, hin, hfree, htake.2⟩
      · rename_i hzero
        rw [if_neg hzero]
        obtain ⟨hm', hrest⟩ := hnext hx
        exact ⟨hm.trans hm', hrest⟩
    · rename_i hok
      rw [if_neg hok]
      obtain ⟨hm', hrest⟩ := hnext hx
      exact ⟨hm.trans hm', hrest⟩

theorem allocCluster_faulty (h : GeomOk s.g s.capacity) (hx : (allocCluster flt s).2 ≠ 0) :
    Mounted s (allocCluster flt s).1 ∧ InRange s.g (allocCluster flt s).2 ∧
      (volOf s.g s.disk).fat (allocCluster flt s).2 = 0 ∧
      Needs ((volOf s.g (allocCluster flt s).1.disk).fat (allocCluster flt s).2) := by
  rw [allocCluster_eq flt h] at hx ⊢
  exact allocLoop_faulty h (Nat.le_refl 2) (Nat.add_comm _ _) hx

end

/-- The new cluster `x` behind `prev`; the link is made in the state `s₁`. -/
structure Taken (flt : Nat → Bool) (s s₁ s' : Fs) (prev x : Nat) : Prop where
  mounted : Mounted s s'
  inRange : InRange s.g x
  free : (volOf s.g s.disk).fat x = 0
  frame : Frame s.g [prev, x] [x] s.disk s'.disk
  mark : x ≠ prev ∨ ¬ Updates flt s₁ → Needs ((volOf s.g s'.disk).fat x)
  link : Updates flt s₁ → (volOf s.g s'.disk).fat prev = x
  nolink : ¬ Updates flt s₁ → x ≠ prev → (volOf s.g s'.disk).fat prev = (volOf s.g s.disk).fat prev

theorem clusterToWrite_taken {flt : Nat → Bool} {s s' : Fs} {c prev x : Nat}
    (h : GeomOk s.g s.capacity) (hc : Needs c) (hprev : InRange s.g prev)
    (hret : clusterToWrite flt s c prev = (s', some x)) :
    (allocCluster flt s).2 = x ∧ Taken flt s (allocCluster flt s).1 s' prev x := by
  have hp0 : prev ≠ 0 := by
    rintro rfl
    exact not_inRange_zero hprev
  have hframe := frame_allocCluster flt h
  have halloc := @allocCluster_faulty flt s h
  simp only [clusterToWrite, if_pos (show isEndCluster c = true ∨ c = 0 from hc), if_pos hp0] at hret
  generalize allocCluster flt s = a at hret hframe halloc ⊢
  obtain ⟨s₁, y⟩ := a
  simp only at hret hframe halloc ⊢
  split at hret
  · cases hret
  rename_i hy
  obtain ⟨rfl, hxy⟩ := Prod.mk.inj hret
  obtain rfl := Option.some.inj hxy
  obtain ⟨hm, hin, hfree, hmark⟩ := halloc hy
  have hgeom : GeomOk s₁.g s₁.capacity := by rwa [hm.g, hm.capacity]
  have hprev₁ : InRange s₁.g prev := by rwa [hm.g]
  have hset := frame_setFatEntry flt hgeom hprev₁ y
  obtain ⟨hlink, hkeep⟩ := @setFatEntry_fat flt s₁ prev hgeom hprev₁ y
  rw [hm.g] at hset hlink
  refine ⟨rfl, hm.trans (setFatEntry_mounted flt hgeom hprev₁ y), hin, hfree, ?_, ?_, ?_, ?_⟩
  · exact (hframe.mono (by simp) (by simp)).trans (hset.mono (by simp) (by simp))
  · intro hor
    by_cases hok : Updates flt s₁
    · have hne := hor.resolve_right (not_not.mpr hok)
      rwa [hset.fat y hin (by simpa using hne)]
    · rwa [hkeep hok]
  · intro hok
    rw [hlink hok, Nat.mod_eq_of_lt (hin.lt h.numbers)]
  · intro hfail hne
    rw [hkeep hfail]
    exact hframe.fat prev hprev (by simpa using hne.symm)

/-! ## Rounds of the loop -/

/-- The loop of `write_file` at its head. -/
structure Loop where
  fs : Fs
  cluster : Nat
  prev : Nat
  data : List UInt8

/-- A round in which no data write fails. -/
def Round (flt : Nat → Bool) (σ σ' : Loop) : Prop :=
  σ.data ≠ [] ∧ ∃ s₁ s₂, clusterToWrite flt σ.fs σ.cluster σ.prev = (s₁, some σ'.prev) ∧
    writeSectors flt s₁.g.sectorsPerCluster (clusterToSector s₁.g σ'.prev) σ.data s₁ =
      (s₂, some σ'.data) ∧
    nextCluster flt s₂ σ'.prev = (σ'.fs, σ'.cluster)

/-- The state after a round. -/
def nextRound (flt : Nat → Bool) (σ : Loop) : Loop :=
  let a := clusterToWrite flt σ.fs σ.cluster σ.prev
  let c := a.2.getD 0
  let w := writeSectors flt a.1.g.sectorsPerCluster (clusterToSector a.1.g c) σ.data a.1
  let n := nextCluster flt w.1 c
  ⟨n.1, n.2, c, w.2.getD []⟩

/-- The data a round leaves, what it wrote and where it goes on. -/
structure After (g : Geom) (σ σ' : Loop) : Prop where
  rest : σ'.data = σ.data.drop (512 * g.sectorsPerCluster)
  starts : σ.data.take (512 * g.sectorsPerCluster) <+: clusterBytes g σ'.fs.disk σ'.prev
  goesOn : σ'.cluster = (volOf g σ'.fs.disk).fat σ'.prev ∨ σ'.cluster = 0x0FFFFFF8

section
variable {flt : Nat → Bool} {σ σ' : Loop}

theorem Round.eq (h : Round flt σ σ') : σ' = nextRound flt σ := by
  obtain ⟨-, s₁, s₂, hto, hws, hnext⟩ := h
  obtain ⟨fs', c', p', d'⟩ := σ'
  simp only at hto hws hnext
  simp only [nextRound, hto, Option.getD_some, hws, hnext]

/-- A loop that returns true is at its end or makes a round. -/
theorem writeLoop_true {fuel : Nat} {s' : Fs}
    (h : writeLoop flt fuel σ.cluster σ.prev σ.data σ.fs = some (s', true)) :
    σ.data = [] ∧ σ.fs = s' ∨ ∃ fuel' σ', fuel = fuel' + 1 ∧ Round flt σ σ' ∧
      writeLoop flt fuel' σ'.cluster σ'.prev σ'.data σ'.fs = some (s', true) := by
  cases fuel with
  | zero => cases h
  | succ fuel =>
    rw [writeLoop] at h
    split at h
    · rename_i hnil
      exact .inl ⟨hnil, (Prod.mk.inj (Option.some.inj h)).1⟩
    rename_i hdata
    split at h
    · cases h
    rename_i s₁ c hto
    split at h
    · cases h
    · rename_i s₂ rest hws
      exact .inr ⟨fuel, ⟨_, _, c, rest⟩, rfl, ⟨hdata, s₁, s₂, hto, hws, rfl⟩, h⟩

/-- The data write and the step to the next cluster. -/
theorem round_after {s₁ s₂ : Fs} (h : GeomOk s₁.g s₁.capacity) (hy : InRange s₁.g σ'.prev)
    (hws : writeSectors flt s₁.g.sectorsPerCluster (clusterToSector s₁.g σ'.prev) σ.data s₁ =
      (s₂, some σ'.data)) (hnext : nextCluster flt s₂ σ'.prev = (σ'.fs, σ'.cluster)) :
    Mounted s₁ σ'.fs ∧ Frame s₁.g [] [σ'.prev] s₁.disk σ'.fs.disk ∧ After s₁.g σ σ' := by
  have h1 := hy.cluster_le
  have h3 := h.data_lt
  rw [clusterToSector_eq hy h] at hws
  obtain ⟨hrest, hm, hout, hstarts⟩ := writeSectors_some hws (by omega)
  have hreads := nextCluster_reads flt s₂ σ'.prev
  have hcases := nextCluster_cases flt (s := s₂) (c := σ'.prev) (by rwa [hm.g, hm.capacity])
    (by rwa [hm.g])
  rw [hnext] at hreads hcases
  rw [hm.g, ← hreads.disk] at hcases
  have hframe : Frame s₁.g [] [σ'.prev] s₁.disk s₂.disk :=
    frame_data h hy fun i hi => hout i (by unfold clusterAddr at hi; omega)
  rw [← hreads.disk] at hframe hstarts
  exact ⟨hm.trans hreads.mounted, hframe, hrest, hstarts, hcases⟩

/-- A round that takes a new cluster. -/
theorem Round.taken (h : GeomOk σ.fs.g σ.fs.capacity) (hr : Round flt σ σ') (hneed : Needs σ.cluster)
    (hprev : InRange σ.fs.g σ.prev) : (allocCluster flt σ.fs).2 = σ'.prev ∧
      Taken flt σ.fs (allocCluster flt σ.fs).1 σ'.fs σ.prev σ'.prev ∧ After σ.fs.g σ σ' := by
  obtain ⟨-, s₁, s₂, hto, hws, hnext⟩ := hr
  obtain ⟨hx, ht⟩ := clusterToWrite_taken h hneed hprev hto
  have hm := ht.mounted
  obtain ⟨hm', hframe, hafter⟩ := round_after (by rwa [hm.g, hm.capacity])
    (by rw [hm.g]; exact ht.inRange) hws hnext
  rw [hm.g] at hframe hafter
  have hfat : ∀ y, InRange σ.fs.g y →
      (volOf σ.fs.g σ'.fs.disk).fat y = (volOf σ.fs.g s₁.disk).fat y :=
    fun y hy => hframe.fat y hy List.not_mem_nil
  refine ⟨hx, ⟨hm.trans hm', ht.inRange, ht.free, ?_, ?_, ?_, ?_⟩, hafter⟩
  · exact ht.frame.trans (hframe.mono (by simp) (by simp))
  · rw [hfat _ ht.inRange]
    exact ht.mark
  · rw [hfat _ hprev]
    exact ht.link
  · rw [hfat _ hprev]
    exact ht.nolink

/-- A round inside the chain. -/
theorem Round.inside (h : GeomOk σ.fs.g σ.fs.capacity) (hr : Round flt σ σ')
    (hin : InRange σ.fs.g σ.cluster) : σ'.prev = σ.cluster ∧ Mounted σ.fs σ'.fs ∧
      Frame σ.fs.g [] [σ.cluster] σ.fs.disk σ'.fs.disk ∧ After σ.fs.g σ σ' := by
  obtain ⟨-, s₁, s₂, hto, hws, hnext⟩ := hr
  have hgo : ¬ (isEndCluster σ.cluster = true ∨ σ.cluster = 0) :=
    fun hneed => Needs.not_inRange hneed h.numbers hin
  rw [clusterToWrite, if_neg hgo] at hto
  obtain ⟨rfl, hp⟩ := Prod.mk.inj hto
  have hprev : σ'.prev = σ.cluster := (Option.some.inj hp).symm
  obtain ⟨hm, hframe, hafter⟩ := round_after h (by rwa [hprev]) hws hnext
  rw [hprev] at hframe
  exact ⟨hprev, hm, hframe, hafter⟩

end

end HackersOs.L4.Fat

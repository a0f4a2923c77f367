import HackersOs.Core.LTS
import HackersOs.L4Fs.FatDirs

/-!
# Runs of file system calls

Sequences of `create_file`, `write_file` and `delete_file` on a well-formed
volume, without I/O errors (`VolumeOk`).

`volume_wellFormed`: the volume stays well-formed, and every call returns, as
long as each call is `Sound` in the state it starts from.

**Counterexample.** `calls_break_volume` has one run for each of the
calls that are not:
* `delete_file` frees the clusters of a file and leaves its directory entry,
  which then refers to free clusters (fat32.cpp:466-476).
* `create_file` lays the new entry out in `sector_buf`; `alloc_cluster` then
  reads a FAT sector into the same buffer, so a FAT sector with a few bytes
  changed is written over the directory (fat32.cpp:434-447).
* a path that goes on behind a `..` that stands for the root by a 0 makes
  `find_in_dir` read the sectors in front of cluster 2, the end of the FATs, as
  a directory (fat32.cpp:119-125, 177).
-/
namespace HackersOs.L4.Fat
open HackersOs.Core List

variable {dirPath path : List UInt8} {e : DirEntry} {v : Vol}

structure VolumeOk (s : Fs) : Prop where
  geom : GeomOk s.g s.capacity
  copies : CopiesAgree s.g s.disk
  wf : WellFormed s.g (volOf s.g s.disk)

theorem VolumeOk.unchanged {s s' : Fs} (h : VolumeOk s) (hm : Mounted s s') (hd : s'.disk = s.disk) :
    VolumeOk s' := by
  obtain ⟨h1, h2, h3⟩ := h
  refine ⟨?_, ?_, ?_⟩
  · rwa [hm.g, hm.capacity]
  all_goals rwa [hm.g, hd]

/-- After a change of one cluster only well-formedness is left to show. -/
theorem VolumeOk.touched {s s' : Fs} {x : Nat} (h : VolumeOk s) (hm : Mounted s s')
    (ht : Touches s.g x s.disk s'.disk) (hwf : WellFormed s.g (volOf s.g s'.disk)) : VolumeOk s' := by
  refine ⟨?_, ?_, ?_⟩
  · rw [hm.g, hm.capacity]
    exact h.geom
  · rw [hm.g]
    exact ht.copies h.copies
  · rwa [hm.g]

/-- No call of `alloc_cluster` succeeds. -/
def Full (g : Geom) (v : Vol) : Prop := ∀ y, InRange g y → v.fat y ≠ 0

/-- The calls that do what they should, by the state before the call: a path
does not go on behind a `..` that says 0; `create_file` finds no directory, no
free slot or no free cluster; `delete_file` finds no file with clusters. -/
def Sound (s : Fs) (c : Call) : Prop :=
  let v := volOf s.g s.disk
  s.mounted = true → match c with
    | .create dirPath _ => ¬ ThroughZero s.g v dirPath ∧
        ∀ d, Resolves s.g v dirPath d → d.isDir = true → d.first ≠ 0 ∧
          (Full s.g v ∨ ∀ l, VChain s.g v d.first l → ∀ c ∈ l, ∀ e ∈ v.slots c, ¬ e.isFree)
    | .write path _ => ¬ ThroughZero s.g v path
    | .delete path => ¬ ThroughZero s.g v path ∧
        ∀ e, Resolves s.g v path e → e.isDir = false → e.first = 0

def fatLTS (Guard : Fs → Call → Prop) : LTS Fs Call where
  init := VolumeOk
  step s c s' := Guard s c ∧ ∃ fuel b, exec noFaults fuel s c = some (s', b)

/-! ## `write_file` -/

/-- A chain without directory clusters. -/
def FileChain (g : Geom) (v : Vol) (c : Nat) : Prop :=
  ∃ l, VChain g v c l ∧ ∀ x ∈ l, NotDir g v x

/-- Where the loop of `write_file` may be: inside a file's chain, in front of
the first cluster of an empty file, or behind a last cluster. -/
inductive Target (g : Geom) (v : Vol) : Nat → Nat → Prop where
  | inside {c prev : Nat} : FileChain g v c → Target g v c prev
  | first {c : Nat} : isEndCluster c = true ∨ c = 0 → Target g v c 0
  | behind {c prev : Nat} : isEndCluster c = true ∨ c = 0 → InRange g prev → NotDir g v prev →
      isEndCluster (v.fat prev) = true → Target g v c prev

section
variable {s s' : Fs} {c x prev : Nat}

/-- The volume after an allocation: the new cluster is a chain of its own. -/
theorem VolumeOk.alloc (h : VolumeOk s) (hm : Mounted s s') (ha : Allocated s s' x) :
    VolumeOk s' ∧ Unowned s.g (volOf s.g s'.disk) x ∧
      KeepsDirs s.g (volOf s.g s.disk) (volOf s.g s'.disk) := by
  obtain ⟨hwf, hun⟩ := h.wf.alloc h.geom.numbers ha.free ha.touches.fat ha.touches.slots
  refine ⟨h.touched hm ha.touches hwf, hun, ?_⟩
  exact (unowned_of_free ha.free).notDir.keepsDirs ha.touches.fat ha.touches.slots

theorem endMark : isEndCluster 0x0FFFFFF8 = true := by decide

/-- A new cluster linked behind the last one. -/
theorem VolumeOk.link (h : VolumeOk s) (hprev : InRange s.g prev)
    (hnot : NotDir s.g (volOf s.g s.disk) prev)
    (hend : isEndCluster ((volOf s.g s.disk).fat prev) = true) (hx : InRange s.g x)
    (hun : Unowned s.g (volOf s.g s.disk) x) (hxfat : (volOf s.g s.disk).fat x = 0x0FFFFFF8)
    (hne : prev ≠ x) : ∃ s', (setFatEntry noFaults s prev x).1 = s' ∧ Mounted s s' ∧ VolumeOk s' ∧
      FileChain s.g (volOf s.g s'.disk) x := by
  obtain ⟨s', hs', hm, ht, hfat, hslots⟩ := setFatEntry_spec h.geom hprev x
  rw [Nat.mod_eq_of_lt (hx.lt h.geom.numbers)] at hfat
  have hallslots : ∀ z, InRange s.g z →
      (volOf s.g s'.disk).slots z = (volOf s.g s.disk).slots z := by
    intro z hz
    by_cases hzp : z = prev
    · rw [hzp, hslots]
    · exact ht.slots z hz hzp
  have hwf := h.wf.link h.geom.numbers hnot hend hx hun (by rw [hxfat]; exact endMark) hne hfat
    ht.fat hallslots
  have hk := hnot.keepsDirs ht.fat ht.slots
  refine ⟨s', by rw [hs'], hm, h.touched hm ht hwf, [x], .last hx ?_, fun y hy => ?_⟩
  · rw [ht.fat x hx (Ne.symm hne), hxfat]
    exact endMark
  · rw [mem_singleton.mp hy]
    exact hk.notDir h.wf h.geom.numbers hun.notDir

/-- Behind `prev`, or nowhere: a new cluster, in a file's chain. -/
theorem clusterToWrite_new (h : VolumeOk s) (hc : isEndCluster c = true ∨ c = 0)
    (hprev : prev = 0 ∨ InRange s.g prev ∧ NotDir s.g (volOf s.g s.disk) prev ∧
      isEndCluster ((volOf s.g s.disk).fat prev) = true) :
    ∃ s' r, clusterToWrite noFaults s c prev = (s', r) ∧ Mounted s s' ∧ VolumeOk s' ∧
      ∀ c', r = some c' → FileChain s.g (volOf s.g s'.disk) c' := by
  obtain ⟨s₁, x, hs₁, hm₁, ⟨rfl, hd₁, -⟩ | ha⟩ := allocCluster_spec h.geom
  · exact ⟨s₁, none, by simp [clusterToWrite, hc, hs₁], hm₁, h.unchanged hm₁ hd₁, by simp⟩
  have hx : x ≠ 0 := by
    rintro rfl
    exact not_inRange_zero ha.inRange
  obtain ⟨hok, hun, hk⟩ := h.alloc hm₁ ha
  simp only [clusterToWrite, hc, if_true, hs₁, if_neg hx]
  rcases hprev with rfl | ⟨hin, hnot, hend⟩
  · refine ⟨s₁, some x, rfl, hm₁, hok, fun c' hc' => ?_⟩
    obtain rfl := Option.some.inj hc'
    refine ⟨[x], .last ha.inRange (by rw [ha.fat]; exact endMark), fun y hy => ?_⟩
    rw [mem_singleton.mp hy]
    exact hun.notDir
  · have hp0 : prev ≠ 0 := by
      rintro rfl
      exact not_inRange_zero hin
    have hne : prev ≠ x := by
      rintro rfl
      rw [ha.free] at hend
      cases hend
    have hlink := @VolumeOk.link s₁ x prev hok
    rw [hm₁.g] at hlink
    obtain ⟨s₂, hs₂, hm₂, hok₂, hfile⟩ := hlink hin (hk.notDir h.wf h.geom.numbers hnot)
      (by rwa [ha.touches.fat prev hin hne]) ha.inRange hun ha.fat hne
    refine ⟨s₂, some x, by simp [hp0, hs₂], hm₁.trans hm₂, hok₂, fun c' hc' => ?_⟩
    rwa [← Option.some.inj hc']

theorem clusterToWrite_spec (h : VolumeOk s) (ht : Target s.g (volOf s.g s.disk) c prev) :
    ∃ s' r, clusterToWrite noFaults s c prev = (s', r) ∧ Mounted s s' ∧ VolumeOk s' ∧
      ∀ c', r = some c' → FileChain s.g (volOf s.g s'.disk) c' := by
  cases ht with
  | inside hfile =>
    obtain ⟨l, hl, hnot⟩ := hfile
    have hc : ¬ (isEndCluster c = true ∨ c = 0) := by
      rintro (hend | rfl)
      · exact h.geom.numbers.sep c hl.head_ok hend
      · exact not_chain_zero hl
    refine ⟨s, some c, by rw [clusterToWrite, if_neg hc], .refl s, h, fun c' hc' => ?_⟩
    rw [← Option.some.inj hc']
    exact ⟨l, hl, hnot⟩
  | first hc => exact clusterToWrite_new h hc (.inl rfl)
  | behind hc hin hnot hend => exact clusterToWrite_new h hc (.inr ⟨hin, hnot, hend⟩)

/-- Data written to a cluster of a file; the loop goes on at the next one. -/
theorem writeSectors_ok (data : List UInt8) (h : VolumeOk s)
    (hfile : FileChain s.g (volOf s.g s.disk) c) :
    ∃ s', writeSectors noFaults s.g.sectorsPerCluster (clusterToSector s.g c) data s =
        (s', some (data.drop (512 * s.g.sectorsPerCluster))) ∧ Mounted s s' ∧ VolumeOk s' ∧
      InRange s.g c ∧ Target s.g (volOf s.g s'.disk) ((volOf s.g s'.disk).fat c) c := by
  obtain ⟨l, hl, hnot⟩ := hfile
  have hc := hl.head_ok
  have h1 := hc.cluster_le
  have h2 := h.geom.data_room
  have h3 := h.geom.data_lt
  rw [clusterToSector_eq hc h.geom]
  obtain ⟨s', hs', hm, hout⟩ := writeSectors_spec (s := s) s.g.sectorsPerCluster
    (s.g.dataStart + (c - 2) * s.g.sectorsPerCluster) data (by omega) (by omega)
  obtain ⟨ht, hfat⟩ := touches_data h.geom hc fun i hi => hout i (by unfold clusterAddr at hi; omega)
  have hcnot := hnot c hl.head_mem
  have hk : KeepsDirs s.g (volOf s.g s.disk) (volOf s.g s'.disk) := hcnot.keepsDirs ht.fat ht.slots
  have hstill : ∀ y, NotDir s.g (volOf s.g s.disk) y → NotDir s.g (volOf s.g s'.disk) y :=
    fun y hy => hk.notDir h.wf h.geom.numbers hy
  have hwf := h.wf.write h.geom.numbers hcnot hfat ht.slots
  refine ⟨s', hs', hm, h.touched hm ht hwf, hc, ?_⟩
  cases hl with
  | last _ hfin =>
    rw [← hfat c hc] at hfin
    exact .behind (.inl hfin) hc (hstill c hcnot) hfin
  | link _ htail =>
    rw [hfat c hc]
    refine .inside ⟨_, htail.congr fun y hy => hfat y (htail.mem_ok hy), fun y hy => ?_⟩
    exact hstill y (hnot y (mem_cons_of_mem c hy))

/-- The loop of `write_file`: each round writes at least one byte. -/
theorem writeLoop_spec {fuel : Nat} {data : List UInt8} (h : VolumeOk s)
    (ht : Target s.g (volOf s.g s.disk) c prev) (hfuel : data.length < fuel) :
    ∃ s' b, writeLoop noFaults fuel c prev data s = some (s', b) ∧ VolumeOk s' := by
  induction fuel generalizing s c prev data with
  | zero => omega
  | succ fuel ih =>
    rw [writeLoop]
    split
    · exact ⟨s, true, rfl, h⟩
    rename_i hdata
    obtain ⟨s₁, r, hs₁, hm₁, hok₁, hfile⟩ := clusterToWrite_spec h ht
    rw [hs₁]
    cases r with
    | none => exact ⟨s₁, false, rfl, hok₁⟩
    | some c' =>
      have hfile := hfile c' rfl
      rw [← hm₁.g] at hfile
      obtain ⟨s₂, hs₂, hm₂, hok₂, hc', htarget⟩ := writeSectors_ok data hok₁ hfile
      obtain ⟨hnext, hm₃, hd₃⟩ := nextCluster_spec (c := c') hok₂.geom (by rwa [hm₂.g])
      simp only [hs₂, hnext]
      refine ih (hok₂.unchanged hm₃ hd₃) ?_ ?_
      · rw [hm₃.g, hd₃, hm₂.g]
        exact htarget
      · have hspc := hok₁.geom.spc_pos
        have hpos := length_pos_of_ne_nil hdata
        rw [length_drop]
        omega

end

/-! ## Calls -/

section
variable {s : Fs} {fuel : Nat}

/-- A file that a path names, empty or not. -/
theorem Resolves.entry {g : Geom} (hr : Resolves g v path e) (h : WellFormed g v)
    (hfile : e.isDir = false) :
    ∃ dir l, Dir g v dir ∧ VChain g v dir l ∧ e ∈ dirEntries v l ∧ e.isDot = false := by
  rcases hr with ⟨-, rfl⟩ | hn
  · rw [rootEntry_isDir] at hfile
    cases hfile
  · obtain ⟨dir, l, hd, hl, he⟩ := hn.mem_dir h .root
    exact ⟨dir, l, hd, hl, he, by simp [DirEntry.isDot, hfile]⟩

/-- A file entry that a path names: empty, or the start of a file's chain. -/
theorem Resolves.target (h : VolumeOk s) (hr : Resolves s.g (volOf s.g s.disk) path e)
    (hfile : e.isDir = false) : Target s.g (volOf s.g s.disk) e.first 0 := by
  obtain ⟨dir, l, hd, hl, he, hdot⟩ := hr.entry h.wf hfile
  rcases h.wf.entry_chain dir l e hd hl he hdot with ⟨h0, -⟩ | ⟨lf, hlf⟩
  · rw [h0]
    exact .first (.inr rfl)
  · refine .inside ⟨lf, hlf, fun x hx c lc hc hlc hxc => ?_⟩
    exact h.wf.file_not_dir h.geom.numbers hd hl he hfile hlf hc hlc hx hxc

/-- A directory that a path names. -/
theorem Resolves.dir {d : DirEntry} (h : VolumeOk s) (hr : Resolves s.g (volOf s.g s.disk) path d)
    (hdir : d.isDir = true) (h0 : d.first ≠ 0) : Dir s.g (volOf s.g s.disk) d.first := by
  rcases hr with ⟨-, rfl⟩ | hn
  · exact .root
  · obtain ⟨dir, l, hd, hl, he⟩ := hn.mem_dir h.wf .root
    exact (h.wf.subdir hd hl he hdir).resolve_left h0

/-- What `resolve_path` comes to is what the path names, if and only if the path does not
go on behind an entry that says cluster 0. -/
theorem resolves_iff (h : VolumeOk s)
    (hres : ∃ fuel s₁, resolvePath noFaults fuel s path = some (s₁, some e)) :
    Resolves s.g (volOf s.g s.disk) path e ↔ ¬ ThroughZero s.g (volOf s.g s.disk) path := by
  constructor
  · intro hr
    exact hr.not_throughZero h.geom.numbers
  intro hzero
  obtain ⟨fuel, s₁, hs₁⟩ := hres
  obtain ⟨s₂, o, hs₂, -, -, ho⟩ := resolvePath_spec h.geom h.wf (Nat.lt_succ_self _) hzero
  have heq := (resolvePath_persists noFaults s path).agree hs₁ hs₂
  exact ho e (Prod.mk.inj heq).2.symm

/-- A call on the file at `path`, which returns at once if there is none. -/
theorem fileCall_spec {f : Fs → DirEntry → Option (Fs × Bool)} (h : VolumeOk s)
    (hzero : ¬ ThroughZero s.g (volOf s.g s.disk) path) (hfuel : s.g.totalClusters < fuel)
    (hf : ∀ s₁ e, VolumeOk s₁ → Mounted s s₁ → s₁.disk = s.disk →
      Resolves s.g (volOf s.g s.disk) path e → e.isDir = false → ∃ s' b, f s₁ e = some (s', b) ∧ VolumeOk s') :
    ∃ s' b, ((resolvePath noFaults fuel s path).bind fun
      | (s, none) => some (s, false)
      | (s, some e) => if e.isDir then some (s, false) else f s e) = some (s', b) ∧ VolumeOk s' := by
  obtain ⟨s₁, r, hs₁, hm, hd, hr⟩ := resolvePath_spec h.geom h.wf hfuel hzero
  have hok := h.unchanged hm hd
  rw [hs₁, Option.bind_some]
  cases r with
  | none => exact ⟨s₁, false, rfl, hok⟩
  | some e =>
    cases hdir : e.isDir with
    | true => exact ⟨s₁, false, by simp [hdir], hok⟩
    | false => simpa [hdir] using hf s₁ e hok hm hd (hr e rfl) hdir

theorem writeFile_spec {data : List UInt8} (h : VolumeOk s) (hs : Sound s (.write path data))
    (hfuel : s.g.totalClusters < fuel) (hdata : data.length < fuel) :
    ∃ s' b, writeFile noFaults fuel s path data = some (s', b) ∧ VolumeOk s' := by
  unfold writeFile
  split
  · exact ⟨s, false, rfl, h⟩
  rename_i hmounted
  refine fileCall_spec h (hs (Bool.not_eq_false _ ▸ hmounted)) hfuel fun s₁ e hok hm hd hr hdir => ?_
  have ht := hr.target h hdir
  rw [← hm.g, ← hd] at ht
  exact writeLoop_spec hok ht hdata

theorem deleteFile_spec (h : VolumeOk s) (hs : Sound s (.delete path))
    (hfuel : s.g.totalClusters < fuel) :
    ∃ s' b, deleteFile noFaults fuel s path = some (s', b) ∧ VolumeOk s' := by
  unfold deleteFile
  split
  · exact ⟨s, false, rfl, h⟩
  rename_i hmounted
  obtain ⟨hzero, hempty⟩ := hs (Bool.not_eq_false _ ▸ hmounted)
  refine fileCall_spec h hzero hfuel fun s₁ e hok _ _ hr hdir => ⟨s₁, true, ?_, hok⟩
  obtain ⟨fuel, rfl⟩ : ∃ k, fuel = k + 1 := ⟨fuel - 1, by omega⟩
  simp [hempty e hr hdir, deleteLoop]

theorem dirClusterOf_spec (h : VolumeOk s) (hzero : ¬ ThroughZero s.g (volOf s.g s.disk) dirPath)
    (hfuel : s.g.totalClusters < fuel) :
    ∃ s' r, dirClusterOf noFaults fuel s dirPath = some (s', r) ∧ Mounted s s' ∧ s'.disk = s.disk ∧
      ∀ c, r = some c → ∃ d, Resolves s.g (volOf s.g s.disk) dirPath d ∧ d.isDir = true ∧
        d.first = c := by
  unfold dirClusterOf
  split
  · rename_i hroot
    refine ⟨s, _, rfl, .refl s, rfl, fun c hc => ⟨_, .inl ⟨by rw [hroot]; rfl, rfl⟩,
      rootEntry_isDir s.g, ?_⟩⟩
    exact Option.some.inj hc
  · obtain ⟨s₁, r, hs₁, hm, hd, hr⟩ := resolvePath_spec h.geom h.wf hfuel hzero
    rw [hs₁, Option.map_some]
    match r with
    | none => exact ⟨s₁, none, rfl, hm, hd, by simp⟩
    | some e =>
      cases hdir : e.isDir with
      | false => exact ⟨s₁, none, by simp [hdir], hm, hd, by simp⟩
      | true =>
        refine ⟨s₁, some e.first, by simp [hdir], hm, hd, fun c hc => ⟨e, hr e rfl, hdir, ?_⟩⟩
        exact Option.some.inj hc

/-- Without a free slot or a free cluster the call returns false and changes nothing. -/
theorem createFile_miss {s₁ : Fs} {c : Nat} {l : List Nat} (h : VolumeOk s)
    (hmounted : s.mounted = true) (hdir : dirClusterOf noFaults fuel s dirPath = some (s₁, some c))
    (hm₁ : Mounted s s₁) (hd₁ : s₁.disk = s.disk) (hl : VChain s.g (volOf s.g s.disk) c l)
    (hfuel : s.g.totalClusters < fuel)
    (hmiss : Full s.g (volOf s.g s.disk) ∨ ∀ y ∈ l, ∀ d ∈ (volOf s.g s.disk).slots y, ¬ d.isFree)
    (filename : List UInt8) : ∃ s', createFile noFaults fuel s dirPath filename = some (s', false) ∧
      Mounted s s' ∧ s'.disk = s.disk := by
  have hlen := chain_length_le h.geom.numbers hl
  obtain ⟨s₂, hs₂, hm₂, hd₂⟩ := walkDir_spec freeSlot_blit hl hm₁.g hd₁
    (by rw [hm₁.capacity]; exact h.geom) (Nat.lt_of_le_of_lt hlen hfuel)
  have hm := hm₁.trans hm₂
  rw [createFile, if_neg (by simp [hmounted]), hdir, Option.bind_some]
  simp only [hs₂, Option.map_some]
  cases hhit : firstHit freeSlot s.disk (l.flatMap (clusterSectors s.g)) with
  | none => exact ⟨s₂, rfl, hm, hd₂⟩
  | some hit =>
    -- a free slot: then the volume is full and nothing is allocated
    have hnone : Full s.g (volOf s.g s.disk) := hmiss.resolve_right fun hno => by
      rw [freeSlot_none_iff.mpr hno] at hhit
      cases hhit
    obtain ⟨sector, e⟩ := hit
    have halloc := @allocCluster_spec { s₂ with buf := layOutEntry s₂.buf e filename }
      (h.unchanged hm hd₂).geom
    obtain ⟨s₃, x, hs₃, hm₃, ⟨rfl, hd₃, -⟩ | ha⟩ := halloc
    · exact ⟨s₃, by simp [hs₃], hm.trans ⟨hm₃.g, hm₃.mounted, hm₃.capacity⟩, hd₃.trans hd₂⟩
    · have hin := ha.inRange
      have hfree := ha.free
      simp only [hm.g, hd₂] at hin hfree
      exact absurd hfree (hnone x hin)

theorem createFile_spec {filename : List UInt8} (h : VolumeOk s)
    (hs : Sound s (.create dirPath filename)) (hfuel : s.g.totalClusters < fuel) :
    ∃ s' b, createFile noFaults fuel s dirPath filename = some (s', b) ∧ VolumeOk s' := by
  cases hmounted : s.mounted with
  | false => exact ⟨s, false, by simp [createFile, hmounted], h⟩
  | true =>
    obtain ⟨hzero, hfull⟩ := hs hmounted
    obtain ⟨s₁, r, hs₁, hm₁, hd₁, hr⟩ := dirClusterOf_spec h hzero hfuel
    cases r with
    | none => exact ⟨s₁, false, by simp [createFile, hmounted, hs₁], h.unchanged hm₁ hd₁⟩
    | some c =>
      obtain ⟨d, hres, hdir, rfl⟩ := hr c rfl
      obtain ⟨h0, hmiss⟩ := hfull d hres hdir
      obtain ⟨l, hl⟩ := h.wf.dir_chain (hres.dir h hdir h0)
      obtain ⟨s', hs', hm, hd⟩ := createFile_miss h hmounted hs₁ hm₁ hd₁ hl hfuel
        (hmiss.imp_right fun hno => hno l hl) filename
      exact ⟨s', false, hs', h.unchanged hm hd⟩

/-- Fuel that is enough for a call. -/
def enough (s : Fs) : Call → Nat
  | .write _ data => s.g.totalClusters + data.length + 1
  | _ => s.g.totalClusters + 1

theorem exec_spec {c : Call} (h : VolumeOk s) (hs : Sound s c) :
    ∃ s' b, exec noFaults (enough s c) s c = some (s', b) ∧ VolumeOk s' := by
  cases c with
  | create dirPath filename => exact createFile_spec h hs (Nat.lt_succ_self _)
  | write path data =>
    exact writeFile_spec h hs (by simp only [enough]; omega) (by simp only [enough]; omega)
  | delete path => exact deleteFile_spec h hs (Nat.lt_succ_self _)

theorem volumeOk_inductive : (fatLTS Sound).Inductive VolumeOk where
  init _ h := h
  step s c s' h := by
    rintro ⟨hs, fuel, b, hexec⟩
    obtain ⟨s₁, b₁, hexec₁, hok⟩ := exec_spec h hs
    have heq := (exec_persists noFaults s c).agree hexec hexec₁
    rw [(Prod.mk.inj heq).1]
    exact hok

end

/-- An owner's first cluster is in use, and by no other owner. -/
theorem WellFormed.owned {g : Geom} {o : Obj} {c : Nat} (h : WellFormed g v) (ho : ObjAt g v o c)
    (h0 : c ≠ 0) : v.fat c ≠ 0 ∧ ∀ o' c' l, o ≠ o' → ObjAt g v o' c' → VChain g v c' l → c ∉ l := by
  obtain ⟨lc, hlc⟩ := (h.obj_chain ho).resolve_left h0
  refine ⟨chain_not_free hlc hlc.head_mem, fun o' c' l hne ho' hl hmem => ?_⟩
  exact h.disjoint o o' c c' lc l hne ho ho' hlc hl hlc.head_mem hmem

/-! ## A volume -/

/-- Two FATs of three sectors, one sector per cluster, clusters 2 to 6. -/
def demoGeom : Geom := ⟨1, 1, 7, 2, 2, 3, 5⟩

def leBytes : Nat → Nat → List UInt8
  | 0, _ => []
  | n + 1, v => UInt8.ofNat v :: leBytes n (v / 256)

/-- A directory entry without time stamps. -/
def entryBytes (d : DirEntry) : List UInt8 :=
  d.name ++ d.attr :: List.replicate 8 0 ++ leBytes 2 (d.first / 2 ^ 16) ++ List.replicate 4 0 ++
    leBytes 2 d.first ++ leBytes 4 d.size

def entryA : DirEntry := ⟨65 :: List.replicate 10 32, attrArchive, 3, 0⟩
def entryD : DirEntry := ⟨68 :: List.replicate 10 32, attrDirectory, 4, 0⟩
def entryDot : DirEntry := ⟨46 :: List.replicate 10 32, attrDirectory, 4, 0⟩
def entryDotDot : DirEntry := ⟨46 :: 46 :: List.replicate 9 32, attrDirectory, 0, 0⟩
def entryX : DirEntry := ⟨88 :: List.replicate 10 32, attrArchive, 2, 0⟩

/-- The root (clusters 2 and 6) has a file `a` (cluster 3) and a directory `d`
(cluster 4); cluster 5 is free. The unused part of the FATs holds bytes that
look like a directory entry. -/
def demoSector : Nat → List UInt8
  | 1 | 4 => [0x0FFFFFF8, 0x0FFFFFFF, 6, 0x0FFFFFF8, 0x0FFFFFF8, 0, 0x0FFFFFF8].flatMap (leBytes 4)
  | 2 | 5 => entryBytes entryX
  | 7 => entryBytes entryA ++ entryBytes entryD
  | 9 => entryBytes entryDot ++ entryBytes entryDotDot
  | _ => []

def demoDisk : Mem := fun i => (demoSector (i / 512)).getD (i % 512) 0

def demoFs : Fs := ⟨demoGeom, true, demoDisk, 12, fun _ => 0, 0⟩

/-- A disk with these chains and directories; the file may have any size. -/
structure DemoLike (m : Mem) (a : DirEntry) : Prop where
  fat : [2, 3, 4, 5, 6].map (volOf demoGeom m).fat = [6, 0x0FFFFFF8, 0x0FFFFFF8, 0, 0x0FFFFFF8]
  root : dirEntries (volOf demoGeom m) [2, 6] = [a, entryD]
  sub : dirEntries (volOf demoGeom m) [4] = [entryDot, entryDotDot]
  first : a.first = 3
  file : a.isDir = false

theorem demo_like : DemoLike demoDisk entryA :=
  ⟨by decide +kernel, by decide +kernel, by decide +kernel, rfl, rfl⟩

/-- The chain of the root, in any volume with these two entries. -/
theorem demo_rootChain (h2 : v.fat 2 = 6) (h6 : v.fat 6 = 0x0FFFFFF8) :
    VChain demoGeom v 2 [2, 6] := by
  refine .link (by decide) ?_
  rw [h2]
  refine .last (by decide) ?_
  rw [h6]
  exact endMark

theorem demo_numbers : Numbers demoGeom := by decide

theorem demo_geom : GeomOk demoGeom 12 :=
  ⟨by decide, by decide, by decide, by decide, by decide, by decide, demo_numbers⟩

section
variable {m : Mem} {a : DirEntry} {c : Nat} {l : List Nat} {o : Obj}

/-- All chains that start at an owner. -/
theorem DemoLike.chains (h : DemoLike m a) : VChain demoGeom (volOf demoGeom m) 2 [2, 6] ∧
    VChain demoGeom (volOf demoGeom m) 3 [3] ∧ VChain demoGeom (volOf demoGeom m) 4 [4] := by
  have hfat := h.fat
  simp only [map_cons, map_nil, List.cons.injEq] at hfat
  obtain ⟨h2, h3, h4, -, h6, -⟩ := hfat
  refine ⟨demo_rootChain h2 h6, .last (by decide) ?_, .last (by decide) ?_⟩
  · rw [h3]
    exact endMark
  · rw [h4]
    exact endMark

theorem DemoLike.not_dot (h : DemoLike m a) : a.isDot = false := by
  simp [DirEntry.isDot, h.file]

/-- The two directories and what is in them. -/
theorem DemoLike.dir (h : DemoLike m a) (hd : Dir demoGeom (volOf demoGeom m) c) : c = 2 ∨ c = 4 := by
  obtain ⟨hroot, -, hsub⟩ := h.chains
  induction hd with
  | root => exact .inl rfl
  | @child c l e _ hl he hdir hdot ih =>
    rcases ih with rfl | rfl
    · rw [Chain.unique demo_numbers.sep hl hroot, h.root, mem_pair] at he
      rcases he with rfl | rfl
      · rw [h.file] at hdir
        cases hdir
      · exact .inr rfl
    · rw [Chain.unique demo_numbers.sep hl hsub, h.sub, mem_pair] at he
      rcases he with rfl | rfl
      all_goals cases hdot

theorem DemoLike.entries (h : DemoLike m a) (hd : Dir demoGeom (volOf demoGeom m) c)
    (hl : VChain demoGeom (volOf demoGeom m) c l) :
    c = 2 ∧ dirEntries (volOf demoGeom m) l = [a, entryD] ∨
      c = 4 ∧ dirEntries (volOf demoGeom m) l = [entryDot, entryDotDot] := by
  obtain ⟨hroot, -, hsub⟩ := h.chains
  rcases h.dir hd with rfl | rfl
  · rw [Chain.unique demo_numbers.sep hl hroot]
    exact .inl ⟨rfl, h.root⟩
  · rw [Chain.unique demo_numbers.sep hl hsub]
    exact .inr ⟨rfl, h.sub⟩

theorem DemoLike.obj (h : DemoLike m a) (ho : ObjAt demoGeom (volOf demoGeom m) o c)
    (hl : VChain demoGeom (volOf demoGeom m) c l) :
    (o, l) ∈ [(Obj.root, [2, 6]), (.entry 2 0, [3]), (.entry 2 1, [4])] := by
  obtain ⟨hroot, hfile, hsub⟩ := h.chains
  cases o with
  | root =>
    obtain rfl : c = 2 := ho
    simp [Chain.unique demo_numbers.sep hl hroot]
  | entry dir n =>
    obtain ⟨hd, ld, e, hld, hn, hdot, rfl⟩ := ho
    rcases h.entries hd hld with ⟨rfl, hent⟩ | ⟨rfl, hent⟩
    · rw [hent] at hn
      match n, hn with
      | 0, hn =>
        obtain rfl := Option.some.inj hn
        rw [h.first] at hl
        simp [Chain.unique demo_numbers.sep hl hfile]
      | 1, hn =>
        obtain rfl := Option.some.inj hn
        simp [Chain.unique demo_numbers.sep hl hsub]
    · rw [hent] at hn
      have hmem := mem_of_getElem? hn
      rw [mem_pair] at hmem
      rcases hmem with rfl | rfl
      all_goals cases hdot

theorem DemoLike.wellFormed (h : DemoLike m a) : WellFormed demoGeom (volOf demoGeom m) := by
  obtain ⟨hroot, hfile, hsub⟩ := h.chains
  refine ⟨⟨_, hroot⟩, ?_, ?_, ?_⟩
  · intro dir l e hd hl he hdot
    rcases h.entries hd hl with ⟨-, hent⟩ | ⟨-, hent⟩
    · rw [hent, mem_pair] at he
      rcases he with rfl | rfl
      · rw [h.first]
        exact .inr ⟨_, hfile⟩
      · exact .inr ⟨_, hsub⟩
    · rw [hent, mem_pair] at he
      rcases he with rfl | rfl
      all_goals cases hdot
  · intro dir l e hd hl he hdot
    rcases h.entries hd hl with ⟨-, hent⟩ | ⟨rfl, hent⟩
    · rw [hent, mem_pair] at he
      rcases he with rfl | rfl
      · rw [h.not_dot] at hdot
        cases hdot
      · cases hdot
    · rw [hent, mem_pair] at he
      rcases he with rfl | rfl
      · exact .inr hd
      · exact .inl rfl
  · intro o o' c c' l l' hne ho ho' hl hl'
    have hobj := h.obj ho hl
    have hobj' := h.obj ho' hl'
    simp only [mem_cons, Prod.mk.injEq, not_mem_nil, or_false] at hobj hobj'
    rcases hobj with ⟨rfl, rfl⟩ | ⟨rfl, rfl⟩ | ⟨rfl, rfl⟩ <;>
      rcases hobj' with ⟨rfl, rfl⟩ | ⟨rfl, rfl⟩ | ⟨rfl, rfl⟩ <;>
        first
          | exact absurd rfl hne
          | simp [List.Disjoint]

/-- A disk given by its sectors, the second FAT like the first. -/
theorem DemoLike.volumeOk {sector : Nat → List UInt8} {buf : Mem} {ops : Nat}
    (h : DemoLike (fun i => (sector (i / 512)).getD (i % 512) 0) a)
    (hcopies : ∀ f, f < 2 → ∀ k, k < 3 → sector (1 + f * 3 + k) = sector (1 + k)) :
    VolumeOk ⟨demoGeom, true, fun i => (sector (i / 512)).getD (i % 512) 0, 12, buf, ops⟩ where
  geom := demo_geom
  copies f j hf hj := by
    have hj' : j / 512 < 3 := Nat.div_lt_of_lt_mul hj
    show (sector ((512 * (1 + f * 3) + j) / 512)).getD ((512 * (1 + f * 3) + j) % 512) 0 =
      (sector ((512 * 1 + j) / 512)).getD ((512 * 1 + j) % 512) 0
    simp only [Nat.mul_add_div (show 512 > 0 by decide), Nat.mul_add_mod]
    rw [hcopies f hf _ hj']
  wf := h.wellFormed

end

theorem demo_ok : VolumeOk demoFs := demo_like.volumeOk (by decide)

/-- A live root entry for a cluster that is free or out of range. -/
theorem not_volumeOk_of_entry {s : Fs} {l : List Nat}
    (hl : VChain s.g (volOf s.g s.disk) s.g.rootCluster l)
    (he : e ∈ dirEntries (volOf s.g s.disk) l) (hdot : e.isDot = false) (h0 : e.first ≠ 0)
    (hbad : ¬ InRange s.g e.first ∨ (volOf s.g s.disk).fat e.first = 0) : ¬ VolumeOk s := by
  intro h
  rcases h.wf.entry_chain _ l e .root hl he hdot with ⟨hzero, -⟩ | ⟨l', hl'⟩
  · exact h0 hzero
  · rcases hbad with hout | hfree
    · exact hout hl'.head_ok
    · exact chain_not_free hl' hl'.head_mem hfree

/-- What a call returns and leaves on the volume, as far as the examples look at it. -/
def outcome (c : Call) : Option (Bool × Geom × List Nat × List DirEntry) :=
  (exec noFaults 600 demoFs c).map fun r => (r.2, r.1.g,
    [2, 3, 5, 6].map (volOf demoGeom r.1.disk).fat, dirEntries (volOf demoGeom r.1.disk) [2, 6])

theorem broken_of_outcome {c : Call} {f3 f5 : Nat} {es : List DirEntry}
    (h : outcome c = some (true, demoGeom, [6, f3, f5, 0x0FFFFFF8], es)) (he : e ∈ es)
    (hdot : e.isDot = false)
    (hbad : e.first = 3 ∧ f3 = 0 ∨ e.first = 5 ∧ f5 = 0 ∨ e.first ≠ 0 ∧ ¬ InRange demoGeom e.first) :
    ∃ s', exec noFaults 600 demoFs c = some (s', true) ∧ ¬ VolumeOk s' := by
  obtain ⟨⟨s', b⟩, hexec, hout⟩ := Option.map_eq_some_iff.mp h
  simp only [Prod.mk.injEq, map_cons, map_nil, List.cons.injEq, and_true] at hout
  obtain ⟨rfl, hg, ⟨h2, h3, h5, h6⟩, rfl⟩ := hout
  refine ⟨s', hexec, ?_⟩
  have hchain := demo_rootChain h2 h6
  rw [← hg] at hchain he h3 h5 hbad
  have hroot : s'.g.rootCluster = 2 := by rw [hg]; rfl
  refine not_volumeOk_of_entry (by rw [hroot]; exact hchain) he hdot ?_ ?_
  · rcases hbad with ⟨hf, -⟩ | ⟨hf, -⟩ | ⟨hf, -⟩ <;> omega
  · rcases hbad with ⟨hf, h0⟩ | ⟨hf, h0⟩ | ⟨-, hout⟩
    · exact .inr (by rw [hf, h3, h0])
    · exact .inr (by rw [hf, h5, h0])
    · exact .inl hout

/-- The start of a FAT sector, read as a directory entry. -/
def entryOfFat : DirEntry := ⟨[248, 255, 255, 15, 255, 255, 255, 15, 6, 0, 0], 0, 0xFFF80FFF, 0⟩

def entryB : DirEntry := ⟨66 :: List.replicate 10 32, attrArchive, 5, 0⟩

/-- `write_file("/d/../x", …)` finds an `x` in the FATs, with the root's first cluster. -/
theorem outcome_throughZero : outcome (.write [47, 100, 47, 46, 46, 47, 120] (entryBytes entryB)) =
    some (true, demoGeom, [6, 0x0FFFFFF8, 0, 0x0FFFFFF8], [entryB]) := by decide +kernel

/-- `write_file("/a", …)` with 513 bytes: cluster 5 is linked behind cluster 3. -/
theorem outcome_append : outcome (.write [47, 97] (List.replicate 513 1)) =
    some (true, demoGeom, [6, 5, 0x0FFFFFF8, 0x0FFFFFF8], [entryA, entryD]) := by decide +kernel

/-- **Counterexample.** From a well-formed volume: `delete_file("/a")` frees cluster
3 and leaves `a`; `create_file("/", "b")` writes a FAT sector over the root
directory; `write_file("/d/../x", …)` finds an `x` in the FATs and overwrites the
root directory. -/
theorem calls_break_volume : VolumeOk demoFs ∧
    (∃ s', exec noFaults 600 demoFs (.delete [47, 97]) = some (s', true) ∧ ¬ VolumeOk s') ∧
    (∃ s', exec noFaults 600 demoFs (.create [47] [98]) = some (s', true) ∧ ¬ VolumeOk s') ∧
    (∃ s', exec noFaults 600 demoFs (.write [47, 100, 47, 46, 46, 47, 120] (entryBytes entryB)) =
      some (s', true) ∧ ¬ VolumeOk s') := by
  have hdelete : outcome (.delete [47, 97]) =
      some (true, demoGeom, [6, 0, 0, 0x0FFFFFF8], [entryA, entryD]) := by decide +kernel
  have hcreate : outcome (.create [47] [98]) =
      some (true, demoGeom, [6, 0x0FFFFFF8, 0x0FFFFFF8, 0x0FFFFFF8], [entryOfFat]) :=
        by decide +kernel
  refine ⟨demo_ok, ?_, ?_, ?_⟩
  · exact broken_of_outcome hdelete mem_cons_self (by decide) (.inl ⟨rfl, rfl⟩)
  · exact broken_of_outcome hcreate mem_cons_self (by decide) (.inr (.inr (by decide)))
  · exact broken_of_outcome outcome_throughZero mem_cons_self (by decide) (.inr (.inl ⟨rfl, rfl⟩))

/-- In every run of sound calls the volume is well-formed in every state, no owner's
first cluster is free or part of another chain, and the next sound call returns. -/
theorem volume_wellFormed (s : Fs) (h : (fatLTS Sound).Reachable s) : VolumeOk s ∧
    (∀ o c, ObjAt s.g (volOf s.g s.disk) o c → c ≠ 0 → (volOf s.g s.disk).fat c ≠ 0 ∧
      ∀ o' c' l, o ≠ o' → ObjAt s.g (volOf s.g s.disk) o' c' →
        VChain s.g (volOf s.g s.disk) c' l → c ∉ l) ∧
    ∀ c, Sound s c → ∃ fuel s' b, exec noFaults fuel s c = some (s', b) := by
  have hok := volumeOk_inductive.reachable s h
  refine ⟨hok, fun o c ho h0 => hok.wf.owned ho h0, fun c hs => ?_⟩
  obtain ⟨s', b, hexec, -⟩ := exec_spec hok hs
  exact ⟨enough s c, s', b, hexec⟩

/-- `write_file("/a", …)` with 513 bytes: cluster 5 is linked behind cluster 3. -/
theorem volume_wellFormed_write : ∃ s, (fatLTS Sound).Reachable s ∧
    (volOf s.g s.disk).fat 3 = 5 ∧ VolumeOk s := by
  obtain ⟨⟨s, b⟩, hexec, hout⟩ := Option.map_eq_some_iff.mp outcome_append
  simp only [Prod.mk.injEq, map_cons, List.cons.injEq] at hout
  obtain ⟨-, hg, ⟨-, h3, -⟩, -⟩ := hout
  have hsound : Sound demoFs (.write [47, 97] (List.replicate 513 1)) :=
    fun _ => not_throughZero_of_one [97] rfl
  have hreach : (fatLTS Sound).Reachable s :=
    ⟨demoFs, [.write [47, 97] (List.replicate 513 1)], demo_ok,
      .cons ⟨hsound, 600, b, hexec⟩ (.nil s)⟩
  refine ⟨s, hreach, ?_, (volume_wellFormed s hreach).1⟩
  rw [hg]
  exact h3

end HackersOs.L4.Fat

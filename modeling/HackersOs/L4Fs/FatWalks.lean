import HackersOs.Core.Orbit
import HackersOs.L4Fs.FatReads

/-!
# Where directory walks end

`find_in_dir`, `list_dir` and `create_file` follow the links of a directory from
cluster to cluster until an end mark, a sector that cannot be read, or what they
look for: a name, a full array, a free slot, the terminator. Nothing counts the
clusters. On a disk without I/O errors each of them is the walk of a partial
function on cluster numbers (`walkStep`; with the room left, `listStep`), so it
ends exactly when it does not come back to a cluster.

* `walkDir_congr`: what a walk finds depends on the volume only.
* `walkDir_returns_iff`, `listLoop_returns_iff`: the loops.
* `resolveLoop_returns_iff`: a path, component by component (`NoRing`).
* `walks_end_iff`: the calls return if and only if no directory they enter is
  a ring without a way out. `read_file`'s own loop ends on every disk, as each
  cluster takes something off what remains.

**Counterexample.** `walks_in_circles`: a root directory linked to itself and full
of volume labels (fat32.cpp:122, 232, 424).
-/
namespace HackersOs.L4.Fat
open HackersOs.Core HackersOs.Core.Orbit StateTransition

variable {d room : Nat} {name path : List UInt8}

variable {c fuel : Nat} {flt : Nat → Bool} {s t : Fs}

/-! ## Reads depend on the volume only -/

theorem Reads.symm (h : Reads s t) : Reads t s :=
  ⟨⟨h.mounted.g.symm, h.mounted.mounted.symm, h.mounted.capacity.symm⟩, h.disk.symm⟩

theorem nextCluster_congr (h : Reads s t) (c : Nat) :
    (nextCluster noFaults s c).2 = (nextCluster noFaults t c).2 := by
  rw [nextCluster_eq.1, nextCluster_eq.1, h.mounted.g, h.mounted.capacity, h.disk]
  rfl

theorem nextCluster_lt (flt : Nat → Bool) (s : Fs) (c : Nat) : (nextCluster flt s c).2 < 2 ^ 28 := by
  simp only [nextCluster]
  split
  · rw [and_low28]
    exact Nat.mod_lt _ (by decide)
  · show 0x0FFFFFF8 < 2 ^ 28
    decide

/-- What a FAT entry can say. -/
@[irreducible] def fatValues : Finset Nat := Finset.range (2 ^ 28)

theorem nextCluster_mem (s : Fs) (c : Nat) : (nextCluster noFaults s c).2 ∈ fatValues := by
  unfold fatValues
  exact Finset.mem_range.mpr (nextCluster_lt noFaults s c)

section
variable {α : Type} {visit : Mem → Option α} (hv : ∀ b src, visit (blit b 0 512 src) = visit src)
include hv

theorem walkCluster_congr (h : Reads s t) (n sector : Nat) :
    (walkCluster noFaults visit n sector s).2 = (walkCluster noFaults visit n sector t).2 := by
  induction n generalizing s t sector with
  | zero => rfl
  | succ n ih =>
    rw [walkCluster, walkCluster]
    rcases Nat.lt_or_ge sector s.capacity with hlt | hge
    · rw [readSector_ok hlt, readSector_ok (by rwa [h.mounted.capacity]), h.disk]
      simp only [if_true, hv]
      cases visit (sectorOf s.disk sector) with
      | some a => rfl
      | none =>
        simp only
        apply ih
        exact ⟨⟨h.mounted.g, h.mounted.mounted, h.mounted.capacity⟩, rfl⟩
    · rw [readSector_behind hge, readSector_behind (by rwa [h.mounted.capacity])]
      rfl

theorem walkDir_congr {s t : Fs} (h : Reads s t) (fuel c : Nat) :
    (walkDir noFaults visit fuel c s).map (·.2) = (walkDir noFaults visit fuel c t).map (·.2) := by
  induction fuel generalizing s t c with
  | zero => rfl
  | succ fuel ih =>
    rw [walkDir, walkDir]
    split
    · rfl
    have hcl := walkCluster_congr hv h s.g.sectorsPerCluster (clusterToSector s.g c)
    have hs := walkCluster_reads noFaults visit s.g.sectorsPerCluster (clusterToSector s.g c) s
    have ht := walkCluster_reads noFaults visit s.g.sectorsPerCluster (clusterToSector s.g c) t
    rw [h.mounted.g]
    generalize walkCluster noFaults visit s.g.sectorsPerCluster (clusterToSector s.g c) s =
      r at hcl hs ⊢
    generalize walkCluster noFaults visit s.g.sectorsPerCluster (clusterToSector s.g c) t =
      r' at hcl ht ⊢
    obtain ⟨s₁, o⟩ := r
    obtain ⟨t₁, o'⟩ := r'
    cases hcl
    cases o with
    | some r => rfl
    | none =>
      have hst : Reads s₁ t₁ := (hs.symm.trans h).trans ht
      simp only [nextCluster_congr hst c]
      exact ih ((nextCluster_reads noFaults s₁ c).symm.trans
        (hst.trans (nextCluster_reads noFaults t₁ c))) _

/-! ## The loop of `find_in_dir` and `create_file` -/

omit hv in
variable (visit) in
/-- The cluster behind `c`, if the walk goes on behind `c`. -/
def walkStep (s : Fs) (c : Nat) : Option Nat :=
  if isEndCluster c then none
  else if (walkCluster noFaults visit s.g.sectorsPerCluster
    (clusterToSector s.g c) s).2.isSome then none
  else some (nextCluster noFaults s c).2

theorem walkDir_stop (ht : Reads s t) (h : walkStep visit s c = none) (n : Nat) :
    (walkDir noFaults visit (n + 1) c t).isSome = true := by
  rw [walkStep, walkCluster_congr hv ht, ← ht.mounted.g] at h
  rw [walkDir]
  split
  · rfl
  rename_i hend
  rw [if_neg hend] at h
  split
  · rfl
  · rename_i hcl
    rw [hcl] at h
    cases h

theorem walkDir_step (ht : Reads s t) (h : walkStep visit s c = some d) :
    ∃ t', Reads s t' ∧ ∀ n, walkDir noFaults visit (n + 1) c t = walkDir noFaults visit n d t' := by
  have hreads := walkCluster_reads noFaults visit t.g.sectorsPerCluster (clusterToSector t.g c) t
  rw [walkStep, walkCluster_congr hv ht, ← ht.mounted.g] at h
  simp only [walkDir]
  split at h
  · cases h
  rename_i hend
  generalize walkCluster noFaults visit t.g.sectorsPerCluster (clusterToSector t.g c) t =
    r at h hreads ⊢
  obtain ⟨t₁, o⟩ := r
  cases o with
  | some r => cases h
  | none =>
    have hst : Reads s t₁ := ht.trans hreads
    have hd : (nextCluster noFaults t₁ c).2 = d := by
      rw [← nextCluster_congr hst c]
      exact Option.some.inj h
    refine ⟨(nextCluster noFaults t₁ c).1, hst.trans (nextCluster_reads noFaults t₁ c), fun n => ?_⟩
    rw [if_neg hend, ← hd]

theorem walkDir_runs (s : Fs) : Runs (walkStep visit s)
    (fun (x : Nat × Fs) c => x.1 = c ∧ Reads s x.2) fun fuel x =>
      walkDir noFaults visit fuel x.1 x.2 := by
  constructor
  · exact fun _ => rfl
  · intro x c ⟨hx, ht⟩ hstop n
    rw [hx]
    exact walkDir_stop hv ht hstop n
  · intro x c d ⟨hx, ht⟩ hstep
    obtain ⟨t', ht', hrun⟩ := walkDir_step hv ht hstep
    refine ⟨(d, t'), ⟨rfl, ht'⟩, fun n => ?_⟩
    rw [hx, hrun]

omit hv in
/-- The numbers a walk comes to. -/
theorem walkStep_mem {x : Nat} (h : Reaches (walkStep visit s) c x) : x ∈ insert c fatValues := by
  cases h with
  | refl => exact Finset.mem_insert_self _ _
  | tail _ hstep =>
    refine Finset.mem_insert_of_mem ?_
    simp only [walkStep, Option.mem_def] at hstep
    split at hstep
    · cases hstep
    · split at hstep
      · cases hstep
      · cases hstep
        exact nextCluster_mem s _

theorem walkDir_returns_iff (ht : Reads s t) (c : Nat) :
    (Returns fun fuel => walkDir noFaults visit fuel c t) ↔ ¬ Cycles (walkStep visit s) c :=
  ((walkDir_runs hv s).returns_iff (s := (c, t)) ⟨rfl, ht⟩).trans
    (ends_iff_no_cycle _ fun _ => walkStep_mem)

end

/-! ## The loop of `list_dir` -/

theorem listSector_congr {b b' : Mem} (n e room : Nat)
    (h : ∀ i, e ≤ i → i < e + n → entryAt b i = entryAt b' i) :
    listSector b n e room = listSector b' n e room := by
  induction n generalizing e room with
  | zero => rfl
  | succ n ih =>
    have htail : ∀ room', listSector b n (e + 1) room' = listSector b' n (e + 1) room' := fun room' =>
      ih (e + 1) room' fun i h1 h2 => h i (by omega) (by omega)
    simp only [listSector, h e (Nat.le_refl e) (by omega), htail]

theorem listSector_blit (b src : Mem) (room : Nat) :
    listSector (blit b 0 512 src) 16 0 room = listSector src 16 0 room :=
  listSector_congr 16 0 room fun _ _ hi => entryAt_blit b src (by omega)

theorem listCluster_reads (flt : Nat → Bool) (n sector room : Nat) (s : Fs) :
    Reads s (listCluster flt n sector room s).1 := by
  induction n generalizing sector room s with
  | zero => exact .refl s
  | succ n ih =>
    have hread := readSector_reads flt s sector
    simp only [listCluster]
    split
    · exact .refl s
    split
    · split
      · exact hread
      · exact hread.trans (ih _ _ _)
    · exact hread

theorem listCluster_congr (h : Reads s t) (n sector room : Nat) :
    (listCluster noFaults n sector room s).2 = (listCluster noFaults n sector room t).2 := by
  induction n generalizing s t sector room with
  | zero => rfl
  | succ n ih =>
    simp only [listCluster]
    split
    · rfl
    rcases Nat.lt_or_ge sector s.capacity with hlt | hge
    · have hnext := @ih { s with ops := s.ops + 1, buf := blit s.buf 0 512 (sectorOf s.disk sector) }
        { t with ops := t.ops + 1, buf := blit t.buf 0 512 (sectorOf t.disk sector) }
        ⟨⟨h.mounted.g, h.mounted.mounted, h.mounted.capacity⟩, h.disk⟩
      rw [readSector_ok hlt, readSector_ok (by rwa [h.mounted.capacity])]
      simp only [if_true, listSector_blit, h.disk] at hnext ⊢
      split
      · rfl
      · simp only [hnext]
    · rw [readSector_behind hge, readSector_behind (by rwa [h.mounted.capacity])]
      rfl

/-- The cluster behind `x.1` and the room left there, if the listing goes on. -/
def listStep (s : Fs) (x : Nat × Nat) : Option (Nat × Nat) :=
  if isEndCluster x.1 ∨ x.2 = 0 then none
  else
    let r := listCluster noFaults s.g.sectorsPerCluster (clusterToSector s.g x.1) x.2 s
    if r.2.2.isSome then none else some ((nextCluster noFaults s x.1).2, x.2 - r.2.1.length)

theorem listLoop_stop (ht : Reads s t) (h : listStep s (c, room) = none) (n : Nat) :
    (listLoop noFaults (n + 1) c room t).isSome = true := by
  simp only [listStep] at h
  rw [listCluster_congr ht, ← ht.mounted.g] at h
  rw [listLoop]
  split
  · rfl
  rename_i hend
  rw [if_neg hend] at h
  split
  · rfl
  · rename_i hcl
    rw [hcl] at h
    cases h

theorem listLoop_step {room' : Nat} (ht : Reads s t) (h : listStep s (c, room) = some (d, room')) :
    ∃ t', Reads s t' ∧
      ∀ n, (listLoop noFaults (n + 1) c room t).isSome = (listLoop noFaults n d room' t').isSome := by
  have hreads := listCluster_reads noFaults t.g.sectorsPerCluster (clusterToSector t.g c) room t
  simp only [listStep] at h
  rw [listCluster_congr ht, ← ht.mounted.g] at h
  simp only [listLoop]
  split at h
  · cases h
  rename_i hend
  generalize listCluster noFaults t.g.sectorsPerCluster (clusterToSector t.g c) room t =
    r at h hreads ⊢
  obtain ⟨t₁, l, o⟩ := r
  cases o with
  | some r => cases h
  | none =>
    have hst : Reads s t₁ := ht.trans hreads
    simp only [Option.isSome_none, Bool.false_eq_true, if_false, Option.some.injEq, Prod.mk.injEq,
      nextCluster_congr hst c] at h
    obtain ⟨rfl, rfl⟩ := h
    refine ⟨(nextCluster noFaults t₁ c).1, hst.trans (nextCluster_reads noFaults t₁ c), fun n => ?_⟩
    rw [if_neg hend]
    exact Option.isSome_map

theorem listLoop_runs (s : Fs) : Runs (listStep s)
    (fun (x : (Nat × Nat) × Fs) a => x.1 = a ∧ Reads s x.2)
    fun fuel x => listLoop noFaults fuel x.1.1 x.1.2 x.2 := by
  constructor
  · exact fun _ => rfl
  · intro x a ⟨hx, ht⟩ hstop n
    rw [hx]
    exact listLoop_stop ht hstop n
  · intro x a b ⟨hx, ht⟩ hstep
    obtain ⟨t', ht', hrun⟩ := listLoop_step ht hstep
    refine ⟨(b, t'), ⟨rfl, ht'⟩, fun n => ?_⟩
    rw [hx, hrun]

/-- The room only shrinks. -/
theorem listStep_mem {a x : Nat × Nat} (h : Reaches (listStep s) a x) :
    x ∈ insert a (fatValues ×ˢ Finset.range (a.2 + 1)) := by
  have hle : x.2 ≤ a.2 ∧ (x = a ∨ x.1 ∈ fatValues) := by
    induction h with
    | refl => exact ⟨Nat.le_refl _, .inl rfl⟩
    | tail _ hstep ih =>
      simp only [listStep, Option.mem_def] at hstep
      split at hstep
      · cases hstep
      · split at hstep
        · cases hstep
        · cases hstep
          exact ⟨Nat.le_trans (Nat.sub_le _ _) ih.1, .inr (nextCluster_mem s _)⟩
  rcases hle.2 with rfl | hmem
  · exact Finset.mem_insert_self _ _
  · refine Finset.mem_insert_of_mem (Finset.mem_product.mpr ⟨hmem, ?_⟩)
    exact Finset.mem_range.mpr (Nat.lt_succ_of_le hle.1)

theorem listLoop_returns_iff (ht : Reads s t) (c room : Nat) :
    (Returns fun fuel => listLoop noFaults fuel c room t) ↔ ¬ Cycles (listStep s) (c, room) :=
  ((listLoop_runs s).returns_iff (s := ((c, room), t)) ⟨rfl, ht⟩).trans
    (ends_iff_no_cycle _ fun _ => listStep_mem)

/-! ## Paths -/

/-- The step of `find_in_dir`. -/
abbrev findStep (s : Fs) (name : List UInt8) : Nat → Option Nat :=
  walkStep (fun buf => findEntry name buf 16 0) s

/-- `find_in_dir` finds `d`. -/
def Finds (s : Fs) (c : Nat) (name : List UInt8) (d : DirEntry) : Prop :=
  ∃ fuel, (findInDir noFaults fuel s c name).map (·.2) = some (some d)

theorem Finds.unique {d e : DirEntry} (h : Finds s c name d) (h' : Finds s c name e) : d = e := by
  obtain ⟨fuel, hd⟩ := h
  obtain ⟨fuel', he⟩ := h'
  exact Option.some.inj (((findInDir_persists noFaults s c name).map (·.2)).agree hd he)

theorem findInDir_congr (h : Reads s t) (fuel c : Nat) (name : List UInt8) :
    (findInDir noFaults fuel s c name).map (·.2) = (findInDir noFaults fuel t c name).map (·.2) := by
  have hdir := @walkDir_congr _ (fun buf => findEntry name buf 16 0)
    (findEntry_blit name) s t h fuel c
  have hwalk := congrArg (Option.map fun r => r.bind (·.2)) hdir
  simpa only [findInDir, Option.map_map, Function.comp_def] using hwalk

theorem Finds.of_find {t' : Fs} {d : DirEntry} (h : Reads s t)
    (hfind : findInDir noFaults fuel t c name = some (t', some d)) : Finds s c name d := by
  refine ⟨fuel, ?_⟩
  rw [findInDir_congr h, hfind]
  rfl

theorem findInDir_returns_iff (ht : Reads s t) (c : Nat) (name : List UInt8) :
    (Returns fun fuel => findInDir noFaults fuel t c name) ↔ ¬ Cycles (findStep s name) c :=
  (returns_map_iff _).trans (walkDir_returns_iff (findEntry_blit name) ht c)

/-- No component is looked up in a directory whose walk comes back to a cluster. -/
def NoRing (s : Fs) : List (List UInt8) → Nat → Prop
  | [], _ => True
  | name :: rest, c => ¬ Cycles (findStep s (name.take 127)) c ∧
      ∀ d, Finds s c (name.take 127) d → d.isDir = true → NoRing s rest d.first

theorem resolveLoop_returns_iff (ht : Reads s t) (comps : List (List UInt8)) (c : Nat) :
    (Returns fun fuel => resolveLoop noFaults fuel comps c t) ↔ NoRing s comps c := by
  induction comps generalizing c t with
  | nil => exact iff_of_true (returns_const _) trivial
  | cons name rest ih =>
    cases rest with
    | nil =>
      simp only [resolveLoop, NoRing, implies_true, and_true]
      exact findInDir_returns_iff ht c _
    | cons name' rest =>
      constructor
      · intro hret
        obtain ⟨fuel, r, h⟩ := hret
        rcases resolveLoop_cases h with ⟨t₁, d, hfind, -, hnext⟩ | ⟨t₁, o, hfind, hstop, -⟩
        · refine ⟨(findInDir_returns_iff ht c _).mp ⟨fuel, _, hfind⟩, fun d' hd' _ => ?_⟩
          rw [hd'.unique (.of_find ht hfind)]
          exact (ih (ht.trans (findInDir_reads noFaults hfind)) d.first).mp ⟨fuel, r, hnext⟩
        · refine ⟨(findInDir_returns_iff ht c _).mp ⟨fuel, _, hfind⟩, fun d' hd' hdir => ?_⟩
          -- nothing was found, or a file
          obtain ⟨fuel', hd'⟩ := hd'
          rw [findInDir_congr ht] at hd'
          have hagree := ((findInDir_persists noFaults t c (name.take 127)).map (·.2)).agree hd'
            (congrArg (Option.map (·.2)) hfind)
          rw [hstop d' hagree.symm] at hdir
          cases hdir
      · intro hring
        obtain ⟨hno, hrest⟩ := hring
        obtain ⟨fuel, ⟨t₁, o⟩, hfind⟩ := (findInDir_returns_iff ht c _).mpr hno
        by_cases hstop : ∀ d, o = some d → d.isDir = false
        · exact ⟨fuel, _, resolveLoop_stop hfind hstop⟩
        simp only [not_forall, Bool.not_eq_false] at hstop
        obtain ⟨d, rfl, hdir⟩ := hstop
        obtain ⟨fuel', r, hloop⟩ := (ih (ht.trans (findInDir_reads noFaults hfind)) d.first).mpr
          (hrest d (.of_find ht hfind) hdir)
        have hfind' := (findInDir_persists noFaults t c (name.take 127)).le
          (Nat.le_max_left fuel fuel') hfind
        have hloop' := (resolveLoop_persists noFaults (name' :: rest) d.first t₁).le
          (Nat.le_max_right fuel fuel') hloop
        exact ⟨max fuel fuel', r, (resolveLoop_enter hfind' hdir).trans hloop'⟩

/-- The components of a path, from the root on. -/
def PathNoRing (s : Fs) (path : List UInt8) : Prop :=
  NoRing s (components [] (dropSlash path)) s.g.rootCluster

theorem resolvePath_returns_iff (s : Fs) (path : List UInt8) :
    (Returns fun fuel => resolvePath noFaults fuel s path) ↔ PathNoRing s path := by
  unfold resolvePath PathNoRing
  split
  · rename_i hroot
    rw [hroot]
    exact iff_of_true (returns_const _) trivial
  · exact resolveLoop_returns_iff (.refl s) _ _

/-- A path leads to the directory at `c`. -/
def Leads (s : Fs) (path : List UInt8) (c : Nat) : Prop :=
  ∃ fuel, (dirClusterOf noFaults fuel s path).map (·.2) = some (some c)

theorem dirClusterOf_returns_iff (s : Fs) (path : List UInt8) :
    (Returns fun fuel => dirClusterOf noFaults fuel s path) ↔ PathNoRing s path := by
  unfold dirClusterOf
  split
  · rename_i hroot
    rw [hroot]
    exact iff_of_true (returns_const _) trivial
  · exact (returns_map_iff _).trans (resolvePath_returns_iff s path)

theorem dirClusterOf_reads {s' : Fs} {o : Option Nat}
    (h : dirClusterOf flt fuel s path = some (s', o)) : Reads s s' := by
  unfold dirClusterOf at h
  split at h
  · cases h
    exact .refl _
  obtain ⟨⟨s₁, r⟩, hres, heq⟩ := Option.map_eq_some_iff.mp h
  have hreads := resolvePath_reads flt hres
  cases r with
  | none =>
    cases heq
    exact hreads
  | some de =>
    cases heq
    exact hreads

/-- A call that finds its directory and goes on in it. -/
theorem dirCall_returns_iff {β : Type} {k : Fs × Option Nat → Nat → Option β} {P : Nat → Prop}
    (hk : ∀ a, Persists (k a)) (hnone : ∀ t, Returns (k (t, none)))
    (hsome : ∀ t c, Reads s t → (Returns (k (t, some c)) ↔ P c)) :
    (Returns fun fuel => (dirClusterOf noFaults fuel s path).bind fun a => k a fuel) ↔
      PathNoRing s path ∧ ∀ c, Leads s path c → P c := by
  rw [(dirClusterOf_persists noFaults s path).returns_bind_iff hk, dirClusterOf_returns_iff]
  refine and_congr_right fun _ => ⟨fun h c hc => ?_, fun h fuel a ha => ?_⟩
  · obtain ⟨fuel, hfuel⟩ := hc
    obtain ⟨⟨t, o⟩, hdir, ho⟩ := Option.map_eq_some_iff.mp hfuel
    have hret := h fuel _ hdir
    rw [show o = some c from ho] at hret
    exact (hsome t c (dirClusterOf_reads hdir)).mp hret
  · obtain ⟨t, o⟩ := a
    cases o with
    | none => exact hnone t
    | some c =>
      refine (hsome t c (dirClusterOf_reads ha)).mpr (h c ⟨fuel, ?_⟩)
      rw [ha]
      rfl

theorem listLoop_persists (flt : Nat → Bool) (c room : Nat) (s : Fs) :
    Persists fun fuel => listLoop flt fuel c room s := by
  intro fuel
  induction fuel generalizing c room s with
  | zero => exact fun r h => nomatch h
  | succ fuel ih =>
    intro r h
    beta_reduce at h ih ⊢
    rw [listLoop] at h ⊢
    split at h
    · rwa [if_pos ‹_›]
    rw [if_neg ‹_›]
    split at h
    · exact h
    · obtain ⟨a, ha, hr⟩ := Option.map_eq_some_iff.mp h
      exact Option.map_eq_some_iff.mpr ⟨a, ih _ _ _ a ha, hr⟩

theorem listDir_returns_iff (hm : s.mounted = true) (path : List UInt8) (maxEntries : Nat) :
    (Returns fun fuel => listDir noFaults fuel s path maxEntries) ↔
      PathNoRing s path ∧ ∀ c, Leads s path c → ¬ Cycles (listStep s) (c, maxEntries) := by
  unfold listDir
  rw [hm]
  refine dirCall_returns_iff ?_ (fun _ => returns_const _) fun t c ht =>
    listLoop_returns_iff ht c maxEntries
  intro ⟨t, o⟩
  cases o with
  | none => exact .const _
  | some c => exact listLoop_persists noFaults c maxEntries t

theorem createFile_returns_iff (hm : s.mounted = true) (path filename : List UInt8) :
    (Returns fun fuel => createFile noFaults fuel s path filename) ↔
      PathNoRing s path ∧ ∀ c, Leads s path c → ¬ Cycles (walkStep freeSlot s) c := by
  unfold createFile
  rw [hm]
  refine dirCall_returns_iff ?_ (fun _ => returns_const _) fun t c ht =>
    (returns_map_iff _).trans (walkDir_returns_iff freeSlot_blit ht c)
  intro ⟨t, o⟩
  cases o with
  | none => exact .const _
  | some c => exact (walkDir_persists noFaults freeSlot c t).map _

/-! ## `read_file` and `file_size` -/

theorem readLoop_returns (hspc : 1 ≤ s.g.sectorsPerCluster) (c : Nat) {remaining : Nat}
    (hfuel : remaining < fuel) : (readLoop flt fuel c remaining s).isSome = true := by
  induction fuel generalizing s c remaining with
  | zero => omega
  | succ fuel ih =>
    rw [readLoop]
    split
    · rfl
    split
    · rfl
    rename_i hgo _ s₁ out hsec
    obtain ⟨hlen, hreads, -⟩ := readSectors_length hsec
    have hreads' := hreads.trans (nextCluster_reads flt s₁ c)
    rw [Option.isSome_map]
    exact ih (by rwa [hreads'.mounted.g]) _ (by omega)

theorem readFile_returns_iff (hm : s.mounted = true) (hspc : 1 ≤ s.g.sectorsPerCluster)
    (path : List UInt8) (bufSize : Nat) :
    (Returns fun fuel => readFile noFaults fuel s path bufSize) ↔ PathNoRing s path := by
  rw [← resolvePath_returns_iff]
  constructor
  · intro hret
    obtain ⟨fuel, r, h⟩ := hret
    simp only [readFile, hm, Bool.true_eq_false, if_false] at h
    obtain ⟨a, ha, -⟩ := Option.bind_eq_some_iff.mp h
    exact ⟨fuel, a, ha⟩
  · intro hret
    obtain ⟨fuel, ⟨s₁, o⟩, hres⟩ := hret
    have hreads := resolvePath_reads noFaults hres
    -- fuel for the path and for the loop, which needs no more than the buffer's size
    have hres' := (resolvePath_persists noFaults s path).le (Nat.le_max_left fuel (bufSize + 1)) hres
    refine ⟨max fuel (bufSize + 1), Option.isSome_iff_exists.mp ?_⟩
    simp only [readFile, hm, Bool.true_eq_false, if_false, hres', Option.bind_some]
    cases o with
    | none => rfl
    | some de =>
      simp only
      split
      · rfl
      · rw [Option.isSome_map]
        refine readLoop_returns (by rwa [hreads.mounted.g]) de.first ?_
        split <;> omega

theorem fileSize_returns_iff (hm : s.mounted = true) (path : List UInt8) :
    (Returns fun fuel => fileSize noFaults fuel s path) ↔ PathNoRing s path := by
  unfold fileSize
  rw [hm]
  exact (returns_map_iff _).trans (resolvePath_returns_iff s path)

theorem init_mounted {s₀ : Fs} (h : init flt s₀ = (s, true)) : s.mounted = true := by
  simp only [init] at h
  split at h
  · split at h
    · cases h
    · cases h
      rfl
  · cases h

/-! ## The calls -/

/-- The calls on a path of any image that `init` accepts. -/
theorem walks_end_iff {s₀ s : Fs} (hinit : init noFaults s₀ = (s, true))
    (hspc : 1 ≤ s.g.sectorsPerCluster) (path filename : List UInt8) (bufSize maxEntries : Nat) :
    ((Returns fun fuel => resolvePath noFaults fuel s path) ∧
      (Returns fun fuel => readFile noFaults fuel s path bufSize) ∧
      (Returns fun fuel => fileSize noFaults fuel s path) ∧
      (Returns fun fuel => listDir noFaults fuel s path maxEntries) ∧
      (Returns fun fuel => createFile noFaults fuel s path filename)) ↔
    PathNoRing s path ∧ ∀ c, Leads s path c →
      ¬ Cycles (listStep s) (c, maxEntries) ∧ ¬ Cycles (walkStep freeSlot s) c := by
  have hm := init_mounted hinit
  rw [resolvePath_returns_iff, readFile_returns_iff hm hspc, fileSize_returns_iff hm,
    listDir_returns_iff hm, createFile_returns_iff hm]
  constructor
  · intro ⟨hpath, _, _, ⟨_, hlist⟩, ⟨_, hslot⟩⟩
    exact ⟨hpath, fun c hc => ⟨hlist c hc, hslot c hc⟩⟩
  · intro ⟨hpath, h⟩
    exact ⟨hpath, hpath, hpath, ⟨hpath, fun c hc => (h c hc).1⟩, ⟨hpath, fun c hc => (h c hc).2⟩⟩

/-- The bytes of a boot sector that `init` reads. -/
def bootBytes (b : BootSector) : List UInt8 :=
  List.replicate 11 0 ++ leBytes 2 b.bytesPerSector ++ leBytes 1 b.sectorsPerCluster ++
    leBytes 2 b.reservedSectors ++ leBytes 1 b.numFats ++ List.replicate 15 0 ++
    leBytes 4 b.totalSectors ++ leBytes 4 b.fatSize ++ List.replicate 4 0 ++ leBytes 4 b.rootCluster

/-- A boot sector, one FAT with the given links of the clusters from 2 on, and these
clusters, filled with one byte. -/
def smallDisk (links : List Nat) (fill : UInt8) : Mem := fun i =>
  if i < 512 then (bootBytes ⟨512, 1, 1, 1, 3 + links.length, 1, 2⟩).getD i 0
  else if i < 1024 then ((0x0FFFFFF8 :: 0x0FFFFFFF :: links).flatMap (leBytes 4)).getD (i - 512) 0
  else fill

/-- The driver with such a disk, before `init`. -/
def smallFs (links : List Nat) (fill : UInt8) : Fs :=
  ⟨⟨0, 0, 0, 0, 2, 0, 0⟩, false, smallDisk links fill, 3 + links.length, fun _ => 0, 0⟩

/-- A root directory of two clusters of volume labels, behind them the end mark. -/
def twoClusterFs : Fs := (init noFaults (smallFs [3, 0x0FFFFFF8] 0x48)).1

theorem ends_two {α : Type} {f : α → Option α} {a b c : α}
    (h : f a = some b ∧ f b = some c ∧ f c = none) :
    Ends f a := (ends_step h.1).mpr ((ends_step h.2.1).mpr (ends_of_none h.2.2))

theorem walks_end_linked : (Returns fun fuel => resolvePath noFaults fuel twoClusterFs [47, 97]) ∧
    (Returns fun fuel => listDir noFaults fuel twoClusterFs [47] 64) ∧
    Returns fun fuel => createFile noFaults fuel twoClusterFs [47] [97] := by
  have hinit : (init noFaults (smallFs [3, 0x0FFFFFF8] 0x48)).2 = true ∧
      1 ≤ twoClusterFs.g.sectorsPerCluster ∧ twoClusterFs.g.rootCluster = 2 ∧
      (dirClusterOf noFaults 4 twoClusterFs [47, 97]).map (·.2) = some none := by
    decide +kernel
  have hfind : findStep twoClusterFs [97] 2 = some 3 ∧
      findStep twoClusterFs [97] 3 = some 0x0FFFFFF8 ∧
      findStep twoClusterFs [97] 0x0FFFFFF8 = none := by decide +kernel
  have hlist : listStep twoClusterFs (2, 64) = some (3, 64) ∧
      listStep twoClusterFs (3, 64) = some (0x0FFFFFF8, 64) ∧
      listStep twoClusterFs (0x0FFFFFF8, 64) = none := by decide +kernel
  have hslot : walkStep freeSlot twoClusterFs 2 = some 3 ∧
      walkStep freeSlot twoClusterFs 3 = some 0x0FFFFFF8 ∧
      walkStep freeSlot twoClusterFs 0x0FFFFFF8 = none := by decide +kernel
  obtain ⟨hinit, hspc, hroot, hnone⟩ := hinit
  have hstate : init noFaults (smallFs [3, 0x0FFFFFF8] 0x48) = (twoClusterFs, true) :=
    Prod.ext rfl hinit
  have hends := walks_end_iff hstate hspc
  have hname := (hends [47, 97] [97] 512 64).mpr ⟨?_, fun c hc => ?_⟩
  have hdir := (hends [47] [97] 512 64).mpr ⟨trivial, fun c hc => ?_⟩
  · exact ⟨hname.1, hdir.2.2.2.1, hdir.2.2.2.2⟩
  · obtain ⟨fuel, hfuel⟩ := hc
    have hc : c = 2 := (Option.some.inj (Option.some.inj hfuel)).symm.trans hroot
    rw [hc]
    exact ⟨(ends_two hlist).not_cycles, (ends_two hslot).not_cycles⟩
  · refine ⟨?_, fun d _ _ => trivial⟩
    rw [hroot]
    exact (ends_two hfind).not_cycles
  · obtain ⟨fuel, hfuel⟩ := hc
    have hagree := ((dirClusterOf_persists noFaults twoClusterFs [47, 97]).map
      (·.2)).agree hfuel hnone
    cases hagree

/-- A root directory of volume labels that is linked to itself. -/
def ringRootFs : Fs := (init noFaults (smallFs [2] 0x48)).1

theorem walks_in_circles : init noFaults (smallFs [2] 0x48) = (ringRootFs, true) ∧
    1 ≤ ringRootFs.g.sectorsPerCluster ∧
    (∀ fuel, resolvePath noFaults fuel ringRootFs [47, 97] = none) ∧
    (∀ fuel, listDir noFaults fuel ringRootFs [47] 64 = none) ∧
    ∀ fuel, createFile noFaults fuel ringRootFs [47] [97] = none := by
  have hring : (init noFaults (smallFs [2] 0x48)).2 = true ∧ ringRootFs.mounted = true ∧
      1 ≤ ringRootFs.g.sectorsPerCluster ∧ ringRootFs.g.rootCluster = 2 ∧
      findStep ringRootFs [97] 2 = some 2 ∧ listStep ringRootFs (2, 64) = some (2, 64) ∧
      walkStep freeSlot ringRootFs 2 = some 2 := by
    decide +kernel
  obtain ⟨hinit, hm, hspc, hroot, hfind, hlist, hslot⟩ := hring
  have hleads : Leads ringRootFs [47] 2 := ⟨0, congrArg (some <| some ·) hroot⟩
  refine ⟨Prod.ext rfl hinit, hspc, not_returns_iff.mp ?_, not_returns_iff.mp ?_,
    not_returns_iff.mp ?_⟩
  · rw [resolvePath_returns_iff]
    intro h
    refine h.1 ?_
    rw [hroot]
    exact ⟨2, .refl, .single hfind⟩
  · rw [listDir_returns_iff hm]
    intro h
    exact h.2 2 hleads ⟨_, .refl, .single hlist⟩
  · rw [createFile_returns_iff hm]
    intro h
    exact h.2 2 hleads ⟨2, .refl, .single hslot⟩

end HackersOs.L4.Fat

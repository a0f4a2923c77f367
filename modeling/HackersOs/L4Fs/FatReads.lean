import HackersOs.L4Fs.FatFiles

/-!
# Reading a file

`read_file` sets `*bytes_read` from the directory entry, before its loop, and
returns true unless a data sector fails.

* `read_iff`: on a well-formed volume without I/O errors, for every buffer size,
  the call copies exactly the bytes it reports, and they are the first bytes of
  the file that the path names, if and only if the path does not go on behind
  a `..` that stands for the root by a 0.
* `read_count_iff`: on any disk and with any failing requests, a call that returns
  true has copied as many bytes as it reports if and only if the FAT leads to a
  cluster for each of them. The loop also ends at an end mark, and `next_cluster`
  makes one of a FAT sector that cannot be read (fat32.cpp:81, 274).

**Counterexample.** `read_reports_too_much`: behind such a `..` an entry found in
the FATs. `count_too_large`: a chain shorter than the size, and a FAT sector
that fails.
-/
namespace HackersOs.L4.Fat
open HackersOs.Core

variable {bufSize cap fuel remaining sector : Nat} {g : Geom} {m : Mem} {r : Option DirEntry}

/-! ## Only reading, with any failures -/

section
variable (flt : Nat → Bool)

section
variable {α : Type} (visit : Mem → Option α)

theorem walkCluster_reads (n sector : Nat) (s : Fs) :
    Reads s (walkCluster flt visit n sector s).1 := by
  induction n generalizing sector s with
  | zero => exact .refl s
  | succ n ih =>
    rw [walkCluster]
    have hread := readSector_reads flt s sector
    split
    · split
      · exact hread
      · exact hread.trans (ih _ _)
    · exact hread

theorem walkDir_reads {c : Nat} {s s' : Fs} {r : Option (Nat × α)}
    (h : walkDir flt visit fuel c s = some (s', r)) : Reads s s' := by
  induction fuel generalizing c s with
  | zero => cases h
  | succ fuel ih =>
    rw [walkDir] at h
    split at h
    · cases h
      exact .refl _
    have hwalk := walkCluster_reads flt visit s.g.sectorsPerCluster (clusterToSector s.g c) s
    split at h
    · rename_i heq
      rw [heq] at hwalk
      cases h
      exact hwalk
    · rename_i heq
      rw [heq] at hwalk
      exact (hwalk.trans (nextCluster_reads flt _ c)).trans (ih h)

end

theorem findInDir_reads {c : Nat} {s s' : Fs} {name : List UInt8}
    (h : findInDir flt fuel s c name = some (s', r)) : Reads s s' := by
  obtain ⟨a, hwalk, heq⟩ := Option.map_eq_some_iff.mp h
  rw [← (Prod.mk.inj heq).1]
  exact walkDir_reads flt _ hwalk

theorem resolveLoop_reads {c : Nat} {comps : List (List UInt8)} {s s' : Fs}
    (h : resolveLoop flt fuel comps c s = some (s', r)) : Reads s s' := by
  induction comps generalizing c s with
  | nil =>
    cases h
    exact .refl _
  | cons name rest ih =>
    cases rest with
    | nil => exact findInDir_reads flt h
    | cons name' rest =>
      rcases resolveLoop_cases h with ⟨s₁, d, hfind, -, hnext⟩ | ⟨s₁, o, hfind, -, hr⟩
      · exact (findInDir_reads flt hfind).trans (ih hnext)
      · cases hr
        exact findInDir_reads flt hfind

theorem resolvePath_reads {path : List UInt8} {s s' : Fs}
    (h : resolvePath flt fuel s path = some (s', r)) : Reads s s' := by
  unfold resolvePath at h
  split at h
  · cases h
    exact .refl _
  · exact resolveLoop_reads flt h

theorem readLoop_persists (c remaining : Nat) (s : Fs) :
    Persists fun fuel => readLoop flt fuel c remaining s := by
  intro fuel
  induction fuel generalizing c remaining s with
  | zero => exact fun r h => nomatch h
  | succ fuel ih =>
    intro r h
    beta_reduce at h ih ⊢
    rw [readLoop] at h ⊢
    split at h
    · rwa [if_pos ‹_›]
    rw [if_neg ‹_›]
    split at h
    · exact h
    · obtain ⟨a, ha, hr⟩ := Option.map_eq_some_iff.mp h
      exact Option.map_eq_some_iff.mpr ⟨a, ih _ _ _ a ha, hr⟩

theorem readFile_persists (s : Fs) (path : List UInt8) (bufSize : Nat) :
    Persists fun fuel => readFile flt fuel s path bufSize := by
  unfold readFile
  split
  · exact .const _
  · exact fileCall_persists flt s path fun s' de => (readLoop_persists flt de.first _ s').map _

/-! ## The bytes copied -/

/-- What `next_cluster` makes of the entry of `c`, if its read is request `k`: a read
that fails gives an end mark. -/
def fatAfter (g : Geom) (cap : Nat) (m : Mem) (k c : Nat) : Nat :=
  if fatSectorOf g c < cap ∧ flt k = false then
    read32 m (512 * fatSectorOf g c + entryOffset c) &&& 0x0FFFFFFF
  else 0x0FFFFFF8

/-- Cluster number `j` from `c` on, where request `k` comes next: each cluster takes
`sectors_per_cluster` data reads and one read of the FAT. -/
def clusterAt (g : Geom) (cap : Nat) (m : Mem) : Nat → Nat → Nat → Nat
  | 0, _, c => c
  | j + 1, k, c => clusterAt g cap m j (k + g.sectorsPerCluster + 1)
      (fatAfter flt g cap m (k + g.sectorsPerCluster) c)

/-- The FAT leads from `c` to a cluster for each of the next `n` bytes. -/
def Covers (g : Geom) (cap : Nat) (m : Mem) (k c n : Nat) : Prop :=
  ∀ j, 512 * g.sectorsPerCluster * j < n → isEndCluster (clusterAt flt g cap m j k c) = false

variable {flt} {s s' : Fs} {c n k : Nat} {out : List UInt8}

theorem nextCluster_eq : (nextCluster flt s c).2 = fatAfter flt s.g s.capacity s.disk s.ops c ∧
    (isEndCluster (nextCluster flt s c).2 = false → (nextCluster flt s c).1.ops = s.ops + 1) := by
  have hoff : entryOffset c = 4 * c % 512 := by
    unfold entryOffset u32
    omega
  unfold nextCluster fatAfter readSector
  by_cases hcap : s.capacity ≤ fatSectorOf s.g c
  · simp only [hcap, if_true, Nat.not_lt.mpr hcap, false_and, if_false]
    exact ⟨rfl, fun h => by cases h⟩
  cases hflt : flt s.ops with
  | true =>
    simp only [hcap, if_false, if_true, Bool.true_eq_false, and_false]
    exact ⟨rfl, fun h => by cases h⟩
  | false =>
    simp only [hcap, if_false, if_true, Nat.not_le.mp hcap, and_self, Bool.false_eq_true]
    rw [hoff, read32_sector]
    exact ⟨rfl, fun _ => trivial⟩

theorem readSector_ops (h : (readSector flt s sector).2 = true) :
    (readSector flt s sector).1.ops = s.ops + 1 := by
  unfold readSector at h ⊢
  split
  · rw [if_pos ‹_›] at h
    cases h
  · split <;> rfl

/-- The sectors of one cluster, if no read fails: all of them, unless less is left. -/
theorem readSectors_length (h : readSectors flt n sector remaining s = (s', out, true)) :
    out.length = min remaining (512 * n) ∧ Reads s s' ∧
      (512 * n ≤ remaining → s'.ops = s.ops + n) := by
  induction n generalizing s sector remaining out with
  | zero =>
    cases h
    exact ⟨by simp, .refl _, fun _ => rfl⟩
  | succ n ih =>
    rw [readSectors] at h
    split at h
    · cases h
      exact ⟨by simp [*], .refl _, by omega⟩
    have hmin : (if remaining < 512 then remaining else 512) = min remaining 512 := by
      split <;> omega
    cases hok : (readSector flt s sector).2 with
    | false => simp [hok] at h
    | true =>
      simp only [hok, if_true, hmin, Prod.mk.injEq] at h
      obtain ⟨rfl, rfl, htrue⟩ := h
      obtain ⟨hlen, hreads, hall⟩ := ih (Prod.ext rfl (Prod.ext rfl htrue))
      refine ⟨?_, (readSector_reads flt s sector).trans hreads, fun hle => ?_⟩
      · rw [List.length_append, length_bytesAt, hlen]
        omega
      · rw [hall (by omega), readSector_ops hok]
        omega

theorem covers_zero (g : Geom) (cap : Nat) (m : Mem) : Covers flt g cap m k c 0 :=
  fun _ hj => absurd hj (Nat.not_lt_zero _)

theorem covers_end (hc : isEndCluster c = true) :
    Covers flt g cap m k c n ↔ n = 0 := by
  constructor
  · intro hcov
    by_contra hne
    have hfirst := hcov 0 (by rw [Nat.mul_zero]; exact Nat.pos_of_ne_zero hne)
    exact absurd (hc.symm.trans hfirst) (by decide)
  · rintro rfl
    exact covers_zero g cap m

theorem covers_next (hc : isEndCluster c = false) :
    Covers flt g cap m k c n ↔ Covers flt g cap m (k + g.sectorsPerCluster + 1)
      (fatAfter flt g cap m (k + g.sectorsPerCluster) c) (n - 512 * g.sectorsPerCluster) := by
  constructor
  · intro hcov j hj
    exact hcov (j + 1) (by rw [Nat.mul_succ]; omega)
  · intro hcov j hj
    cases j with
    | zero => exact hc
    | succ j => exact hcov j (by rw [Nat.mul_succ] at hj; omega)

/-- The loop of `read_file`, whatever is on the disk and whatever fails. -/
theorem readLoop_length (h : readLoop flt fuel c remaining s = some (s', out, true)) :
    out.length ≤ remaining ∧
      (out.length = remaining ↔ Covers flt s.g s.capacity s.disk s.ops c remaining) := by
  induction fuel generalizing s c remaining out with
  | zero => cases h
  | succ fuel ih =>
    rw [readLoop] at h
    split at h
    · rename_i hstop
      cases h
      refine ⟨Nat.zero_le _, ?_⟩
      rcases hstop with rfl | hend
      · exact iff_of_true rfl (covers_zero _ _ _)
      · rw [covers_end hend]
        exact eq_comm
    · rename_i hgo
      have hc : isEndCluster c = false := by
        simp only [not_or, Bool.not_eq_true] at hgo
        exact hgo.2
      split at h
      · cases h
      rename_i s₁ out₁ hsec
      obtain ⟨⟨s₂, out₂, b⟩, hloop, heq⟩ := Option.map_eq_some_iff.mp h
      simp only [Prod.mk.injEq] at heq
      obtain ⟨rfl, rfl, rfl⟩ := heq
      obtain ⟨hlen, hreads, hops⟩ := readSectors_length hsec
      obtain ⟨hnext, hops'⟩ := @nextCluster_eq flt s₁ c
      have hreads' := hreads.trans (nextCluster_reads flt s₁ c)
      obtain ⟨hle, hiff⟩ := ih hloop
      rw [hreads'.mounted.g, hreads'.mounted.capacity, hreads'.disk] at hiff
      rw [hreads.mounted.g, hreads.mounted.capacity, hreads.disk] at hnext
      rw [List.length_append]
      refine ⟨by omega, ?_⟩
      rw [covers_next hc]
      rcases Nat.lt_or_ge (512 * s.g.sectorsPerCluster) remaining with hmore | hless
      · -- a whole cluster was copied and more is to come
        rw [Nat.min_eq_right (Nat.le_of_lt hmore)] at hlen
        rw [hops (Nat.le_of_lt hmore)] at hnext
        rw [hlen] at hle hiff ⊢
        rw [← hnext]
        cases hend : isEndCluster (nextCluster flt s₁ c).2 with
        | false =>
          rw [hops' hend, hops (Nat.le_of_lt hmore)] at hiff
          exact Iff.trans (by omega) hiff
        | true =>
          rw [covers_end hend] at hiff ⊢
          omega
      · -- the last cluster that is needed
        rw [Nat.sub_eq_zero_of_le hless]
        exact iff_of_true (by omega) (covers_zero _ _ _)

end

/-- A call of `read_file` that returns true. -/
theorem readFile_true {flt : Nat → Bool} {n : Nat} {s s' : Fs} {path out : List UInt8}
    (h : readFile flt fuel s path bufSize = some (s', out, some n)) : s.mounted = true ∧
      ∃ s₁ de, resolvePath flt fuel s path = some (s₁, some de) ∧ de.isDir = false ∧
        n = min de.size bufSize ∧ readLoop flt fuel de.first n s₁ = some (s', out, true) := by
  unfold readFile at h
  split at h
  · cases h
  rename_i hmounted
  obtain ⟨⟨s₁, o⟩, hres, hread⟩ := Option.bind_eq_some_iff.mp h
  refine ⟨by simpa using hmounted, ?_⟩
  cases o with
  | none => cases hread
  | some de =>
    simp only at hread
    split at hread
    · cases hread
    rename_i hfile
    have hmin : (if de.size > bufSize then bufSize else de.size) = min de.size bufSize := by
      split <;> omega
    rw [hmin] at hread
    obtain ⟨⟨s₂, out₂, b⟩, hloop, heq⟩ := Option.map_eq_some_iff.mp hread
    simp only [Prod.mk.injEq, Option.ite_none_right_eq_some, Option.some.injEq] at heq
    obtain ⟨rfl, rfl, rfl, rfl⟩ := heq
    exact ⟨s₁, de, hres, by simpa using hfile, rfl, hloop⟩

/-- A disk whose root holds a file `x` of 1536 bytes with the two clusters 3 and 4. -/
def shortSector : Nat → List UInt8
  | 1 | 4 => [0x0FFFFFF8, 0x0FFFFFFF, 0x0FFFFFF8, 4, 0x0FFFFFF8].flatMap (leBytes 4)
  | 7 => entryBytes ⟨88 :: List.replicate 10 32, attrArchive, 3, 1536⟩
  | _ => []

def shortFs : Fs :=
  ⟨demoGeom, true, fun i => (shortSector (i / 512)).getD (i % 512) 0, 12, fun _ => 0, 0⟩

/-- What `read_file("/x", …)` copies and reports. -/
def shortRead (flt : Nat → Bool) (bufSize : Nat) : Option (Nat × Option Nat) :=
  (readFile flt 10 shortFs [47, 120] bufSize).map fun r => (r.2.1.length, r.2.2)

theorem shortRead_some {flt : Nat → Bool} {k : Nat} {o : Option Nat}
    (h : shortRead flt bufSize = some (k, o)) : ∃ s' out,
      readFile flt 10 shortFs [47, 120] bufSize = some (s', out, o) ∧ out.length = k := by
  obtain ⟨⟨s', out, o'⟩, hread, heq⟩ := Option.map_eq_some_iff.mp h
  obtain ⟨rfl, rfl⟩ := Prod.mk.inj heq
  exact ⟨s', out, hread, rfl⟩

/-- The calls on this disk that are looked at below. -/
theorem shortFs_runs : ((resolvePath noFaults 10 shortFs [47, 120]).map (fun r => (r.1.ops, r.2)) =
      some (1, some ⟨88 :: List.replicate 10 32, attrArchive, 3, 1536⟩)) ∧
    (∀ j, j < 2 → isEndCluster
      (clusterAt noFaults shortFs.g shortFs.capacity shortFs.disk j 1 3) = false) ∧
    shortRead noFaults 1024 = some (1024, some 1024) ∧
    shortRead noFaults 4096 = some (1024, some 1536) ∧
    shortRead (fun k => k == 2) 1024 = some (512, some 1024) := by
  decide +kernel

/-- On any disk and with any failing requests: a call that returns true has copied as
many bytes as it reports if and only if the FAT, a failed read of which counts as an
end mark, leads from the file's first cluster to a cluster for each of them. -/
theorem read_count_iff {flt : Nat → Bool} {fuel bufSize n : Nat} {s s₁ s' : Fs}
    {path out : List UInt8}
    {de : DirEntry} (hres : resolvePath flt fuel s path = some (s₁, some de))
    (hread : readFile flt fuel s path bufSize = some (s', out, some n)) :
    out.length = n ↔ Covers flt s.g s.capacity s.disk s₁.ops de.first (min de.size bufSize) := by
  obtain ⟨-, s₂, de', hres', -, rfl, hloop⟩ := readFile_true hread
  rw [hres] at hres'
  obtain ⟨rfl, hde⟩ := Prod.mk.inj (Option.some.inj hres')
  obtain rfl := Option.some.inj hde
  have hreads := resolvePath_reads flt hres
  have hiff := (readLoop_length hloop).2
  rwa [hreads.mounted.g, hreads.mounted.capacity, hreads.disk] at hiff

/-- A buffer of 1024 bytes: both clusters are read. -/
theorem read_count_two : ∃ s' out,
    readFile noFaults 10 shortFs [47, 120] 1024 = some (s', out, some 1024) ∧ out.length = 1024 := by
  obtain ⟨hres, hall, hshort, -⟩ := shortFs_runs
  obtain ⟨⟨s₁, o⟩, hs₁, heq⟩ := Option.map_eq_some_iff.mp hres
  obtain ⟨hops, rfl⟩ := Prod.mk.inj heq
  obtain ⟨s', out, hread, -⟩ := shortRead_some hshort
  refine ⟨s', out, hread, (read_count_iff hs₁ hread).mpr fun j hj => ?_⟩
  have hj2 : j < 2 := by
    have h512 : 512 * 1 * j < 1024 := hj
    omega
  rw [hops]
  exact hall j hj2

/-- **Counterexample.** `read_file("/x", …)` returns true and reports 1536 bytes, of
which it copied 1024: the chain ends. With a buffer of 1024 bytes and a failing read of
the FAT (request 2) it reports 1024 bytes and has copied 512. -/
theorem count_too_large :
    (∃ s' out, readFile noFaults 10 shortFs [47, 120] 4096 = some (s', out, some 1536) ∧
      out.length = 1024) ∧
    ∃ s' out, readFile (fun k => k == 2) 10 shortFs [47, 120] 1024 = some (s', out, some 1024) ∧
      out.length = 512 := by
  obtain ⟨-, -, -, hends, hfails⟩ := shortFs_runs
  exact ⟨shortRead_some hends, shortRead_some hfails⟩

/-! ## On a well-formed volume -/

/-- The clusters of a file; an empty file may have none. -/
def FileClusters (g : Geom) (v : Vol) (e : DirEntry) (l : List Nat) : Prop :=
  (e.first = 0 ∧ l = []) ∨ VChain g v e.first l

/-- The call returns true, reports `min(file_size, buf_size)` bytes and has copied exactly
the first so many bytes of the file. -/
def ReadExact (s : Fs) (path : List UInt8) (e : DirEntry) (bufSize : Nat) : Prop :=
  ∃ fuel s' l, FileClusters s.g (volOf s.g s.disk) e l ∧
    min e.size bufSize ≤ (contents s.g s.disk l).length ∧
    readFile noFaults fuel s path bufSize =
      some (s', (contents s.g s.disk l).take (min e.size bufSize), some (min e.size bufSize))

theorem length_contents (g : Geom) (m : Mem) (l : List Nat) :
    (contents g m l).length = 512 * g.sectorsPerCluster * l.length := by
  induction l with
  | nil => rfl
  | cons c l ih =>
    rw [contents_cons, List.length_append, ih, clusterBytes, length_bytesAt, List.length_cons,
      Nat.mul_succ, Nat.add_comm]

section
variable {s : Fs} {path : List UInt8} {e : DirEntry}

theorem Resolves.readExact (hr : Resolves s.g (volOf s.g s.disk) path e) (h : VolumeOk s)
    (hfits : Fits s.g (volOf s.g s.disk)) (hmounted : s.mounted = true) (hfile : e.isDir = false)
    (bufSize : Nat) : ReadExact s path e bufSize := by
  obtain ⟨dir, ld, hd, hld, he, hdot⟩ := hr.entry h.wf hfile
  obtain ⟨hempty, hsize⟩ := hfits dir ld e hd hld he hdot
  have hfuel : s.g.totalClusters < s.g.totalClusters + 1 := Nat.lt_succ_self _
  rcases h.wf.entry_chain dir ld e hd hld he hdot with ⟨h0, -⟩ | ⟨l, hl⟩
  · -- an empty file: the loop is not entered
    obtain ⟨s₁, hs₁, -, -⟩ := resolvePath_names hr h.geom hfuel
    refine ⟨s.g.totalClusters + 1, s₁, [], .inl ⟨h0, rfl⟩, by simp [hempty h0], ?_⟩
    simp [readFile, hmounted, hs₁, hfile, hempty h0, readLoop]
  · obtain ⟨s', hs'⟩ := readFile_spec h.geom hmounted hr hfile hl hfuel bufSize
    refine ⟨_, s', l, .inr hl, ?_, hs'⟩
    rw [length_contents]
    exact Nat.le_trans (Nat.min_le_left _ _) (hsize l hl)

end

/-! ## A volume with an old directory entry in the FATs -/

def staleA : DirEntry := ⟨65 :: List.replicate 10 32, attrArchive, 3, 512⟩
def staleX : DirEntry := ⟨88 :: List.replicate 10 32, attrArchive, 2, 1536⟩

/-- The volume of the examples, where `a` has 512 bytes and the unused part of the FATs
looks like an entry for a file of 1536 bytes. -/
def staleSector : Nat → List UInt8
  | 2 | 5 => entryBytes staleX
  | 7 => entryBytes staleA ++ entryBytes entryD
  | 8 => List.replicate 512 1
  | k => demoSector k

def staleFs : Fs :=
  ⟨demoGeom, true, fun i => (staleSector (i / 512)).getD (i % 512) 0, 12, fun _ => 0, 0⟩

/-- What is on this disk and the calls that are looked at below. -/
theorem staleFs_runs :
    ([2, 3, 4, 5, 6].map (volOf demoGeom staleFs.disk).fat =
      [6, 0x0FFFFFF8, 0x0FFFFFF8, 0, 0x0FFFFFF8] ∧
      dirEntries (volOf demoGeom staleFs.disk) [2, 6] = [staleA, entryD] ∧
      dirEntries (volOf demoGeom staleFs.disk) [4] = [entryDot, entryDotDot]) ∧
    (resolvePath noFaults 10 staleFs [47, 97]).map (·.2) = some (some staleA) ∧
    (resolvePath noFaults 10 staleFs [47, 100, 47, 46, 46, 47, 120]).map (·.2) = some (some staleX) ∧
    (readFile noFaults 10 staleFs [47, 100, 47, 46, 46, 47, 120] 1536).map (fun r => r.2.1.length) =
      some 1024 ∧
    (readFile noFaults 10 staleFs [47, 100, 47, 46, 46, 47, 97] 1536).map (·.2) =
      some ([], none) := by
  decide +kernel

theorem stale_like : DemoLike staleFs.disk staleA := by
  obtain ⟨⟨hfat, hroot, hsub⟩, -⟩ := staleFs_runs
  exact ⟨hfat, hroot, hsub, rfl, rfl⟩

theorem stale_ok : VolumeOk staleFs := stale_like.volumeOk (by decide)

theorem stale_fits : Fits demoGeom (volOf demoGeom staleFs.disk) := stale_like.fits (by decide)

theorem stale_contents : contents demoGeom staleFs.disk [3] = List.replicate 512 1 := by
  refine List.eq_replicate_iff.mpr ⟨length_contents .., fun b hb => ?_⟩
  rw [contents_cons, contents, List.flatMap_nil, List.append_nil] at hb
  obtain ⟨i, hi, rfl⟩ := List.mem_map.mp hb
  have hlt : i < 512 := List.mem_range.mp hi
  have hsector : (4096 + i) / 512 = 8 := by omega
  have hbyte : (4096 + i) % 512 = i := by omega
  show (staleSector ((4096 + i) / 512)).getD ((4096 + i) % 512) 0 = 1
  rw [hsector, hbyte]
  show (List.replicate 512 1).getD i 0 = 1
  rw [List.getD_eq_getElem?_getD, List.getElem?_replicate, if_pos hlt, Option.getD_some]

/-- For a path that `resolve_path` takes to a file: that is the file the path names and
`read_file` is exact for every buffer size, if and only if the path does not go on behind
a directory entry that says cluster 0. -/
theorem read_iff {s : Fs} {path : List UInt8} {e : DirEntry} (h : VolumeOk s)
    (hfits : Fits s.g (volOf s.g s.disk)) (hmounted : s.mounted = true)
    (hres : ∃ fuel s₁, resolvePath noFaults fuel s path = some (s₁, some e))
    (hfile : e.isDir = false) :
    (Resolves s.g (volOf s.g s.disk) path e ∧ ∀ bufSize, ReadExact s path e bufSize) ↔
      ¬ ThroughZero s.g (volOf s.g s.disk) path := by
  rw [← resolves_iff h hres]
  exact ⟨And.left, fun hr => ⟨hr, hr.readExact h hfits hmounted hfile⟩⟩

/-- `read_file("/a", …)` with a buffer of 600 bytes. -/
theorem read_iff_all : ∃ fuel s', readFile noFaults fuel staleFs [47, 97] 600 =
    some (s', List.replicate 512 1, some 512) := by
  obtain ⟨-, hres, -⟩ := staleFs_runs
  obtain ⟨⟨s₁, o⟩, hs₁, rfl⟩ := Option.map_eq_some_iff.mp hres
  have hok := (read_iff stale_ok stale_fits rfl ⟨10, s₁, hs₁⟩ rfl).mpr
    (not_throughZero_of_one [97] rfl)
  obtain ⟨fuel, s', l, hl, -, hread⟩ := hok.2 600
  have hbytes : (contents demoGeom staleFs.disk [3]).take 512 = List.replicate 512 1 := by
    rw [stale_contents, List.take_replicate, Nat.min_self]
  rcases hl with ⟨h0, -⟩ | hl
  · cases h0
  · obtain rfl := Chain.unique demo_numbers.sep hl stale_like.chains.2.1
    exact ⟨fuel, s', hread.trans (congrArg (fun out => some (s', out, some 512)) hbytes)⟩

/-- **Counterexample.** For `/d/../x` `resolve_path` finds an `x` in the FATs; `read_file`
returns true, reports 1536 bytes and has copied the 1024 bytes of the root directory.
For `/d/../a` it returns false, although the root has a file `a`. -/
theorem read_reports_too_much : VolumeOk staleFs ∧ Fits staleFs.g (volOf staleFs.g staleFs.disk) ∧
    (∃ s₁, resolvePath noFaults 10 staleFs [47, 100, 47, 46, 46, 47, 120] = some (s₁, some staleX)) ∧
    staleX.isDir = false ∧ ¬ ReadExact staleFs [47, 100, 47, 46, 46, 47, 120] staleX 1536 ∧
    ∃ s', readFile noFaults 10 staleFs [47, 100, 47, 46, 46, 47, 97] 1536 = some (s', [], none) := by
  obtain ⟨-, -, hres, hread, hnone⟩ := staleFs_runs
  obtain ⟨⟨s₁, o⟩, hs₁, rfl⟩ := Option.map_eq_some_iff.mp hres
  obtain ⟨⟨s₂, out, b⟩, hs₂, hlen⟩ := Option.map_eq_some_iff.mp hread
  obtain ⟨⟨s₃, r⟩, hs₃, rfl⟩ := Option.map_eq_some_iff.mp hnone
  refine ⟨stale_ok, stale_fits, ⟨s₁, hs₁⟩, rfl, ?_, s₃, hs₃⟩
  rintro ⟨fuel, s', l, -, hall, hexact⟩
  have heq := (readFile_persists noFaults staleFs _ 1536).agree hs₂ hexact
  obtain ⟨-, hout, -⟩ : _ ∧ out = _ ∧ _ := by simpa only [Prod.mk.injEq] using heq
  rw [hout, List.length_take, Nat.min_eq_left hall] at hlen
  cases hlen

end HackersOs.L4.Fat

import HackersOs.L4Fs.FatContents
import HackersOs.L4Fs.FatRuns

/-!
# Writing a file and reading it back

`write_file` on a file that has clusters, on a well-formed volume whose chains are
as long as the sizes say (`Fits`), without I/O errors. `WriteOk` is what the call
should do: whether it returns true or false, all directories and all other
entries keep their chains and contents and the volume stays well-formed; if it
returns true, the file's chain extends the old one, its contents start with
the data, and `read_file` returns the data as far as the recorded size goes.

`write_iff`: this is so for every data, on the file that the path names, exactly
if the path does not go on behind a `..` that stands for the root by a 0.

**Counterexample.** `write_hits_root`: behind such a `..` `find_in_dir` reads the
end of the FATs as a directory; the file found there is the root directory.
-/
namespace HackersOs.L4.Fat
open HackersOs.Core

/-- The chain of an entry is as long as its size says. -/
def Fits (g : Geom) (v : Vol) : Prop :=
  ∀ dir l e, Dir g v dir → VChain g v dir l → e ∈ dirEntries v l → e.isDot = false →
    (e.first = 0 → e.size = 0) ∧
    ∀ l', VChain g v e.first l' → e.size ≤ 512 * g.sectorsPerCluster * l'.length

/-- What a write to the file `e` leaves as it was. -/
structure Preserved (s s' : Fs) (e : DirEntry) : Prop where
  mounted : Mounted s s'
  volume : VolumeOk s'
  fits : Fits s.g (volOf s.g s'.disk)
  dirs : ∀ c l, Dir s.g (volOf s.g s.disk) c → VChain s.g (volOf s.g s.disk) c l →
    VChain s.g (volOf s.g s'.disk) c l ∧ contents s.g s'.disk l = contents s.g s.disk l
  others : ∀ dir ld e' l, Dir s.g (volOf s.g s.disk) dir → VChain s.g (volOf s.g s.disk) dir ld →
    e' ∈ dirEntries (volOf s.g s.disk) ld → e'.isDot = false → e' ≠ e →
    VChain s.g (volOf s.g s.disk) e'.first l →
    VChain s.g (volOf s.g s'.disk) e'.first l ∧ contents s.g s'.disk l = contents s.g s.disk l

/-- The data is in the file `e`, and `read_file` returns it. -/
structure Stored (s s' : Fs) (path : List UInt8) (e : DirEntry) (data : List UInt8) : Prop where
  chain : ∃ l l', VChain s.g (volOf s.g s.disk) e.first l ∧
    VChain s.g (volOf s.g s'.disk) e.first l' ∧ l <+: l' ∧ data <+: contents s.g s'.disk l'
  readBack : e.size ≤ data.length → ∀ bufSize, ∃ fuel s'', readFile noFaults fuel s' path bufSize =
    some (s'', data.take (min e.size bufSize), some (min e.size bufSize))

def WriteOk (s : Fs) (path : List UInt8) (e : DirEntry) (data : List UInt8) : Prop :=
  ∃ fuel s' b, writeFile noFaults fuel s path data = some (s', b) ∧ Preserved s s' e ∧
    (b = true → Stored s s' path e data)

/-! ## What a grown chain leaves alone -/

/-- Different entries have disjoint chains. -/
theorem WellFormed.entries_disjoint {g : Geom} {v : Vol} {dir dir' : Nat} {ld ld' l l' : List Nat}
    {e e' : DirEntry} (h : WellFormed g v) (hg : Numbers g) (hd : Dir g v dir)
    (hld : VChain g v dir ld)
    (he : e ∈ dirEntries v ld) (hdot : e.isDot = false) (hd' : Dir g v dir')
    (hld' : VChain g v dir' ld')
    (he' : e' ∈ dirEntries v ld') (hdot' : e'.isDot = false) (hne : e ≠ e')
    (hl : VChain g v e.first l) (hl' : VChain g v e'.first l') : l.Disjoint l' := by
  obtain ⟨n, hn⟩ := List.mem_iff_getElem?.mp he
  obtain ⟨n', hn'⟩ := List.mem_iff_getElem?.mp he'
  refine h.disjoint (.entry dir n) (.entry dir' n') _ _ _ _ ?_ ⟨hd, ld, e, hld, hn, hdot, rfl⟩
    ⟨hd', ld', e', hld', hn', hdot', rfl⟩ hl hl'
  rintro ⟨⟩
  rw [Chain.unique hg.sep hld' hld, hn] at hn'
  exact hne (Option.some.inj hn')

section
variable {s s₁ s' : Fs} {c c₀ : Nat} {l lx r : List Nat}

/-- The clusters of another chain are neither in the file nor were they free. -/
theorem Grown.outside (h : Grown s s' c₀ [] l r) (hx : VChain s.g (volOf s.g s.disk) c lx)
    (hdisj : l.Disjoint lx) : ∀ x ∈ lx, x ∉ l ++ r := by
  intro x hmem hin
  rcases List.mem_append.mp hin with hl | hr
  · exact hdisj hl hmem
  · exact chain_not_free hx hmem (h.free x hr)

theorem Grown.spares (h : Grown s s' c₀ [] l r) (hx : VChain s.g (volOf s.g s.disk) c lx)
    (hdisj : l.Disjoint lx) : VChain s.g (volOf s.g s'.disk) c lx ∧
      contents s.g s'.disk lx = contents s.g s.disk lx := by
  have hout := h.outside hx hdisj
  exact ⟨h.frame.chain hx hout, h.frame.contents fun x hmem => ⟨hx.mem_ok hmem, hout x hmem⟩⟩

theorem Grown.of_unchanged (h : Grown s₁ s' c₀ [] l r) (hm : Mounted s s₁) (hd : s₁.disk = s.disk) :
    Grown s s' c₀ [] l r := by
  obtain ⟨hm', hchain, hfree, hframe⟩ := h
  rw [hm.g] at hchain hfree hframe
  rw [hd] at hfree hframe
  exact ⟨hm.trans hm', hchain, hfree, hframe⟩

end

/-! ## `write_file` and `read_file` -/

section
variable {s s' : Fs} {path data : List UInt8} {e : DirEntry} {l r : List Nat} {fuel : Nat}

theorem writeFile_grown (h : GeomOk s.g s.capacity) (hmounted : s.mounted = true)
    (hr : Resolves s.g (volOf s.g s.disk) path e) (hfile : e.isDir = false)
    (hl : VChain s.g (volOf s.g s.disk) e.first l) (hfuel : s.g.totalClusters < fuel)
    (hdata : data.length < fuel) : ∃ s' b r, writeFile noFaults fuel s path data = some (s', b) ∧
      Grown s s' e.first [] l r ∧ (b = true → data <+: contents s.g s'.disk (l ++ r)) := by
  obtain ⟨s₁, hs₁, hm, hd⟩ := resolvePath_names hr h hfuel
  have hloop := @writeLoop_chain s₁ e.first e.first 0 [] l fuel data
  rw [hm.g, hm.capacity, hd] at hloop
  obtain ⟨s', b, r, hs', hgrown, hb⟩ := hloop h hl (.inside hl) hdata
  refine ⟨s', b, r, ?_, hgrown.of_unchanged hm hd, hb⟩
  simp [writeFile, hmounted, hs₁, hfile, hs']

theorem readFile_spec (h : GeomOk s.g s.capacity) (hmounted : s.mounted = true)
    (hr : Resolves s.g (volOf s.g s.disk) path e) (hfile : e.isDir = false)
    (hl : VChain s.g (volOf s.g s.disk) e.first l) (hfuel : s.g.totalClusters < fuel)
    (bufSize : Nat) :
    ∃ s', readFile noFaults fuel s path bufSize =
      some (s', (contents s.g s.disk l).take (min e.size bufSize), some (min e.size bufSize)) := by
  obtain ⟨s₁, hs₁, hm, hd⟩ := resolvePath_names hr h hfuel
  have hlen := chain_length_le h.numbers hl
  have hsize : (if e.size > bufSize then bufSize else e.size) = min e.size bufSize := by
    split <;> omega
  have hloop := @readLoop_spec s₁ s.g s.disk e.first l hl fuel (min e.size bufSize) hm.g hd
    (by rwa [hm.capacity]) (Nat.lt_of_le_of_lt hlen hfuel)
  obtain ⟨s', hs'⟩ := hloop
  exact ⟨s', by simp [readFile, hmounted, hs₁, hfile, hsize, hs']⟩

end

/-! ## A file of the volume -/

/-- A file, by an entry of a reachable directory, and its chain. -/
structure IsFile (g : Geom) (v : Vol) (e : DirEntry) (l : List Nat) : Prop where
  entry : ∃ dir ld, Dir g v dir ∧ VChain g v dir ld ∧ e ∈ dirEntries v ld
  file : e.isDir = false
  chain : VChain g v e.first l

section
variable {g : Geom} {v : Vol} {e : DirEntry} {l : List Nat}

theorem IsFile.not_dot (h : IsFile g v e l) : e.isDot = false := by
  simp [DirEntry.isDot, h.file]

theorem IsFile.dir_disjoint (h : IsFile g v e l) (hv : WellFormed g v) (hg : Numbers g) {c : Nat}
    {lc : List Nat} (hc : Dir g v c) (hlc : VChain g v c lc) : l.Disjoint lc := by
  obtain ⟨dir, ld, hd, hld, he⟩ := h.entry
  exact hv.file_not_dir hg hd hld he h.file h.chain hc hlc

theorem IsFile.other_disjoint (h : IsFile g v e l) (hv : WellFormed g v) (hg : Numbers g) {dir : Nat}
    {ld l' : List Nat} {e' : DirEntry} (hd : Dir g v dir) (hld : VChain g v dir ld)
    (he : e' ∈ dirEntries v ld) (hdot : e'.isDot = false) (hne : e' ≠ e)
    (hl' : VChain g v e'.first l') : l.Disjoint l' := by
  obtain ⟨dir₀, ld₀, hd₀, hld₀, he₀⟩ := h.entry
  exact hv.entries_disjoint hg hd₀ hld₀ he₀ h.not_dot hd hld he hdot hne.symm h.chain hl'

/-- A file that a path names, with a first cluster. -/
theorem Resolves.isFile {path : List UInt8} (hr : Resolves g v path e) (hv : WellFormed g v)
    (hfile : e.isDir = false) (h0 : e.first ≠ 0) : ∃ l, IsFile g v e l := by
  obtain ⟨dir, ld, hd, hld, he, hdot⟩ := hr.entry hv hfile
  rcases hv.entry_chain dir ld e hd hld he hdot with ⟨hzero, -⟩ | ⟨l, hl⟩
  · exact absurd hzero h0
  · exact ⟨l, ⟨dir, ld, hd, hld, he⟩, hfile, hl⟩

end

section
variable {s s' : Fs} {e : DirEntry} {l r : List Nat}

theorem IsFile.keepsDirs (hf : IsFile s.g (volOf s.g s.disk) e l) (h : VolumeOk s)
    (hgrown : Grown s s' e.first [] l r) : KeepsDirs s.g (volOf s.g s.disk) (volOf s.g s'.disk) := by
  intro c lc hc hlc x hx
  have hout := hgrown.outside hlc (hf.dir_disjoint h.wf h.geom.numbers hc hlc) x hx
  exact ⟨hgrown.frame.fat x (hlc.mem_ok hx) hout, hgrown.frame.slots (hlc.mem_ok hx) hout⟩

/-- Chains only get longer. -/
theorem IsFile.fits (hf : IsFile s.g (volOf s.g s.disk) e l) (h : VolumeOk s)
    (hgrown : Grown s s' e.first [] l r) (hfits : Fits s.g (volOf s.g s.disk)) :
    Fits s.g (volOf s.g s'.disk) := by
  intro dir ld' e' hd' hld' he' hdot
  have hk := hf.keepsDirs h hgrown
  have hd := (hk.dir_iff h.wf h.geom.numbers).mp hd'
  obtain ⟨ld, hld⟩ := h.wf.dir_chain hd
  obtain rfl := Chain.unique h.geom.numbers.sep (hk.chain hd hld) hld'
  rw [hk.entries hd hld] at he'
  obtain ⟨hempty, hsize⟩ := hfits dir ld e' hd hld he' hdot
  refine ⟨hempty, fun l' hl' => ?_⟩
  by_cases heq : e' = e
  · subst heq
    obtain rfl := Chain.unique h.geom.numbers.sep hgrown.chain hl'
    refine Nat.le_trans (hsize l hf.chain) (Nat.mul_le_mul_left _ ?_)
    simp
  · rcases h.wf.entry_chain dir ld e' hd hld he' hdot with ⟨hzero, -⟩ | ⟨l₀, hl₀⟩
    · rw [hzero] at hl'
      exact absurd hl' not_chain_zero
    · have hdisj := hf.other_disjoint h.wf h.geom.numbers hd hld he' hdot heq hl₀
      obtain rfl := Chain.unique h.geom.numbers.sep (hgrown.spares hl₀ hdisj).1 hl'
      exact hsize l₀ hl₀

theorem IsFile.preserved (hf : IsFile s.g (volOf s.g s.disk) e l) (h : VolumeOk s)
    (hgrown : Grown s s' e.first [] l r) (hfits : Fits s.g (volOf s.g s.disk)) (hok : VolumeOk s') :
    Preserved s s' e where
  mounted := hgrown.mounted
  volume := hok
  fits := hf.fits h hgrown hfits
  dirs _ _ hc hlc := hgrown.spares hlc (hf.dir_disjoint h.wf h.geom.numbers hc hlc)
  others _ _ _ _ hd hld he hdot hne hl :=
    hgrown.spares hl (hf.other_disjoint h.wf h.geom.numbers hd hld he hdot hne hl)

theorem IsFile.stored {path data : List UInt8} (hf : IsFile s.g (volOf s.g s.disk) e l)
    (h : VolumeOk s) (hgrown : Grown s s' e.first [] l r) (hmounted : s.mounted = true)
    (hr : Resolves s.g (volOf s.g s.disk) path e) (hdata : data <+: contents s.g s'.disk (l ++ r)) :
    Stored s s' path e data := by
  refine ⟨⟨l, l ++ r, hf.chain, hgrown.chain, List.prefix_append l r, hdata⟩, fun hle bufSize => ?_⟩
  have hm := hgrown.mounted
  have hread := @readFile_spec s' path e (l ++ r) (s.g.totalClusters + 1)
  rw [hm.g, hm.capacity, hm.mounted] at hread
  obtain ⟨s'', hs''⟩ := hread h.geom hmounted (hr.keep h.wf (hf.keepsDirs h hgrown)) hf.file
    hgrown.chain (Nat.lt_succ_self _) bufSize
  refine ⟨s.g.totalClusters + 1, s'', ?_⟩
  obtain ⟨rest, hrest⟩ := hdata
  rw [hs'', ← hrest, List.take_append_of_le_length (by omega)]

end

theorem DemoLike.fits {m : Mem} {a : DirEntry} (h : DemoLike m a) (hsize : a.size ≤ 512) :
    Fits demoGeom (volOf demoGeom m) := by
  intro dir l e hd hl he hdot
  rcases h.entries hd hl with ⟨-, hent⟩ | ⟨-, hent⟩
  · rw [hent, List.mem_pair] at he
    rcases he with rfl | rfl
    · rw [h.first]
      refine ⟨fun h0 => (by cases h0), fun l' hl' => ?_⟩
      rw [Chain.unique demo_numbers.sep hl' h.chains.2.1]
      exact hsize
    · exact ⟨fun _ => rfl, fun _ _ => Nat.zero_le _⟩
  · rw [hent, List.mem_pair] at he
    rcases he with rfl | rfl
    all_goals cases hdot

theorem demo_fits : Fits demoGeom (volOf demoGeom demoDisk) := demo_like.fits (by decide)

/-! ## The call -/

/-- Nothing happens when no volume is mounted. -/
theorem Preserved.refl {s : Fs} (h : VolumeOk s) (hfits : Fits s.g (volOf s.g s.disk))
    (e : DirEntry) : Preserved s s e where
  mounted := .refl s
  volume := h
  fits := hfits
  dirs _ _ _ hl := ⟨hl, rfl⟩
  others _ _ _ _ _ _ _ _ _ hl := ⟨hl, rfl⟩

theorem Resolves.writeOk {s : Fs} {path : List UInt8} {e : DirEntry} (h : VolumeOk s)
    (hfits : Fits s.g (volOf s.g s.disk)) (hr : Resolves s.g (volOf s.g s.disk) path e)
    (hfile : e.isDir = false) (h0 : e.first ≠ 0) (data : List UInt8) : WriteOk s path e data := by
  cases hmounted : s.mounted with
  | false =>
    exact ⟨0, s, false, by simp [writeFile, hmounted], .refl h hfits e, by simp⟩
  | true =>
    obtain ⟨l, hf⟩ := hr.isFile h.wf hfile h0
    have hfuel : s.g.totalClusters < s.g.totalClusters + data.length + 1 := by omega
    have hdata : data.length < s.g.totalClusters + data.length + 1 := by omega
    obtain ⟨s', b, r, hs', hgrown, hb⟩ :=
      writeFile_grown h.geom hmounted hr hfile hf.chain hfuel hdata
    have hzero := hr.not_throughZero h.geom.numbers
    obtain ⟨s₁, b₁, hs₁, hok⟩ := writeFile_spec h (fun _ => hzero) hfuel hdata
    obtain ⟨rfl, rfl⟩ := Prod.mk.inj (Option.some.inj (hs'.symm.trans hs₁))
    exact ⟨_, s', b, hs', hf.preserved h hgrown hfits hok, fun hbt =>
      hf.stored h hgrown hmounted hr (hb hbt)⟩

/-- For a path that `resolve_path` takes to a file with clusters: that is the file the
path names and every write to it is in order, if and only if the path does not go on
behind a directory entry that says cluster 0. -/
theorem write_iff {s : Fs} {path : List UInt8} {e : DirEntry} (h : VolumeOk s)
    (hfits : Fits s.g (volOf s.g s.disk))
    (hres : ∃ fuel s₁, resolvePath noFaults fuel s path = some (s₁, some e))
    (hfile : e.isDir = false) (h0 : e.first ≠ 0) :
    (Resolves s.g (volOf s.g s.disk) path e ∧ ∀ data, WriteOk s path e data) ↔
      ¬ ThroughZero s.g (volOf s.g s.disk) path := by
  rw [← resolves_iff h hres]
  exact ⟨And.left, fun hr => ⟨hr, hr.writeOk h hfits hfile h0⟩⟩

/-- `write_file("/a", …)` with 513 bytes. -/
theorem write_iff_append : ∃ fuel s', writeFile noFaults fuel demoFs [47, 97] (List.replicate 513 1) =
      some (s', true) ∧ Preserved demoFs s' entryA ∧
        Stored demoFs s' [47, 97] entryA (List.replicate 513 1) := by
  have hres : ((resolvePath noFaults 600 demoFs [47, 97]).map (·.2)) = some (some entryA) := by
    decide +kernel
  obtain ⟨⟨s₁, o⟩, hs₁, rfl⟩ := Option.map_eq_some_iff.mp hres
  have hok := (write_iff demo_ok demo_fits ⟨600, s₁, hs₁⟩ rfl (by decide)).mpr
    (not_throughZero_of_one [97] rfl)
  obtain ⟨fuel, s', b, hs', hpres, hstored⟩ := hok.2 (List.replicate 513 1)
  obtain ⟨⟨s₂, b₂⟩, hs₂, hb₂⟩ := Option.map_eq_some_iff.mp outcome_append
  have heq := (exec_persists noFaults demoFs (.write [47, 97] (List.replicate 513 1))).agree hs' hs₂
  obtain rfl : b = true := (Prod.mk.inj heq).2.trans (Prod.mk.inj hb₂).1
  exact ⟨fuel, s', hs', hpres, hstored rfl⟩

/-- **Counterexample.** `write_file("/d/../x", …)`: `resolve_path` finds an `x` in the
FATs, and its first cluster is the root directory's. -/
theorem write_hits_root : VolumeOk demoFs ∧ Fits demoFs.g (volOf demoFs.g demoFs.disk) ∧
    (∃ s₁, resolvePath noFaults 600 demoFs [47, 100, 47, 46, 46, 47, 120] = some (s₁, some entryX)) ∧
    entryX.isDir = false ∧ entryX.first ≠ 0 ∧
    ¬ WriteOk demoFs [47, 100, 47, 46, 46, 47, 120] entryX (entryBytes entryB) := by
  have hres : ((resolvePath noFaults 600 demoFs [47, 100, 47, 46, 46, 47, 120]).map (·.2)) =
      some (some entryX) := by decide +kernel
  obtain ⟨⟨s₁, o⟩, hs₁, rfl⟩ := Option.map_eq_some_iff.mp hres
  refine ⟨demo_ok, demo_fits, ⟨s₁, hs₁⟩, by decide, by decide, ?_⟩
  rintro ⟨fuel, s', b, hs', hpres, -⟩
  obtain ⟨s₂, hs₂, hbad⟩ := broken_of_outcome outcome_throughZero List.mem_cons_self (by decide)
    (.inr (.inl ⟨rfl, rfl⟩))
  have heq := (exec_persists noFaults demoFs
    (.write [47, 100, 47, 46, 46, 47, 120] (entryBytes entryB))).agree hs' hs₂
  rw [← (Prod.mk.inj heq).1] at hbad
  exact hbad hpres.volume

end HackersOs.L4.Fat

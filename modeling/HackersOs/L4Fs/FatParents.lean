import HackersOs.L4Fs.FatWalks

/-!
# `..` and the root

In a FAT32 directory `..` is an entry on the disk, and the one that stands for the
root says cluster 0. `resolve_path` takes the number as it is: behind such a `..`
it looks in the sectors two clusters in front of the data area.

A path is followed twice here: as the driver does it (`Enters DirEntry.first`) and
as the format means it (`Enters (target g)`, a 0 is the root). What is found on the
way is what `find_in_dir` finds, on any disk (`gives_iff`).

* `parent_iff`: on a volume whose subdirectories have their `..`, going down
  and up again never changes what a path gives if and only if the driver finds
  the root's entries also at cluster 0, or the root has no subdirectory. For one
  directory that the driver reaches: if and only if it is not the root, or so.

**Counterexample.** `parent_lost`: `/a` is a file, `/d/../a` is not found
(fat32.cpp:74, 176).
-/
namespace HackersOs.L4.Fat
open HackersOs.Core

/-! ## What a path gives, on any disk -/

/-- `resolve_path` gives `e`. -/
def Gives (s : Fs) (path : List UInt8) (e : DirEntry) : Prop :=
  ∃ fuel, (resolvePath noFaults fuel s path).map (·.2) = some (some e)

/-- Components looked up one after the other, from the directory at `c` on. -/
inductive Follows (s : Fs) : Nat → List (List UInt8) → DirEntry → Prop where
  | last {c : Nat} {name : List UInt8} {e : DirEntry} :
      Finds s c (name.take 127) e → Follows s c [name] e
  | via {c : Nat} {name : List UInt8} {rest : List (List UInt8)} {d e : DirEntry} :
      Finds s c (name.take 127) d → d.isDir = true → Follows s d.first rest e →
      Follows s c (name :: rest) e

section
variable {s t : Fs} {c : Nat} {name : List UInt8} {rest : List (List UInt8)} {d e : DirEntry}

theorem not_follows_nil : ¬ Follows s c [] e := by
  intro h
  cases h

theorem follows_one_iff : Follows s c [name] e ↔ Finds s c (name.take 127) e := by
  constructor
  · intro h
    cases h with
    | last hfind => exact hfind
    | via _ _ hnext => exact absurd hnext not_follows_nil
  · exact .last

/-- The directory in front of the rest of a path. -/
theorem follows_cons_iff (hd : Finds s c (name.take 127) d) (hdir : d.isDir = true)
    (hrest : rest ≠ []) : Follows s c (name :: rest) e ↔ Follows s d.first rest e := by
  constructor
  · intro h
    cases h with
    | last => exact absurd rfl hrest
    | via hd' _ hnext =>
      rw [hd.unique hd']
      exact hnext
  · exact .via hd hdir

theorem resolveLoop_follows_iff (ht : Reads s t) (comps : List (List UInt8)) (c : Nat) :
    (∃ fuel, (resolveLoop noFaults fuel comps c t).map (·.2) = some (some e)) ↔
      Follows s c comps e := by
  induction comps generalizing c t with
  | nil => exact iff_of_false (fun ⟨_, h⟩ => by cases h) not_follows_nil
  | cons name rest ih =>
    cases rest with
    | nil =>
      rw [follows_one_iff]
      refine exists_congr fun fuel => ?_
      rw [findInDir_congr ht]
      rfl
    | cons name' rest =>
      constructor
      · intro ⟨fuel, h⟩
        obtain ⟨⟨t', o⟩, hloop, ho⟩ := Option.map_eq_some_iff.mp h
        simp only at ho
        subst ho
        rcases resolveLoop_cases hloop with ⟨t₁, d, hfind, hdir, hnext⟩ | ⟨t₁, o, -, -, hr⟩
        · refine .via (.of_find ht hfind) hdir
            ((ih (ht.trans (findInDir_reads noFaults hfind)) _).mp ⟨fuel, ?_⟩)
          rw [hnext]
          rfl
        · cases hr
      · intro h
        cases h with
        | @via _ _ _ d _ hfind hdir hnext =>
          obtain ⟨fuel, hfind⟩ := hfind
          rw [findInDir_congr ht] at hfind
          obtain ⟨⟨t₁, o⟩, hfind, ho⟩ := Option.map_eq_some_iff.mp hfind
          simp only at ho
          subst ho
          obtain ⟨fuel', hloop⟩ := (ih (ht.trans (findInDir_reads noFaults hfind)) _).mpr hnext
          have hfind' := (findInDir_persists noFaults t c (name.take 127)).le
            (Nat.le_max_left fuel fuel') hfind
          have hloop' := ((resolveLoop_persists noFaults (name' :: rest) d.first t₁).map (·.2)).le
            (Nat.le_max_right fuel fuel') hloop
          refine ⟨max fuel fuel', ?_⟩
          rw [resolveLoop_enter hfind' hdir]
          exact hloop'

theorem gives_iff {path : List UInt8} {comps : List (List UInt8)}
    (hpath : components [] (dropSlash path) = comps) (hne : comps ≠ []) :
    Gives s path e ↔ Follows s s.g.rootCluster comps e := by
  subst hpath
  have hslash : dropSlash path ≠ [] := by
    intro hnil
    rw [hnil] at hne
    exact hne rfl
  unfold Gives resolvePath
  simp only [if_neg hslash]
  exact resolveLoop_follows_iff (.refl s) _ _

end

/-! ## Directories on the way -/

/-- A component as it stands between slashes. -/
def IsName (name : List UInt8) : Prop := name ≠ [] ∧ 47 ∉ name

def dotDot : List UInt8 := [46, 46]

/-- The directory that an entry stands for: a 0 is the root. -/
def target (g : Geom) (d : DirEntry) : Nat := if d.first = 0 then g.rootCluster else d.first

/-- Components that lead from the directory at `c` to the one at `c'`, if `into` says
where an entry leads. -/
inductive Enters (s : Fs) (into : DirEntry → Nat) : Nat → List (List UInt8) → Nat → Prop where
  | here {c : Nat} : Enters s into c [] c
  | sub {c c' : Nat} {name : List UInt8} {rest : List (List UInt8)} {d : DirEntry} : IsName name →
      Finds s c (name.take 127) d → d.isDir = true → Enters s into (into d) rest c' →
      Enters s into c (name :: rest) c'

/-- A subdirectory of the directory at `c`. -/
structure Subdir (s : Fs) (c : Nat) (name : List UInt8) (d : DirEntry) : Prop where
  found : Finds s c name d
  dir : d.isDir = true
  not_dot : name ≠ [46]
  not_dotDot : name ≠ dotDot

/-- Every subdirectory has its `..`, with a 0 for the root; the root has no dot entries.
(What `.` says plays no part.) -/
structure Dotted (s : Fs) : Prop where
  up : ∀ ps c name d, Enters s (target s.g) s.g.rootCluster ps c → Subdir s c name d →
    ∃ u, Finds s d.first dotDot u ∧ u.isDir = true ∧
      u.first = if c = s.g.rootCluster then 0 else c
  root_plain : ∀ d, ¬ Finds s s.g.rootCluster [46] d ∧ ¬ Finds s s.g.rootCluster dotDot d

/-- The sectors that the driver takes for cluster 0 have the root's entries. -/
def ZeroAsRoot (s : Fs) : Prop :=
  ∀ name, IsName name → ∀ e, Finds s 0 (name.take 127) e ↔ Finds s s.g.rootCluster (name.take 127) e

/-- Behind the directory that `ps` leads to, `name/../` can be left out. -/
def SameBehind (s : Fs) (ps : List (List UInt8)) (name : List UInt8) : Prop :=
  ∀ qs, qs ≠ [] → (∀ q ∈ qs, IsName q) → ∀ path path',
    components [] (dropSlash path) = ps ++ name :: dotDot :: qs →
    components [] (dropSlash path') = ps ++ qs → ∀ e, Gives s path e ↔ Gives s path' e

section
variable {s : Fs} {c c' : Nat} {ps rest qs : List (List UInt8)} {name : List UInt8} {d e u : DirEntry}

/-- A path goes on where its front leads the driver. -/
theorem Enters.follows_iff (h : Enters s DirEntry.first c ps c') (hrest : rest ≠ []) :
    Follows s c (ps ++ rest) e ↔ Follows s c' rest e := by
  induction h with
  | here => rfl
  | sub _ hd hdir _ ih =>
    refine (follows_cons_iff hd hdir ?_).trans ih
    simp [hrest]

theorem follows_zero_iff (hz : ZeroAsRoot s) (hqs : ∀ q ∈ qs, IsName q) :
    Follows s 0 qs e ↔ Follows s s.g.rootCluster qs e := by
  cases qs with
  | nil => exact iff_of_false not_follows_nil not_follows_nil
  | cons q qs =>
    have hq := hz q (hqs q List.mem_cons_self)
    constructor
    · intro h
      cases h with
      | last hfind => exact .last ((hq e).mp hfind)
      | via hfind hdir hnext => exact .via ((hq _).mp hfind) hdir hnext
    · intro h
      cases h with
      | last hfind => exact .last ((hq e).mpr hfind)
      | via hfind hdir hnext => exact .via ((hq _).mpr hfind) hdir hnext

/-- The cluster an entry says, or the root for a 0: the driver finds the same. -/
theorem follows_target_iff (hz : ZeroAsRoot s) (hqs : ∀ q ∈ qs, IsName q) :
    Follows s d.first qs e ↔ Follows s (target s.g d) qs e := by
  unfold target
  split
  · rename_i h0
    rw [h0]
    exact follows_zero_iff hz hqs
  · rfl

/-- What the `..` below the directory at `c` says. -/
theorem follows_up_iff (hz : ZeroAsRoot s) (hqs : ∀ q ∈ qs, IsName q) :
    Follows s (if c = s.g.rootCluster then 0 else c) qs e ↔ Follows s c qs e := by
  split
  · rename_i hc
    rw [hc]
    exact follows_zero_iff hz hqs
  · rfl

theorem Enters.names {into : DirEntry → Nat} (h : Enters s into c ps c') : ∀ p ∈ ps, IsName p := by
  induction h with
  | here => simp
  | sub hname _ _ _ ih =>
    intro p hp
    rcases List.mem_cons.mp hp with rfl | hp
    · exact hname
    · exact ih p hp

/-- Then a path goes on where its front leads by the format. -/
theorem Enters.target_follows_iff (hz : ZeroAsRoot s) (h : Enters s (target s.g) c ps c')
    (hrest : rest ≠ []) (hnames : ∀ q ∈ rest, IsName q) :
    Follows s c (ps ++ rest) e ↔ Follows s c' rest e := by
  induction h with
  | here => rfl
  | sub _ hd hdir htail ih =>
    refine (follows_cons_iff hd hdir (by simp [hrest])).trans ((follows_target_iff hz ?_).trans ih)
    intro q hq
    rcases List.mem_append.mp hq with hq | hq
    · exact htail.names q hq
    · exact hnames q hq

/-- Down to a subdirectory and up again. -/
theorem down_up_iff (hd : Finds s c (name.take 127) d) (hdir : d.isDir = true)
    (hu : Finds s d.first dotDot u) (hudir : u.isDir = true) (hqs : qs ≠ []) :
    Follows s c (name :: dotDot :: qs) e ↔ Follows s u.first qs e := by
  rw [follows_cons_iff hd hdir (by simp)]
  exact follows_cons_iff hu hudir hqs

end

/-! ## Paths of given components -/

/-- The components, each behind a slash. -/
def pathOf (names : List (List UInt8)) : List UInt8 := names.flatMap (47 :: ·)

theorem components_name {name : List UInt8} (hslash : 47 ∉ name) (cur rest : List UInt8) :
    components cur (name ++ 47 :: rest) = (cur.reverse ++ name) :: components [] rest := by
  induction name generalizing cur with
  | nil => simp [components]
  | cons b name ih =>
    simp only [List.mem_cons, not_or] at hslash
    rw [List.cons_append, components, if_neg (Ne.symm hslash.1), ih hslash.2]
    simp

theorem components_last {name : List UInt8} (hslash : 47 ∉ name) (cur : List UInt8) :
    components cur name = if cur.reverse ++ name = [] then [] else [cur.reverse ++ name] := by
  induction name generalizing cur with
  | nil => simp [components]
  | cons b name ih =>
    simp only [List.mem_cons, not_or] at hslash
    rw [components, if_neg (Ne.symm hslash.1), ih hslash.2]
    simp

theorem components_pathOf {names : List (List UInt8)} (h : ∀ n ∈ names, IsName n) :
    components [] (dropSlash (pathOf names)) = names := by
  cases names with
  | nil => rfl
  | cons n names =>
    show components [] (n ++ pathOf names) = n :: names
    induction names generalizing n with
    | nil =>
      have hn := h n List.mem_cons_self
      rw [show n ++ pathOf [] = n from List.append_nil n, components_last hn.2]
      simp [hn.1]
    | cons m names ih =>
      have hn := h n List.mem_cons_self
      show components [] (n ++ 47 :: (m ++ pathOf names)) = _
      rw [components_name hn.2, ih m fun k hk => h k (List.mem_cons_of_mem n hk)]
      rfl

/-! ## The property -/

theorem isName_dotDot : IsName dotDot := ⟨by decide, by decide⟩

section
variable {s : Fs} {c : Nat} {ps : List (List UInt8)} {name : List UInt8} {d : DirEntry}

/-- In terms of the components, if there are such paths. -/
theorem sameBehind_iff (hps : ∀ p ∈ ps, IsName p) (hname : IsName name) :
    SameBehind s ps name ↔ ∀ qs, qs ≠ [] → (∀ q ∈ qs, IsName q) → ∀ e,
      Follows s s.g.rootCluster (ps ++ name :: dotDot :: qs) e ↔
        Follows s s.g.rootCluster (ps ++ qs) e := by
  constructor
  · intro h qs hne hqs e
    have hdown : ∀ n ∈ ps ++ name :: dotDot :: qs, IsName n := by
      simp only [List.mem_append, List.mem_cons]
      rintro n (hn | rfl | rfl | hn)
      · exact hps n hn
      · exact hname
      · exact isName_dotDot
      · exact hqs n hn
    have hflat : ∀ n ∈ ps ++ qs, IsName n := by
      intro n hn
      rcases List.mem_append.mp hn with hn | hn
      · exact hps n hn
      · exact hqs n hn
    have hpath := components_pathOf hdown
    have hpath' := components_pathOf hflat
    rw [← gives_iff hpath (by simp), ← gives_iff hpath' (by simp [hne])]
    exact h qs hne hqs _ _ hpath hpath' e
  · intro h qs hne hqs path path' hpath hpath' e
    rw [gives_iff hpath (by simp), gives_iff hpath' (by simp [hne])]
    exact h qs hne hqs e

/-- A directory that the driver reaches where the format says. -/
theorem sameBehind_reached_iff (h : Dotted s) (hfmt : Enters s (target s.g) s.g.rootCluster ps c)
    (hcode : Enters s DirEntry.first s.g.rootCluster ps c) (hname : IsName name)
    (hsub : Subdir s c (name.take 127) d) :
    SameBehind s ps name ↔ c ≠ s.g.rootCluster ∨ ZeroAsRoot s := by
  obtain ⟨u, hu, hudir, hfirst⟩ := h.up ps c _ d hfmt hsub
  have hboth : ∀ qs, qs ≠ [] → ∀ e,
      (Follows s s.g.rootCluster (ps ++ name :: dotDot :: qs) e ↔ Follows s u.first qs e) ∧
      (Follows s s.g.rootCluster (ps ++ qs) e ↔ Follows s c qs e) := fun qs hne e =>
    ⟨(hcode.follows_iff (by simp)).trans (down_up_iff hsub.found hsub.dir hu hudir hne),
      hcode.follows_iff hne⟩
  rw [sameBehind_iff hcode.names hname]
  constructor
  · intro hsame
    by_cases hc : c = s.g.rootCluster
    · refine .inr fun q hq e => ?_
      have hone := hsame [q] (by simp) (by simpa using hq) e
      rwa [(hboth [q] (by simp) e).1, (hboth [q] (by simp) e).2, hfirst, if_pos hc, hc,
        follows_one_iff,
        follows_one_iff] at hone
    · exact .inl hc
  · intro hcond qs hne hqs e
    rw [(hboth qs hne e).1, (hboth qs hne e).2, hfirst]
    rcases hcond with hc | hz
    · rw [if_neg hc]
    · exact follows_up_iff hz hqs

/-- Every directory, if cluster 0 answers as the root. -/
theorem ZeroAsRoot.sameBehind (hz : ZeroAsRoot s) (h : Dotted s)
    (hfmt : Enters s (target s.g) s.g.rootCluster ps c) (hname : IsName name)
    (hsub : Subdir s c (name.take 127) d) : SameBehind s ps name := by
  obtain ⟨u, hu, hudir, hfirst⟩ := h.up ps c _ d hfmt hsub
  rw [sameBehind_iff hfmt.names hname]
  intro qs hne hqs e
  have hdown : ∀ n ∈ name :: dotDot :: qs, IsName n := by
    simp only [List.mem_cons]
    rintro n (rfl | rfl | hn)
    · exact hname
    · exact isName_dotDot
    · exact hqs n hn
  rw [hfmt.target_follows_iff hz (by simp) hdown, hfmt.target_follows_iff hz hne hqs,
    down_up_iff hsub.found hsub.dir hu hudir hne, hfirst, follows_up_iff hz hqs]

/-- No directory can be entered from a root without subdirectories. -/
theorem Dotted.enters_nil (h : Dotted s)
    (hnone : ∀ name d, IsName name → ¬ Subdir s s.g.rootCluster (name.take 127) d)
    {into : DirEntry → Nat} (henters : Enters s into s.g.rootCluster ps c) : c = s.g.rootCluster := by
  cases henters with
  | here => rfl
  | @sub _ _ name _ d hname hd hdir _ =>
    refine absurd ⟨hd, hdir, fun hdot => ?_, fun hdot => ?_⟩ (hnone name d hname)
    · rw [hdot] at hd
      exact (h.root_plain d).1 hd
    · rw [hdot] at hd
      exact (h.root_plain d).2 hd

end

/-- Down and up again, on every volume with its `..` entries: for all directories, and
for one that the driver reaches. -/
theorem parent_iff {s : Fs} (h : Dotted s) :
    ((∀ ps c name d, Enters s (target s.g) s.g.rootCluster ps c → IsName name →
        Subdir s c (name.take 127) d → SameBehind s ps name) ↔
      ZeroAsRoot s ∨ ∀ name d, IsName name → ¬ Subdir s s.g.rootCluster (name.take 127) d) ∧
    ∀ ps c name d, Enters s (target s.g) s.g.rootCluster ps c →
      Enters s DirEntry.first s.g.rootCluster ps c → IsName name → Subdir s c (name.take 127) d →
      (SameBehind s ps name ↔ c ≠ s.g.rootCluster ∨ ZeroAsRoot s) := by
  refine ⟨⟨fun hall => ?_, fun hcond ps c name d hfmt hname hsub => ?_⟩,
    fun ps c name d hfmt hcode hname hsub => sameBehind_reached_iff h hfmt hcode hname hsub⟩
  · by_cases hsub : ∃ name d, IsName name ∧ Subdir s s.g.rootCluster (name.take 127) d
    · obtain ⟨name, d, hname, hsub⟩ := hsub
      have hroot := (sameBehind_reached_iff h .here .here hname hsub).mp
        (hall [] _ name d .here hname hsub)
      exact .inl (hroot.resolve_left (absurd rfl))
    · exact .inr fun name d hname hd => hsub ⟨name, d, hname, hd⟩
  · rcases hcond with hz | hnone
    · exact hz.sameBehind h hfmt hname hsub
    · have hc := h.enters_nil hnone hfmt
      rw [hc] at hsub
      exact absurd hsub (hnone name d hname)

/-! ## A volume with a directory in a directory -/

def entryE : DirEntry := ⟨69 :: List.replicate 10 32, attrDirectory, 5, 0⟩
def entryDotE : DirEntry := ⟨46 :: List.replicate 10 32, attrDirectory, 5, 0⟩
def entryDotDotE : DirEntry := ⟨46 :: 46 :: List.replicate 9 32, attrDirectory, 4, 0⟩

/-- The demo volume with a directory `e` (cluster 5) in `d`. -/
def nestedSector : Nat → List UInt8
  | 1 | 4 => [0x0FFFFFF8, 0x0FFFFFFF, 6, 0x0FFFFFF8, 0x0FFFFFF8, 0x0FFFFFF8,
      0x0FFFFFF8].flatMap (leBytes 4)
  | 2 | 5 => entryBytes entryX
  | 7 => entryBytes entryA ++ entryBytes entryD
  | 9 => entryBytes entryDot ++ entryBytes entryDotDot ++ entryBytes entryE
  | 10 => entryBytes entryDotE ++ entryBytes entryDotDotE
  | _ => []

def nestedFs : Fs := { demoFs with disk := fun i => (nestedSector (i / 512)).getD (i % 512) 0 }

/-- Its directories. -/
def nestedDir : Nat → List DirEntry
  | 2 => [entryA, entryD]
  | 4 => [entryDot, entryDotDot, entryE]
  | 5 => [entryDotE, entryDotDotE]
  | _ => []

/-- Lookups in a directory with a chain. -/
theorem finds_iff_lookup {s : Fs} {c : Nat} {l : List Nat} {name : List UInt8} {e : DirEntry}
    (hg : GeomOk s.g s.capacity) (hl : VChain s.g (volOf s.g s.disk) c l) :
    Finds s c name e ↔ lookup (volOf s.g s.disk) l name = some e := by
  obtain ⟨s', hs', -⟩ := findInDir_spec hg hl (Nat.lt_succ_self _) name
  constructor
  · intro ⟨fuel, hfuel⟩
    have hfound := congrArg (Option.map (·.2)) hs'
    have hagree := ((findInDir_persists noFaults s c name).map (·.2)).agree hfuel hfound
    exact hagree.symm
  · intro h
    refine ⟨l.length + 1, ?_⟩
    rw [hs', h]
    rfl

theorem nested_chains : VChain demoGeom (volOf demoGeom nestedFs.disk) 2 [2, 6] ∧
    VChain demoGeom (volOf demoGeom nestedFs.disk) 4 [4] ∧
    VChain demoGeom (volOf demoGeom nestedFs.disk) 5 [5] := by
  have hfat : (volOf demoGeom nestedFs.disk).fat 2 = 6 ∧ ∀ c ∈ [4, 5, 6],
      (volOf demoGeom nestedFs.disk).fat c = 0x0FFFFFF8 := by decide +kernel
  have hend : ∀ c ∈ [4, 5, 6], isEndCluster ((volOf demoGeom nestedFs.disk).fat c) = true := by
    intro c hc
    rw [hfat.2 c hc]
    exact endMark
  exact ⟨demo_rootChain hfat.1 (hfat.2 6 (by decide)), .last (by decide) (hend 4 (by decide)),
    .last (by decide) (hend 5 (by decide))⟩

theorem nested_finds {c : Nat} {name : List UInt8} {e : DirEntry} (hc : c ∈ [2, 4, 5]) :
    Finds nestedFs c name e ↔ (nestedDir c).find? (fun d => nameMatches d.name name) = some e := by
  have hdirs : dirEntries (volOf demoGeom nestedFs.disk) [2, 6] = nestedDir 2 ∧
      dirEntries (volOf demoGeom nestedFs.disk) [4] = nestedDir 4 ∧
      dirEntries (volOf demoGeom nestedFs.disk) [5] = nestedDir 5 := by decide +kernel
  obtain ⟨h2, h4, h5⟩ := nested_chains
  simp only [List.mem_cons, List.not_mem_nil, or_false] at hc
  rcases hc with rfl | rfl | rfl
  · rw [finds_iff_lookup demo_geom h2, ← hdirs.1]
    rfl
  · rw [finds_iff_lookup demo_geom h4, ← hdirs.2.1]
    rfl
  · rw [finds_iff_lookup demo_geom h5, ← hdirs.2.2]
    rfl

theorem nested_enters {c c' : Nat} {ps : List (List UInt8)}
    (h : Enters nestedFs (target demoGeom) c ps c') (hc : c ∈ [2, 4, 5]) : c' ∈ [2, 4, 5] := by
  have hall : ∀ c ∈ [2, 4, 5], ∀ d ∈ nestedDir c, d.isDir = true → target demoGeom d ∈ [2, 4, 5] := by
    decide
  induction h with
  | here => exact hc
  | sub _ hd hdir _ ih =>
    exact ih (hall _ hc _ (List.mem_of_find?_eq_some ((nested_finds hc).mp hd)) hdir)

theorem nested_dotted : Dotted nestedFs := by
  have hall : ∀ c ∈ [2, 4, 5], ∀ d ∈ nestedDir c, d.isDir = true →
      (fatNameToString d.name).takeWhile (· ≠ 0) ≠ [46] →
      (fatNameToString d.name).takeWhile (· ≠ 0) ≠ dotDot → d.first ∈ [2, 4, 5] ∧
        ∃ u ∈ nestedDir d.first, (nestedDir d.first).find? (fun d => nameMatches d.name dotDot) =
          some u ∧
          u.isDir = true ∧ u.first = if c = 2 then 0 else c := by decide
  constructor
  · intro ps c name d hps hsub
    have hc := nested_enters hps (by decide)
    have hfound := (nested_finds hc).mp hsub.found
    have hmatch := List.find?_some hfound
    have hname : (fatNameToString d.name).takeWhile (· ≠ 0) = name := of_decide_eq_true hmatch
    obtain ⟨hfirst, u, -, hu, hdir, hup⟩ := hall c hc d (List.mem_of_find?_eq_some hfound) hsub.dir
      (by rw [hname]; exact hsub.not_dot) (by rw [hname]; exact hsub.not_dotDot)
    exact ⟨u, (nested_finds hfirst).mpr hu, hdir, hup⟩
  · intro d
    have hnone : ∀ name ∈ [[46], dotDot],
        (nestedDir 2).find? (fun d => nameMatches d.name name) = none := by
      decide
    constructor
    all_goals
      intro h
      rw [show nestedFs.g.rootCluster = 2 from rfl, nested_finds (by decide),
        hnone _ (by decide)] at h
      cases h

/-- `d/e/../` and `d/../`, each in front of anything. -/
theorem parent_iff_nested : SameBehind nestedFs [[100]] [101] ∧ ¬ SameBehind nestedFs [] [100] := by
  have hd : Finds nestedFs 2 [100] entryD := (nested_finds (by decide)).mpr (by decide)
  have he : Finds nestedFs 4 [101] entryE := (nested_finds (by decide)).mpr (by decide)
  have ha : Finds nestedFs 2 [97] entryA := (nested_finds (by decide)).mpr (by decide)
  have hname : ∀ name ∈ [[97], [100], [101]], IsName name := by
    intro name hmem
    simp only [List.mem_cons, List.not_mem_nil, or_false] at hmem
    rcases hmem with rfl | rfl | rfl
    all_goals exact ⟨by decide, by decide⟩
  -- cluster 0 has no `a`
  have hzero : ¬ ZeroAsRoot nestedFs := by
    intro hz
    obtain ⟨fuel, hfuel⟩ := (hz [97] (hname _ (by decide)) entryA).mpr ha
    have hnone : (findInDir noFaults 2 nestedFs 0 [97]).map (·.2) = some none := by decide +kernel
    cases ((findInDir_persists noFaults nestedFs 0 [97]).map (·.2)).agree hnone hfuel
  have hone := (parent_iff nested_dotted).2
  constructor
  · refine (hone [[100]] 4 [101] entryE ?_ ?_ (hname _ (by decide))
      ⟨he, by decide, by decide, by decide⟩).mpr
      (.inl (by decide))
    all_goals exact .sub (hname _ (by decide)) hd (by decide) .here
  · intro hsame
    have hor := (hone [] 2 [100] entryD .here .here (hname _ (by decide))
      ⟨hd, by decide, by decide, by decide⟩).mp hsame
    rcases hor with hne | hz
    · exact hne rfl
    · exact hzero hz

/-- `/a` is found, `/d/../a` is not. -/
theorem parent_lost : Dotted nestedFs ∧ Gives nestedFs [47, 97] entryA ∧
    ∀ e, ¬ Gives nestedFs [47, 100, 47, 46, 46, 47, 97] e := by
  have hrun : (resolvePath noFaults 3 nestedFs [47, 97]).map (·.2) = some (some entryA) ∧
      (resolvePath noFaults 3 nestedFs [47, 100, 47, 46, 46, 47, 97]).map (·.2) = some none := by
    decide +kernel
  refine ⟨nested_dotted, ⟨3, hrun.1⟩, fun e ⟨fuel, hfuel⟩ => ?_⟩
  cases ((resolvePath_persists noFaults nestedFs _).map (·.2)).agree hrun.2 hfuel

end HackersOs.L4.Fat

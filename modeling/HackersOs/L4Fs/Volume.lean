import Mathlib.Data.List.Perm.Subperm
import HackersOs.Core.Chains
import HackersOs.L4Fs.Fat32

/-!
# Well-formed volumes

A volume is a table of FAT entries and, for each cluster, the directory entries
its bytes would hold. `Dir` are the directories reachable from the root, `Obj`
the things that own a cluster chain: the root directory and every live entry
that is not `.` or `..`. `WellFormed`: every object has a chain (an empty file
has none), chains of different objects are disjoint, and `.` and `..` point to
reachable directories (`..` to 0 below the root).

`WellFormed.transfer` is the one argument about updates: if the directories
are left alone and each object's chain becomes a known new one, disjoint again,
the volume stays well-formed. Writing to a cluster no directory uses, taking a
free cluster and appending it to a chain are its cases.
-/
namespace HackersOs.L4.Fat
open HackersOs.Core

structure Vol where
  fat : Nat → Nat
  /-- all entries of a cluster, free ones included -/
  slots : Nat → List DirEntry

def InRange (g : Geom) (c : Nat) : Prop := 2 ≤ c ∧ c < g.totalClusters + 2

instance (g : Geom) (c : Nat) : Decidable (InRange g c) := inferInstanceAs (Decidable (_ ∧ _))

abbrev VChain (g : Geom) (v : Vol) (c : Nat) (l : List Nat) : Prop :=
  Chain v.fat (InRange g) (fun x => isEndCluster x = true) c l

/-- Not deleted, not part of a long name, not the volume label. -/
def DirEntry.live (e : DirEntry) : Bool :=
  e.name.getD 0 0 ≠ 0xE5 && e.attr ≠ attrLfn && e.attr &&& attrVolumeId = 0

/-- `.` or `..` -/
def DirEntry.isDot (e : DirEntry) : Bool :=
  e.isDir && (e.name = 46 :: List.replicate 10 32 || e.name = 46 :: 46 :: List.replicate 9 32)

/-- The live entries in front of the end of a directory. -/
def liveEntries (slots : List DirEntry) : List DirEntry :=
  (slots.takeWhile fun e => e.name.getD 0 0 ≠ 0).filter DirEntry.live

def dirEntries (v : Vol) (l : List Nat) : List DirEntry := liveEntries (l.flatMap v.slots)

inductive Dir (g : Geom) (v : Vol) : Nat → Prop where
  | root : Dir g v g.rootCluster
  | child {c : Nat} {l : List Nat} {e : DirEntry} : Dir g v c → VChain g v c l →
      e ∈ dirEntries v l → e.isDir = true → e.isDot = false → Dir g v e.first

/-- An owner of a cluster chain: the root, or an entry of a directory by its number. -/
inductive Obj where
  | root
  | entry (dir n : Nat)

/-- The first cluster of an object. -/
def ObjAt (g : Geom) (v : Vol) : Obj → Nat → Prop
  | .root, c => c = g.rootCluster
  | .entry dir n, c => Dir g v dir ∧ ∃ l e, VChain g v dir l ∧ (dirEntries v l)[n]? = some e ∧
      e.isDot = false ∧ c = e.first

structure WellFormed (g : Geom) (v : Vol) : Prop where
  root_chain : ∃ l, VChain g v g.rootCluster l
  entry_chain : ∀ dir l e, Dir g v dir → VChain g v dir l → e ∈ dirEntries v l →
    e.isDot = false → e.first = 0 ∧ e.isDir = false ∨ ∃ l', VChain g v e.first l'
  dot_dir : ∀ dir l e, Dir g v dir → VChain g v dir l → e ∈ dirEntries v l →
    e.isDot = true → e.first = 0 ∨ Dir g v e.first
  disjoint : ∀ o o' c c' l l', o ≠ o' → ObjAt g v o c → ObjAt g v o' c' → VChain g v c l →
    VChain g v c' l' → l.Disjoint l'

section
variable {g : Geom} {v v' : Vol} {c d x y : Nat} {l : List Nat} {e : DirEntry}

/-- Cluster numbers are below the end marks. -/
def Numbers (g : Geom) : Prop := g.totalClusters + 2 ≤ 0x0FFFFFF8

instance : Decidable (Numbers g) := inferInstanceAs (Decidable (_ ≤ _))

theorem Numbers.sep (h : Numbers g) (x : Nat) (hx : InRange g x) : ¬ isEndCluster x = true := by
  unfold Numbers at h
  have := hx.2
  simp only [isEndCluster, decide_eq_true_eq]
  omega

theorem not_inRange_zero : ¬ InRange g 0 := fun h => absurd h.1 (by decide)

theorem not_chain_zero : ¬ VChain g v 0 l := fun h => not_inRange_zero h.head_ok

/-- Chains are made of clusters that are not free. -/
theorem chain_not_free (h : VChain g v c l) (hx : x ∈ l) : v.fat x ≠ 0 := by
  intro h0
  rcases h.mem_next hx with hfin | hok
  · rw [h0] at hfin
    cases hfin
  · rw [h0] at hok
    exact not_inRange_zero hok

/-- A chain visits each cluster once. -/
theorem chain_length_le (hg : Numbers g) (h : VChain g v c l) : l.length ≤ g.totalClusters := by
  have hsub : l ⊆ List.range' 2 g.totalClusters := by
    intro x hx
    have hok := h.mem_ok hx
    have h1 := hok.1
    have h2 := hok.2
    rw [List.mem_range'_1]
    omega
  have hlen := (List.Nodup.subperm (Chain.nodup hg.sep h) hsub).length_le
  rwa [List.length_range'] at hlen

theorem WellFormed.dir_chain (h : WellFormed g v) (hd : Dir g v d) : ∃ l, VChain g v d l := by
  cases hd with
  | root => exact h.root_chain
  | child hc hl he hdir hdot =>
    rcases h.entry_chain _ _ _ hc hl he hdot with ⟨-, hfile⟩ | hchain
    · rw [hdir] at hfile
      cases hfile
    · exact hchain

/-- A live entry for a directory leads to one, unless it is a `..` that says 0. -/
theorem WellFormed.subdir (h : WellFormed g v) (hd : Dir g v d) (hl : VChain g v d l)
    (he : e ∈ dirEntries v l) (hdir : e.isDir = true) : e.first = 0 ∨ Dir g v e.first := by
  cases hdot : e.isDot with
  | true => exact h.dot_dir d l e hd hl he hdot
  | false => exact .inr (.child hd hl he hdir hdot)

/-- A file's chain shares no cluster with a directory's. -/
theorem WellFormed.file_not_dir (h : WellFormed g v) (hg : Numbers g) {dir : Nat}
    {ld lf lc : List Nat} (hdir : Dir g v dir) (hld : VChain g v dir ld) (he : e ∈ dirEntries v ld)
    (hfile : e.isDir = false) (hlf : VChain g v e.first lf) (hc : Dir g v c) (hlc : VChain g v c lc) :
    lf.Disjoint lc := by
  have hdot : e.isDot = false := by simp [DirEntry.isDot, hfile]
  obtain ⟨n, hn⟩ := List.mem_iff_getElem?.mp he
  have hobj : ObjAt g v (.entry dir n) e.first := ⟨hdir, ld, e, hld, hn, hdot, rfl⟩
  cases hc with
  | root => exact h.disjoint _ .root _ _ _ _ (by simp) hobj rfl hlf hlc
  | @child dir' ld' e' hdir' hld' he' hisdir hdot' =>
    obtain ⟨n', hn'⟩ := List.mem_iff_getElem?.mp he'
    refine h.disjoint _ (.entry dir' n') _ _ _ _ ?_ hobj ⟨hdir', ld', e', hld', hn', hdot', rfl⟩
      hlf hlc
    rintro ⟨⟩
    -- the same entry would be a file and a directory
    rw [Chain.unique hg.sep hld' hld, hn] at hn'
    cases hn'
    rw [hfile] at hisdir
    cases hisdir

/-! ## Updates -/

/-- The directories, with their entries, are left alone. -/
def KeepsDirs (g : Geom) (v v' : Vol) : Prop :=
  ∀ c l, Dir g v c → VChain g v c l → ∀ x ∈ l, v'.fat x = v.fat x ∧ v'.slots x = v.slots x

theorem KeepsDirs.chain (hk : KeepsDirs g v v') (hd : Dir g v c) (hl : VChain g v c l) :
    VChain g v' c l := hl.congr fun x hx => (hk c l hd hl x hx).1

theorem KeepsDirs.entries (hk : KeepsDirs g v v') (hd : Dir g v c) (hl : VChain g v c l) :
    dirEntries v' l = dirEntries v l := by
  unfold dirEntries
  rw [List.flatMap_congr fun x hx => (hk c l hd hl x hx).2]

theorem KeepsDirs.dir (hk : KeepsDirs g v v') (hd : Dir g v d) : Dir g v' d := by
  induction hd with
  | root => exact .root
  | child hc hl he hdir hdot ih =>
    exact .child ih (hk.chain hc hl) (by rwa [hk.entries hc hl]) hdir hdot

theorem KeepsDirs.dir_iff (hk : KeepsDirs g v v') (h : WellFormed g v) (hg : Numbers g) :
    Dir g v' d ↔ Dir g v d := by
  refine ⟨fun hd => ?_, hk.dir⟩
  induction hd with
  | root => exact .root
  | @child c l e _ hl he hdir hdot ih =>
    obtain ⟨l₀, hl₀⟩ := h.dir_chain ih
    obtain rfl := Chain.unique hg.sep (hk.chain ih hl₀) hl
    exact .child ih hl₀ (by rwa [← hk.entries ih hl₀]) hdir hdot

theorem KeepsDirs.objAt_iff (hk : KeepsDirs g v v') (h : WellFormed g v) (hg : Numbers g) {o : Obj} :
    ObjAt g v' o c ↔ ObjAt g v o c := by
  cases o with
  | root => exact Iff.rfl
  | entry dir n =>
    refine ⟨fun ho => ?_, fun ho => ?_⟩
    · obtain ⟨hd, l, e, hl, hn, hdot, hc⟩ := ho
      have hd₀ := (hk.dir_iff h hg).mp hd
      obtain ⟨l₀, hl₀⟩ := h.dir_chain hd₀
      obtain rfl := Chain.unique hg.sep (hk.chain hd₀ hl₀) hl
      exact ⟨hd₀, l₀, e, hl₀, by rwa [← hk.entries hd₀ hl₀], hdot, hc⟩
    · obtain ⟨hd, l, e, hl, hn, hdot, hc⟩ := ho
      exact ⟨hk.dir hd, l, e, hk.chain hd hl, by rwa [hk.entries hd hl], hdot, hc⟩

/-- An object starts a chain, or it is an empty file. -/
theorem WellFormed.obj_chain (h : WellFormed g v) {o : Obj} (ho : ObjAt g v o c) :
    c = 0 ∨ ∃ l, VChain g v c l := by
  cases o with
  | root =>
    obtain rfl : c = g.rootCluster := ho
    exact .inr h.root_chain
  | entry dir n =>
    obtain ⟨hd, l, e, hl, hn, hdot, rfl⟩ := ho
    rcases h.entry_chain dir l e hd hl (List.mem_of_getElem? hn) hdot with ⟨h0, -⟩ | hchain
    · exact .inl h0
    · exact .inr hchain

/-- If directories are kept and the chain `l` of each object becomes `ext l`, the
volume stays well-formed as long as these are disjoint. -/
theorem WellFormed.transfer (h : WellFormed g v) (hg : Numbers g) (hk : KeepsDirs g v v')
    (ext : List Nat → List Nat)
    (hext : ∀ o c l, ObjAt g v o c → VChain g v c l → VChain g v' c (ext l))
    (hdisj : ∀ o o' c c' l l', o ≠ o' → ObjAt g v o c → ObjAt g v o' c' → VChain g v c l →
      VChain g v c' l' → (ext l).Disjoint (ext l')) : WellFormed g v' := by
  -- the chain of an object in the new volume is the extended old one
  have hnew : ∀ o c m, ObjAt g v o c → VChain g v' c m → ∃ l, VChain g v c l ∧ m = ext l := by
    intro o c m ho hm
    rcases h.obj_chain ho with rfl | ⟨l, hl⟩
    · exact absurd hm not_chain_zero
    · exact ⟨l, hl, Chain.unique hg.sep hm (hext o c l ho hl)⟩
  have hold : ∀ dir l', Dir g v' dir → VChain g v' dir l' →
      Dir g v dir ∧ VChain g v dir l' ∧ dirEntries v' l' = dirEntries v l' := by
    intro dir l' hd hl'
    have hd₀ := (hk.dir_iff h hg).mp hd
    obtain ⟨l₀, hl₀⟩ := h.dir_chain hd₀
    obtain rfl := Chain.unique hg.sep (hk.chain hd₀ hl₀) hl'
    exact ⟨hd₀, hl₀, hk.entries hd₀ hl₀⟩
  refine ⟨?_, ?_, ?_, ?_⟩
  · obtain ⟨l, hl⟩ := h.root_chain
    exact ⟨ext l, hext .root _ l rfl hl⟩
  · intro dir l e hd hl he hdot
    obtain ⟨hd₀, hl₀, hent⟩ := hold dir l hd hl
    rw [hent] at he
    refine (h.entry_chain dir l e hd₀ hl₀ he hdot).imp_right fun ⟨m, hm⟩ => ?_
    obtain ⟨n, hn⟩ := List.mem_iff_getElem?.mp he
    exact ⟨ext m, hext (.entry dir n) _ m ⟨hd₀, l, e, hl₀, hn, hdot, rfl⟩ hm⟩
  · intro dir l e hd hl he hdot
    obtain ⟨hd₀, hl₀, hent⟩ := hold dir l hd hl
    rw [hent] at he
    exact (h.dot_dir dir l e hd₀ hl₀ he hdot).imp_right hk.dir
  · intro o o' c c' l l' hne ho ho' hl hl'
    have ho₀ := (hk.objAt_iff h hg).mp ho
    have ho₀' := (hk.objAt_iff h hg).mp ho'
    obtain ⟨m, hm, rfl⟩ := hnew o c l ho₀ hl
    obtain ⟨m', hm', rfl⟩ := hnew o' c' l' ho₀' hl'
    exact hdisj o o' c c' m m' hne ho₀ ho₀' hm hm'

/-- Nothing changes on the chains of the objects. -/
theorem WellFormed.frame (h : WellFormed g v) (hg : Numbers g) (hk : KeepsDirs g v v')
    (hfat : ∀ o c l, ObjAt g v o c → VChain g v c l → ∀ x ∈ l, v'.fat x = v.fat x) :
    WellFormed g v' :=
  h.transfer hg hk id (fun o c l ho hl => hl.congr (hfat o c l ho hl)) h.disjoint

/-- Cluster `x` belongs to no directory. -/
def NotDir (g : Geom) (v : Vol) (x : Nat) : Prop :=
  ∀ c l, Dir g v c → VChain g v c l → x ∉ l

/-- Cluster `x` belongs to no object. -/
def Unowned (g : Geom) (v : Vol) (x : Nat) : Prop :=
  ∀ o c l, ObjAt g v o c → VChain g v c l → x ∉ l

theorem Unowned.notDir (h : Unowned g v x) : NotDir g v x := by
  intro c l hd hl
  cases hd with
  | root => exact h .root _ l rfl hl
  | @child dir ld e hdir hld he hisdir hdot =>
    obtain ⟨n, hn⟩ := List.mem_iff_getElem?.mp he
    exact h (.entry dir n) _ l ⟨hdir, ld, e, hld, hn, hdot, rfl⟩ hl

/-- A change of one cluster that no directory uses. -/
theorem NotDir.keepsDirs (hx : NotDir g v x) (hfat : ∀ y, InRange g y → y ≠ x → v'.fat y = v.fat y)
    (hslots : ∀ y, InRange g y → y ≠ x → v'.slots y = v.slots y) : KeepsDirs g v v' := by
  intro c l hd hl y hy
  have hne : y ≠ x := by
    rintro rfl
    exact hx c l hd hl hy
  exact ⟨hfat y (hl.mem_ok hy) hne, hslots y (hl.mem_ok hy) hne⟩

theorem KeepsDirs.notDir (hk : KeepsDirs g v v') (h : WellFormed g v) (hg : Numbers g)
    (hx : NotDir g v x) : NotDir g v' x := by
  intro c l hd hl
  have hd₀ := (hk.dir_iff h hg).mp hd
  obtain ⟨l₀, hl₀⟩ := h.dir_chain hd₀
  obtain rfl := Chain.unique hg.sep (hk.chain hd₀ hl₀) hl
  exact hx c l₀ hd₀ hl₀

theorem unowned_of_free (hfree : v.fat x = 0) : Unowned g v x := fun _ _ _ _ hl hx =>
  chain_not_free hl hx hfree

/-- Writing data into a cluster of no directory. -/
theorem WellFormed.write (h : WellFormed g v) (hg : Numbers g) (hx : NotDir g v x)
    (hfat : ∀ y, InRange g y → v'.fat y = v.fat y)
    (hslots : ∀ y, InRange g y → y ≠ x → v'.slots y = v.slots y) : WellFormed g v' := by
  refine h.frame hg (hx.keepsDirs (fun y hy _ => hfat y hy) hslots) ?_
  exact fun _ _ _ _ hl y hy => hfat y (hl.mem_ok hy)

/-- Taking a free cluster. -/
theorem WellFormed.alloc (h : WellFormed g v) (hg : Numbers g) (hfree : v.fat x = 0)
    (hfat : ∀ y, InRange g y → y ≠ x → v'.fat y = v.fat y)
    (hslots : ∀ y, InRange g y → y ≠ x → v'.slots y = v.slots y) :
    WellFormed g v' ∧ Unowned g v' x := by
  have hun : Unowned g v x := unowned_of_free hfree
  have hk : KeepsDirs g v v' := hun.notDir.keepsDirs hfat hslots
  have hkeep : ∀ o c l, ObjAt g v o c → VChain g v c l → ∀ y ∈ l, v'.fat y = v.fat y := by
    intro o c l ho hl y hy
    exact hfat y (hl.mem_ok hy) fun hyx => hun o c l ho hl (hyx ▸ hy)
  refine ⟨h.frame hg hk hkeep, fun o c l ho hl hx => ?_⟩
  have ho₀ := (hk.objAt_iff h hg).mp ho
  rcases h.obj_chain ho₀ with rfl | ⟨l₀, hl₀⟩
  · exact not_chain_zero hl
  · obtain rfl := Chain.unique hg.sep (hl₀.congr (hkeep o c l₀ ho₀ hl₀)) hl
    exact hun o c l₀ ho₀ hl₀ hx

/-- Appending an unowned cluster `y` behind the last cluster `x` of a file. -/
theorem WellFormed.link (h : WellFormed g v) (hg : Numbers g) (hx : NotDir g v x)
    (hxend : isEndCluster (v.fat x) = true) (hy : InRange g y) (hyun : Unowned g v y)
    (hyend : isEndCluster (v.fat y) = true) (hxy : x ≠ y) (hlink : v'.fat x = y)
    (hfat : ∀ z, InRange g z → z ≠ x → v'.fat z = v.fat z)
    (hslots : ∀ z, InRange g z → v'.slots z = v.slots z) : WellFormed g v' := by
  have hk : KeepsDirs g v v' := hx.keepsDirs hfat fun z hz _ => hslots z hz
  refine h.transfer hg hk (fun l => if x ∈ l then l ++ [y] else l) ?_ ?_
  · intro o c l ho hl
    split
    · rename_i hmem
      have hyfin : isEndCluster (v'.fat y) = true := by rwa [hfat y hy hxy.symm]
      exact Chain.extend hg.sep hl hmem hxend hy hyfin hlink fun z hz hzx => hfat z (hl.mem_ok hz) hzx
    · rename_i hmem
      exact hl.congr fun z hz => hfat z (hl.mem_ok hz) fun hzx => hmem (hzx ▸ hz)
  · intro o o' c c' l l' hne ho ho' hl hl'
    have hd := h.disjoint o o' c c' l l' hne ho ho' hl hl'
    have hyl : y ∉ l := hyun o c l ho hl
    have hyl' : y ∉ l' := hyun o' c' l' ho' hl'
    -- at most one of the two contains `x`
    split
    · rename_i hmem
      rw [if_neg fun hmem' => hd hmem hmem', List.disjoint_append_left]
      exact ⟨hd, List.singleton_disjoint.mpr hyl'⟩
    · split
      · rw [List.disjoint_append_right]
        exact ⟨hd, List.disjoint_singleton.mpr hyl⟩
      · exact hd

end

end HackersOs.L4.Fat

import HackersOs.Core.Orbit
import HackersOs.L4Fs.FatReads

/-!
# What `delete_file` frees

The loop of `delete_file` follows the links of the first FAT copy and frees
every entry it passes, in all copies. The FAT may hold anything: a chain that
runs into itself comes to an entry that is free by then, and the loop ends
there. The clusters passed are the lasso of the links from the file's first
cluster (`Orbit.exists_lasso`).

Result: `delete_frees_chain`: the loop ends, what can be reached from the first
cluster is free in every copy, and no other byte of the disk has changed.
-/
namespace HackersOs.L4.Fat
open HackersOs.Core HackersOs.Core.Orbit StateTransition List

/-! ## Links -/

/-- A number that the loop follows. -/
def IsLink (c : Nat) : Prop := 2 ≤ c ∧ c < 0x0FFFFFF8

instance : DecidablePred IsLink := fun c => inferInstanceAs (Decidable (2 ≤ c ∧ c < 0x0FFFFFF8))

/-- The cluster that the FAT links to `c`. -/
def linkOf (v : Vol) (c : Nat) : Option Nat := if IsLink (v.fat c) then some (v.fat c) else none

/-- `x` can be reached from a first cluster. -/
def Chained (v : Vol) (first x : Nat) : Prop := IsLink first ∧ Reaches (linkOf v) first x

section
variable {v : Vol} {c d first x : Nat}

theorem linkOf_eq_some : linkOf v c = some d ↔ IsLink d ∧ v.fat c = d := by
  unfold linkOf
  split
  · rename_i h
    constructor
    · intro e
      cases e
      exact ⟨h, rfl⟩
    · intro ⟨_, e⟩
      rw [e]
  · rename_i h
    constructor
    · intro e
      cases e
    · intro ⟨hd, e⟩
      exact absurd (e ▸ hd) h

theorem Chained.isLink (h : Chained v first x) : IsLink x := by
  obtain ⟨hfirst, hx⟩ := h
  cases hx with
  | refl => exact hfirst
  | tail _ hstep => exact (linkOf_eq_some.mp hstep).1

theorem not_isLink_iff : ¬ IsLink c ↔ isEndCluster c = true ∨ c < 2 := by
  rw [IsLink, isEndCluster, decide_eq_true_iff]
  omega

end

/-! ## Freed entries -/

/-- The entries in `P` are free in all copies, everything else is as it was. -/
structure Freed (g : Geom) (P : Nat → Prop) (m m' : Mem) : Prop where
  free : ∀ x f, P x → f < g.numFats → read32 m' (entryAddr g f x) % 2 ^ 28 = 0
  frame : ∀ i, (∀ x f, P x → f < g.numFats → i < entryAddr g f x ∨ entryAddr g f x + 4 ≤ i) →
    m' i = m i

section
variable {g : Geom} {P Q : Nat → Prop} {m m' m'' : Mem} {c : Nat}

theorem Freed.none (hP : ∀ x, ¬ P x) : Freed g P m m :=
  ⟨fun x _ hx => absurd hx (hP x), fun _ _ => rfl⟩

theorem Freed.congr (h : Freed g P m m') (hPQ : ∀ x, P x ↔ Q x) : Freed g Q m m' :=
  ⟨fun x f hx hf => h.free x f ((hPQ x).mpr hx) hf,
    fun i hi => h.frame i fun x f hx hf => hi x f ((hPQ x).mp hx) hf⟩

/-- An entry outside `P` keeps its value, also its upper bits. -/
theorem Freed.other (h : Freed g P m m') (hP : ∀ x, P x → InFat g x) {y f : Nat} (hy : ¬ P y)
    (hfat : 4 * y + 4 ≤ 512 * g.fatSize) :
    read32 m' (entryAddr g f y) = read32 m (entryAddr g f y) := by
  refine readLE_congr fun i h1 h2 => h.frame i fun x f' hx _ => ?_
  have hne : x ≠ y := fun e => hy (e ▸ hx)
  have := (hP x hx).apart f' f hfat (.inr hne)
  omega

theorem Freed.trans (h : Freed g P m m') (h' : Freed g Q m' m'') (hP : ∀ x, P x → InFat g x)
    (hQ : ∀ x, Q x → InFat g x) : Freed g (fun x => P x ∨ Q x) m m'' := by
  constructor
  · intro x f hx hf
    by_cases hxQ : Q x
    · exact h'.free x f hxQ hf
    · have hxP := hx.resolve_right hxQ
      rw [h'.other hQ hxQ (hP x hxP).entry]
      exact h.free x f hxP hf
  · intro i hi
    rw [h'.frame i fun x f hx hf => hi x f (.inr hx) hf,
      h.frame i fun x f hx hf => hi x f (.inl hx) hf]

/-- `set_fat_entry(c, 0)` on the disk. -/
theorem freed_setCopies (hc : InFat g c) : Freed g (· = c) m (setCopies g c 0 g.numFats 0 m) := by
  constructor
  · intro x f hx hf
    subst hx
    have hread : read32 (setCopies g x 0 g.numFats 0 m) (entryAddr g f x) =
        merge28 (read32 m (entryAddr g f x)) 0 % 256 ^ 4 :=
      readLE_of_bytes fun j hj => setCopies_byte hc hj (Nat.zero_le f) (by omega)
    have hlt : merge28 (read32 m (entryAddr g f x)) 0 < 256 ^ 4 := merge28_lt _ _
    rw [hread, Nat.mod_eq_of_lt hlt, merge28_mod, Nat.zero_mod]
  · intro i hi
    exact setCopies_outside fun k _ hk => hi c k rfl (by omega)

end

/-! ## The loop -/

section
variable {s : Fs} {c : Nat}

/-- One round on a number that has an entry. -/
theorem deleteLoop_round (hroom : FatRoom s.g s.capacity) (hc : InFat s.g c) (hlink : IsLink c) :
    ∃ s', Mounted s s' ∧ Freed s.g (· = c) s.disk s'.disk ∧ ∀ fuel,
      deleteLoop noFaults (fuel + 1) c s =
        deleteLoop noFaults fuel ((volOf s.g s.disk).fat c) s' := by
  obtain ⟨hval, hreads⟩ := hc.nextCluster hroom
  have hguard : ¬ (isEndCluster c = true ∨ c < 2) := fun h => not_isLink_iff.mpr h hlink
  generalize hs₁ : nextCluster noFaults s c = r at hval hreads
  obtain ⟨s₁, n⟩ := r
  have hg := hreads.mounted.g
  obtain ⟨s', hs', hm', hdisk⟩ := @setFatLoop_spec s₁ c 0 s₁.g.numFats 0
    (by rw [hg, hreads.mounted.capacity]; exact hroom) (by rw [hg]; exact hc) (by omega)
  refine ⟨s', hreads.mounted.trans hm', ?_, fun fuel => ?_⟩
  · rw [hdisk, hg, hreads.disk]
    exact freed_setCopies hc
  · rw [deleteLoop, if_neg hguard, hs₁]
    simp only [setFatEntry, hs', ← hval]

/-- The loop along distinct clusters: what it frees, and where it goes on. -/
theorem deleteLoop_along {v : Vol} {l : List Nat} (hroom : FatRoom s.g s.capacity)
    (hchain : (c :: l).IsChain fun x y => linkOf v x = some y) (hnd : (c :: l).Nodup)
    (hfat : ∀ x ∈ c :: l, InFat s.g x) (hlink : ∀ x ∈ c :: l, IsLink x)
    (hv : ∀ x ∈ c :: l, (volOf s.g s.disk).fat x = v.fat x) :
    ∃ s' z, z ∈ (c :: l).getLast? ∧ Mounted s s' ∧ Freed s.g (· ∈ c :: l) s.disk s'.disk ∧
      ∀ fuel, deleteLoop noFaults (fuel + (c :: l).length) c s =
        deleteLoop noFaults fuel (v.fat z) s' := by
  induction l generalizing c s with
  | nil =>
    obtain ⟨s', hm, hfreed, hrun⟩ := deleteLoop_round hroom (hfat c mem_cons_self)
      (hlink c mem_cons_self)
    refine ⟨s', c, rfl, hm, hfreed.congr fun x => by simp, fun fuel => ?_⟩
    rw [← hv c mem_cons_self]
    exact hrun fuel
  | cons d l ih =>
    obtain ⟨s₁, hm₁, hfreed₁, hrun₁⟩ := deleteLoop_round hroom (hfat c mem_cons_self)
      (hlink c mem_cons_self)
    obtain ⟨hcd, hrest⟩ := isChain_cons_cons.mp hchain
    obtain ⟨hcnot, hnd'⟩ := nodup_cons.mp hnd
    have hone : ∀ x, x = c → InFat s.g x := fun x e => e ▸ hfat c mem_cons_self
    -- the clusters ahead are not freed yet
    have hv₁ : ∀ x ∈ d :: l, (volOf s₁.g s₁.disk).fat x = v.fat x := by
      intro x hx
      have hne : x ≠ c := fun e => hcnot (e ▸ hx)
      rw [← hv x (mem_cons_of_mem c hx), hm₁.g]
      exact congrArg (· % 2 ^ 28) (hfreed₁.other hone hne (hfat x (mem_cons_of_mem c hx)).entry)
    obtain ⟨s', z, hz, hm, hfreed, hrun⟩ :=
      @ih s₁ d (by rw [hm₁.g, hm₁.capacity]; exact hroom) hrest hnd'
      (fun x hx => by rw [hm₁.g]; exact hfat x (mem_cons_of_mem c hx))
      (fun x hx => hlink x (mem_cons_of_mem c hx)) hv₁
    rw [hm₁.g] at hfreed
    refine ⟨s', z, ?_, hm₁.trans hm, ?_, fun fuel => ?_⟩
    · rwa [List.getLast?_cons_cons]
    · refine (hfreed₁.trans hfreed hone fun x hx => hfat x (mem_cons_of_mem c hx)).congr fun x => ?_
      rw [mem_cons (a := x) (b := c)]
    · rw [length_cons, ← Nat.add_assoc, hrun₁, hv c mem_cons_self, (linkOf_eq_some.mp hcd).2]
      exact hrun fuel

/-- The loop from a file's first cluster. -/
theorem deleteLoop_spec {first : Nat} (hroom : FatRoom s.g s.capacity)
    (hin : ∀ x, Chained (volOf s.g s.disk) first x → 4 * x + 4 ≤ 512 * s.g.fatSize) :
    ∃ fuel s', deleteLoop noFaults fuel first s = some s' ∧ Mounted s s' ∧
      Freed s.g (Chained (volOf s.g s.disk) first) s.disk s'.disk := by
  by_cases hfirst : IsLink first
  · have hinFat : ∀ x, Chained (volOf s.g s.disk) first x → InFat s.g x := fun x hx =>
      ⟨hin x hx, Nat.lt_of_lt_of_le hx.isLink.2 (by decide)⟩
    have hfinite : ∀ x, Reaches (linkOf (volOf s.g s.disk)) first x → x ∈ Finset.range 0x0FFFFFF8 :=
      fun x hx => Finset.mem_range.mpr (Chained.isLink ⟨hfirst, hx⟩).2
    obtain ⟨l, hl⟩ := exists_lasso _ hfinite
    obtain ⟨tl, rfl⟩ := chain_eq_cons hl.head
    have hmem : ∀ x, x ∈ first :: tl ↔ Chained (volOf s.g s.disk) first x := fun x =>
      hl.mem_iff.trans ⟨fun h => ⟨hfirst, h⟩, fun h => h.2⟩
    obtain ⟨s₁, z, hz, hm₁, hfreed, hrun⟩ := deleteLoop_along hroom hl.chain hl.nodup
      (fun x hx => hinFat x ((hmem x).mp hx)) (fun x hx => ((hmem x).mp hx).isLink) fun x _ => rfl
    have hchained := hfreed.congr hmem
    by_cases hnext : IsLink ((volOf s.g s.disk).fat z)
    · -- the chain comes back to a cluster that is free by now
      have hback := (hmem _).mp (hl.closed z hz _ (linkOf_eq_some.mpr ⟨hnext, rfl⟩))
      generalize (volOf s.g s.disk).fat z = y at hnext hback hrun
      have hroom₁ : FatRoom s₁.g s₁.capacity := by rwa [hm₁.g, hm₁.capacity]
      obtain ⟨s₂, hm₂, hfreed₂, hrun₂⟩ :=
        deleteLoop_round hroom₁ (by rw [hm₁.g]; exact hinFat y hback) hnext
      have hzero : (volOf s₁.g s₁.disk).fat y = 0 := by
        rw [hm₁.g]
        exact hchained.free y 0 hback hroom.fats_pos
      rw [hm₁.g] at hfreed₂
      refine ⟨1 + 1 + (first :: tl).length, s₂, ?_, hm₁.trans hm₂, ?_⟩
      · rw [hrun, hrun₂, hzero]
        rfl
      refine (hchained.trans hfreed₂ hinFat fun x e => e ▸ hinFat y hback).congr fun x => ?_
      constructor
      · rintro (hx | rfl)
        · exact hx
        · exact hback
      · exact .inl
    · refine ⟨1 + (first :: tl).length, s₁, ?_, hm₁, hchained⟩
      rw [hrun, deleteLoop, if_pos (not_isLink_iff.mp hnext)]
  · refine ⟨1, s, ?_, .refl s, .none fun x hx => hfirst hx.1⟩
    rw [deleteLoop, if_pos (not_isLink_iff.mp hfirst)]

end

/-! ## The call -/

/-- The bytes in front of the FAT and behind it are in no entry. -/
theorem Freed.outside {g : Geom} {P : Nat → Prop} {m m' : Mem} (h : Freed g P m m')
    (hP : ∀ x, P x → 4 * x + 4 ≤ 512 * g.fatSize) {i : Nat}
    (hi : i < 512 * g.fatStart ∨ 512 * (g.fatStart + g.numFats * g.fatSize) ≤ i) : m' i = m i := by
  refine h.frame i fun x f hx hf => ?_
  have h1 := hP x hx
  have h2 := copy_end_le (g := g) hf
  unfold entryAddr
  omega

/-- `delete_file` on any FAT whose links stay inside it: the call returns, and frees
what can be reached from the file's first cluster, in every copy and nothing else. -/
theorem delete_frees_chain {s s₁ : Fs} {path : List UInt8} {e : DirEntry} {fuel : Nat}
    (hm : s.mounted = true) (hroom : FatRoom s.g s.capacity)
    (hres : resolvePath noFaults fuel s path = some (s₁, some e)) (hfile : e.isDir = false)
    (hin : ∀ x, Chained (volOf s.g s.disk) e.first x → 4 * x + 4 ≤ 512 * s.g.fatSize) :
    ∃ fuel' s', deleteFile noFaults fuel' s path = some (s', true) ∧
      (∀ x f, Chained (volOf s.g s.disk) e.first x → f < s.g.numFats →
        read32 s'.disk (entryAddr s.g f x) % 2 ^ 28 = 0) ∧
      (∀ y f, ¬ Chained (volOf s.g s.disk) e.first y → f < s.g.numFats →
        4 * y + 4 ≤ 512 * s.g.fatSize →
        read32 s'.disk (entryAddr s.g f y) = read32 s.disk (entryAddr s.g f y)) ∧
      ∀ i, i < 512 * s.g.fatStart ∨ 512 * (s.g.fatStart + s.g.numFats * s.g.fatSize) ≤ i →
        s'.disk i = s.disk i := by
  have hreads := resolvePath_reads noFaults hres
  have hg := hreads.mounted.g
  obtain ⟨fuel₁, s', hrun, -, hfreed⟩ := @deleteLoop_spec s₁ e.first
    (by rw [hg, hreads.mounted.capacity]; exact hroom) (by rw [hg, hreads.disk]; exact hin)
  rw [hg, hreads.disk] at hfreed
  have hinFat : ∀ x, Chained (volOf s.g s.disk) e.first x → InFat s.g x := fun x hx =>
    ⟨hin x hx, Nat.lt_of_lt_of_le hx.isLink.2 (by decide)⟩
  refine ⟨max fuel fuel₁, s', ?_, hfreed.free, fun y f hy _ hfat => hfreed.other hinFat hy hfat,
    fun i hi => hfreed.outside hin hi⟩
  have hres' := (resolvePath_persists noFaults s path).le (Nat.le_max_left fuel fuel₁) hres
  have hrun' := (deleteLoop_persists noFaults e.first s₁).le (Nat.le_max_right fuel fuel₁) hrun
  rw [deleteFile, if_neg (by rw [hm]; decide), hres', Option.bind_some]
  simp only [hfile, Bool.false_eq_true, if_false, hrun', Option.map_some]

/-- The demo volume with the clusters of `/a` in a ring, 3 and 5, which only the first
copy of the FAT knows of. -/
def ringFs : Fs :=
  { demoFs with disk := write32 (write32 demoDisk
    (entryAddr demoGeom 0 3) 5) (entryAddr demoGeom 0 5) 3 }

theorem ring_chained {x : Nat} (h : Chained (volOf ringFs.g ringFs.disk) 3 x) : x = 3 ∨ x = 5 := by
  have h3 : linkOf (volOf ringFs.g ringFs.disk) 3 = some 5 := by decide +kernel
  have h5 : linkOf (volOf ringFs.g ringFs.disk) 5 = some 3 := by decide +kernel
  have hreach := h.2
  induction hreach with
  | refl => exact .inl rfl
  | tail _ hstep ih =>
    rcases ih ⟨h.1, ‹_›⟩ with rfl | rfl
    · rw [h3] at hstep
      exact .inr (Option.some.inj hstep).symm
    · rw [h5] at hstep
      exact .inl (Option.some.inj hstep).symm

theorem delete_frees_chain_ring : ∃ fuel' s',
    deleteFile noFaults fuel' ringFs [47, 97] = some (s', true) ∧
    read32 s'.disk (entryAddr demoGeom 1 5) % 2 ^ 28 = 0 ∧
    read32 s'.disk (entryAddr demoGeom 1 4) = read32 ringFs.disk (entryAddr demoGeom 1 4) := by
  have hres : (resolvePath noFaults 2 ringFs [47, 97]).map (·.2) = some (some entryA) := by
    decide +kernel
  obtain ⟨⟨s₁, r⟩, hres, hr⟩ := Option.map_eq_some_iff.mp hres
  obtain rfl : r = some entryA := hr
  have hroom : FatRoom ringFs.g ringFs.capacity := ⟨by decide, by decide, by decide, by decide⟩
  have hlink : IsLink 3 := by decide
  have h5 : Chained (volOf ringFs.g ringFs.disk) 3 5 :=
    ⟨hlink, .single (show linkOf (volOf ringFs.g ringFs.disk) 3 = some 5 by decide +kernel)⟩
  have h4 : ¬ Chained (volOf ringFs.g ringFs.disk) 3 4 := fun h => by
    have := ring_chained h
    omega
  obtain ⟨fuel', s', hdel, hfree, hother, -⟩ := delete_frees_chain rfl hroom hres rfl fun x hx => by
    rcases ring_chained hx with rfl | rfl
    all_goals decide
  exact ⟨fuel', s', hdel, hfree 5 1 h5 (by decide), hother 4 1 h4 (by decide) (by decide)⟩

end HackersOs.L4.Fat

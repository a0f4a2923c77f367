import Mathlib.Data.List.Find
import HackersOs.L4Fs.FatSectors

/-!
# Directories and paths

`find_in_dir`, `resolve_path` and the slot search of `create_file` only read.
On the volume, a directory is the list of its live entries and a path is
followed from chain to chain (`Names`, `Resolves`).

* `walkDir_spec`: the walk over a chain visits its sectors in order and ends.
* `findInDir_spec`: `find_in_dir` is the first live entry with the name.
* `resolvePath_spec`: on a well-formed volume `resolve_path` returns, and what
  it finds is what the path names, as long as the path does not go on behind
  a `..` that stands for the root by a 0 (`ThroughZero`): `find_in_dir` does
  not know that 0 means the root and reads the sectors in front of cluster 2.
* `resolvePath_names`: what a path names is found.
-/
namespace HackersOs.L4.Fat
open HackersOs.Core List

variable {comps : List (List UInt8)} {fuel : Nat} {path : List UInt8} {s : Fs}

def clusterSectors (g : Geom) (c : Nat) : List Nat :=
  List.range' (g.dataStart + (c - 2) * g.sectorsPerCluster) g.sectorsPerCluster

/-! ## Walks -/

section
variable {α : Type} {visit : Mem → Option α}

/-- The first sector with a result. -/
def firstHit (visit : Mem → Option α) (m : Mem) (l : List Nat) : Option (Nat × α) :=
  l.findSome? fun k => (visit (sectorOf m k)).map fun a => (k, a)

variable (hv : ∀ b src, visit (blit b 0 512 src) = visit src)
include hv

theorem walkCluster_spec (n sector : Nat) (hcap : sector + n ≤ s.capacity)
    (hlt : sector + n < 2 ^ 32) : ∃ s', walkCluster noFaults visit n sector s =
      (s', (firstHit visit s.disk (List.range' sector n)).map some) ∧
      Mounted s s' ∧ s'.disk = s.disk := by
  induction n generalizing s sector with
  | zero => exact ⟨s, rfl, .refl s, rfl⟩
  | succ n ih =>
    rw [walkCluster, readSector_ok (by omega), List.range'_succ]
    simp only [if_true, hv, firstHit, List.findSome?_cons]
    cases hvis : visit (sectorOf s.disk sector) with
    | some a => exact ⟨_, rfl, ⟨rfl, rfl, rfl⟩, rfl⟩
    | none =>
      rw [u32_of_lt (by omega)]
      have hnext := @ih { s with
        ops := s.ops + 1, buf := blit s.buf 0 512 (sectorOf s.disk sector) } (sector + 1)
      obtain ⟨s', hs', hm, hd⟩ := hnext (by simp only; omega) (by omega)
      exact ⟨s', hs', ⟨hm.g, hm.mounted, hm.capacity⟩, hd⟩

/-- One cluster of the walk. -/
theorem walkDir_succ {c : Nat} (h : GeomOk s.g s.capacity) (hc : InRange s.g c) (fuel : Nat) :
    ∃ s₁ s₂, Mounted s s₁ ∧ s₁.disk = s.disk ∧ Mounted s s₂ ∧ s₂.disk = s.disk ∧
      walkDir noFaults visit (fuel + 1) c s =
        match firstHit visit s.disk (clusterSectors s.g c) with
        | some r => some (s₁, some r)
        | none => walkDir noFaults visit fuel ((volOf s.g s.disk).fat c) s₂ := by
  have h1 := hc.cluster_le
  have h2 := h.data_room
  have h3 := h.data_lt
  obtain ⟨s₁, hs₁, hm₁, hd₁⟩ := walkCluster_spec hv (s := s) s.g.sectorsPerCluster
    (s.g.dataStart + (c - 2) * s.g.sectorsPerCluster) (by omega) (by omega)
  obtain ⟨hnext, hm₂, hd₂⟩ := nextCluster_spec (s := s₁) (c := c)
    (by rwa [hm₁.g, hm₁.capacity]) (by rwa [hm₁.g])
  rw [hm₁.g, hd₁] at hnext
  refine ⟨s₁, (nextCluster noFaults s₁ c).1, hm₁, hd₁, hm₁.trans hm₂, hd₂.trans hd₁, ?_⟩
  rw [walkDir, if_neg (h.numbers.sep c hc), clusterToSector_eq hc h, hs₁, clusterSectors]
  cases hhit : firstHit visit s.disk (List.range' _ _) with
  | some r => rfl
  | none => simp only [Option.map_none, hnext]

/-- The walk over a chain. -/
theorem walkDir_spec {g : Geom} {m : Mem} {c : Nat} {l : List Nat} (h : VChain g (volOf g m) c l)
    {s : Fs} {fuel : Nat} (hg : s.g = g) (hd : s.disk = m) (hok : GeomOk g s.capacity)
    (hfuel : l.length < fuel) : ∃ s', walkDir noFaults visit fuel c s =
      some (s', firstHit visit m (l.flatMap (clusterSectors g))) ∧ Mounted s s' ∧ s'.disk = m := by
  induction h generalizing s fuel with
  | @last c hc hfin =>
    obtain ⟨fuel, rfl⟩ : ∃ k, fuel = k + 2 := ⟨fuel - 2, by simp at hfuel; omega⟩
    subst hg hd
    obtain ⟨s₁, s₂, hm₁, hd₁, hm₂, hd₂, hstep⟩ := walkDir_succ hv hok hc (fuel + 1)
    rw [hstep, flatMap_singleton]
    cases hhit : firstHit visit s.disk (clusterSectors s.g c) with
    | some r => exact ⟨s₁, rfl, hm₁, hd₁⟩
    | none => exact ⟨s₂, by simp only [walkDir, hfin, if_true], hm₂, hd₂⟩
  | @link c l hc htail ih =>
    obtain ⟨fuel, rfl⟩ : ∃ k, fuel = k + 1 := ⟨fuel - 1, by omega⟩
    subst hg hd
    obtain ⟨s₁, s₂, hm₁, hd₁, hm₂, hd₂, hstep⟩ := walkDir_succ hv hok hc fuel
    have happ : firstHit visit s.disk (clusterSectors s.g c ++ l.flatMap (clusterSectors s.g)) =
        (firstHit visit s.disk (clusterSectors s.g c)).or
          (firstHit visit s.disk (l.flatMap (clusterSectors s.g))) := List.findSome?_append
    rw [hstep, flatMap_cons, happ]
    cases hhit : firstHit visit s.disk (clusterSectors s.g c) with
    | some r => exact ⟨s₁, rfl, hm₁, hd₁⟩
    | none =>
      obtain ⟨s', hs', hm, hd⟩ := ih hm₂.g hd₂ (by rwa [hm₂.capacity])
        (Nat.lt_of_succ_lt_succ hfuel)
      exact ⟨s', hs', hm₂.trans hm, hd⟩

end

/-! ## Entries -/

/-- The search of `find_in_dir` over entries: `some none` at the end of the directory. -/
def scan (name : List UInt8) : List DirEntry → Option (Option DirEntry)
  | [] => none
  | d :: ds =>
    if d.name.getD 0 0 = 0x00 then some none
    else if d.live && nameMatches d.name name then some (some d)
    else scan name ds

theorem DirEntry.live_eq_false {d : DirEntry} : d.live = false ↔
    d.name.getD 0 0 = 0xE5 ∨ d.attr = attrLfn ∨ d.attr &&& attrVolumeId ≠ 0 := by
  simp only [live, Bool.and_eq_false_iff, decide_eq_false_iff_not, ne_eq, not_not, or_assoc]

theorem findEntry_eq (name : List UInt8) (buf : Mem) (n e : Nat) :
    findEntry name buf n e = scan name ((List.range' e n).map (entryAt buf)) := by
  induction n generalizing e with
  | zero => rfl
  | succ n ih =>
    rw [findEntry, List.range'_succ, map_cons, scan, ← ih]
    simp only [← DirEntry.live_eq_false]
    cases (entryAt buf e).live <;> simp

theorem scan_append (name : List UInt8) (l l' : List DirEntry) :
    scan name (l ++ l') = (scan name l).or (scan name l') := by
  induction l with
  | nil => rfl
  | cons d ds ih =>
    simp only [cons_append, scan, ih]
    split
    · rfl
    · split <;> rfl

theorem scan_flatMap {β : Type} (name : List UInt8) (f : β → List DirEntry) (l : List β) :
    scan name (l.flatMap f) = l.findSome? fun k => scan name (f k) := by
  induction l with
  | nil => rfl
  | cons k l ih =>
    rw [flatMap_cons, scan_append, List.findSome?_cons, ih]
    cases scan name (f k) <;> rfl

/-- The search finds the first live entry with the name. -/
theorem scan_join (name : List UInt8) (l : List DirEntry) :
    (scan name l).join = (liveEntries l).find? fun d => nameMatches d.name name := by
  induction l with
  | nil => rfl
  | cons d ds ih =>
    unfold liveEntries at ih ⊢
    rw [scan, takeWhile_cons]
    by_cases hend : d.name.getD 0 0 = 0
    · simp only [hend, if_true, ne_eq, not_true_eq_false, decide_false]
      rfl
    simp only [hend, if_false, ne_eq, not_false_eq_true, decide_true, if_true, filter_cons]
    cases hl : d.live with
    | false => simpa using ih
    | true =>
      cases hn : nameMatches d.name name with
      | true => simp [hn]
      | false => simpa [hn] using ih

theorem entryAt_shift (m : Mem) (a n e : Nat) :
    entryAt (fun i => m (a + i)) (16 * n + e) = entryAt (fun i => m (a + 512 * n + i)) e := by
  have h : ∀ j, a + (32 * (16 * n + e) + j) = a + 512 * n + (32 * e + j) := by
    intro j
    omega
  simp only [entryAt, read32, readLE_shift, h]

/-- The entries of a cluster, sector by sector. -/
theorem slots_eq_sectors (g : Geom) (m : Mem) (c : Nat) : (volOf g m).slots c =
    (clusterSectors g c).flatMap fun k => (List.range 16).map (entryAt (sectorOf m k)) := by
  have h : ∀ n b, (List.range (16 * n)).map (entryAt fun i => m (512 * b + i)) =
      (List.range' b n).flatMap fun k => (List.range 16).map (entryAt (sectorOf m k)) := by
    intro n b
    induction n with
    | zero => rfl
    | succ n ih =>
      rw [Nat.mul_succ, range_add, map_append, ih, List.range'_concat, flatMap_append,
        flatMap_singleton, map_map]
      congr 1
      refine map_congr_left fun e _ => ?_
      rw [Function.comp, entryAt_shift, ← Nat.mul_add, Nat.one_mul]
      rfl
  exact h _ _

theorem entryAt_blit (b src : Mem) {e : Nat} (he : e < 16) :
    entryAt (blit b 0 512 src) e = entryAt src e :=
  entryAt_congr fun i _ _ => if_pos (by omega)

theorem findEntry_blit (name : List UInt8) (b src : Mem) :
    findEntry name (blit b 0 512 src) 16 0 = findEntry name src 16 0 := by
  rw [findEntry_eq, findEntry_eq, ← range_eq_range',
    map_congr_left fun e he => entryAt_blit b src (mem_range.mp he)]

/-- A hit's result, without its sector. -/
theorem firstHit_bind {α : Type} (visit : Mem → Option (Option α)) (m : Mem) (l : List Nat) :
    (firstHit visit m l).bind (·.2) = (l.findSome? fun k => visit (sectorOf m k)).join := by
  unfold firstHit
  induction l with
  | nil => rfl
  | cons k l ih =>
    rw [List.findSome?_cons, List.findSome?_cons]
    cases visit (sectorOf m k) with
    | none => exact ih
    | some a => rfl

/-- The first live entry with a name; `resolve_path` cuts names to 127 characters. -/
def lookup (v : Vol) (l : List Nat) (name : List UInt8) : Option DirEntry :=
  (dirEntries v l).find? fun d => nameMatches d.name name

theorem lookup_eq_firstHit (g : Geom) (m : Mem) (l : List Nat) (name : List UInt8) :
    lookup (volOf g m) l name =
      (firstHit (fun buf => findEntry name buf 16 0) m (l.flatMap (clusterSectors g))).bind
        (·.2) := by
  have hslots : (volOf g m).slots = fun c => (clusterSectors g c).flatMap fun k =>
      (List.range 16).map (entryAt (sectorOf m k)) := funext (slots_eq_sectors g m)
  unfold lookup dirEntries
  rw [firstHit_bind, ← scan_join, hslots, ← flatMap_assoc, scan_flatMap]
  simp only [findEntry_eq, range_eq_range']

theorem findInDir_spec {c : Nat} {l : List Nat} (h : GeomOk s.g s.capacity)
    (hl : VChain s.g (volOf s.g s.disk) c l) (hfuel : l.length < fuel) (name : List UInt8) :
    ∃ s', findInDir noFaults fuel s c name = some (s', lookup (volOf s.g s.disk) l name) ∧
      Mounted s s' ∧ s'.disk = s.disk := by
  have hwalk := @walkDir_spec _ (fun buf => findEntry name buf 16 0) (findEntry_blit name)
  obtain ⟨s', hs', hm, hd⟩ := hwalk hl rfl rfl h hfuel
  exact ⟨s', by rw [findInDir, hs', Option.map_some, lookup_eq_firstHit], hm, hd⟩

/-! ## Free slots -/

/-- A slot that `create_file` may take. -/
def DirEntry.isFree (d : DirEntry) : Prop := d.name.getD 0 0 = 0x00 ∨ d.name.getD 0 0 = 0xE5

theorem freeSlot_blit (b src : Mem) : freeSlot (blit b 0 512 src) = freeSlot src := by
  refine List.find?_congr fun e he => ?_
  have := mem_range.mp he
  rw [blit, if_pos (by omega), Nat.sub_zero]

/-- The search finds no slot if and only if the directory has no free one. -/
theorem freeSlot_none_iff {g : Geom} {m : Mem} {l : List Nat} :
    firstHit freeSlot m (l.flatMap (clusterSectors g)) = none ↔
      ∀ c ∈ l, ∀ d ∈ (volOf g m).slots c, ¬ d.isFree := by
  have hslot : ∀ k, freeSlot (sectorOf m k) = none ↔
      ∀ d ∈ (List.range 16).map (entryAt (sectorOf m k)), ¬ d.isFree := by
    intro k
    rw [freeSlot, List.find?_eq_none, forall_mem_map]
    exact forall₂_congr fun e _ => not_congr decide_eq_true_iff
  simp only [firstHit, List.findSome?_eq_none_iff, Option.map_eq_none_iff, forall_mem_flatMap,
    slots_eq_sectors, hslot]

/-! ## Paths -/

/-- The entry that components name, from the directory at `c` on. -/
inductive Names (g : Geom) (v : Vol) : Nat → List (List UInt8) → DirEntry → Prop where
  | last {c : Nat} {l : List Nat} {name : List UInt8} {e : DirEntry} : VChain g v c l →
      lookup v l (name.take 127) = some e → Names g v c [name] e
  | via {c : Nat} {l : List Nat} {name : List UInt8} {rest : List (List UInt8)} {d e : DirEntry} :
      VChain g v c l → lookup v l (name.take 127) = some d → d.isDir = true →
      Names g v d.first rest e → Names g v c (name :: rest) e

/-- The entry a path names. -/
def Resolves (g : Geom) (v : Vol) (path : List UInt8) (e : DirEntry) : Prop :=
  (dropSlash path = [] ∧ e = rootEntry g) ∨
    Names g v g.rootCluster (components [] (dropSlash path)) e

/-- The path goes on behind a directory entry that says cluster 0. -/
def ThroughZero (g : Geom) (v : Vol) (path : List UInt8) : Prop :=
  ∃ pre rest d, components [] (dropSlash path) = pre ++ rest ∧ rest ≠ [] ∧
    Names g v g.rootCluster pre d ∧ d.isDir = true ∧ d.first = 0

section
variable {g : Geom} {v : Vol} {c : Nat} {l : List Nat} {e : DirEntry}

theorem mem_of_lookup {name : List UInt8} (h : lookup v l name = some e) : e ∈ dirEntries v l :=
  mem_of_find?_eq_some h

theorem not_names_zero : ¬ Names g v 0 comps e := by
  intro h
  cases h with
  | last hl => exact not_chain_zero hl
  | via hl => exact not_chain_zero hl

/-- What is named is an entry of a reachable directory. -/
theorem Names.mem_dir (hn : Names g v c comps e) (h : WellFormed g v) (hd : Dir g v c) :
    ∃ dir l, Dir g v dir ∧ VChain g v dir l ∧ e ∈ dirEntries v l := by
  induction hn with
  | @last c l name e hl hlook => exact ⟨c, l, hd, hl, mem_of_lookup hlook⟩
  | via hl hlook hdir hrest ih =>
    rcases h.subdir hd hl (mem_of_lookup hlook) hdir with h0 | hsub
    · rw [h0] at hrest
      exact absurd hrest not_names_zero
    · exact ih hsub

/-- What lies behind the directory that the front of a path names. -/
theorem Names.behind {pre rest : List (List UInt8)} {d : DirEntry} (hg : Numbers g)
    (hpre : Names g v c pre d) (h : Names g v c (pre ++ rest) e) (hrest : rest ≠ []) :
    Names g v d.first rest e := by
  induction hpre with
  | @last c l name d hl hlook =>
    cases h with
    | last => exact absurd rfl hrest
    | via hl' hlook' _ hn =>
      rw [Chain.unique hg.sep hl' hl, hlook] at hlook'
      rwa [Option.some.inj hlook']
  | @via c l name pre d' d hl hlook hdir hpre ih =>
    cases pre with
    | nil => cases hpre
    | cons name' pre =>
      cases h with
      | via hl' hlook' _ hn =>
        rw [Chain.unique hg.sep hl' hl, hlook] at hlook'
        rw [← Option.some.inj hlook'] at hn
        exact ih hn

/-- A path that names something does not pass a directory entry with a 0. -/
theorem Resolves.not_throughZero (hg : Numbers g) (h : Resolves g v path e) :
    ¬ ThroughZero g v path := by
  rintro ⟨pre, rest, d, hcomp, hrest, hpre, -, h0⟩
  rcases h with ⟨hroot, -⟩ | hn
  · rw [hroot] at hcomp
    have hnil : pre ++ rest = [] := hcomp.symm
    exact hrest (append_eq_nil_iff.mp hnil).2
  · rw [hcomp] at hn
    have hzero := hpre.behind hg hn hrest
    rw [h0] at hzero
    exact not_names_zero hzero

/-- A path of one component passes no other entry. -/
theorem not_throughZero_of_one (name : List UInt8) (h : components [] (dropSlash path) = [name]) :
    ¬ ThroughZero g v path := by
  rintro ⟨pre, rest, d, hcomp, hrest, hn, -⟩
  rw [h] at hcomp
  rcases singleton_eq_append_iff.mp hcomp with ⟨rfl, -⟩ | ⟨-, rfl⟩
  · cases hn
  · exact hrest rfl

/-- Paths mean the same as long as the directories are kept. -/
theorem Names.keep {v' : Vol} (hn : Names g v c comps e) (h : WellFormed g v)
    (hk : KeepsDirs g v v') (hd : Dir g v c) : Names g v' c comps e := by
  have hlook : ∀ {c l name}, Dir g v c → VChain g v c l → lookup v' l name = lookup v l name :=
    fun hd hl => by rw [lookup, lookup, hk.entries hd hl]
  induction hn with
  | last hl he => exact .last (hk.chain hd hl) ((hlook hd hl).trans he)
  | via hl he hdir hrest ih =>
    refine .via (hk.chain hd hl) ((hlook hd hl).trans he) hdir (ih ?_)
    refine (h.subdir hd hl (mem_of_lookup he) hdir).resolve_left fun h0 => ?_
    rw [h0] at hrest
    exact not_names_zero hrest

theorem Resolves.keep {v' : Vol} (hr : Resolves g v path e) (h : WellFormed g v)
    (hk : KeepsDirs g v v') : Resolves g v' path e :=
  hr.imp_right fun hn => hn.keep h hk .root

end

theorem resolveLoop_spec {c : Nat} (hg : GeomOk s.g s.capacity)
    (h : WellFormed s.g (volOf s.g s.disk)) (hfuel : s.g.totalClusters < fuel)
    (hd : Dir s.g (volOf s.g s.disk) c)
    (hzero : ∀ pre rest d, comps = pre ++ rest → rest ≠ [] → Names s.g (volOf s.g s.disk) c pre d →
      d.isDir = true → d.first ≠ 0) :
    ∃ s' r, resolveLoop noFaults fuel comps c s = some (s', r) ∧ Mounted s s' ∧ s'.disk = s.disk ∧
      ∀ e, r = some e → Names s.g (volOf s.g s.disk) c comps e := by
  induction comps generalizing s c with
  | nil => exact ⟨s, none, rfl, .refl s, rfl, by simp⟩
  | cons name rest ih =>
    obtain ⟨l, hl⟩ := h.dir_chain hd
    have hlen := chain_length_le hg.numbers hl
    obtain ⟨s₁, hs₁, hm₁, hd₁⟩ := findInDir_spec hg hl (Nat.lt_of_le_of_lt hlen hfuel)
      (name.take 127)
    cases rest with
    | nil => exact ⟨s₁, _, hs₁, hm₁, hd₁, fun e he => .last hl he⟩
    | cons name' rest =>
      cases hlook : lookup (volOf s.g s.disk) l (name.take 127) with
      | none =>
        rw [hlook] at hs₁
        exact ⟨s₁, none, resolveLoop_stop hs₁ (by simp), hm₁, hd₁, by simp⟩
      | some d =>
        rw [hlook] at hs₁
        cases hdir : d.isDir with
        | false => exact ⟨s₁, none, resolveLoop_stop hs₁ (by simpa using hdir), hm₁, hd₁, by simp⟩
        | true =>
          rw [resolveLoop_enter hs₁ hdir]
          have hsub : Dir s.g (volOf s.g s.disk) d.first :=
            (h.subdir hd hl (mem_of_lookup hlook) hdir).resolve_left
              (hzero [name] (name' :: rest) d rfl (by simp) (.last hl hlook) hdir)
          have hnext := @ih s₁ d.first
          rw [hm₁.g, hm₁.capacity, hd₁] at hnext
          obtain ⟨s', r, hs', hm', hd', hr⟩ := hnext hg h hfuel hsub fun pre rest' d' heq hne hn =>
            hzero (name :: pre) rest' d' (by rw [heq, cons_append]) hne
              (.via hl hlook hdir hn)
          exact ⟨s', r, hs', hm₁.trans hm', hd', fun e he => .via hl hlook hdir (hr e he)⟩

theorem resolveLoop_names {g : Geom} {m : Mem} {c : Nat} {e : DirEntry}
    (hn : Names g (volOf g m) c comps e) (hg : s.g = g) (hd : s.disk = m)
    (hok : GeomOk g s.capacity) (hfuel : g.totalClusters < fuel) :
    ∃ s', resolveLoop noFaults fuel comps c s = some (s', some e) ∧ Mounted s s' ∧ s'.disk = m := by
  subst hg hd
  have hfind : ∀ {s₁ : Fs} {c l} name, Mounted s s₁ → s₁.disk = s.disk →
      VChain s.g (volOf s.g s.disk) c l → ∃ s', findInDir noFaults fuel s₁ c name =
        some (s', lookup (volOf s.g s.disk) l name) ∧ Mounted s s' ∧ s'.disk = s.disk := by
    intro s₁ c l name hm hd hl
    have hlen := chain_length_le hok.numbers hl
    obtain ⟨s', hs', hm', hd'⟩ := findInDir_spec (s := s₁) (by rwa [hm.g, hm.capacity])
      (by rwa [hm.g, hd]) (Nat.lt_of_le_of_lt hlen hfuel) name
    rw [hm.g, hd] at hs'
    exact ⟨s', hs', hm.trans hm', hd'.trans hd⟩
  have hmain : ∀ {s₁ : Fs}, Mounted s s₁ → s₁.disk = s.disk →
      ∃ s', resolveLoop noFaults fuel comps c s₁ = some (s', some e) ∧ Mounted s s' ∧
        s'.disk = s.disk := by
    induction hn with
    | @last c l name e hl hlook =>
      intro s₁ hm hd
      obtain ⟨s', hs', hm', hd'⟩ := hfind (name.take 127) hm hd hl
      exact ⟨s', by rw [resolveLoop, hs', hlook], hm', hd'⟩
    | @via c l name rest d e hl hlook hdir hrest ih =>
      intro s₁ hm hd
      obtain ⟨s₂, hs₂, hm₂, hd₂⟩ := hfind (name.take 127) hm hd hl
      cases rest with
      | nil => cases hrest
      | cons name' rest =>
        obtain ⟨s', hs', hm', hd'⟩ := ih hm₂ hd₂
        rw [hlook] at hs₂
        exact ⟨s', (resolveLoop_enter hs₂ hdir).trans hs', hm', hd'⟩
  exact hmain (.refl s) rfl

/-- `resolve_path` finds what a path names. -/
theorem resolvePath_names {e : DirEntry} (h : Resolves s.g (volOf s.g s.disk) path e)
    (hok : GeomOk s.g s.capacity) (hfuel : s.g.totalClusters < fuel) :
    ∃ s', resolvePath noFaults fuel s path = some (s', some e) ∧
      Mounted s s' ∧ s'.disk = s.disk := by
  unfold resolvePath
  rcases h with ⟨hroot, rfl⟩ | hn
  · exact ⟨s, if_pos hroot, .refl s, rfl⟩
  have hne : dropSlash path ≠ [] := by
    intro hnil
    rw [hnil] at hn
    cases hn
  rw [if_neg hne]
  exact resolveLoop_names hn rfl rfl hok hfuel

theorem resolvePath_spec (hg : GeomOk s.g s.capacity) (h : WellFormed s.g (volOf s.g s.disk))
    (hfuel : s.g.totalClusters < fuel) (hzero : ¬ ThroughZero s.g (volOf s.g s.disk) path) :
    ∃ s' r, resolvePath noFaults fuel s path = some (s', r) ∧ Mounted s s' ∧ s'.disk = s.disk ∧
      ∀ e, r = some e → Resolves s.g (volOf s.g s.disk) path e := by
  unfold resolvePath
  split
  · rename_i hroot
    exact ⟨s, _, rfl, .refl s, rfl, fun e he => .inl ⟨hroot, (Option.some.inj he).symm⟩⟩
  · obtain ⟨s', r, hs', hm, hd, hr⟩ := resolveLoop_spec hg h hfuel .root
      fun pre rest d heq hne hn hdir h0 => hzero ⟨pre, rest, d, heq, hne, hn, hdir, h0⟩
    exact ⟨s', r, hs', hm, hd, fun e he => .inr (hr e he)⟩

end HackersOs.L4.Fat

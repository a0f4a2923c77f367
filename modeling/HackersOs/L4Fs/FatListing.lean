import HackersOs.L4Fs.FatWalks

/-!
# `list_dir` and `find_in_dir`

Two loops over the same entries: `list_dir` copies what it passes until the array
is full, `find_in_dir` stops at the first entry with a name. They filter alike
and end alike, so a listing that did not fill its array says what every lookup
in the directory gives.

`comesTo` is the comparison that is carried through sectors, clusters and the
chain: what a lookup comes to is the first listed entry with the name, else the
end of the directory, else nothing yet.

Result: `lookup_is_listed`.
-/
namespace HackersOs.L4.Fat
open HackersOs.Core

/-- The first listed entry with a name. -/
def listedAs (name : List UInt8) (l : List ListedEntry) : Option ListedEntry :=
  l.find? fun x => x.name = name

theorem listedAs_append (name : List UInt8) (l l' : List ListedEntry) :
    listedAs name (l ++ l') = (listedAs name l).or (listedAs name l') := List.find?_append

theorem listedAs_isSome (name : List UInt8) (l : List ListedEntry) :
    (listedAs name l).isSome = true ↔ name ∈ l.map (·.name) := by
  simp only [listedAs, List.find?_isSome, decide_eq_true_eq, List.mem_map]

/-- What a lookup comes to in a part of the directory that lists `l` and ends the
directory or not. -/
def comesTo (name : List UInt8) (l : List ListedEntry) (ends : Bool) : Option (Option ListedEntry) :=
  ((listedAs name l).map some).or (if ends then some none else none)

theorem comesTo_false (name : List UInt8) (l : List ListedEntry) :
    comesTo name l false = (listedAs name l).map some := Option.or_none

theorem comesTo_append (name : List UInt8) (l l' : List ListedEntry) (ends : Bool) :
    comesTo name (l ++ l') ends = (comesTo name l false).or (comesTo name l' ends) := by
  rw [comesTo_false, comesTo, comesTo, listedAs_append, Option.map_or, Option.or_assoc]

theorem comesTo_ends_ne_none (name : List UInt8) (l : List ListedEntry) :
    comesTo name l true ≠ none := by
  unfold comesTo
  cases listedAs name l <;> simp

theorem comesTo_join (name : List UInt8) (l : List ListedEntry) :
    (comesTo name l true).join = listedAs name l := by
  unfold comesTo
  cases listedAs name l <;> rfl

theorem listed_name_eq (d : DirEntry) (name : List UInt8) :
    decide ((listed d).name = name) = nameMatches d.name name := rfl

/-! ## A sector -/

theorem listSector_comesTo (name : List UInt8) (buf : Mem) {n e room : Nat}
    (hroom : (listSector buf n e room).1.length < room) :
    (findEntry name buf n e).map (Option.map listed) =
      comesTo name (listSector buf n e room).1 (listSector buf n e room).2 := by
  induction n generalizing e room with
  | zero => rfl
  | succ n ih =>
    have hpos : room ≠ 0 := by omega
    simp only [listSector, hpos, if_false, findEntry] at hroom ⊢
    split
    · rfl
    rename_i hend
    rw [if_neg hend] at hroom
    split
    · rename_i hskip
      rw [if_pos hskip] at hroom
      exact ih hroom
    · rename_i hlive
      rw [if_neg hlive, List.length_cons] at hroom
      have htail := @ih (e + 1) (room - 1) (by omega)
      simp only [comesTo, listedAs, List.find?_cons, listed_name_eq]
      cases nameMatches (entryAt buf e).name name with
      | true => rfl
      | false => exact htail

/-! ## A cluster -/

/-- A cluster that is listed without a read failing. -/
theorem listCluster_comesTo (name : List UInt8) {s : Fs} {n sector room : Nat}
    (hroom : (listCluster noFaults n sector room s).2.1.length < room)
    (hok : (listCluster noFaults n sector room s).2.2 ≠ some false) :
    (walkCluster noFaults (fun buf => findEntry name buf 16 0) n sector s).2.map
        (fun r => (r.bind (·.2)).map listed) =
      comesTo name (listCluster noFaults n sector room s).2.1
        ((listCluster noFaults n sector room s).2.2 == some true) := by
  induction n generalizing s sector room with
  | zero => rfl
  | succ n ih =>
    have hpos : room ≠ 0 := by omega
    simp only [listCluster, hpos, if_false] at hroom hok ⊢
    rw [walkCluster]
    generalize readSector noFaults s sector = r at hroom hok ⊢
    obtain ⟨s₁, ok⟩ := r
    cases ok with
    | false => exact absurd rfl hok
    | true =>
      simp only [if_true] at hroom hok ⊢
      have hsec := @listSector_comesTo name s₁.buf 16 0 room
      generalize listSector s₁.buf 16 0 room = l at hroom hok hsec ⊢
      obtain ⟨l, ends⟩ := l
      cases ends with
      | true =>
        have hfound := hsec hroom
        -- the directory ends in this sector: the lookup stops here too
        cases hvis : findEntry name s₁.buf 16 0 with
        | none =>
          rw [hvis] at hfound
          simp only [comesTo, if_true, Option.map_none] at hfound
          cases hl : listedAs name l <;> rw [hl] at hfound <;> cases hfound
        | some o =>
          rw [hvis] at hfound
          exact hfound
      | false =>
        simp only [Bool.false_eq_true, if_false, List.length_append] at hroom hok ⊢
        have hfound := hsec (Nat.lt_of_le_of_lt (Nat.le_add_right _ _) hroom)
        rw [comesTo_append, ← hfound]
        cases hvis : findEntry name s₁.buf 16 0 with
        | some o => rfl
        | none => exact ih (by omega) hok

/-! ## The chain -/

theorem listLoop_comesTo (name : List UInt8) {fuel : Nat} {s s' : Fs} {c room : Nat}
    {l : List ListedEntry} (h : listLoop noFaults fuel c room s = some (s', l, true))
    (hroom : l.length < room) : (walkDir noFaults (fun buf => findEntry name buf 16 0) fuel c s).map
      (fun r => (r.2.bind (·.2)).map listed) = some (listedAs name l) := by
  induction fuel generalizing s c room l with
  | zero => cases h
  | succ fuel ih =>
    rw [listLoop] at h
    rw [walkDir]
    split at h
    · rename_i hstop
      cases h
      rw [if_pos (hstop.resolve_right (by omega))]
      rfl
    · rename_i hgo
      rw [if_neg fun hend => hgo (.inl hend)]
      have hcl := @listCluster_comesTo name s s.g.sectorsPerCluster (clusterToSector s.g c) room
      have hlist := listCluster_reads noFaults s.g.sectorsPerCluster (clusterToSector s.g c) room s
      have hwalk := walkCluster_reads noFaults (fun buf => findEntry name buf 16 0)
        s.g.sectorsPerCluster (clusterToSector s.g c) s
      generalize listCluster noFaults s.g.sectorsPerCluster (clusterToSector s.g c) room s = r
        at h hcl hlist
      generalize walkCluster noFaults (fun buf => findEntry name buf 16 0) s.g.sectorsPerCluster
        (clusterToSector s.g c) s = w at hcl hwalk ⊢
      obtain ⟨s₁, l₁, o⟩ := r
      obtain ⟨t₁, o'⟩ := w
      cases o with
      | some b =>
        cases h
        have hfound := hcl hroom (by simp)
        -- the listing ended in this cluster, so the lookup has a result
        cases o' with
        | none =>
          have hnone : comesTo name l true = none := hfound.symm
          exact absurd hnone (comesTo_ends_ne_none name l)
        | some o' =>
          have hjoin := congrArg Option.join hfound
          rw [show ((some true : Option Bool) == some true) = true from rfl, comesTo_join] at hjoin
          exact congrArg some hjoin
      | none =>
        obtain ⟨⟨s₂, l₂, b⟩, hloop, heq⟩ := Option.map_eq_some_iff.mp h
        cases heq
        rw [List.length_append] at hroom
        have hfound := hcl (Nat.lt_of_le_of_lt (Nat.le_add_right _ _) hroom) (by simp)
        have hrest := ih hloop (Nat.lt_sub_of_add_lt (by rwa [Nat.add_comm]))
        rw [show ((none : Option Bool) == some true) = false from rfl, comesTo_false] at hfound
        rw [listedAs_append]
        cases o' with
        | some o' =>
          obtain ⟨x, hx, hfound⟩ := Option.map_eq_some_iff.mp hfound.symm
          rw [hx]
          exact congrArg some hfound.symm
        | none =>
          have hst : Reads s₁ t₁ := hlist.symm.trans hwalk
          have hnext := (nextCluster_reads noFaults s₁ c).symm.trans
            (hst.trans (nextCluster_reads noFaults t₁ c))
          have hdir := @walkDir_congr _ (fun buf => findEntry name buf 16 0) (findEntry_blit name) _ _
            hnext fuel (nextCluster noFaults s₁ c).2
          have hmap := congrArg (Option.map fun r => (r.bind (·.2)).map listed) hdir
          simp only [Option.map_map, Function.comp_def, hrest] at hmap
          rw [Option.map_eq_none_iff.mp hfound.symm, Option.none_or, hmap, nextCluster_congr hst c]

/-! ## The calls -/

/-- A listing that leaves room in the array, and every lookup in that directory, from
any state of the driver with this volume. -/
theorem lookup_is_listed {s s₁ s' t : Fs} {fuel c maxEntries : Nat} {path : List UInt8}
    {l : List ListedEntry} (hdir : dirClusterOf noFaults fuel s path = some (s₁, some c))
    (hlist : listDir noFaults fuel s path maxEntries = some (s', l, true))
    (hmax : l.length < maxEntries) (ht : Reads s t) (name : List UInt8) :
    ∃ t' r, findInDir noFaults fuel t c name = some (t', r) ∧
      (r.isSome = true ↔ name ∈ l.map (·.name)) ∧
      ∀ e, r = some e → ∃ x, l.find? (fun x => x.name = name) = some x ∧
        x.size = e.size ∧ x.firstCluster = e.first ∧ x.isDir = e.isDir := by
  unfold listDir at hlist
  split at hlist
  · cases hlist
  rw [hdir] at hlist
  have hfound := listLoop_comesTo name hlist hmax
  have hreads := (dirClusterOf_reads hdir).symm.trans ht
  have hfind := findInDir_congr hreads fuel c name
  obtain ⟨⟨s₂, r⟩, hwalk, hr⟩ := Option.map_eq_some_iff.mp hfound
  rw [findInDir, hwalk] at hfind
  obtain ⟨⟨t', r'⟩, hfind', hr'⟩ := Option.map_eq_some_iff.mp hfind.symm
  simp only at hr hr'
  refine ⟨t', r', hfind', ?_, fun e he => ?_⟩
  · rw [← listedAs_isSome, ← hr, hr', Option.isSome_map]
  · rw [he] at hr'
    rw [← hr'] at hr
    exact ⟨listed e, hr.symm, rfl, rfl, rfl⟩

/-- The root directory of the demo volume. -/
theorem lookup_is_listed_demo : ∃ t' e, findInDir noFaults 3 demoFs 2 [97] = some (t', some e) ∧
    entryA.size = e.size ∧ entryA.first = e.first ∧ entryA.isDir = e.isDir := by
  have hlist : (listDir noFaults 3 demoFs [47] 4).map (·.2) =
      some ([listed entryA, listed entryD], true) := by decide +kernel
  obtain ⟨⟨s', l⟩, hlist, hl⟩ := Option.map_eq_some_iff.mp hlist
  simp only at hl
  subst hl
  obtain ⟨t', r, hfind, hiff, hsame⟩ := lookup_is_listed rfl hlist (by decide) (.refl demoFs) [97]
  obtain ⟨e, rfl⟩ := Option.isSome_iff_exists.mp (hiff.mpr (by decide))
  obtain ⟨x, hx, hfields⟩ := hsame e rfl
  obtain rfl : listed entryA = x := Option.some.inj hx
  exact ⟨t', e, hfind, hfields⟩

end HackersOs.L4.Fat

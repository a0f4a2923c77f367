import HackersOs.L4Fs.FatDirs

/-!
# What files hold

The contents of a chain are the bytes of its clusters, in order. `Frame` says
which FAT entries and which clusters' bytes a part of the driver may change.

* `readLoop_spec`: the loop of `read_file` copies the first bytes of the contents.
* `writeLoop_chain`: the loop of `write_file`, inside the chain `p ++ q` with `q`
  still to be written, appends free clusters `r` to the chain and changes no byte
  outside `q ++ r`; if it returns true, the contents of `q ++ r` start with the data.
-/
namespace HackersOs.L4.Fat
open HackersOs.Core List

def clusterBytes (g : Geom) (m : Mem) (c : Nat) : List UInt8 :=
  bytesAt m (clusterAddr g c) (512 * g.sectorsPerCluster)

def contents (g : Geom) (m : Mem) (l : List Nat) : List UInt8 := l.flatMap (clusterBytes g m)

theorem contents_cons (g : Geom) (m : Mem) (c : Nat) (l : List Nat) :
    contents g m (c :: l) = clusterBytes g m c ++ contents g m l := flatMap_cons

/-! ## Frames -/

/-- At most the FAT entries of `F` and the bytes of `D` change. -/
structure Frame (g : Geom) (F D : List Nat) (m m' : Mem) : Prop where
  fat : ∀ y, InRange g y → y ∉ F → (volOf g m').fat y = (volOf g m).fat y
  data : ∀ y, InRange g y → y ∉ D → ∀ i, clusterAddr g y ≤ i →
    i < clusterAddr g y + 512 * g.sectorsPerCluster → m' i = m i

section
variable {g : Geom} {F F' D D' l : List Nat} {m m' m'' : Mem} {cap c : Nat}

theorem Frame.refl : Frame g F D m m := ⟨fun _ _ _ => rfl, fun _ _ _ _ _ _ => rfl⟩

theorem Frame.mono (h : Frame g F D m m') (hF : F ⊆ F') (hD : D ⊆ D') : Frame g F' D' m m' where
  fat y hy hn := h.fat y hy fun hm => hn (hF hm)
  data y hy hn := h.data y hy fun hm => hn (hD hm)

theorem Frame.trans (h : Frame g F D m m') (h' : Frame g F D m' m'') : Frame g F D m m'' where
  fat y hy hn := (h'.fat y hy hn).trans (h.fat y hy hn)
  data y hy hn i h1 h2 := (h'.data y hy hn i h1 h2).trans (h.data y hy hn i h1 h2)

theorem Frame.clusterBytes (h : Frame g F D m m') (hc : InRange g c) (hn : c ∉ D) :
    clusterBytes g m' c = clusterBytes g m c :=
  bytesAt_congr fun i hi => h.data c hc hn _ (Nat.le_add_right _ i) (Nat.add_lt_add_left hi _)

theorem Frame.contents (h : Frame g F D m m') (hl : ∀ x ∈ l, InRange g x ∧ x ∉ D) :
    contents g m' l = contents g m l :=
  flatMap_congr fun x hx => h.clusterBytes (hl x hx).1 (hl x hx).2

theorem Frame.slots (h : Frame g F D m m') (hc : InRange g c) (hn : c ∉ D) :
    (volOf g m').slots c = (volOf g m).slots c := slots_congr fun i h1 h2 => h.data c hc hn i h1 h2

theorem Frame.chain (h : Frame g F D m m') (hl : VChain g (volOf g m) c l) (hn : ∀ x ∈ l, x ∉ F) :
    VChain g (volOf g m') c l := hl.congr fun x hx => h.fat x (hl.mem_ok hx) (hn x hx)

/-- Bytes written inside one cluster. -/
theorem frame_data (hg : GeomOk g cap) (hc : InRange g c) (hout : ∀ i, i < clusterAddr g c ∨
      clusterAddr g c + 512 * g.sectorsPerCluster ≤ i → m' i = m i) : Frame g [] [c] m m' where
  fat y hy _ := (touches_data hg hc hout).2 y hy
  data y hy hn i h1 h2 := by
    have hne : y ≠ c := fun h => hn (mem_singleton.mpr h)
    have hapart := clusterAddr_apart (g := g) hy.1 hc.1 hne
    exact hout i (by omega)

end

/-! ## Sectors -/

section
variable {s : Fs} {c : Nat}

theorem frame_setFatEntry (flt : Nat → Bool) (h : GeomOk s.g s.capacity) (hc : InRange s.g c)
    (value : Nat) : Frame s.g [c] [] s.disk (setFatEntry flt s c value).1.disk := by
  obtain ⟨-, hout⟩ := setFatLoop_frame flt value (n := s.g.numFats) (f := 0) h.fatRoom (hc.inFat h)
    (by omega)
  constructor
  · intro y hy hn
    refine congrArg (· % 2 ^ 28) (readLE_congr fun i h1 h2 => hout i fun k _ _ => ?_)
    have := entryAddr_apart h k 0 hc hy (.inr fun heq => hn (mem_singleton.mpr heq.symm))
    omega
  · intro y hy _ i hi _
    refine hout i fun k _ hk => .inr ?_
    have h1 := entryAddr_in_copy (f := k) h hc
    have h2 := h.copy_le (show k < s.g.numFats by omega)
    unfold clusterAddr at hi
    omega

theorem setFatEntry_mounted (flt : Nat → Bool) (h : GeomOk s.g s.capacity) (hc : InRange s.g c)
    (value : Nat) : Mounted s (setFatEntry flt s c value).1 :=
  (setFatLoop_frame flt value h.fatRoom (hc.inFat h) (by omega)).1

/-- Marking and clearing a cluster. -/
theorem frame_take (flt : Nat → Bool) (h : GeomOk s.g s.capacity) (hc : InRange s.g c) :
    Frame s.g [c] [c] s.disk (zeroSectors flt (setFatEntry flt s c 0x0FFFFFF8).1.g.sectorsPerCluster
        (clusterToSector (setFatEntry flt s c 0x0FFFFFF8).1.g c)
        (setFatEntry flt s c 0x0FFFFFF8).1).disk := by
  have hset := frame_setFatEntry flt h hc 0x0FFFFFF8
  have hm := setFatEntry_mounted flt h hc 0x0FFFFFF8
  generalize (setFatEntry flt s c 0x0FFFFFF8).1 = s' at hset hm ⊢
  have h1 := hc.cluster_le
  have h3 := h.data_lt
  simp only [hm.g, clusterToSector_eq hc h]
  obtain ⟨-, hout⟩ := zeroSectors_spec (s := s') flt s.g.sectorsPerCluster
    (s.g.dataStart + (c - 2) * s.g.sectorsPerCluster) (by omega)
  have hzero : Frame s.g [] [c] s'.disk _ :=
    frame_data h hc fun i hi => hout i (by unfold clusterAddr at hi; omega)
  exact (hset.mono (by simp) (by simp)).trans (hzero.mono (by simp) (by simp))

theorem frame_allocLoop (flt : Nat → Bool) {n : Nat} (h : GeomOk s.g s.capacity) (hc : 2 ≤ c)
    (hn : c + n = s.g.totalClusters + 2) :
    Frame s.g [(allocLoop flt n c s).2] [(allocLoop flt n c s).2] s.disk
      (allocLoop flt n c s).1.disk := by
  induction n generalizing s c with
  | zero => exact .refl
  | succ n ih =>
    obtain ⟨hm, hd⟩ := readSector_reads flt s (fatSectorOf s.g c)
    rw [allocLoop]
    generalize readSector flt s (fatSectorOf s.g c) = r at hm hd ⊢
    have hgeom : GeomOk r.1.g r.1.capacity := by rwa [hm.g, hm.capacity]
    have hnext := @ih r.1 (c + 1) hgeom (by omega) (by rw [hm.g]; omega)
    have htake := frame_take flt hgeom (c := c) ⟨hc, by rw [hm.g]; omega⟩
    rw [hm.g, hd] at hnext htake
    split
    · split
      · exact htake
      · exact hnext
    · exact hnext

theorem frame_allocCluster (flt : Nat → Bool) (h : GeomOk s.g s.capacity) :
    Frame s.g [(allocCluster flt s).2] [(allocCluster flt s).2] s.disk
      (allocCluster flt s).1.disk := by
  have hnum : s.g.totalClusters + 2 ≤ 0x0FFFFFF8 := h.numbers
  have hloop := frame_allocLoop flt (n := s.g.totalClusters) h (Nat.le_refl 2) (Nat.add_comm _ _)
  rwa [allocCluster, u32_of_lt (by omega), Nat.add_sub_cancel]

end

/-! ## `read_file` -/

section
variable {s : Fs}

theorem readSectors_spec (n sector remaining : Nat) (hcap : sector + n ≤ s.capacity)
    (hlt : sector + n < 2 ^ 32) : ∃ s', readSectors noFaults n sector remaining s =
        (s', (bytesAt s.disk (512 * sector) (512 * n)).take remaining, true) ∧
      Mounted s s' ∧ s'.disk = s.disk := by
  induction n generalizing s sector remaining with
  | zero => exact ⟨s, by simp [readSectors, bytesAt], .refl s, rfl⟩
  | succ n ih =>
    rw [readSectors]
    split
    · rename_i h0
      exact ⟨s, by rw [h0, take_zero], .refl s, rfl⟩
    rw [readSector_ok (by omega), u32_of_lt (by omega)]
    simp only [if_true]
    have hnext := @ih { s with
      ops := s.ops + 1, buf := blit s.buf 0 512 (sectorOf s.disk sector) } (sector + 1)
    -- the copy takes the whole sector or all that is left
    obtain ⟨k, hk, hk512, hrest⟩ : ∃ k, (if remaining < 512 then remaining else 512) = k ∧
        k ≤ 512 ∧ (k = 512 ∧ 512 ≤ remaining ∨ k = remaining) := by
      split
      · exact ⟨_, rfl, by omega, .inr rfl⟩
      · exact ⟨_, rfl, Nat.le_refl _, .inl ⟨rfl, by omega⟩⟩
    rw [hk]
    obtain ⟨s', hs', hm, hd⟩ := hnext (remaining - k) (by simp only; omega) (by omega)
    refine ⟨s', ?_, ⟨hm.g, hm.mounted, hm.capacity⟩, hd⟩
    rw [hs']
    have hbuf : bytesAt (blit s.buf 0 512 (sectorOf s.disk sector)) 0 k =
        bytesAt s.disk (512 * sector) k := bytesAt_congr fun i hi => by
      rw [Nat.zero_add, blit_inside (Nat.zero_le i) (by omega)]
      rfl
    have hsplit : bytesAt s.disk (512 * sector) (512 * (n + 1)) =
        bytesAt s.disk (512 * sector) 512 ++ bytesAt s.disk (512 * (sector + 1)) (512 * n) := by
      rw [Nat.mul_succ, Nat.add_comm, bytesAt_add, Nat.mul_succ]
    simp only [hbuf, hsplit, take_append, length_bytesAt]
    rcases hrest with ⟨rfl, hle⟩ | rfl
    · have hfull : (bytesAt s.disk (512 * sector) 512).take remaining =
          bytesAt s.disk (512 * sector) 512 := take_of_length_le (by rwa [length_bytesAt])
      rw [hfull]
    · rw [Nat.sub_self, Nat.sub_eq_zero_of_le hk512, bytesAt_take _ _ hk512]

/-- One cluster of the loop of `read_file`. -/
theorem readLoop_succ {c remaining : Nat} (h : GeomOk s.g s.capacity) (hc : InRange s.g c)
    (hrem : remaining ≠ 0) (fuel : Nat) : ∃ s', Mounted s s' ∧ s'.disk = s.disk ∧
      readLoop noFaults (fuel + 1) c remaining s =
        (readLoop noFaults fuel ((volOf s.g s.disk).fat c)
          (remaining - ((clusterBytes s.g s.disk c).take remaining).length) s').map fun r =>
            (r.1, (clusterBytes s.g s.disk c).take remaining ++ r.2.1, r.2.2) := by
  have h1 := hc.cluster_le
  have h2 := h.data_room
  have h3 := h.data_lt
  obtain ⟨s₁, hs₁, hm₁, hd₁⟩ := readSectors_spec (s := s) s.g.sectorsPerCluster
    (s.g.dataStart + (c - 2) * s.g.sectorsPerCluster) remaining (by omega) (by omega)
  obtain ⟨hnext, hm₂, hd₂⟩ := nextCluster_spec (s := s₁) (c := c)
    (by rwa [hm₁.g, hm₁.capacity]) (by rwa [hm₁.g])
  rw [hm₁.g, hd₁] at hnext
  refine ⟨(nextCluster noFaults s₁ c).1, hm₁.trans hm₂, hd₂.trans hd₁, ?_⟩
  have hgo : ¬ (remaining = 0 ∨ isEndCluster c = true) := not_or.mpr ⟨hrem, h.numbers.sep c hc⟩
  rw [readLoop, if_neg hgo, clusterToSector_eq hc h, hs₁]
  simp only [hnext]
  rfl

/-- The loop of `read_file` copies the first bytes of a chain's contents. -/
theorem readLoop_spec {g : Geom} {m : Mem} {c : Nat} {l : List Nat} (h : VChain g (volOf g m) c l)
    {fuel remaining : Nat} (hg : s.g = g) (hd : s.disk = m) (hok : GeomOk g s.capacity)
    (hfuel : l.length < fuel) : ∃ s', readLoop noFaults fuel c remaining s =
      some (s', (contents g m l).take remaining, true) := by
  -- nothing is left: the loop ends wherever it is
  have hstop : ∀ {s : Fs} {c fuel : Nat}, readLoop noFaults (fuel + 1) c 0 s = some (s, [], true) :=
    if_pos (.inl rfl)
  induction h generalizing s fuel remaining with
  | @last c hc hfin =>
    obtain ⟨fuel, rfl⟩ : ∃ k, fuel = k + 2 := ⟨fuel - 2, by simp at hfuel; omega⟩
    by_cases hrem : remaining = 0
    · exact ⟨s, by rw [hrem, hstop, take_zero]⟩
    · subst hg hd
      obtain ⟨s₁, -, -, hstep⟩ := readLoop_succ hok hc hrem (fuel + 1)
      rw [hstep, readLoop, if_pos (.inr hfin), contents, flatMap_singleton]
      exact ⟨s₁, by rw [Option.map_some, append_nil]⟩
  | @link c l hc htail ih =>
    obtain ⟨fuel, rfl⟩ : ∃ k, fuel = k + 1 := ⟨fuel - 1, by omega⟩
    by_cases hrem : remaining = 0
    · exact ⟨s, by rw [hrem, hstop, take_zero]⟩
    subst hg hd
    obtain ⟨s₁, hm₁, hd₁, hstep⟩ := readLoop_succ hok hc hrem fuel
    have hnext := @ih s₁ fuel
      (remaining - ((clusterBytes s.g s.disk c).take remaining).length) hm₁.g hd₁
      (by rwa [hm₁.capacity]) (Nat.lt_of_succ_lt_succ hfuel)
    obtain ⟨s', hs'⟩ := hnext
    refine ⟨s', ?_⟩
    have hleft : ∀ k, remaining - min remaining k = remaining - k := fun k => by omega
    rw [hstep, hs', contents_cons, take_append, length_take, Option.map_some, hleft]

end

/-! ## `write_file` -/

/-- Data whose first part fills `x` as far as it goes, and whose rest starts `y`. -/
theorem starts_append {data x y : List UInt8} {k : Nat} (hx : data.take k <+: x) (hlen : x.length = k)
    (hy : data.drop k <+: y) : data <+: x ++ y := by
  rcases Nat.le_total data.length k with hle | hle
  · rw [take_of_length_le hle] at hx
    exact hx.trans (prefix_append x y)
  · have hall : data.take k = x := hx.eq_of_length (by rw [length_take, hlen, Nat.min_eq_left hle])
    obtain ⟨rest, rfl⟩ := hy
    exact ⟨rest, by rw [← hall, ← append_assoc, take_append_drop]⟩

/-- A sector image starts with its data. -/
theorem starts_fillBuf (m buf : Mem) (a : Nat) {data : List UInt8} (h : data.length ≤ 512) :
    data <+: bytesAt (blit m a 512 (fillBuf buf data)) a 512 := by
  have heq : bytesAt (blit m a 512 (fillBuf buf data)) a 512 =
      data ++ List.replicate (512 - data.length) 0 := by
    refine ext_getElem (by simp [h]) fun i hi _ => ?_
    rw [length_bytesAt] at hi
    simp only [bytesAt, getElem_map, getElem_range, fillBuf, blit]
    rw [if_pos (by omega), if_pos (by omega), Nat.sub_zero, Nat.add_sub_cancel_left,
      getElem_append]
    split
    · rw [getD_eq_getElem?_getD, List.getElem?_eq_getElem ‹_›, Option.getD_some]
    · rw [getD_eq_getElem?_getD, List.getElem?_eq_none (by omega), Option.getD_none,
        getElem_replicate]
  rw [heq]
  exact prefix_append ..

/-- The sectors of one cluster, if no write fails: they start with the data. -/
theorem writeSectors_some {flt : Nat → Bool} {s s' : Fs} {n sector : Nat} {data rest : List UInt8}
    (h : writeSectors flt n sector data s = (s', some rest)) (hlt : sector + n < 2 ^ 32) :
    rest = data.drop (512 * n) ∧ Mounted s s' ∧
      (∀ i, i < 512 * sector ∨ 512 * (sector + n) ≤ i → s'.disk i = s.disk i) ∧
      data.take (512 * n) <+: bytesAt s'.disk (512 * sector) (512 * n) := by
  induction n generalizing s sector data with
  | zero =>
    obtain ⟨rfl, hrest⟩ := Prod.mk.inj h
    obtain rfl := Option.some.inj hrest
    exact ⟨rfl, .refl s, fun _ _ => rfl, by simp⟩
  | succ n ih =>
    rw [writeSectors] at h
    split at h
    · rename_i hnil
      obtain ⟨rfl, hrest⟩ := Prod.mk.inj h
      obtain rfl := Option.some.inj hrest
      exact ⟨by rw [hnil, drop_nil], .refl s, fun _ _ => rfl, by simp [hnil]⟩
    · dsimp only at h
      split at h
      · rename_i hok
        obtain ⟨hflt, hcap⟩ := writeSector_true hok
        rw [writeSector_of hflt hcap, u32_of_lt (by omega)] at h
        obtain ⟨rfl, hm, hout, hstarts⟩ := ih h (by omega)
        refine ⟨?_, ⟨hm.g, hm.mounted, hm.capacity⟩, fun i hi => ?_, ?_⟩
        · rw [drop_drop]
          congr 1
          omega
        · rw [hout i (by omega)]
          exact blit_outside (by omega)
        · -- the later sectors leave this one alone
          have hfirst : bytesAt s'.disk (512 * sector) 512 = bytesAt
              (blit s.disk (512 * sector) 512 (fillBuf s.buf (data.take 512))) (512 * sector) 512 :=
            bytesAt_congr fun i hi => hout _ (by omega)
          rw [Nat.mul_succ, Nat.add_comm (512 * n), bytesAt_add, hfirst]
          refine starts_append (k := 512) ?_ (length_bytesAt ..) ?_
          · rw [take_take, Nat.min_eq_left (Nat.le_add_right 512 _)]
            exact starts_fillBuf _ _ _ (by rw [length_take]; omega)
          · rw [drop_take, Nat.add_sub_cancel_left]
            exact hstarts
      · cases h

/-- Where the loop of `write_file` is in the chain `p ++ q`: at the head of `q`,
or behind the last cluster. -/
inductive Position (g : Geom) (v : Vol) : List Nat → List Nat → Nat → Nat → Prop where
  | inside {p q : List Nat} {c prev : Nat} : VChain g v c q → Position g v p q c prev
  | behind {p : List Nat} {c prev : Nat} :
      isEndCluster c = true → Position g v (p ++ [prev]) [] c prev

/-- The chain `p ++ q` from `c₀` grew by the free clusters `r`; no bytes outside
`q ++ r` changed. -/
structure Grown (s s' : Fs) (c₀ : Nat) (p q r : List Nat) : Prop where
  mounted : Mounted s s'
  chain : VChain s.g (volOf s.g s'.disk) c₀ (p ++ q ++ r)
  free : ∀ x ∈ r, (volOf s.g s.disk).fat x = 0
  frame : Frame s.g (p ++ q ++ r) (q ++ r) s.disk s'.disk

section
variable {s s₁ s' : Fs} {c c₀ prev : Nat} {p q r r₁ : List Nat}

theorem Grown.refl (h : VChain s.g (volOf s.g s.disk) c₀ (p ++ q)) : Grown s s c₀ p q [] where
  mounted := .refl s
  chain := by rwa [append_nil]
  free := by simp
  frame := .refl

/-- The last cluster written is not written again: a chain visits it once. -/
theorem Grown.keeps_written (hg : Numbers s.g) (h : Grown s s' c₀ (p ++ [c]) q r) :
    clusterBytes s.g s'.disk c = clusterBytes s.g s.disk c := by
  have hnodup := Chain.nodup hg.sep h.chain
  have hc : InRange s.g c := h.chain.mem_ok (by simp)
  rw [append_assoc, append_assoc, singleton_append] at hnodup
  exact h.frame.clusterBytes hc (nodup_cons.mp hnodup.of_append_right).1

/-- A cluster written before, now counted as one still to be written. -/
theorem Grown.shift (h : Grown s s' c₀ (p ++ [c]) q r) : Grown s s' c₀ p (c :: q) r := by
  obtain ⟨hm, hchain, hfree, hframe⟩ := h
  rw [append_assoc p, singleton_append] at hchain hframe
  exact ⟨hm, hchain, hfree, hframe.mono (List.Subset.refl _) (subset_cons_self c _)⟩

theorem Grown.trans (h : Grown s s₁ c₀ p q r) (h' : Grown s₁ s' c₀ p (q ++ r) r₁) :
    Grown s s' c₀ p q (r ++ r₁) := by
  obtain ⟨hm', hchain, hfree, hframe⟩ := h'
  rw [h.mounted.g] at hchain hfree hframe
  rw [← append_assoc p, append_assoc] at hchain hframe
  rw [append_assoc q] at hframe
  refine ⟨h.mounted.trans hm', hchain, ?_, ?_⟩
  · intro x hx
    rcases mem_append.mp hx with hx | hx
    · exact h.free x hx
    -- a free cluster is in no chain, so its entry was not changed before
    have hin : InRange s.g x := hchain.mem_ok (mem_append_right _ (mem_append_right _ hx))
    have hout : x ∉ p ++ q ++ r := fun hmem => chain_not_free h.chain hmem (hfree x hx)
    rw [← h.frame.fat x hin hout]
    exact hfree x hx
  · refine (h.frame.mono ?_ ?_).trans hframe
    all_goals
      rw [← append_assoc]
      exact subset_append_left _ _

/-- A new cluster behind the last one. -/
theorem Grown.link {x : Nat} (h : GeomOk s.g s.capacity)
    (hl : VChain s.g (volOf s.g s.disk) c₀ (p ++ [prev])) (hs₁ : allocCluster noFaults s = (s₁, x))
    (hm : Mounted s s₁) (ha : Allocated s s₁ x) :
    Grown s (setFatEntry noFaults s₁ prev x).1 c₀ (p ++ [prev]) [] [x] := by
  have hin : InRange s.g prev := hl.mem_ok (by simp)
  have hend : isEndCluster ((volOf s.g s.disk).fat prev) = true := by
    cases hl.drop with
    | last _ hfin => exact hfin
    | link _ htail => cases htail
  have hnot : x ∉ p ++ [prev] := fun hmem => chain_not_free hl hmem ha.free
  have hne : prev ≠ x := fun heq => hnot (by simp [heq])
  have halloc : Frame s.g [x] [x] s.disk s₁.disk := by
    have hframe := frame_allocCluster noFaults h
    rwa [hs₁] at hframe
  have hset := @frame_setFatEntry s₁ prev noFaults (by rwa [hm.g, hm.capacity]) (by rwa [hm.g]) x
  obtain ⟨s', hs', hm', -, hfat, -⟩ := @setFatEntry_spec s₁ prev (by rwa [hm.g, hm.capacity])
    (by rwa [hm.g]) x
  rw [hm.g] at hset hfat
  rw [hs'] at hset ⊢
  refine ⟨hm.trans hm', ?_, ?_, ?_⟩
  · rw [append_nil]
    have hl₁ := halloc.chain hl fun y hy hyx => hnot (mem_singleton.mp hyx ▸ hy)
    have hend₁ : isEndCluster ((volOf s.g s₁.disk).fat prev) = true := by
      rwa [halloc.fat prev hin (by simpa using hne)]
    refine Chain.extend h.numbers.sep hl₁ (by simp) hend₁ ha.inRange ?_ ?_ ?_
    · rw [hset.fat x ha.inRange (by simpa using hne.symm), ha.fat]
      decide
    · rw [hfat, Nat.mod_eq_of_lt (ha.inRange.lt h.numbers)]
    · intro z hz hzp
      exact hset.fat z (hl₁.mem_ok hz) (by simpa using hzp)
  · intro y hy
    rw [mem_singleton.mp hy]
    exact ha.free
  · exact (halloc.mono (by simp) (by simp)).trans (hset.mono (by simp) (by simp))

theorem clusterToWrite_grown (h : GeomOk s.g s.capacity)
    (hl : VChain s.g (volOf s.g s.disk) c₀ (p ++ q))
    (hat : Position s.g (volOf s.g s.disk) p q c prev) :
    ∃ s' o r, clusterToWrite noFaults s c prev = (s', o) ∧ Grown s s' c₀ p q r ∧
      ∀ c', o = some c' → ∃ q', q ++ r = c' :: q' := by
  cases hat with
  | inside hc =>
    have hgo : ¬ (isEndCluster c = true ∨ c = 0) := by
      rintro (hend | rfl)
      · exact h.numbers.sep c hc.head_ok hend
      · exact not_chain_zero hc
    refine ⟨s, some c, [], by rw [clusterToWrite, if_neg hgo], .refl hl, fun c' hc' => ?_⟩
    obtain rfl := Option.some.inj hc'
    cases hc with
    | last => exact ⟨[], rfl⟩
    | link => exact ⟨_, append_nil _⟩
  | @behind p c prev hend =>
    obtain ⟨s₁, x, hs₁, hm, ⟨rfl, hd, -⟩ | ha⟩ := allocCluster_spec h
    · refine ⟨s₁, none, [], by simp [clusterToWrite, hend, hs₁], ?_, by simp⟩
      refine ⟨hm, ?_, by simp, ?_⟩
      · rwa [hd, append_nil]
      · rw [hd]
        exact .refl
    · rw [append_nil] at hl
      have hx : x ≠ 0 := by
        rintro rfl
        exact not_inRange_zero ha.inRange
      have hp : prev ≠ 0 := by
        rintro rfl
        exact not_inRange_zero (hl.mem_ok (by simp))
      refine ⟨_, some x, [x], by simp [clusterToWrite, hend, hs₁, hx, hp], .link h hl hs₁ hm ha, ?_⟩
      intro c' hc'
      exact ⟨[], by rw [Option.some.inj hc']; rfl⟩

/-- Data written to the cluster in front of `q`; the loop goes on behind it. -/
theorem writeSectors_grown (data : List UInt8) (h : GeomOk s.g s.capacity)
    (hl : VChain s.g (volOf s.g s.disk) c₀ (p ++ c :: q)) :
    ∃ s', writeSectors noFaults s.g.sectorsPerCluster (clusterToSector s.g c) data s =
        (s', some (data.drop (512 * s.g.sectorsPerCluster))) ∧
      Grown s (nextCluster noFaults s' c).1 c₀ p (c :: q) [] ∧
      data.take (512 * s.g.sectorsPerCluster) <+:
        clusterBytes s.g (nextCluster noFaults s' c).1.disk c ∧
      Position s.g (volOf s.g (nextCluster noFaults s' c).1.disk) (p ++ [c]) q
        (nextCluster noFaults s' c).2 c := by
  have hc : InRange s.g c := hl.mem_ok (by simp)
  have h1 := hc.cluster_le
  have h2 := h.data_room
  have h3 := h.data_lt
  obtain ⟨s', hs', hm, hout⟩ := writeSectors_spec (s := s) s.g.sectorsPerCluster
    (s.g.dataStart + (c - 2) * s.g.sectorsPerCluster) data (by omega) (by omega)
  obtain ⟨-, -, -, hstarts⟩ := writeSectors_some hs' (by omega)
  have hframe : Frame s.g [] [c] s.disk s'.disk :=
    frame_data h hc fun i hi => hout i (by unfold clusterAddr at hi; omega)
  have hl' := hframe.chain hl (by simp)
  obtain ⟨hnext, hm', hd⟩ := nextCluster_spec (s := s') (c := c) (by rwa [hm.g, hm.capacity])
    (by rwa [hm.g])
  rw [hm.g] at hnext
  rw [clusterToSector_eq hc h]
  refine ⟨s', hs', ⟨hm.trans hm', ?_, by simp, ?_⟩, ?_, ?_⟩
  · rwa [hd, append_nil]
  · rw [hd]
    exact hframe.mono (by simp) (by simp)
  · rwa [hd]
  · rw [hd, hnext]
    cases hl'.drop with
    | last _ hfin => exact .behind hfin
    | link _ htail => exact .inside htail

/-- The loop of `write_file`: each round writes at least one byte. -/
theorem writeLoop_chain {fuel : Nat} {data : List UInt8} (h : GeomOk s.g s.capacity)
    (hl : VChain s.g (volOf s.g s.disk) c₀ (p ++ q))
    (hat : Position s.g (volOf s.g s.disk) p q c prev)
    (hfuel : data.length < fuel) : ∃ s' b r, writeLoop noFaults fuel c prev data s = some (s', b) ∧
      Grown s s' c₀ p q r ∧ (b = true → data <+: contents s.g s'.disk (q ++ r)) := by
  induction fuel generalizing s c prev p q data with
  | zero => omega
  | succ fuel ih =>
    rw [writeLoop]
    split
    · rename_i hnil
      exact ⟨s, true, [], rfl, .refl hl, by simp [hnil]⟩
    rename_i hdata
    obtain ⟨s₁, o, r₁, hs₁, hgrown₁, ho⟩ := clusterToWrite_grown h hl hat
    rw [hs₁]
    cases o with
    | none => exact ⟨s₁, false, r₁, rfl, hgrown₁, by simp⟩
    | some c' =>
      obtain ⟨q', hq'⟩ := ho c' rfl
      have hm₁ := hgrown₁.mounted
      have hl₁ := hgrown₁.chain
      rw [append_assoc, hq', ← hm₁.g] at hl₁
      obtain ⟨s₂, hs₂, hgrown₂, hstarts, hat₂⟩ :=
        writeSectors_grown data (by rwa [hm₁.g, hm₁.capacity]) hl₁
      have hm := hm₁.trans hgrown₂.mounted
      have hl₂ := hgrown₂.chain
      simp only [hs₂]
      generalize hs₃ : nextCluster noFaults s₂ c' = n at *
      rw [hm₁.g] at hl₂ hat₂ hstarts
      have hspc := h.spc_pos
      have hpos := length_pos_of_ne_nil hdata
      -- the rest of the data goes behind `c'`
      have hrest := @ih n.1 n.2 c' (p ++ [c']) q' (data.drop (512 * s₁.g.sectorsPerCluster))
      rw [hm.g, hm.capacity, length_drop, hm₁.g] at hrest
      obtain ⟨s', b, r₂, hs', hgrown₃, hb⟩ := hrest h (by simpa using hl₂) hat₂ (by omega)
      have hall := hgrown₂.trans (append_nil (c' :: q') ▸ hgrown₃.shift)
      rw [← hq'] at hall
      refine ⟨s', b, r₁ ++ r₂, by rw [hm₁.g]; exact hs', hgrown₁.trans hall, fun hbt => ?_⟩
      have hkeep := hgrown₃.keeps_written (by rw [hm.g]; exact h.numbers)
      rw [hm.g] at hkeep
      rw [← append_assoc, hq', cons_append, contents_cons, hkeep]
      exact starts_append hstarts (length_bytesAt ..) (hb hbt)

end

end HackersOs.L4.Fat

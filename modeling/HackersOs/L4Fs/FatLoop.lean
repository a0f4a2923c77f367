import HackersOs.L4Fs.FatFaults
import Mathlib.Logic.Relation

/-!
# Writing a file while requests fail

`write_file` ignores what `set_fat_entry` returns, and `next_cluster` makes an end mark
of a FAT sector that it cannot read. A write that returns true need not have stored the
data.

A round keeps one of three invariants of the loop.

* `Good`: the clusters written start the chain of the file and hold what was written.
* `Short`: a new cluster was not linked behind the last one, or the last one was taken
  again. The chain stays shorter than the data, or runs in a circle (`short_loop`).
* `Frozen`: a new cluster was not linked in the middle of the chain, after a failed read
  of the FAT. The old clusters behind it stay (`frozen_loop`).

`writeLoop_iff` says which of them a loop ends in, `write_faults_iff` what this means
for the call.
-/
namespace HackersOs.L4.Fat
open HackersOs.Core Relation List

variable {fuel : Nat} {s' s₁ : Fs}

/-! ## Chains and counts -/

/-- The clusters that the FAT leads to from `c` on, up to a number that is no cluster. -/
abbrev Walk (g : Geom) (v : Vol) (c : Nat) (l : List Nat) : Prop :=
  Chain v.fat (InRange g) (fun x => ¬ InRange g x) c l

theorem walk_sep {g : Geom} : ∀ x, InRange g x → ¬ ¬ InRange g x := fun _ hx hn => hn hx

theorem walk_of_chain {g : Geom} {v : Vol} {c : Nat} {l : List Nat} (hg : Numbers g)
    (h : VChain g v c l) : Walk g v c l := by
  induction h with
  | last hc hfin => exact .last hc fun hin => hg.sep _ hin hfin
  | link hc _ ih => exact .link hc ih

/-- Read without failures: the chain from `c` ends, so it has no cycle (`Chain.nodup`), and
`data` is what its clusters start with. -/
def Holds (g : Geom) (m : Mem) (c : Nat) (data : List UInt8) : Prop :=
  ∃ l, Walk g (volOf g m) c l ∧ data <+: contents g m l

theorem contents_append (g : Geom) (m : Mem) (l r : List Nat) :
    contents g m (l ++ r) = contents g m l ++ contents g m r := flatMap_append

/-- Of the data `all`, `done` went to `k` clusters of `n` bytes and `rest` is left. -/
structure Counted (n : Nat) (all done rest : List UInt8) (k : Nat) : Prop where
  whole : all = done ++ rest
  count : k * n < done.length + n
  full : rest ≠ [] → done.length = k * n

theorem Counted.step {n k : Nat} {all done rest : List UInt8} (h : Counted n all done rest k)
    (hn : 0 < n) (hrest : rest ≠ []) : Counted n all (done ++ rest.take n) (rest.drop n) (k + 1) := by
  have hlen := h.full hrest
  have hpos := length_pos_of_ne_nil hrest
  refine ⟨?_, ?_, fun hmore => ?_⟩
  · rw [append_assoc, take_append_drop]
    exact h.whole
  · rw [length_append, length_take, hlen, Nat.succ_mul]
    omega
  · have hdrop := length_pos_of_ne_nil hmore
    rw [length_drop] at hdrop
    rw [length_append, length_take, hlen, Nat.succ_mul]
    omega

/-- The loop behind a cluster that it took: nothing of the old chain follows. -/
structure Loose (g : Geom) (σ : Loop) : Prop where
  inRange : InRange g σ.prev
  fat : Needs ((volOf g σ.fs.disk).fat σ.prev) ∨ (volOf g σ.fs.disk).fat σ.prev = σ.prev
  cluster : Needs σ.cluster ∨ σ.cluster = σ.prev

section
variable {flt : Nat → Bool} {g : Geom} {σ σ' : Loop}

theorem needs_endMark : Needs 0x0FFFFFF8 := .inl endMark

theorem After.loose (h : After g σ σ') (hin : InRange g σ'.prev)
    (hfat : Needs ((volOf g σ'.fs.disk).fat σ'.prev) ∨ (volOf g σ'.fs.disk).fat σ'.prev = σ'.prev) :
    Loose g σ' := by
  refine ⟨hin, hfat, ?_⟩
  rcases h.goesOn with heq | heq
  · rw [heq]
    exact hfat
  · rw [heq]
    exact .inl needs_endMark

theorem Taken.loose (ht : Taken flt σ.fs s₁ σ'.fs σ.prev σ'.prev) (ha : After σ.fs.g σ σ') :
    Loose σ.fs.g σ' := by
  refine ha.loose ht.inRange ?_
  by_cases hself : σ'.prev ≠ σ.prev ∨ ¬ Updates flt s₁
  · exact .inl (ht.mark hself)
  · obtain ⟨heq, hok⟩ := not_or.mp hself
    have hlink := ht.link (not_not.mp hok)
    rw [← not_not.mp heq] at hlink
    exact .inr hlink

/-- What a round from there changes: the cluster it took again, or a new one. -/
structure Stray (g : Geom) (σ σ' : Loop) : Prop where
  mounted : Mounted σ.fs σ'.fs
  loose : Loose g σ'
  after : After g σ σ'
  frame : Frame g [σ.prev, σ'.prev] [σ'.prev] σ.fs.disk σ'.fs.disk
  new : σ'.prev ≠ σ.prev → (volOf g σ.fs.disk).fat σ'.prev = 0 ∧
    Needs ((volOf g σ'.fs.disk).fat σ'.prev) ∧
    ((volOf g σ'.fs.disk).fat σ.prev = σ'.prev ∨
      (volOf g σ'.fs.disk).fat σ.prev = (volOf g σ.fs.disk).fat σ.prev)

theorem Taken.stray (ht : Taken flt σ.fs s₁ σ'.fs σ.prev σ'.prev) (ha : After σ.fs.g σ σ') :
    Stray σ.fs.g σ σ' := by
  refine ⟨ht.mounted, ht.loose ha, ha, ht.frame, fun hne => ⟨ht.free, ht.mark (.inl hne), ?_⟩⟩
  by_cases hok : Updates flt s₁
  · exact .inl (ht.link hok)
  · exact .inr (ht.nolink hok hne)

theorem Loose.round (h : GeomOk σ.fs.g σ.fs.capacity) (hl : Loose σ.fs.g σ) (hr : Round flt σ σ') :
    Stray σ.fs.g σ σ' := by
  rcases hl.cluster with hneed | hprev
  · obtain ⟨-, ht, ha⟩ := hr.taken h hneed hl.inRange
    exact ht.stray ha
  -- the FAT leads from the cluster to itself
  obtain ⟨heq, hm, hframe, ha⟩ := hr.inside h (by rw [hprev]; exact hl.inRange)
  rw [hprev] at heq hframe
  refine ⟨hm, ha.loose (by rw [heq]; exact hl.inRange) ?_, ha, ?_, fun hne => absurd heq hne⟩
  · rw [heq, hframe.fat _ hl.inRange not_mem_nil]
    exact hl.fat
  · rw [heq]
    exact hframe.mono (by simp) (by simp)

end

/-- A cluster that leads to itself starts no chain that ends. -/
theorem not_walk_self {g : Geom} {v : Vol} {z : Nat} {l : List Nat} (hz : v.fat z = z) :
    ¬ Walk g v z l := by
  intro hl
  cases hl with
  | last hin hout =>
    rw [hz] at hout
    exact hout hin
  | link hin htail =>
    rw [hz] at htail
    have hlen := congrArg List.length (Chain.unique walk_sep htail (.link hin (by rwa [hz])))
    simp at hlen

/-! ## A chain that is too short -/

/-- The chain from `c₀` ends at `z` or runs in a circle there, with fewer clusters than
were written. -/
structure Short (g : Geom) (cap c₀ : Nat) (all : List UInt8) (σ : Loop) (w : List Nat) (z : Nat) :
    Prop where
  geom : σ.fs.g = g
  capacity : σ.fs.capacity = cap
  front : Chain (volOf g σ.fs.disk).fat (InRange g) (fun _ => True) c₀ (w ++ [z])
  nodup : (w ++ [z]).Nodup
  few : ∃ done k, Counted (512 * g.sectorsPerCluster) all done σ.data k ∧ w.length + 1 < k
  stop : Needs ((volOf g σ.fs.disk).fat z) ∨ (volOf g σ.fs.disk).fat z = z
  off : σ.prev = z ∨ σ.prev ∉ w ++ [z]
  loose : Loose g σ

section
variable {flt : Nat → Bool} {g : Geom} {cap c₀ z : Nat} {all : List UInt8} {σ σ' : Loop}
  {w : List Nat}

theorem Short.count (h : Short g cap c₀ all σ w z) (hg : GeomOk g cap) (hdata : σ.data ≠ [])
    (hs : Stray g σ σ') :
    ∃ done k, Counted (512 * g.sectorsPerCluster) all done σ'.data k ∧ w.length + 2 < k := by
  obtain ⟨done, k, hcount, hk⟩ := h.few
  have hcount' := hcount.step (Nat.mul_pos (by decide) hg.spc_pos) hdata
  rw [← hs.after.rest] at hcount'
  exact ⟨_, _, hcount', Nat.succ_lt_succ hk⟩

theorem Short.prev_off (h : Short g cap c₀ all σ w z) : σ.prev ∉ w := by
  rcases h.off with hz | hoff
  · rw [hz]
    exact fun hmem => (nodup_append.mp h.nodup).2.2 z hmem z (mem_singleton_self z) rfl
  · exact fun hmem => hoff (mem_append_left _ hmem)

/-- The entries in front of `z` stay as they are. -/
theorem Short.front_kept (h : Short g cap c₀ all σ w z) (hs : Stray g σ σ') (hx : σ'.prev ∉ w) :
    ∀ y ∈ w, (volOf g σ'.fs.disk).fat y = (volOf g σ.fs.disk).fat y := by
  intro y hy
  refine hs.frame.fat y (h.front.mem_ok (mem_append_left _ hy)) ?_
  rw [mem_pair]
  rintro (rfl | rfl)
  · exact h.prev_off hy
  · exact hx hy

/-- A round that leaves the chain as it is. -/
theorem Short.stay (h : Short g cap c₀ all σ w z) (hg : GeomOk g cap) (hdata : σ.data ≠ [])
    (hs : Stray g σ σ') (hx : σ'.prev ∉ w)
    (hstop : Needs ((volOf g σ'.fs.disk).fat z) ∨ (volOf g σ'.fs.disk).fat z = z) :
    Short g cap c₀ all σ' w z := by
  obtain ⟨done, k, hcount, hk⟩ := h.count hg hdata hs
  refine ⟨hs.mounted.g.trans h.geom, hs.mounted.capacity.trans h.capacity,
    h.front.congr_front (h.front_kept hs hx) trivial, h.nodup, ⟨done, k, hcount, by omega⟩, hstop, ?_,
    hs.loose⟩
  by_cases hz : σ'.prev = z
  · exact .inl hz
  · exact .inr (by simp [hx, hz])

/-- A round that links a new cluster behind `z`: one more in the chain, and one more
written. -/
theorem Short.grow (h : Short g cap c₀ all σ w z) (hg : GeomOk g cap) (hdata : σ.data ≠ [])
    (hs : Stray g σ σ') (hx : σ'.prev ∉ w) (hxz : σ'.prev ≠ z)
    (hlink : (volOf g σ'.fs.disk).fat z = σ'.prev)
    (hmark : Needs ((volOf g σ'.fs.disk).fat σ'.prev)) :
    Short g cap c₀ all σ' (w ++ [z]) σ'.prev := by
  obtain ⟨done, k, hcount, hk⟩ := h.count hg hdata hs
  refine ⟨hs.mounted.g.trans h.geom, hs.mounted.capacity.trans h.capacity,
    h.front.snoc (h.front_kept hs hx) hlink hs.loose.inRange trivial, ?_, ⟨done, k, hcount, ?_⟩,
    .inl hmark, .inl rfl, hs.loose⟩
  · refine nodup_append.mpr ⟨h.nodup, nodup_singleton _, ?_⟩
    intro a ha b hb hab
    rw [mem_singleton.mp hb] at hab
    rw [hab] at ha
    simp [hx, hxz] at ha
  · rw [length_append, length_singleton]
    exact hk

theorem Short.round (h : Short g cap c₀ all σ w z) (hg : GeomOk g cap) (hr : Round flt σ σ') :
    ∃ w' z', Short g cap c₀ all σ' w' z' := by
  have hs : Stray g σ σ' := by
    have hloose := h.loose
    rw [← h.geom] at hloose ⊢
    exact hloose.round (by rwa [h.geom, h.capacity]) hr
  have hzin : InRange g z := h.front.mem_ok (by simp)
  by_cases hsame : σ'.prev = σ.prev
  · -- the cluster just written was taken or written again
    refine ⟨w, z, h.stay hg hr.1 hs (hsame ▸ h.prev_off) ?_⟩
    by_cases hz : z = σ'.prev
    · rw [hz]
      exact hs.loose.fat
    · rw [hs.frame.fat z hzin (by simp [← hsame, hz])]
      exact h.stop
  · obtain ⟨hfree, hmark, hlink⟩ := hs.new hsame
    have hx : σ'.prev ∉ w := by
      intro hx
      have hok := h.front.front_next hx
      rw [hfree] at hok
      exact not_inRange_zero hok
    by_cases hxz : σ'.prev = z
    · exact ⟨w, z, h.stay hg hr.1 hs hx (.inl (hxz ▸ hmark))⟩
    rcases h.off with hz | hoff
    · rw [hz] at hlink
      rcases hlink with hlink | hlink
      · exact ⟨_, _, h.grow hg hr.1 hs hx hxz hlink hmark⟩
      · exact ⟨w, z, h.stay hg hr.1 hs hx (hlink ▸ h.stop)⟩
    · have hpz : z ≠ σ.prev := fun heq => hoff (by simp [heq])
      refine ⟨w, z, h.stay hg hr.1 hs hx ?_⟩
      rw [hs.frame.fat z hzin (by simp [hpz, Ne.symm hxz])]
      exact h.stop

theorem contents_le {m : Mem} {l : List Nat} {data : List UInt8} (h : data <+: contents g m l) :
    data.length ≤ 512 * g.sectorsPerCluster * l.length := by
  have hle := h.length_le
  rwa [length_contents] at hle

theorem Short.not_stored (h : Short g cap c₀ all σ w z) (hend : σ.data = []) (hg : GeomOk g cap) :
    ¬ Holds g σ.fs.disk c₀ all := by
  rintro ⟨l, hl, hall⟩
  obtain ⟨q, rfl, hq⟩ := h.front.of_front hl walk_sep
  have hnil : q = [] := by
    cases hq with
    | last => rfl
    | link hz htail =>
      rcases h.stop with hneed | hself
      · exact absurd htail.head_ok (hneed.not_inRange hg.numbers)
      · exact absurd (.link hz htail) (not_walk_self hself)
  subst hnil
  obtain ⟨done, k, hcount, hk⟩ := h.few
  have hwhole := hcount.whole
  rw [hend, append_nil] at hwhole
  have hle := contents_le hall
  rw [hwhole, length_append, length_singleton] at hle
  have hmul := mul_add_le (show w.length + 1 < k from hk) (512 * g.sectorsPerCluster)
  have hcnt := hcount.count
  rw [Nat.mul_comm _ (w.length + 1)] at hle
  omega

theorem short_loop (h : Short g cap c₀ all σ w z) (hg : GeomOk g cap)
    (hret : writeLoop flt fuel σ.cluster σ.prev σ.data σ.fs = some (s', true)) :
    ¬ Holds g s'.disk c₀ all := by
  induction fuel generalizing σ w z with
  | zero => cases hret
  | succ fuel ih =>
    rcases writeLoop_true hret with ⟨hend, rfl⟩ | ⟨fuel', σ', hfuel, hr, hret'⟩
    · exact h.not_stored hend hg
    · obtain rfl := Nat.succ.inj hfuel
      obtain ⟨w', z', h'⟩ := h.round hg hr
      exact ih h' hret'

end

/-! ## A chain that is left behind -/

/-- The loop went on outside the chain `l` from `c₀`, none of whose clusters is free. -/
structure Frozen (g : Geom) (cap c₀ : Nat) (σ : Loop) (l : List Nat) : Prop where
  geom : σ.fs.g = g
  capacity : σ.fs.capacity = cap
  walk : Walk g (volOf g σ.fs.disk) c₀ l
  used : ∀ y ∈ l, (volOf g σ.fs.disk).fat y ≠ 0
  off : σ.prev ∉ l
  loose : Loose g σ

section
variable {flt : Nat → Bool} {g : Geom} {cap c₀ : Nat} {σ σ' : Loop} {l : List Nat}

theorem Frozen.round (h : Frozen g cap c₀ σ l) (hg : GeomOk g cap) (hr : Round flt σ σ') :
    Frozen g cap c₀ σ' l ∧ contents g σ'.fs.disk l = contents g σ.fs.disk l := by
  obtain ⟨rfl, rfl, hwalk, hused, hoff, hloose⟩ := h
  have hs := hloose.round hg hr
  have hx : σ'.prev ∉ l := by
    intro hx
    by_cases hsame : σ'.prev = σ.prev
    · exact hoff (hsame ▸ hx)
    · exact hused _ hx (hs.new hsame).1
  have hout : ∀ y ∈ l, y ∉ [σ.prev, σ'.prev] := by
    intro y hy
    rw [mem_pair]
    rintro (rfl | rfl)
    · exact hoff hy
    · exact hx hy
  have hfat : ∀ y ∈ l, (volOf σ.fs.g σ'.fs.disk).fat y = (volOf σ.fs.g σ.fs.disk).fat y :=
    fun y hy => hs.frame.fat y (hwalk.mem_ok hy) (hout y hy)
  refine ⟨⟨hs.mounted.g, hs.mounted.capacity, hwalk.congr hfat, fun y hy => ?_, hx, hs.loose⟩, ?_⟩
  · rw [hfat y hy]
    exact hused y hy
  · refine hs.frame.contents fun y hy => ⟨hwalk.mem_ok hy, fun hmem => ?_⟩
    exact hx (mem_singleton.mp hmem ▸ hy)

theorem frozen_loop (h : Frozen g cap c₀ σ l) (hg : GeomOk g cap)
    (hret : writeLoop flt fuel σ.cluster σ.prev σ.data σ.fs = some (s', true)) :
    Walk g (volOf g s'.disk) c₀ l ∧ contents g s'.disk l = contents g σ.fs.disk l := by
  induction fuel generalizing σ with
  | zero => cases hret
  | succ fuel ih =>
    rcases writeLoop_true hret with ⟨-, rfl⟩ | ⟨fuel', σ', hfuel, hr, hret'⟩
    · exact ⟨h.walk, rfl⟩
    · obtain rfl := Nat.succ.inj hfuel
      obtain ⟨h', hsame⟩ := h.round hg hr
      obtain ⟨hwalk, hcont⟩ := ih h' hret'
      exact ⟨hwalk, hcont.trans hsame⟩

end

/-! ## A chain that holds the data -/

/-- The clusters `w`, which start the chain `w ++ t` from `c₀`, hold what was written so
far; the loop is in front of `t` or takes a new cluster behind `w`. -/
structure Good (g : Geom) (cap c₀ : Nat) (all : List UInt8) (σ : Loop) (w t : List Nat)
    (done : List UInt8) : Prop where
  geom : σ.fs.g = g
  capacity : σ.fs.capacity = cap
  walk : Walk g (volOf g σ.fs.disk) c₀ (w ++ t)
  ends : ∀ y ∈ w ++ t, ¬ InRange g ((volOf g σ.fs.disk).fat y) → Needs ((volOf g σ.fs.disk).fat y)
  tail : ∀ y ∈ t, (volOf g σ.fs.disk).fat y ≠ 0
  counted : Counted (512 * g.sectorsPerCluster) all done σ.data w.length
  stored : done <+: contents g σ.fs.disk w
  pos : (∃ t', t = σ.cluster :: t') ∨ Needs σ.cluster ∧ ∃ w₀, w = w₀ ++ [σ.prev]

section
variable {flt : Nat → Bool} {g : Geom} {cap c₀ : Nat} {all done : List UInt8} {σ σ' : Loop}
  {w w₀ t : List Nat}

/-- While data is left, the clusters written are full. -/
theorem Good.contents_eq (h : Good g cap c₀ all σ w t done) (hdata : σ.data ≠ []) :
    contents g σ.fs.disk w = done := by
  refine (h.stored.eq_of_length ?_).symm
  rw [length_contents, h.counted.full hdata, Nat.mul_comm]

/-- One more cluster that starts with the data. -/
theorem Good.stored_step (h : Good g cap c₀ all σ w t done) (hdata : σ.data ≠ []) {y : Nat}
    (hframe : contents g σ'.fs.disk w = contents g σ.fs.disk w)
    (hstarts : σ.data.take (512 * g.sectorsPerCluster) <+: clusterBytes g σ'.fs.disk y) :
    done ++ σ.data.take (512 * g.sectorsPerCluster) <+: contents g σ'.fs.disk (w ++ [y]) := by
  have hlast : contents g σ'.fs.disk [y] = clusterBytes g σ'.fs.disk y := flatMap_singleton ..
  rw [contents_append, hlast, hframe, h.contents_eq hdata]
  exact (prefix_append_right_inj done).mpr hstarts

/-- A round inside the chain. -/
theorem Good.inside (h : Good g cap c₀ all σ w (σ.cluster :: t) done) (hg : GeomOk g cap)
    (hr : Round flt σ σ') : Good g cap c₀ all σ' (w ++ [σ.cluster]) t
      (done ++ σ.data.take (512 * g.sectorsPerCluster)) := by
  have hgood := h
  obtain ⟨rfl, rfl, hwalk, hends, htail, hcount, -, -⟩ := h
  have hin : InRange σ.fs.g σ.cluster := hwalk.mem_ok (by simp)
  obtain ⟨hprev, hm, hframe, ha⟩ := hr.inside hg hin
  have hfat : ∀ y, InRange σ.fs.g y →
      (volOf σ.fs.g σ'.fs.disk).fat y = (volOf σ.fs.g σ.fs.disk).fat y :=
    fun y hy => hframe.fat y hy not_mem_nil
  have happ : w ++ [σ.cluster] ++ t = w ++ σ.cluster :: t := by simp
  have hmem : ∀ y ∈ w ++ σ.cluster :: t, InRange σ.fs.g y := fun y hy => hwalk.mem_ok hy
  have hcount' := hcount.step (Nat.mul_pos (by decide) hg.spc_pos) hr.1
  rw [← ha.rest] at hcount'
  have hnodup := Chain.nodup walk_sep hwalk
  have hcw : σ.cluster ∉ w := fun hc =>
    (nodup_append.mp hnodup).2.2 _ hc _ mem_cons_self rfl
  have hkept : contents σ.fs.g σ'.fs.disk w = contents σ.fs.g σ.fs.disk w := by
    refine hframe.contents fun y hy => ⟨hmem y (mem_append_left _ hy), fun hc => ?_⟩
    exact hcw (mem_singleton.mp hc ▸ hy)
  have hstarts := ha.starts
  rw [hprev] at hstarts
  refine ⟨hm.g, hm.capacity, ?_, ?_, ?_, ?_, hgood.stored_step hr.1 hkept hstarts, ?_⟩
  · rw [happ]
    exact hwalk.congr fun y hy => hfat y (hmem y hy)
  · rw [happ]
    intro y hy
    rw [hfat y (hmem y hy)]
    exact hends y hy
  · intro y hy
    rw [hfat y (hmem y (by simp [hy]))]
    exact htail y (mem_cons_of_mem _ hy)
  · rwa [length_append, length_singleton]
  · have hgo := ha.goesOn
    rw [hprev, hfat _ hin] at hgo
    rcases hgo with heq | heq
    · cases hwalk.drop with
      | last _ hfin =>
        refine .inr ⟨?_, w, by rw [hprev]⟩
        rw [heq]
        exact hends _ (by simp) hfin
      | link _ hnext =>
        refine .inl ?_
        rw [heq]
        cases hnext with
        | last => exact ⟨[], rfl⟩
        | link => exact ⟨_, rfl⟩
    · exact .inr ⟨heq ▸ needs_endMark, w, by rw [hprev]⟩

/-- The clusters in front of the last one written are not free. -/
theorem Good.front_used (h : Good g cap c₀ all σ (w₀ ++ [σ.prev]) t done) {y : Nat} (hy : y ∈ w₀) :
    InRange g ((volOf g σ.fs.disk).fat y) := by
  have hwalk := h.walk
  rw [append_assoc, singleton_append] at hwalk
  exact hwalk.front.front_next hy

/-- A new cluster behind `prev` leaves the clusters in front of it alone. -/
theorem Good.front_kept (h : Good g cap c₀ all σ (w₀ ++ [σ.prev]) t done)
    (ht : Taken flt σ.fs s₁ σ'.fs σ.prev σ'.prev) : σ.prev ∉ w₀ ∧ σ'.prev ∉ w₀ ∧
      ∀ y ∈ w₀, (volOf g σ'.fs.disk).fat y = (volOf g σ.fs.disk).fat y := by
  have hnodup := Chain.nodup walk_sep h.walk
  have hpw : σ.prev ∉ w₀ := fun hp =>
    (nodup_append.mp (nodup_append.mp hnodup).1).2.2 _ hp _ (mem_singleton_self _) rfl
  have hxw : σ'.prev ∉ w₀ := by
    intro hx
    have hin := h.front_used hx
    have hfree := ht.free
    rw [h.geom] at hfree
    rw [hfree] at hin
    exact not_inRange_zero hin
  refine ⟨hpw, hxw, fun y hy => ?_⟩
  have hframe := ht.frame
  rw [h.geom] at hframe
  refine hframe.fat y (h.walk.mem_ok (by simp [hy])) ?_
  rw [mem_pair]
  rintro (rfl | rfl)
  · exact hpw hy
  · exact hxw hy

/-- A round that takes a new cluster and links it. -/
theorem Good.linked (h : Good g cap c₀ all σ (w₀ ++ [σ.prev]) t done) (hg : GeomOk g cap)
    (hdata : σ.data ≠ []) (ht : Taken flt σ.fs s₁ σ'.fs σ.prev σ'.prev) (ha : After σ.fs.g σ σ')
    (hne : σ'.prev ≠ σ.prev) (hok : Updates flt s₁) :
    Good g cap c₀ all σ' (w₀ ++ [σ.prev] ++ [σ'.prev]) []
      (done ++ σ.data.take (512 * g.sectorsPerCluster)) := by
  obtain ⟨-, hxw, hfat⟩ := h.front_kept ht
  have hgood := h
  obtain ⟨rfl, rfl, hwalk, hends, -, hcount, -, -⟩ := h
  have hmem : ∀ y ∈ w₀ ++ [σ.prev], InRange σ.fs.g y := fun y hy =>
    hwalk.mem_ok (mem_append_left _ hy)
  have hmark := ht.mark (.inl hne)
  have hlink := ht.link hok
  have hcount' := hcount.step (Nat.mul_pos (by decide) hg.spc_pos) hdata
  rw [← ha.rest] at hcount'
  have hkept : contents σ.fs.g σ'.fs.disk (w₀ ++ [σ.prev]) =
      contents σ.fs.g σ.fs.disk (w₀ ++ [σ.prev]) := by
    refine ht.frame.contents fun y hy => ⟨hmem y hy, fun hx => ?_⟩
    rw [mem_singleton.mp hx] at hy
    simp [hxw, hne] at hy
  rw [append_assoc w₀, singleton_append] at hwalk
  refine ⟨ht.mounted.g, ht.mounted.capacity, ?_, ?_, by simp, ?_,
    hgood.stored_step hdata hkept ha.starts, ?_⟩
  · rw [append_nil]
    exact hwalk.front.snoc hfat hlink ht.inRange (hmark.not_inRange hg.numbers)
  · intro y hy hout
    simp only [append_nil, mem_append, mem_singleton] at hy
    rcases hy with (hy | rfl) | rfl
    · rw [hfat y hy] at hout
      exact absurd (hgood.front_used hy) hout
    · rw [hlink] at hout
      exact absurd ht.inRange hout
    · exact hmark
  · rwa [length_append, length_singleton]
  · refine .inr ⟨?_, _, rfl⟩
    rcases ha.goesOn with heq | heq
    · rwa [heq]
    · exact heq ▸ needs_endMark

/-- A round that takes the cluster just written again, or links nothing behind the last
cluster of the chain. -/
theorem Good.short (h : Good g cap c₀ all σ (w₀ ++ [σ.prev]) t done) (hg : GeomOk g cap)
    (hdata : σ.data ≠ []) (ht : Taken flt σ.fs s₁ σ'.fs σ.prev σ'.prev) (ha : After σ.fs.g σ σ')
    (hbad : σ'.prev = σ.prev ∨ σ'.prev ≠ σ.prev ∧ ¬ Updates flt s₁ ∧ t = []) :
    Short g cap c₀ all σ' w₀ σ.prev := by
  obtain ⟨-, hxw, hfat⟩ := h.front_kept ht
  obtain ⟨rfl, rfl, hwalk, hends, -, hcount, -, -⟩ := h
  have hnodup := (nodup_append.mp (Chain.nodup walk_sep hwalk)).1
  have hloose := ht.loose ha
  have hcount' := hcount.step (Nat.mul_pos (by decide) hg.spc_pos) hdata
  rw [← ha.rest] at hcount'
  rw [append_assoc, singleton_append] at hwalk
  refine ⟨ht.mounted.g, ht.mounted.capacity, hwalk.front.congr_front hfat trivial, hnodup,
    ⟨_, _, hcount', by simp⟩, ?_, ?_, hloose⟩
  · rcases hbad with heq | ⟨hne, hfail, rfl⟩
    · rw [← heq]
      exact hloose.fat
    rw [ht.nolink hfail hne]
    refine .inl (hends _ (by simp) fun hin => ?_)
    cases hwalk.drop with
    | last _ hout => exact hout hin
    | link _ htail => cases htail
  · rcases hbad with heq | ⟨hne, -, -⟩
    · exact .inl heq
    · exact .inr (by simp [hxw, hne])

/-- A round that links nothing while clusters of the old chain follow. -/
theorem Good.frozen (h : Good g cap c₀ all σ (w₀ ++ [σ.prev]) t done)
    (ht : Taken flt σ.fs s₁ σ'.fs σ.prev σ'.prev) (ha : After σ.fs.g σ σ') (hne : σ'.prev ≠ σ.prev)
    (hfail : ¬ Updates flt s₁) (hold : t ≠ []) : Frozen g cap c₀ σ' (w₀ ++ [σ.prev] ++ t) ∧
      contents g σ'.fs.disk (w₀ ++ [σ.prev] ++ t) = contents g σ.fs.disk (w₀ ++ [σ.prev] ++ t) := by
  obtain ⟨-, hxw, hfat⟩ := h.front_kept ht
  have hgood := h
  obtain ⟨rfl, rfl, hwalk, -, htail, -, -, -⟩ := h
  have hprev : InRange σ.fs.g ((volOf σ.fs.g σ.fs.disk).fat σ.prev) := by
    have hdrop := hwalk
    rw [append_assoc, singleton_append] at hdrop
    cases hdrop.drop with
    | last => exact absurd rfl hold
    | link _ hnext => exact hnext.head_ok
  have hused : ∀ y ∈ w₀ ++ [σ.prev] ++ t, (volOf σ.fs.g σ.fs.disk).fat y ≠ 0 := by
    intro y hy h0
    simp only [mem_append, mem_singleton] at hy
    rcases hy with (hy | rfl) | hy
    · have hin := hgood.front_used hy
      rw [h0] at hin
      exact not_inRange_zero hin
    · rw [h0] at hprev
      exact not_inRange_zero hprev
    · exact htail y hy h0
  have hx : σ'.prev ∉ w₀ ++ [σ.prev] ++ t := fun hx => hused _ hx ht.free
  have hkeep : ∀ y ∈ w₀ ++ [σ.prev] ++ t,
      (volOf σ.fs.g σ'.fs.disk).fat y = (volOf σ.fs.g σ.fs.disk).fat y := by
    intro y hy
    by_cases hyp : y = σ.prev
    · rw [hyp]
      exact ht.nolink hfail hne
    refine ht.frame.fat y (hwalk.mem_ok hy) ?_
    rw [mem_pair]
    rintro (heq | rfl)
    · exact hyp heq
    · exact hx hy
  refine ⟨⟨ht.mounted.g, ht.mounted.capacity, hwalk.congr hkeep, fun y hy => ?_, hx, ht.loose ha⟩, ?_⟩
  · rw [hkeep y hy]
    exact hused y hy
  · refine ht.frame.contents fun y hy => ⟨hwalk.mem_ok hy, fun hmem => ?_⟩
    exact hx (mem_singleton.mp hmem ▸ hy)

/-- A round that links nothing: the loop goes on outside the chain, which holds the data
only if the clusters that follow did already. -/
theorem Good.unlinked (h : Good g cap c₀ all σ (w₀ ++ [σ.prev]) t done) (hg : GeomOk g cap)
    (hdata : σ.data ≠ []) (ht : Taken flt σ.fs s₁ σ'.fs σ.prev σ'.prev) (ha : After σ.fs.g σ σ')
    (hne : σ'.prev ≠ σ.prev) (hfail : ¬ Updates flt s₁)
    (hret : writeLoop flt fuel σ'.cluster σ'.prev σ'.data σ'.fs = some (s', true)) :
    Holds g s'.disk c₀ all ↔ Holds g σ.fs.disk ((volOf g σ.fs.disk).fat σ.prev) σ.data := by
  have hwalk := h.walk
  rw [append_assoc, singleton_append] at hwalk
  cases hwalk.drop with
  | last _ hout =>
    exact iff_of_false (short_loop (h.short hg hdata ht ha (.inr ⟨hne, hfail, rfl⟩)) hg hret)
      fun ⟨l, hl, _⟩ => hout hl.head_ok
  | link _ hnext =>
    have hold : t ≠ [] := ne_nil_of_mem hnext.head_mem
    obtain ⟨hfrozen, hsame⟩ := h.frozen ht ha hne hfail hold
    obtain ⟨hwalk', hcont⟩ := frozen_loop hfrozen hg hret
    rw [hsame, contents_append g σ.fs.disk, h.contents_eq hdata] at hcont
    constructor
    · rintro ⟨l, hl, hall⟩
      obtain rfl := Chain.unique walk_sep hl hwalk'
      rw [hcont, h.counted.whole, prefix_append_right_inj] at hall
      exact ⟨t, hnext, hall⟩
    · rintro ⟨l, hl, hrest⟩
      obtain rfl := Chain.unique walk_sep hl hnext
      refine ⟨_, hwalk', ?_⟩
      rw [hcont, h.counted.whole, prefix_append_right_inj]
      exact hrest

end

/-! ## The whole loop -/

section
variable (flt : Nat → Bool)

/-- If the next round takes a new cluster, this is not the one just written, and it is
linked behind that one. -/
def Links (σ : Loop) : Prop :=
  Needs σ.cluster → (allocCluster flt σ.fs).2 ≠ σ.prev ∧ Updates flt (allocCluster flt σ.fs).1

/-- Rounds that link the clusters they take. -/
def Steps : Loop → Loop → Prop := ReflTransGen fun σ σ' => Links flt σ ∧ Round flt σ σ'

/-- What keeps the next round from losing data: a new cluster is linked, or the clusters
that follow in the chain already hold the rest. -/
def Safe (σ : Loop) : Prop :=
  σ.data ≠ [] → Needs σ.cluster → (allocCluster flt σ.fs).2 ≠ 0 →
    (allocCluster flt σ.fs).2 ≠ σ.prev ∧ (Updates flt (allocCluster flt σ.fs).1 ∨
      Holds σ.fs.g σ.fs.disk ((volOf σ.fs.g σ.fs.disk).fat σ.prev) σ.data)

end

section
variable {flt : Nat → Bool} {g : Geom} {cap c₀ : Nat} {all done : List UInt8} {σ σ' τ : Loop}
  {w t : List Nat}

theorem steps_end (hend : σ.data = []) (h : Steps flt σ τ) : τ = σ := by
  rcases h.cases_head with heq | ⟨_, ⟨-, hr⟩, -⟩
  · exact heq.symm
  · exact absurd hend hr.1

/-- What holds along the steps holds now and, if the round links, after it. -/
theorem steps_iff {Q : Loop → Prop} (hr : Round flt σ σ') : (∀ τ, Steps flt σ τ → Q τ) ↔
    Q σ ∧ (Links flt σ → ∀ τ, Steps flt σ' τ → Q τ) := by
  constructor
  · intro h
    exact ⟨h σ .refl, fun hl τ hτ => h τ (.head ⟨hl, hr⟩ hτ)⟩
  rintro ⟨hnow, hthen⟩ τ hτ
  rcases hτ.cases_head with rfl | ⟨_, ⟨hl, hr'⟩, hrest⟩
  · exact hnow
  · rw [hr'.eq, ← hr.eq] at hrest
    exact hthen hl τ hrest

/-- A loop that returns true has stored the data iff every round it reaches by linking
rounds is safe. -/
theorem writeLoop_iff (h : Good g cap c₀ all σ w t done) (hg : GeomOk g cap)
    (hret : writeLoop flt fuel σ.cluster σ.prev σ.data σ.fs = some (s', true)) :
    Holds g s'.disk c₀ all ↔ ∀ τ, Steps flt σ τ → Safe flt τ := by
  induction fuel generalizing σ w t done with
  | zero => cases hret
  | succ fuel ih =>
    rcases writeLoop_true hret with ⟨hend, rfl⟩ | ⟨fuel', σ', hfuel, hr, hret'⟩
    · refine iff_of_true ⟨w ++ t, h.walk, ?_⟩ fun τ hτ => ?_
      · rw [h.counted.whole, hend, append_nil, contents_append]
        exact h.stored.trans (prefix_append _ _)
      · rw [steps_end hend hτ]
        exact fun hdata => absurd hend hdata
    · obtain rfl := Nat.succ.inj hfuel
      rw [steps_iff hr]
      rcases h.pos with ⟨t', rfl⟩ | ⟨hneed, w₀, rfl⟩
      · -- the round writes a cluster of the chain
        have hno : ¬ Needs σ.cluster := fun hneed =>
          hneed.not_inRange hg.numbers (h.walk.mem_ok (by simp))
        rw [ih (h.inside hg hr) hret']
        exact ⟨fun hall => ⟨fun _ hneed => absurd hneed hno, fun _ => hall⟩,
          fun hall => hall.2 fun hneed => absurd hneed hno⟩
      · have hgeom : GeomOk σ.fs.g σ.fs.capacity := by rwa [h.geom, h.capacity]
        have hprev : InRange σ.fs.g σ.prev := by
          rw [h.geom]
          exact h.walk.mem_ok (by simp)
        obtain ⟨hx, ht, ha⟩ := hr.taken hgeom hneed hprev
        have hx0 : σ'.prev ≠ 0 := fun h0 => not_inRange_zero (h0 ▸ ht.inRange)
        have hgeom := h.geom
        simp only [Safe, Links, hx]
        by_cases hne : σ'.prev = σ.prev
        · refine iff_of_false (short_loop (h.short hg hr.1 ht ha (.inl hne)) hg hret') fun hall => ?_
          exact (hall.1 hr.1 hneed hx0).1 hne
        by_cases hok : Updates flt (allocCluster flt σ.fs).1
        · rw [ih (h.linked hg hr.1 ht ha hne hok) hret']
          exact ⟨fun hall => ⟨fun _ _ _ => ⟨hne, .inl hok⟩, fun _ => hall⟩,
            fun hall => hall.2 fun _ => ⟨hne, hok⟩⟩
        · rw [h.unlinked hg hr.1 ht ha hne hok hret', hgeom]
          exact ⟨fun hold => ⟨fun _ _ _ => ⟨hne, .inr hold⟩, fun hl => absurd (hl hneed).2 hok⟩,
            fun hall => (hall.1 hr.1 hneed hx0).2.resolve_left hok⟩

/-- The loop at the start of a file's chain. -/
theorem good_start {s : Fs} {c : Nat} {l : List Nat} (h : GeomOk s.g s.capacity)
    (hl : VChain s.g (volOf s.g s.disk) c l) (data : List UInt8) :
    Good s.g s.capacity c data ⟨s, c, 0, data⟩ [] l [] where
  geom := rfl
  capacity := rfl
  walk := walk_of_chain h.numbers hl
  ends y hy hout := (hl.mem_next hy).elim .inl fun hin => absurd hin hout
  tail y hy h0 := by
    rcases hl.mem_next hy with hfin | hin
    · rw [h0] at hfin
      cases hfin
    · exact not_inRange_zero (h0 ▸ hin)
  counted := ⟨rfl, by have := h.spc_pos; simp; omega, fun _ => (Nat.zero_mul _).symm⟩
  stored := nil_prefix
  pos := by
    refine .inl ?_
    cases hl with
    | last => exact ⟨[], rfl⟩
    | link => exact ⟨_, rfl⟩

theorem writeFile_true {s : Fs} {path data : List UInt8}
    (h : writeFile flt fuel s path data = some (s', true)) :
    ∃ s₁ de, resolvePath flt fuel s path = some (s₁, some de) ∧ de.isDir = false ∧
      writeLoop flt fuel de.first 0 data s₁ = some (s', true) := by
  unfold writeFile at h
  split at h
  · cases h
  obtain ⟨⟨s₁, o⟩, hres, hwrite⟩ := Option.bind_eq_some_iff.mp h
  cases o with
  | none => cases hwrite
  | some de =>
    simp only at hwrite
    split at hwrite
    · cases hwrite
    · rename_i hdir
      exact ⟨s₁, de, hres, by simpa using hdir, hwrite⟩

end

/-- With any failing requests, a `write_file` that returns true has stored the data in the
chain of the file if and only if every round that it reaches by linking rounds is safe:
the cluster that the round takes is not the one just written, and the read and the write
by which `set_fat_entry` links it in the first FAT succeed (or the clusters that follow
already hold the rest of the data). -/
theorem write_faults_iff {flt : Nat → Bool} {fuel : Nat} {s s' : Fs} {path data : List UInt8}
    {e : DirEntry} (h : VolumeOk s) (hr : Resolves s.g (volOf s.g s.disk) path e) (h0 : e.first ≠ 0)
    (hret : writeFile flt fuel s path data = some (s', true)) : Holds s.g s'.disk e.first data ↔
      ∀ s₁ τ, resolvePath flt fuel s path = some (s₁, some e) →
        Steps flt ⟨s₁, e.first, 0, data⟩ τ → Safe flt τ := by
  obtain ⟨s₁, de, hres, hfile, hloop⟩ := writeFile_true hret
  obtain rfl := resolvePath_finds hr h.geom hres
  obtain ⟨l, hf⟩ := hr.isFile h.wf hfile h0
  have hreads := resolvePath_reads flt hres
  have hgood := @good_start s₁ de.first l
    (by rw [hreads.mounted.g, hreads.mounted.capacity]; exact h.geom)
    (by rw [hreads.mounted.g, hreads.disk]; exact hf.chain) data
  rw [hreads.mounted.g, hreads.mounted.capacity] at hgood
  rw [writeLoop_iff hgood h.geom hloop]
  constructor
  · intro hall s₂ τ hres₂
    rw [hres] at hres₂
    obtain rfl := (Prod.mk.inj (Option.some.inj hres₂)).1
    exact hall τ
  · exact fun hall τ => hall s₁ τ hres

/-- `write_file("/a", …)` with `n` bytes 1: what it returns and the entries of the
clusters 3 and 5. -/
def faultyWrite (flt : Nat → Bool) (n : Nat) : Option (Bool × Nat × Nat) :=
  (writeFile flt 10 demoFs [47, 97] (List.replicate n 1)).map fun r =>
    (r.2, (volOf demoGeom r.1.disk).fat 3, (volOf demoGeom r.1.disk).fat 5)

theorem faultyWrite_some {flt : Nat → Bool} {n f3 f5 : Nat}
    (h : faultyWrite flt n = some (true, f3, f5)) :
    ∃ s', writeFile flt 10 demoFs [47, 97] (List.replicate n 1) = some (s', true) ∧
      (volOf demoGeom s'.disk).fat 3 = f3 ∧ (volOf demoGeom s'.disk).fat 5 = f5 := by
  obtain ⟨⟨s', b⟩, hret, heq⟩ := Option.map_eq_some_iff.mp h
  simp only [Prod.mk.injEq] at heq
  obtain ⟨rfl, h3, h5⟩ := heq
  exact ⟨s', hret, h3, h5⟩

theorem demo_resolves : Resolves demoGeom (volOf demoGeom demoDisk) [47, 97] entryA := by
  refine .inr (.last demo_like.chains.1 ?_)
  rw [lookup, demo_like.root]
  decide

/-- The second FAT cannot be read where the new cluster is marked. -/
def secondFails (k : Nat) : Bool := k == 9

/-- The loop of `write_file("/a", …)` with 513 bytes. -/
def secondStart : Loop :=
  ⟨((resolvePath secondFails 10 demoFs [47, 97]).getD (demoFs, none)).1, 3, 0, List.replicate 513 1⟩

/-- The calls with 513 bytes and 1025 bytes that are looked at below. -/
theorem faultyWrite_runs : faultyWrite secondFails 513 = some (true, 5, 0x0FFFFFF8) ∧
    faultyWrite (fun k => k == 12) 513 = some (true, 0x0FFFFFF8, 0x0FFFFFF8) ∧
    faultyWrite (fun k => k == 7) 1025 = some (true, 5, 5) := by
  decide +kernel

theorem secondStart_rounds : (allocCluster secondFails (nextRound secondFails secondStart).fs).2 = 5 ∧
    (nextRound secondFails secondStart).prev = 3 ∧
    (allocCluster secondFails (nextRound secondFails secondStart).fs).1.ops = 11 ∧
    (nextRound secondFails (nextRound secondFails secondStart)).data = [] := by
  decide +kernel

/-- A failure in the second FAT does no harm. -/
theorem write_faults_second : ∃ s',
    writeFile secondFails 10 demoFs [47, 97] (List.replicate 513 1) = some (s', true) ∧
      Holds demoGeom s'.disk 3 (List.replicate 513 1) := by
  obtain ⟨s', hret, -, -⟩ := faultyWrite_some faultyWrite_runs.1
  refine ⟨s', hret, (write_faults_iff demo_ok demo_resolves (by decide) hret).mpr ?_⟩
  intro s₁ τ hres hsteps
  obtain ⟨hnew, hprev, hops, hend⟩ := secondStart_rounds
  have hstart : (⟨s₁, 3, 0, List.replicate 513 1⟩ : Loop) = secondStart := by
    rw [secondStart, hres]
    rfl
  have hsteps : Steps secondFails secondStart τ := hstart ▸ hsteps
  rcases hsteps.cases_head with rfl | ⟨σ, ⟨-, hr⟩, hsteps⟩
  · -- the first round writes cluster 3
    intro _ hneed
    exact absurd (by decide) (Needs.not_inRange (c := 3) hneed demo_numbers)
  · rw [hr.eq] at hsteps
    rcases hsteps.cases_head with rfl | ⟨σ', ⟨-, hr'⟩, hsteps⟩
    · -- the second one takes cluster 5 and links it with the requests 11 and 12
      refine fun _ _ _ => ⟨by rw [hnew, hprev]; decide, .inl ?_⟩
      rw [Updates, hops]
      decide
    · rw [hr'.eq] at hsteps
      rw [steps_end hend hsteps]
      exact fun hdata => absurd hend hdata

/-- **Counterexample.** `write_file("/a", …)` returns true. With 513 bytes and a failing
read of the FAT sector that links the new cluster (request 12), the chain of `a` stays at
one cluster. With 1025 bytes and a failing read of the FAT sector that marks the new
cluster (request 7), cluster 5 is taken twice and linked to itself. -/
theorem write_reports_success : VolumeOk demoFs ∧
    Resolves demoGeom (volOf demoGeom demoDisk) [47, 97] entryA ∧ entryA.first = 3 ∧
    (∃ s', writeFile (fun k => k == 12) 10 demoFs [47, 97] (List.replicate 513 1) = some (s', true) ∧
      ¬ Holds demoGeom s'.disk 3 (List.replicate 513 1)) ∧
    ∃ s', writeFile (fun k => k == 7) 10 demoFs [47, 97] (List.replicate 1025 1) = some (s', true) ∧
      ¬ Holds demoGeom s'.disk 3 (List.replicate 1025 1) := by
  refine ⟨demo_ok, demo_resolves, rfl, ?_, ?_⟩
  · obtain ⟨s', hret, h3, -⟩ := faultyWrite_some faultyWrite_runs.2.1
    refine ⟨s', hret, fun ⟨l, hl, hdata⟩ => ?_⟩
    cases hl with
    | last =>
      have hle := contents_le hdata
      rw [length_replicate] at hle
      exact absurd hle (by decide)
    | link _ hnext =>
      rw [h3] at hnext
      exact absurd hnext.head_ok (by decide)
  · obtain ⟨s', hret, h3, h5⟩ := faultyWrite_some faultyWrite_runs.2.2
    refine ⟨s', hret, fun ⟨l, hl, hdata⟩ => ?_⟩
    cases hl with
    | last _ hout =>
      rw [h3] at hout
      exact hout (by decide)
    | link _ hnext =>
      rw [h3] at hnext
      exact not_walk_self h5 hnext

end HackersOs.L4.Fat

import HackersOs.Core.LTS
import HackersOs.L5User.Break
import HackersOs.L5User.Lifecycle

/-!
# Address space and pages of `sys_mmap`

`mmap_next` is one static for all processes; it moves up by the rounded length
of every call that does not fix its address, before the limit is looked at, and
nothing moves it back. Both sums are modulo 2^64: a length above 2^64 - 4096
rounds to 0, and a large length moves `mmap_next` down.

Results:
* `mmap_ranges_disjoint`: while neither sum wraps, the ranges handed out are
  disjoint, aligned, long enough and in the region, whatever the allocator does.
* `mmap_no_trace_iff`: which calls that fail leave the kernel as it was.
-/
namespace HackersOs.L5
open HackersOs.Core L2 L2.Mmu L2.Pages

/-- The caller fixes the address. -/
abbrev Fixed (addr flags : Nat) : Prop := flags &&& mapFixed ≠ 0 ∧ addr ≠ 0

/-- The result is an error. An address is a multiple of 4096 and neither of the two. -/
abbrev Failed (r : Int) : Prop := r = linuxEinval ∨ r = linuxEnomem

section
variable {k : Kernel} {addr length flags : Nat}

theorem roundUp_lt (x : Nat) : roundUp x < 2 ^ 64 := by
  unfold roundUp
  omega

/-- Without a wrap the rounded length is no shorter. -/
theorem le_roundUp (h : length ≤ 2 ^ 64 - 4096) : length ≤ roundUp length := by
  unfold roundUp
  rw [Nat.mod_eq_of_lt (by omega)]
  omega

/-- Only the lengths whose rounding wraps are rounded to 0. -/
theorem roundUp_eq_zero (h0 : length ≠ 0) (hlt : length < 2 ^ 64) :
    roundUp length = 0 ↔ 2 ^ 64 - 4096 < length := by
  constructor
  · intro h
    apply Nat.lt_of_not_le
    intro hle
    have := le_roundUp hle
    omega
  · intro h
    unfold roundUp
    omega

theorem not_failed_toI64 {v : Nat} (hv : v % 4096 = 0) : ¬ Failed (toI64 v) := by
  unfold Failed toI64 linuxEinval linuxEnomem
  split <;> omega

/-- A call that does not fix the address: the length is 0, the sum is above the
limit, or the pages are asked for one by one. -/
theorem Kernel.sysMmap_moving (hf : ¬ Fixed addr flags) :
    (length = 0 ∧ k.sysMmap addr length flags = (k, linuxEinval)) ∨
    (length ≠ 0 ∧ (k.sysMmap addr length flags).1.mmapNext = (k.mmapNext + roundUp length) % 2 ^ 64 ∧
      ((k.sysMmap addr length flags).2 = linuxEnomem ∨
        ((k.mmapNext + roundUp length) % 2 ^ 64 ≤ mmapMax ∧
          (k.sysMmap addr length flags).2 = toI64 k.mmapNext))) := by
  unfold Kernel.sysMmap
  by_cases h0 : length = 0
  · rw [if_pos h0]
    exact .inl ⟨h0, rfl⟩
  rw [if_neg h0, if_neg hf]
  by_cases hm : (k.mmapNext + roundUp length) % 2 ^ 64 > mmapMax
  · rw [if_pos hm]
    exact .inr ⟨h0, rfl, .inl rfl⟩
  rw [if_neg hm]
  refine .inr ⟨h0, rfl, ?_⟩
  unfold Kernel.mmapAt
  dsimp only
  split
  · exact .inr ⟨by omega, rfl⟩
  · exact .inl rfl

end

/-! ## The ranges of a run -/

/-- What a call that returned an address handed out. -/
structure Grant where
  start : Nat
  /-- the rounded length -/
  length : Nat
  requested : Nat
  deriving DecidableEq

def Grant.Has (g : Grant) (x : Nat) : Prop := g.start ≤ x ∧ x < g.start + g.length

structure Grant.Fits (g : Grant) : Prop where
  aligned : g.start % 4096 = 0
  long : g.requested ≤ g.length
  base : mmapBase ≤ g.start
  limit : g.start + g.length ≤ mmapMax

/-- Every range fits, and no address is in two of them. -/
def Disjointly (l : List Grant) : Prop :=
  (∀ g ∈ l, g.Fits) ∧ l.Pairwise fun a b => ∀ x, a.Has x → ¬ b.Has x

structure MmapRun where
  kernel : Kernel
  /-- ghost: what the calls returned so far -/
  granted : List Grant

inductive MmapStep where
  | call (addr length flags : Nat)
  /-- the rest of the kernel: another process, other memory, other free pages -/
  | other (kernel : Kernel)

/-- What a call adds to the ranges. -/
def Kernel.grants (k : Kernel) (addr length flags : Nat) : List Grant :=
  let r := (k.sysMmap addr length flags).2
  if Failed r then [] else [⟨toU64 r, roundUp length, length⟩]

def MmapRun.call (s : MmapRun) (addr length flags : Nat) : MmapRun :=
  ⟨(s.kernel.sysMmap addr length flags).1, s.granted ++ s.kernel.grants addr length flags⟩

/-- Calls of `mmap` without `MAP_FIXED`, from boot on, each meeting `G`. -/
def mmapLTS (G : Kernel → Nat → Prop) : LTS MmapRun MmapStep where
  init s := s.kernel.mmapNext = mmapBase ∧ s.granted = []
  step s l s' := match l with
    | .call addr length flags => flags &&& mapFixed = 0 ∧ length < 2 ^ 64 ∧ G s.kernel length ∧
        s' = s.call addr length flags
    | .other k => k.mmapNext = s.kernel.mmapNext ∧ s' = ⟨k, s.granted⟩

/-- Neither the rounding nor the sum wraps. -/
def NoWrap (k : Kernel) (length : Nat) : Prop :=
  length ≤ 2 ^ 64 - 4096 ∧ k.mmapNext + roundUp length < 2 ^ 64

/-- `mmap_next` is behind every range. -/
structure MmapInv (s : MmapRun) : Prop where
  aligned : s.kernel.mmapNext % 4096 = 0
  base : mmapBase ≤ s.kernel.mmapNext
  lt : s.kernel.mmapNext < 2 ^ 64
  below : ∀ g ∈ s.granted, g.start + g.length ≤ s.kernel.mmapNext
  ranges : Disjointly s.granted

section
variable {s : MmapRun} {addr length flags : Nat}

/-- One more range, behind all others. -/
theorem Disjointly.snoc {l : List Grant} {g : Grant} (h : Disjointly l) (hg : g.Fits)
    (hbelow : ∀ a ∈ l, a.start + a.length ≤ g.start) : Disjointly (l ++ [g]) := by
  obtain ⟨hfits, hpair⟩ := h
  constructor
  · intro a ha
    rw [List.mem_append, List.mem_singleton] at ha
    cases ha with
    | inl hin => exact hfits a hin
    | inr heq => exact heq ▸ hg
  · rw [List.pairwise_append]
    refine ⟨hpair, List.pairwise_singleton _ _, ?_⟩
    intro a ha b hb x hax hbx
    rw [List.mem_singleton] at hb
    subst hb
    have hend := hbelow a ha
    obtain ⟨-, hlt⟩ := hax
    obtain ⟨hge, -⟩ := hbx
    omega

/-- `mmap_next` moves up and nothing is handed out. -/
theorem MmapInv.up (h : MmapInv s) {k : Kernel} (hal : k.mmapNext % 4096 = 0)
    (hle : s.kernel.mmapNext ≤ k.mmapNext) (hlt : k.mmapNext < 2 ^ 64) : MmapInv ⟨k, s.granted⟩ where
  aligned := hal
  base := Nat.le_trans h.base hle
  lt := hlt
  below := by
    intro g hg
    exact Nat.le_trans (h.below g hg) hle
  ranges := h.ranges

theorem MmapInv.call (h : MmapInv s) (hflags : flags &&& mapFixed = 0) (hG : NoWrap s.kernel length) :
    MmapInv (s.call addr length flags) := by
  have hround := roundUp_aligned length
  have hal := h.aligned
  obtain ⟨hlen, hsum⟩ := hG
  unfold MmapRun.call Kernel.grants
  rcases @Kernel.sysMmap_moving s.kernel addr length flags fun hf => hf.1 hflags with
    ⟨-, hres⟩ | ⟨-, hnext, hres⟩
  · rw [hres]
    simpa [Failed] using h
  rw [Nat.mod_eq_of_lt hsum] at hnext hres
  have hup := @MmapInv.up s h (s.kernel.sysMmap addr length flags).1 (by omega) (by omega) (by omega)
  rcases hres with hfail | ⟨hmax, haddr⟩
  · rw [hfail]
    simpa [Failed] using hup
  rw [haddr]
  rw [if_neg (not_failed_toI64 hal), toU64_toI64 h.lt]
  refine ⟨hup.aligned, hup.base, hup.lt, ?_, ?_⟩
  · intro g hg
    rw [List.mem_append, List.mem_singleton] at hg
    cases hg with
    | inl hin => exact hup.below g hin
    | inr heq =>
      subst heq
      exact Nat.le_of_eq hnext.symm
  · exact h.ranges.snoc ⟨hal, le_roundUp hlen, h.base, hmax⟩ h.below

theorem mmapInv_inductive : (mmapLTS NoWrap).Inductive MmapInv where
  init := by
    intro s hinit
    obtain ⟨hnext, hnone⟩ := hinit
    refine ⟨by rw [hnext]; decide, by rw [hnext], by rw [hnext]; decide, ?_, ?_⟩
    · rw [hnone]
      simp
    · rw [hnone]
      exact ⟨by simp, .nil⟩
  step := by
    intro s l s' h hstep
    cases l with
    | call addr length flags =>
      obtain ⟨hflags, -, hG, rfl⟩ := hstep
      exact h.call hflags hG
    | other k =>
      obtain ⟨hnext, rfl⟩ := hstep
      exact h.up (by rw [hnext]; exact h.aligned) (by rw [hnext]) (by rw [hnext]; exact h.lt)

/-- In every run whose calls do not wrap, the ranges handed out fit the region and
the lengths asked for, and are disjoint. -/
theorem mmap_ranges_disjoint (hs : (mmapLTS NoWrap).Reachable s) : Disjointly s.granted :=
  (mmapInv_inductive.reachable s hs).ranges

end

/-- Two calls of a process. -/
theorem mmap_ranges_disjoint_two :
    Disjointly (((MmapRun.mk oneProcess []).call 0 1 0).call 0 8192 0).granted := by
  have hinit : (mmapLTS NoWrap).init ⟨oneProcess, []⟩ := ⟨rfl, rfl⟩
  have hone : (mmapLTS NoWrap).step ⟨oneProcess, []⟩ (.call 0 1 0)
      ((MmapRun.mk oneProcess []).call 0 1 0) :=
    ⟨rfl, by decide, by unfold NoWrap; decide, rfl⟩
  have htwo : (mmapLTS NoWrap).step ((MmapRun.mk oneProcess []).call 0 1 0) (.call 0 8192 0)
      (((MmapRun.mk oneProcess []).call 0 1 0).call 0 8192 0) :=
    ⟨rfl, by decide, by unfold NoWrap; decide, rfl⟩
  exact mmap_ranges_disjoint ⟨_, _, hinit, .cons hone (.cons htwo (.nil _))⟩

/-- **Counterexample.** A length of 2^64 - 1 is rounded to 0: the call returns an address
and maps nothing, and the next call returns the same address. -/
theorem mmap_same_address : ∃ s, (mmapLTS fun _ _ => True).Reachable s ∧
      s.granted = [⟨mmapBase, 0, 2 ^ 64 - 1⟩, ⟨mmapBase, 4096, 4096⟩] ∧ ¬ Disjointly s.granted := by
  have hinit : (mmapLTS fun _ _ => True).init ⟨oneProcess, []⟩ := ⟨rfl, rfl⟩
  have hone : (mmapLTS fun _ _ => True).step ⟨oneProcess, []⟩ (.call 0 (2 ^ 64 - 1) 0)
      ((MmapRun.mk oneProcess []).call 0 (2 ^ 64 - 1) 0) := ⟨rfl, by decide, trivial, rfl⟩
  have htwo : (mmapLTS fun _ _ => True).step ((MmapRun.mk oneProcess []).call 0 (2 ^ 64 - 1) 0)
      (.call 0 4096 0) (((MmapRun.mk oneProcess []).call 0 (2 ^ 64 - 1) 0).call 0 4096 0) :=
    ⟨rfl, by decide, trivial, rfl⟩
  have hgranted : (((MmapRun.mk oneProcess []).call 0 (2 ^ 64 - 1) 0).call 0 4096 0).granted =
      [⟨mmapBase, 0, 2 ^ 64 - 1⟩, ⟨mmapBase, 4096, 4096⟩] := by decide +kernel
  refine ⟨_, ⟨_, _, hinit, .cons hone (.cons htwo (.nil _))⟩, hgranted, ?_⟩
  intro h
  have hlong := (h.1 ⟨mmapBase, 0, 2 ^ 64 - 1⟩ (by rw [hgranted]; simp)).long
  revert hlong
  decide

/-! ## Calls that fail -/

/-- `mmap_next`, the allocator and the translations of the process are as they were. -/
structure NoTrace (k k' : Kernel) : Prop where
  next : k'.mmapNext = k.mmapNext
  pages : k'.machine.pages = k.machine.pages
  table : ∀ va, walk k'.machine.mem k.currentPgd va = walk k.machine.mem k.currentPgd va

/-- A later call that would have returned an address returns it. -/
def LaterServed (k k' : Kernel) : Prop :=
  ∀ addr length flags, ¬ Failed (k.sysMmap addr length flags).2 →
    (k'.sysMmap addr length flags).2 = (k.sysMmap addr length flags).2

section
variable {s : Machine} {k : Kernel} {addr length flags : Nat}

/-- A loop that fails either found no page at all or keeps one. -/
theorem mapFresh_failed {pgd n va : Nat} (h : (mapFresh pgd n va s).2 = false) :
    (freeCount s.pages = 0 ∧ (mapFresh pgd n va s).1 = s) ∨
    (freeCount s.pages ≠ 0 ∧ freeCount (mapFresh pgd n va s).1.pages < freeCount s.pages) := by
  cases n with
  | zero => cases h
  | succ n =>
    rw [mapFresh] at h ⊢
    rcases allocPage_count s with ⟨h0, hc, hs⟩ | ⟨h0, hc⟩
    · rw [if_pos h0]
      exact .inl ⟨hc, hs⟩
    rw [if_neg h0]
    refine .inr ⟨by omega, ?_⟩
    apply Nat.lt_of_le_of_lt (marks_mapFresh _ _ _ _).count
    split
    · omega
    · have := (marks_mapUserPage s.allocPage.1 pgd va s.allocPage.2 pteUserRwx).count
      omega

/-- A call with a fixed address that fails. -/
theorem Kernel.sysMmap_fixed (h0 : length ≠ 0) (hf : Fixed addr flags)
    (hfail : Failed (k.sysMmap addr length flags).2) :
    (freeCount k.machine.pages = 0 ∧ (k.sysMmap addr length flags).1 = k) ∨
    (freeCount k.machine.pages ≠ 0 ∧
      freeCount (k.sysMmap addr length flags).1.machine.pages < freeCount k.machine.pages) := by
  have hcall : k.sysMmap addr length flags = k.mmapAt (addr / 4096 * 4096) (roundUp length) := by
    rw [Kernel.sysMmap, if_neg h0, if_pos hf]
  rw [hcall] at hfail ⊢
  unfold Kernel.mmapAt at hfail ⊢
  dsimp only at hfail ⊢
  cases hd : (mapFresh k.currentPgd (roundUp length / 4096) (addr / 4096 * 4096) k.machine).2 with
  | true =>
    rw [hd, if_pos rfl] at hfail
    exact absurd hfail (not_failed_toI64 (Nat.mul_mod_left _ _))
  | false =>
    rcases mapFresh_failed hd with ⟨hc, hs⟩ | hless
    · refine .inl ⟨hc, ?_⟩
      rw [hs]
    · exact .inr hless

theorem NoTrace.refl (k : Kernel) : NoTrace k k := ⟨rfl, rfl, fun _ => rfl⟩

/-- A call that fails leaves no trace, and later calls find what they would have
found, if and only if it asked for nothing, fixed the address with no page free, or
was rounded to nothing. -/
theorem mmap_no_trace_iff (hnext : k.mmapNext < 2 ^ 64) (hlen : length < 2 ^ 64)
    (hfail : Failed (k.sysMmap addr length flags).2) :
    (NoTrace k (k.sysMmap addr length flags).1 ∧ LaterServed k (k.sysMmap addr length flags).1) ↔
      length = 0 ∨ (Fixed addr flags ∧ freeCount k.machine.pages = 0) ∨
        (¬ Fixed addr flags ∧ 2 ^ 64 - 4096 < length) := by
  have hsame : (k.sysMmap addr length flags).1 = k →
      NoTrace k (k.sysMmap addr length flags).1 ∧ LaterServed k (k.sysMmap addr length flags).1 := by
    intro heq
    rw [heq]
    exact ⟨NoTrace.refl k, fun _ _ _ _ => rfl⟩
  by_cases h0 : length = 0
  · refine iff_of_true (hsame ?_) (.inl h0)
    rw [Kernel.sysMmap, if_pos h0]
  by_cases hf : Fixed addr flags
  · rcases Kernel.sysMmap_fixed h0 hf hfail with ⟨hc, heq⟩ | ⟨hc, hless⟩
    · exact iff_of_true (hsame heq) (.inr (.inl ⟨hf, hc⟩))
    -- the pages of the call are gone
    refine iff_of_false ?_ ?_
    · intro h
      rw [h.1.pages] at hless
      exact Nat.lt_irrefl _ hless
    · simp [h0, hf, hc]
  · by_cases hz : roundUp length = 0
    · -- the sum is `mmap_next` itself, which is above the limit
      refine iff_of_true (hsame ?_) (.inr (.inr ⟨hf, (roundUp_eq_zero h0 hlen).mp hz⟩))
      revert hfail
      rw [Kernel.sysMmap, if_neg h0, if_neg hf, hz, Nat.add_zero, Nat.mod_eq_of_lt hnext]
      dsimp only
      split
      all_goals
        intro _
        rfl
    · -- `mmap_next` has moved
      refine iff_of_false ?_ ?_
      · intro h
        have hmoved := h.1.next
        rcases @Kernel.sysMmap_moving k addr length flags hf with ⟨he, -⟩ | ⟨-, hm, -⟩
        · exact h0 he
        · have := roundUp_lt length
          rw [hm] at hmoved
          omega
      · rw [← roundUp_eq_zero h0 hlen]
        simp [h0, hf, hz]

end

/-- A process with a page table and no free page. -/
def fullMemory : Kernel :=
  { oneProcess with machine := { oneProcess.machine with pages := take ⟨fun _ => 0, 4, 4⟩ 0 4 } }

/-- Two pages at a fixed address. -/
theorem mmap_no_trace_iff_fixed : (fullMemory.sysMmap 0x10000000 8192 mapFixed).2 = linuxEnomem ∧
    NoTrace fullMemory (fullMemory.sysMmap 0x10000000 8192 mapFixed).1 ∧
    LaterServed fullMemory (fullMemory.sysMmap 0x10000000 8192 mapFixed).1 := by
  have hfull : (fullMemory.sysMmap 0x10000000 8192 mapFixed).2 = linuxEnomem ∧
      freeCount fullMemory.machine.pages = 0 := by decide +kernel
  exact ⟨hfull.1, (mmap_no_trace_iff (by decide) (by decide) (.inr hfull.1)).mpr
    (.inr (.inl ⟨by decide, hfull.2⟩))⟩

/-- **Counterexample.** One byte more than the region: the call fails, and a page that
would have fitted is refused from then on. -/
theorem mmap_blocks_later : (oneProcess.sysMmap 0 0x10000001 0).2 = linuxEnomem ∧
    (oneProcess.sysMmap 0 4096 0).2 = 0x20000000 ∧
    ((oneProcess.sysMmap 0 0x10000001 0).1.sysMmap 0 4096 0).2 = linuxEnomem ∧
    ¬ (NoTrace oneProcess (oneProcess.sysMmap 0 0x10000001 0).1 ∧
      LaterServed oneProcess (oneProcess.sysMmap 0 0x10000001 0).1) := by
  have hruns : (oneProcess.sysMmap 0 0x10000001 0).2 = linuxEnomem ∧
      (oneProcess.sysMmap 0 4096 0).2 = 0x20000000 ∧
      ((oneProcess.sysMmap 0 0x10000001 0).1.sysMmap 0 4096 0).2 = linuxEnomem ∧
      (oneProcess.sysMmap 0 0x10000001 0).1.mmapNext ≠ oneProcess.mmapNext := by decide +kernel
  obtain ⟨hfail, hbefore, hafter, hnext⟩ := hruns
  exact ⟨hfail, hbefore, hafter, fun h => hnext h.1.next⟩

end HackersOs.L5

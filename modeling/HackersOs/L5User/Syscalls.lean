import Mathlib.Data.Finset.Card
import HackersOs.L5User.Process

/-!
# `brk`, `mmap` and `exit` (`compat/linux_syscalls.cpp`)

The memory calls work on the page table of `get_current()`; the user program
runs on the table in `TTBR0_EL1`. `currentPgd` and `ttbr0` are kept apart here
as the code keeps them.

Both calls use addresses below 1 GB, where every page table has the kernel's
device block. `CallState.memCall` is the effect of one call while `get_current()`
has no page table: pages may be taken, nothing is mapped.
-/
namespace HackersOs.L5
open HackersOs.Core L2 L2.Mmu L2.Pages

def brkBaseAddr : Nat := 0x10000000
def brkMaxSize : Nat := 64 * 1024 * 1024
def mmapMax : Nat := 0x30000000
def mapFixed : Nat := 0x10
def linuxEnomem : Int := -12
def linuxEinval : Int := -22

/-- `(x + PAGE_SIZE - 1) & ~(PAGE_SIZE - 1)` -/
def roundUp (x : Nat) : Nat := (x + 4096 - 1) % 2 ^ 64 / 4096 * 4096

/-- `static_cast<i64>` -/
def toI64 (v : Nat) : Int := if v < 2 ^ 63 then v else (v : Int) - 2 ^ 64

/-! ## The code -/

/-- `proc ? proc->page_table : 0` for `proc = Process_::get_current()` -/
def Kernel.currentPgd (k : Kernel) : Nat :=
  match k.current with
  | none => 0
  | some i => (k.procs i).pageTable

/-- The first `n` pages of the brk region; an empty allocator is skipped. -/
def premap (s : Machine) (pgd : Nat) : Nat → Machine
  | 0 => s
  | n + 1 =>
    let r := (premap s pgd n).allocPage
    if r.2 = 0 then r.1 else r.1.mapUserPage pgd (brkBaseAddr + n * 4096) r.2 pteUserRwx

/-- `n` fresh pages from `va` on, mapped when there is a page table; `false`
when the allocator is empty. -/
def mapFresh (pgd : Nat) : Nat → Nat → Machine → Machine × Bool
  | 0, _, s => (s, true)
  | n + 1, va, s =>
    let r := s.allocPage
    if r.2 = 0 then (r.1, false)
    else mapFresh pgd n ((va + 4096) % 2 ^ 64)
      (if pgd = 0 then r.1 else r.1.mapUserPage pgd va r.2 pteUserRwx)

/-- mirrors src/compat/linux_syscalls.cpp:43-58 -/
def Kernel.brkInit (k : Kernel) : Kernel :=
  if k.brkBase = 0 then
    { k with
      brkBase := brkBaseAddr
      currentBrk := brkBaseAddr
      machine := if k.currentPgd = 0 then k.machine else premap k.machine k.currentPgd 16 }
  else k

/-- mirrors src/compat/linux_syscalls.cpp:42-85 -/
def Kernel.sysBrk (k : Kernel) (addr : Nat) : Kernel × Int :=
  let k1 := k.brkInit
  if addr = 0 then (k1, toI64 k1.currentBrk)
  else if addr < k1.brkBase ∨ addr > k1.brkBase + brkMaxSize then (k1, toI64 k1.currentBrk)
  else
    let oldPageEnd := roundUp k1.currentBrk
    let newPageEnd := roundUp addr
    if newPageEnd > oldPageEnd ∧ k1.currentPgd ≠ 0 then
      let r := mapFresh k1.currentPgd ((newPageEnd - oldPageEnd) / 4096) oldPageEnd k1.machine
      if r.2 then ({ k1 with machine := r.1, currentBrk := addr }, toI64 addr)
      else ({ k1 with machine := r.1 }, toI64 k1.currentBrk)
    else ({ k1 with currentBrk := addr }, toI64 addr)

/-- mirrors src/compat/linux_syscalls.cpp:105-118 -/
def Kernel.mmapAt (k : Kernel) (vaddr length : Nat) : Kernel × Int :=
  let r := mapFresh k.currentPgd (length / 4096) vaddr k.machine
  ({ k with machine := r.1 }, if r.2 then toI64 vaddr else linuxEnomem)

/-- mirrors src/compat/linux_syscalls.cpp:87-119 -/
def Kernel.sysMmap (k : Kernel) (addr length flags : Nat) : Kernel × Int :=
  if length = 0 then (k, linuxEinval)
  else if flags &&& mapFixed ≠ 0 ∧ addr ≠ 0 then k.mmapAt (addr / 4096 * 4096) (roundUp length)
  else
    let k1 := { k with mmapNext := (k.mmapNext + roundUp length) % 2 ^ 64 }
    if k1.mmapNext > mmapMax then (k1, linuxEnomem) else k1.mmapAt k.mmapNext (roundUp length)

/-- The memory calls of a program. -/
inductive MemCall where
  | brk (addr : Nat)
  | mmap (addr length flags : Nat)

def Kernel.memCall (k : Kernel) : MemCall → Kernel × Int
  | .brk addr => k.sysBrk addr
  | .mmap addr length flags => k.sysMmap addr length flags

/-- mirrors src/compat/linux_syscalls.cpp:257-262; the rest of `sys_exit` makes
the exception return to `cmd_run`. -/
def Kernel.sysExit (k : Kernel) : Kernel :=
  match k.current with
  | none => k
  | some i => k.setProc i { k.procs i with state := .zombie }

/-- mirrors src/compat/linux_syscalls.cpp:275-277 -/
def Kernel.sysExitGroup (k : Kernel) : Kernel := k.sysExit

/-- mirrors src/syscall/syscall.cpp:41-47: an exception that is no system call. -/
def Kernel.userFault (k : Kernel) : Kernel :=
  match k.current with
  | none => k
  | some i => k.setProc i { k.procs i with state := .zombie }

/-! ## What the calls promise -/

/-- The translation of a user address: TTBR0 covers 39 bits. -/
def Kernel.translate (k : Kernel) (va : Nat) : Option (Nat × Nat) :=
  if va < 2 ^ 39 then walk k.machine.mem k.ttbr0 va else none

/-- Every page that starts in `[lo, hi)` is backed by a page of its own, taken
from the allocator and open to EL0. -/
def Backed (k : Kernel) (lo hi : Nat) : Prop :=
  ∃ page : Nat → Nat,
    (∀ v, lo ≤ v * 4096 → v * 4096 < hi → k.machine.Taken (page v) ∧
      ∃ attr, k.translate (v * 4096) = some (page v, attr) ∧ attr &&& pteApUser ≠ 0) ∧
    ∀ v w, lo ≤ v * 4096 → v * 4096 < hi → lo ≤ w * 4096 → w * 4096 < hi → page v = page w → v = w

/-- The address a register value stands for. -/
def toU64 (r : Int) : Nat := (r % 2 ^ 64).toNat

/-- What a call promises with its result: an `mmap` that returns an address
backs the length asked for, a `brk` that returns a break above the base backs
everything below it. -/
def Delivered (k : Kernel) (r : Int) : MemCall → Prop
  | .brk _ => brkBaseAddr < toU64 r → Backed k brkBaseAddr (toU64 r)
  | .mmap _ length _ => r ≠ linuxEinval → r ≠ linuxEnomem → Backed k (toU64 r) (toU64 r + length)

/-! ## Counting free pages -/

/-- The number of clear bits. -/
def freeCount (p : PageState) : Nat :=
  ((Finset.range p.totalPages).filter fun i => bitmapTest p.bitmap i = false).card

section
variable {kpgd kl2 : Nat} {s : Machine} {lvl : Nat → Option Level} {k : Kernel}

theorem freeCount_le (p : PageState) : freeCount p ≤ p.totalPages := by
  exact (Finset.card_filter_le _ _).trans (Finset.card_range _).le

theorem freeCount_take {p : PageState} {i : Nat} (hi : i < p.totalPages)
    (hb : bitmapTest p.bitmap i = false) : freeCount (take p i 1) + 1 = freeCount p := by
  have hmem : i ∈ (Finset.range p.totalPages).filter fun j => bitmapTest p.bitmap j = false :=
    Finset.mem_filter.mpr ⟨Finset.mem_range.mpr hi, hb⟩
  have heq : (Finset.range p.totalPages).filter (fun j => bitmapTest (take p i 1).bitmap j = false) =
      ((Finset.range p.totalPages).filter fun j => bitmapTest p.bitmap j = false).erase i := by
    ext j
    simp only [Finset.mem_filter, Finset.mem_erase, bitmapTest_take_one, Bool.or_eq_false_iff,
      decide_eq_false_iff_not]
    tauto
  unfold freeCount
  rw [take_totalPages, heq]
  exact Finset.card_erase_add_one hmem

/-- `alloc_page` fails when no bit is clear, and otherwise clears one bit less. -/
theorem allocPage_count (s : Machine) :
    (s.allocPage.2 = 0 ∧ freeCount s.pages = 0 ∧ s.allocPage.1 = s) ∨
    (s.allocPage.2 ≠ 0 ∧ freeCount s.allocPage.1.pages + 1 = freeCount s.pages) := by
  rcases allocPage_cases s with h | ⟨i, hi, h⟩
  · refine .inl ⟨by rw [h], ?_, by rw [h]⟩
    have hnone : findFree s.pages.bitmap 0 s.pages.totalPages = none := by
      cases hf : findFree s.pages.bitmap 0 s.pages.totalPages with
      | none => rfl
      | some j =>
        have h2 := congrArg Prod.snd h
        simp only [Machine.allocPage, Pages.allocPage, hf] at h2
        exact absurd h2 (frame_ne_zero j)
    rw [freeCount, Finset.card_eq_zero, Finset.filter_eq_empty_iff]
    intro i hi
    rw [findFree_none hnone i (Nat.zero_le _) (by simpa using hi)]
    simp
  · rw [h]
    exact .inr ⟨frame_ne_zero i, freeCount_take hi.1 hi.2⟩

theorem allocPage_ne_zero_iff (s : Machine) : s.allocPage.2 ≠ 0 ↔ freeCount s.pages ≠ 0 := by
  rcases allocPage_count s with ⟨h0, hc, -⟩ | ⟨h0, hc⟩
  · simp [h0, hc]
  · exact iff_of_true h0 (by omega)

/-! ## The calls without a page table -/

/-- Without a page table the loop only takes pages, and gets them when there
are enough. -/
theorem Ok.mapFresh (K : Ok kpgd kl2 s lvl) (n va : Nat) :
    ∃ s', L5.mapFresh 0 n va s = (s', decide (n ≤ freeCount s.pages)) ∧
      Ok kpgd kl2 s' lvl ∧ Grows s s' lvl lvl := by
  induction n generalizing s va with
  | zero => exact ⟨s, by simp [L5.mapFresh], K, .refl⟩
  | succ n ih =>
    rw [L5.mapFresh]
    rcases allocPage_count s with ⟨h0, hc, hs⟩ | ⟨h0, hc⟩
    · rw [if_pos h0, hs]
      exact ⟨s, by simp [hc], K, .refl⟩
    rw [if_neg h0, if_pos rfl]
    obtain ⟨hok₁, hgrows₁⟩ := K.allocPage
    obtain ⟨s', hs', hok, hgrows⟩ := ih hok₁ ((va + 4096) % 2 ^ 64)
    refine ⟨s', ?_, hok, hgrows₁.trans hgrows⟩
    rw [hs', Prod.mk.injEq]
    refine ⟨rfl, ?_⟩
    rw [decide_eq_decide]
    omega

/-- Between the system calls of a program: `current_process` is the idle
process, which has no page table; the statics are in their ranges. -/
structure CallState (kpgd kl2 : Nat) (k : Kernel) (lvl : Nat → Option Level) : Prop where
  ok : Ok kpgd kl2 k.machine lvl
  ttbr0 : lvl k.ttbr0 = some .l1
  current : k.current = some 0
  idle : (k.procs 0).pageTable = 0
  brk : k.brkBase = 0 ∧ k.currentBrk = 0 ∨
    k.brkBase = brkBaseAddr ∧ brkBaseAddr ≤ k.currentBrk ∧ k.currentBrk ≤ brkBaseAddr + brkMaxSize
  mmap_aligned : k.mmapNext % 4096 = 0
  mmap_u64 : k.mmapNext < 2 ^ 64

theorem CallState.currentPgd (C : CallState kpgd kl2 k lvl) : k.currentPgd = 0 := by
  rw [Kernel.currentPgd, C.current]
  exact C.idle

theorem roundUp_aligned (x : Nat) : roundUp x % 4096 = 0 := Nat.mul_mod_left _ _

/-- The break a `brk` call leaves. -/
def breakAfter (k : Kernel) (addr : Nat) : Nat :=
  if brkBaseAddr ≤ addr ∧ addr ≤ brkBaseAddr + brkMaxSize then addr else max k.currentBrk brkBaseAddr

/-- Without a page table `brk` moves the break and maps nothing. -/
theorem Kernel.sysBrk_idle (hpgd : k.currentPgd = 0)
    (hbrk : k.brkBase = 0 ∧ k.currentBrk = 0 ∨ k.brkBase = brkBaseAddr ∧ brkBaseAddr ≤ k.currentBrk)
    (addr : Nat) :
    k.sysBrk addr = ({ k with brkBase := brkBaseAddr, currentBrk := breakAfter k addr },
      toI64 (breakAfter k addr)) := by
  have hinit : k.brkInit =
      { k with brkBase := brkBaseAddr, currentBrk := max k.currentBrk brkBaseAddr } := by
    unfold Kernel.brkInit
    rcases hbrk with ⟨h0, hc⟩ | ⟨h0, hlo⟩
    · rw [if_pos h0, if_pos hpgd, hc]
      rfl
    · have hne : k.brkBase ≠ 0 := by rw [h0]; decide
      rw [if_neg hne, Nat.max_eq_left hlo, ← h0]
  unfold Kernel.sysBrk breakAfter
  rw [hinit]
  dsimp only
  by_cases h0 : addr = 0
  · rw [if_pos h0, if_neg (by rw [h0]; decide)]
  rw [if_neg h0]
  by_cases hin : brkBaseAddr ≤ addr ∧ addr ≤ brkBaseAddr + brkMaxSize
  · rw [if_neg (by omega), if_pos hin, if_neg fun h => h.2 hpgd]
  · rw [if_pos (by omega), if_neg hin]

theorem CallState.sysBrk (C : CallState kpgd kl2 k lvl) (addr : Nat) :
    k.sysBrk addr = ({ k with brkBase := brkBaseAddr, currentBrk := breakAfter k addr },
      toI64 (breakAfter k addr)) :=
  k.sysBrk_idle C.currentPgd (C.brk.imp_right fun h => ⟨h.1, h.2.1⟩) addr

/-- A call of `mmap` that does not fix the address succeeds when `mmap_next`
stays in its region and the allocator has the pages. -/
def MmapServed (k : Kernel) (length : Nat) : Prop :=
  length ≠ 0 ∧ (k.mmapNext + roundUp length) % 2 ^ 64 ≤ mmapMax ∧
    roundUp length / 4096 ≤ freeCount k.machine.pages

theorem CallState.mmapAt (C : CallState kpgd kl2 k lvl) (vaddr length : Nat) :
    ∃ s', k.mmapAt vaddr length = ({ k with machine := s' },
        if length / 4096 ≤ freeCount k.machine.pages then toI64 vaddr else linuxEnomem) ∧
      Ok kpgd kl2 s' lvl ∧ Grows k.machine s' lvl lvl := by
  obtain ⟨s', hs', hok, hgrows⟩ := C.ok.mapFresh (length / 4096) vaddr
  refine ⟨s', ?_, hok, hgrows⟩
  rw [Kernel.mmapAt, C.currentPgd, hs']
  simp

/-- `mmap_next` behind a region. -/
theorem CallState.next (C : CallState kpgd kl2 k lvl) (length : Nat) :
    CallState kpgd kl2 { k with mmapNext := (k.mmapNext + roundUp length) % 2 ^ 64 } lvl := by
  have hr := roundUp_aligned length
  have ha := C.mmap_aligned
  exact { C with mmap_aligned := by dsimp only; omega, mmap_u64 := Nat.mod_lt _ (by decide) }

/-- `mmap` takes pages and maps nothing. -/
theorem CallState.sysMmap (C : CallState kpgd kl2 k lvl) (addr length flags : Nat) :
    ∃ s' next, (k.sysMmap addr length flags).1 = { k with machine := s', mmapNext := next } ∧
      Ok kpgd kl2 s' lvl ∧ Grows k.machine s' lvl lvl ∧ next % 4096 = 0 ∧ next < 2 ^ 64 := by
  unfold Kernel.sysMmap
  by_cases hl : length = 0
  · rw [if_pos hl]
    exact ⟨k.machine, k.mmapNext, rfl, C.ok, .refl, C.mmap_aligned, C.mmap_u64⟩
  rw [if_neg hl]
  by_cases hf : flags &&& mapFixed ≠ 0 ∧ addr ≠ 0
  · rw [if_pos hf]
    obtain ⟨s', hs', hok, hgrows⟩ := C.mmapAt (addr / 4096 * 4096) (roundUp length)
    rw [hs']
    exact ⟨s', k.mmapNext, rfl, hok, hgrows, C.mmap_aligned, C.mmap_u64⟩
  rw [if_neg hf]
  have hnext := C.next length
  by_cases hm : (k.mmapNext + roundUp length) % 2 ^ 64 > mmapMax
  · rw [if_pos hm]
    exact ⟨k.machine, _, rfl, C.ok, .refl, hnext.mmap_aligned, hnext.mmap_u64⟩
  · rw [if_neg hm]
    obtain ⟨s', hs', hok, hgrows⟩ := hnext.mmapAt k.mmapNext (roundUp length)
    rw [hs']
    exact ⟨s', _, rfl, hok, hgrows, hnext.mmap_aligned, hnext.mmap_u64⟩

theorem CallState.sysMmap_result (C : CallState kpgd kl2 k lvl) {addr length flags : Nat}
    (hf : flags &&& mapFixed = 0) :
    (MmapServed k length ∧ (k.sysMmap addr length flags).2 = toI64 k.mmapNext) ∨
    (¬ MmapServed k length ∧ ((k.sysMmap addr length flags).2 = linuxEinval ∨
      (k.sysMmap addr length flags).2 = linuxEnomem)) := by
  unfold Kernel.sysMmap MmapServed
  by_cases hl : length = 0
  · rw [if_pos hl]
    exact .inr ⟨fun h => h.1 hl, .inl rfl⟩
  rw [if_neg hl, if_neg fun h => h.1 hf]
  by_cases hm : (k.mmapNext + roundUp length) % 2 ^ 64 > mmapMax
  · rw [if_pos hm]
    exact .inr ⟨fun h => by omega, .inr rfl⟩
  rw [if_neg hm]
  obtain ⟨s', hs', -, -⟩ := (C.next length).mmapAt k.mmapNext (roundUp length)
  rw [hs']
  by_cases hc : roundUp length / 4096 ≤ freeCount k.machine.pages
  · rw [if_pos hc]
    exact .inl ⟨⟨hl, by omega, hc⟩, rfl⟩
  · rw [if_neg hc]
    exact .inr ⟨fun h => hc h.2.2, .inr rfl⟩

/-- One call takes pages and moves the statics. -/
theorem CallState.memCall (C : CallState kpgd kl2 k lvl) (c : MemCall) :
    CallState kpgd kl2 (k.memCall c).1 lvl ∧ (k.memCall c).1.procs = k.procs ∧
      (k.memCall c).1.ttbr0 = k.ttbr0 ∧ Grows k.machine (k.memCall c).1.machine lvl lvl := by
  cases c with
  | brk addr =>
    rw [Kernel.memCall, C.sysBrk]
    refine ⟨{ C with brk := .inr ⟨rfl, ?_⟩ }, rfl, rfl, .refl⟩
    dsimp only [breakAfter]
    split
    · assumption
    · rcases C.brk with ⟨-, hc⟩ | ⟨-, -, hc⟩ <;> omega
  | mmap addr length flags =>
    obtain ⟨s', next, hk, hok, hgrows, hal, hlt⟩ := C.sysMmap addr length flags
    rw [Kernel.memCall, hk]
    exact ⟨{ C with ok := hok, mmap_aligned := hal, mmap_u64 := hlt }, rfl, rfl, hgrows⟩

/-! ## Nothing is delivered -/

theorem toU64_toI64 {v : Nat} (h : v < 2 ^ 64) : toU64 (toI64 v) = v := by
  unfold toU64 toI64
  split <;> omega

theorem device_no_user : (deviceBlock &&& 0xFFFF00003FFFFFFF) &&& pteApUser = 0 := by decide

/-- A region that starts in the first gigabyte or above the 39 bits of TTBR0
is not backed. -/
theorem CallState.not_backed (C : CallState kpgd kl2 k lvl) {lo hi : Nat} (hal : lo % 4096 = 0)
    (hlt : lo < hi) (hlo : lo < 2 ^ 30 ∨ 2 ^ 39 ≤ lo) : ¬ Backed k lo hi := by
  rintro ⟨page, hpage, -⟩
  have hv : lo / 4096 * 4096 = lo := by omega
  obtain ⟨-, attr, htr, hattr⟩ := hpage (lo / 4096) (by omega) (by omega)
  rw [hv, Kernel.translate] at htr
  rcases hlo with hlo | hlo
  · rw [if_pos (by omega), C.ok.tables.walk_device C.ttbr0 hlo] at htr
    obtain ⟨-, rfl⟩ := Prod.mk.inj (Option.some.inj htr)
    exact hattr device_no_user
  · rw [if_neg (by omega)] at htr
    cases htr

/-- The calls that succeed, by the state before them. A `brk` outside the
region returns the break there is. -/
def Served (k : Kernel) : MemCall → Prop
  | .brk addr => (brkBaseAddr < addr ∧ addr ≤ brkBaseAddr + brkMaxSize) ∨
      (¬ (brkBaseAddr ≤ addr ∧ addr ≤ brkBaseAddr + brkMaxSize) ∧ brkBaseAddr < k.currentBrk)
  | .mmap _ length _ => MmapServed k length

def MemCall.NotFixed : MemCall → Prop
  | .brk _ => True
  | .mmap _ _ flags => flags &&& mapFixed = 0

theorem served_brk (k : Kernel) (addr : Nat) :
    Served k (.brk addr) ↔ brkBaseAddr < breakAfter k addr := by
  rw [Served, breakAfter]
  split <;> omega

theorem CallState.mmap_region (C : CallState kpgd kl2 k lvl) {length : Nat}
    (h : MmapServed k length) : k.mmapNext < 2 ^ 30 ∨ 2 ^ 39 ≤ k.mmapNext := by
  obtain ⟨-, hm, hc⟩ := h
  have hfree := freeCount_le k.machine.pages
  have hsmall : k.machine.pages.totalPages ≤ 65536 := C.ok.small
  simp only [mmapMax] at hm
  have := C.mmap_u64
  omega

/-- What a call promises holds only when it fails. -/
theorem CallState.delivered_iff (C : CallState kpgd kl2 k lvl) {c : MemCall} (hc : c.NotFixed) :
    Delivered (k.memCall c).1 (k.memCall c).2 c ↔ ¬ Served k c := by
  have hafter := (C.memCall c).1
  cases c with
  | brk addr =>
    have hb : breakAfter k addr < 2 ^ 64 := by
      have := hafter.brk
      rw [Kernel.memCall, C.sysBrk] at this
      simp only [brkBaseAddr, brkMaxSize] at this
      omega
    have hr : (k.memCall (.brk addr)).2 = toI64 (breakAfter k addr) := by
      rw [Kernel.memCall, C.sysBrk]
    rw [Delivered, hr, toU64_toI64 hb, served_brk]
    refine ⟨fun h hs => ?_, fun hs h => absurd h hs⟩
    exact hafter.not_backed (by decide) hs (.inl (by decide)) (h hs)
  | mmap addr length flags =>
    rw [Delivered]
    rcases @CallState.sysMmap_result _ _ _ _ C addr length flags hc with ⟨hs, hr⟩ | ⟨hs, hr⟩
    · have hv := toU64_toI64 C.mmap_u64
      have ha := C.mmap_aligned
      have herr : toI64 k.mmapNext ≠ linuxEinval ∧ toI64 k.mmapNext ≠ linuxEnomem := by
        unfold toI64 linuxEinval linuxEnomem
        have := C.mmap_u64
        split <;> omega
      rw [Kernel.memCall, hr, hv]
      refine iff_of_false (fun h => ?_) (not_not_intro hs)
      exact hafter.not_backed ha (by have := hs.1; omega) (C.mmap_region hs) (h herr.1 herr.2)
    · refine iff_of_true (fun h1 h2 => ?_) hs
      rw [Kernel.memCall] at h1 h2
      exact (hr.elim h1 h2).elim

end

end HackersOs.L5

import HackersOs.L5User.Lifecycle

/-!
# What programs inherit

`current_brk`, `brk_base` and `mmap_next` are statics: `LinuxSyscall::init` sets
them at boot and nothing between two programs does. `Books` is what they mean
for a program, the break and the next address of `mmap`, and `Books.call` what a
memory call answers from them alone while the allocator has pages and
`get_current()` is the idle process, which has no page table. The calls refine
it (`Idle.memCall_books`).

Result: `memory_books_iff`, for two histories of one boot.
-/
namespace HackersOs.L5
open HackersOs.Core L2 L2.Mmu L2.Pages

variable {calls : List MemCall} {length n x : Nat}

/-! ## The books -/

/-- The break and the next free address of the `mmap` region. -/
structure Books where
  brk : Nat
  next : Nat
  deriving DecidableEq, Repr

/-- The pages that `mmap` asks the allocator for. -/
def Books.pages (b : Books) : MemCall → Nat
  | .brk _ => 0
  | .mmap addr length flags =>
    if length = 0 then 0
    else if flags &&& mapFixed ≠ 0 ∧ addr ≠ 0 then roundUp length / 4096
    else if (b.next + roundUp length) % 2 ^ 64 > mmapMax then 0
    else roundUp length / 4096

def Books.call (b : Books) : MemCall → Books × Int
  | .brk addr =>
    if brkBaseAddr ≤ addr ∧ addr ≤ brkBaseAddr + brkMaxSize then ({ b with brk := addr }, toI64 addr)
    else (b, toI64 b.brk)
  | .mmap addr length flags =>
    if length = 0 then (b, linuxEinval)
    else if flags &&& mapFixed ≠ 0 ∧ addr ≠ 0 then (b, toI64 (addr / 4096 * 4096))
    else
      let next := (b.next + roundUp length) % 2 ^ 64
      ({ b with next := next }, if next > mmapMax then linuxEnomem else toI64 b.next)

def Books.answers (b : Books) : List MemCall → List Int
  | [] => []
  | c :: cs => (b.call c).2 :: (b.call c).1.answers cs

/-- The books as the statics have them; before the first `brk` both of its
statics are 0. -/
def Kernel.books (k : Kernel) : Books := ⟨max k.currentBrk brkBaseAddr, k.mmapNext⟩

/-! ## The kernel while the idle process is current -/

/-- What the memory calls rely on outside the page tables. -/
structure Idle (k : Kernel) : Prop where
  current : k.current = some 0
  idle : (k.procs 0).pageTable = 0
  brk : k.brkBase = 0 ∧ k.currentBrk = 0 ∨
    k.brkBase = brkBaseAddr ∧ brkBaseAddr ≤ k.currentBrk ∧ k.currentBrk ≤ brkBaseAddr + brkMaxSize
  mmap_aligned : k.mmapNext % 4096 = 0
  mmap_u64 : k.mmapNext < 2 ^ 64

section
variable {k k' k1 k2 : Kernel} {s : Machine} {b b1 b2 : Books} {i : Fin 64}

theorem Idle.currentPgd (h : Idle k) : k.currentPgd = 0 := by
  rw [Kernel.currentPgd, h.current]
  exact h.idle

/-- Without a page table the loop takes pages and maps nothing. -/
theorem mapFresh_zero (n va : Nat) (s : Machine) :
    (mapFresh 0 n va s).2 = decide (n ≤ freeCount s.pages) ∧
      (mapFresh 0 n va s).1.lastMapped = s.lastMapped := by
  induction n generalizing s va with
  | zero => simp [mapFresh]
  | succ n ih =>
    rw [mapFresh]
    rcases allocPage_count s with ⟨h0, hc, hs⟩ | ⟨h0, hc⟩
    · rw [if_pos h0, hs]
      simp [hc]
    rw [if_neg h0, if_pos rfl]
    obtain ⟨hok, hmap⟩ := ih ((va + 4096) % 2 ^ 64) s.allocPage.1
    refine ⟨?_, hmap⟩
    rw [hok, decide_eq_decide]
    omega

/-- What stays of a kernel in a memory call. -/
structure Undisturbed (k k' : Kernel) : Prop where
  procs : k'.procs = k.procs
  current : k'.current = k.current
  ttbr0 : k'.ttbr0 = k.ttbr0
  lastMapped : k'.machine.lastMapped = k.machine.lastMapped

theorem Undisturbed.refl (k : Kernel) : Undisturbed k k := ⟨rfl, rfl, rfl, rfl⟩

theorem Kernel.books_brk (k : Kernel) (addr : Nat) :
    k.books.call (.brk addr) = (⟨breakAfter k addr, k.mmapNext⟩, toI64 (breakAfter k addr)) := by
  rw [Books.call, breakAfter]
  by_cases hin : brkBaseAddr ≤ addr ∧ addr ≤ brkBaseAddr + brkMaxSize
  · rw [if_pos hin, if_pos hin]
    rfl
  · rw [if_neg hin, if_neg hin]
    rfl

theorem Idle.sysBrk_books (h : Idle k) (addr : Nat) :
    (k.sysBrk addr).2 = (k.books.call (.brk addr)).2 ∧
    (k.sysBrk addr).1.books = (k.books.call (.brk addr)).1 ∧
    Idle (k.sysBrk addr).1 ∧ Undisturbed k (k.sysBrk addr).1 := by
  have hbrk := h.brk
  have hrange : brkBaseAddr ≤ breakAfter k addr ∧ breakAfter k addr ≤ brkBaseAddr + brkMaxSize := by
    unfold breakAfter
    split <;> omega
  rw [k.sysBrk_idle h.currentPgd (hbrk.imp_right fun h => ⟨h.1, h.2.1⟩), k.books_brk]
  refine ⟨rfl, ?_, { h with brk := .inr ⟨rfl, hrange⟩ }, ⟨rfl, rfl, rfl, rfl⟩⟩
  unfold Kernel.books
  rw [Nat.max_eq_left hrange.1]

theorem Idle.mmapAt_books (h : Idle k) {vaddr length : Nat}
    (hn : length / 4096 ≤ freeCount k.machine.pages) :
    (k.mmapAt vaddr length).2 = toI64 vaddr ∧ (k.mmapAt vaddr length).1.books = k.books ∧
    Idle (k.mmapAt vaddr length).1 ∧ Undisturbed k (k.mmapAt vaddr length).1 := by
  obtain ⟨hok, hmap⟩ := mapFresh_zero (length / 4096) vaddr k.machine
  unfold Kernel.mmapAt
  rw [h.currentPgd]
  refine ⟨if_pos (by rw [hok, decide_eq_true hn]), rfl, { h with }, ⟨rfl, rfl, rfl, hmap⟩⟩

theorem Idle.next (h : Idle k) (length : Nat) :
    Idle { k with mmapNext := (k.mmapNext + roundUp length) % 2 ^ 64 } where
  __ := h
  mmap_aligned := by
    have := roundUp_aligned length
    have := h.mmap_aligned
    dsimp only
    omega
  mmap_u64 := Nat.mod_lt _ (by decide)

theorem Idle.sysMmap_books (h : Idle k) {addr flags : Nat}
    (hn : k.books.pages (.mmap addr length flags) ≤ freeCount k.machine.pages) :
    (k.sysMmap addr length flags).2 = (k.books.call (.mmap addr length flags)).2 ∧
    (k.sysMmap addr length flags).1.books = (k.books.call (.mmap addr length flags)).1 ∧
    Idle (k.sysMmap addr length flags).1 ∧ Undisturbed k (k.sysMmap addr length flags).1 := by
  rw [Kernel.sysMmap, Books.call]
  rw [Books.pages] at hn
  by_cases hl : length = 0
  · rw [if_pos hl, if_pos hl]
    exact ⟨rfl, rfl, h, .refl k⟩
  rw [if_neg hl] at hn ⊢
  rw [if_neg hl]
  by_cases hf : flags &&& mapFixed ≠ 0 ∧ addr ≠ 0
  · rw [if_pos hf] at hn ⊢
    rw [if_pos hf]
    exact h.mmapAt_books hn
  rw [if_neg hf] at hn ⊢
  rw [if_neg hf]
  dsimp only [Kernel.books]
  by_cases hm : (k.mmapNext + roundUp length) % 2 ^ 64 > mmapMax
  · rw [if_pos hm, if_pos hm]
    exact ⟨rfl, rfl, h.next length, ⟨rfl, rfl, rfl, rfl⟩⟩
  · rw [if_neg (show ¬ (k.books.next + roundUp length) % 2 ^ 64 > mmapMax from hm)] at hn
    rw [if_neg hm, if_neg hm]
    obtain ⟨hres, hb, hidle, hU⟩ := @Idle.mmapAt_books _ (h.next length) k.mmapNext _ hn
    exact ⟨hres, hb, hidle, ⟨hU.procs, hU.current, hU.ttbr0, hU.lastMapped⟩⟩

/-- One memory call does what the books say. -/
theorem Idle.memCall_books (h : Idle k) {c : MemCall}
    (hn : k.books.pages c ≤ freeCount k.machine.pages) :
    (k.memCall c).2 = (k.books.call c).2 ∧ (k.memCall c).1.books = (k.books.call c).1 ∧
    Idle (k.memCall c).1 ∧ Undisturbed k (k.memCall c).1 := by
  cases c with
  | brk addr => exact h.sysBrk_books addr
  | mmap addr length flags => exact h.sysMmap_books hn

/-! ## A program's calls -/

/-- The allocator has the pages that the calls ask for. -/
def EnoughPages (k : Kernel) : List MemCall → Prop
  | [] => True
  | c :: cs => k.books.pages c ≤ freeCount k.machine.pages ∧ EnoughPages (k.memCall c).1 cs

def Kernel.answers (k : Kernel) : List MemCall → List Int
  | [] => []
  | c :: cs => (k.memCall c).2 :: (k.memCall c).1.answers cs

/-- The virtual page gets a new mapping in the program's page table. -/
def MapsPage (k : Kernel) (calls : List MemCall) (v : Nat) : Prop :=
  (k.memCalls calls).machine.lastMapped k.ttbr0 v ≠ k.machine.lastMapped k.ttbr0 v

/-- The calls return the same in both kernels and map the same pages. -/
def SameTreatment (k1 k2 : Kernel) (calls : List MemCall) : Prop :=
  k1.answers calls = k2.answers calls ∧ ∀ v, MapsPage k1 calls v ↔ MapsPage k2 calls v

theorem Idle.answers_books (h : Idle k) (hn : EnoughPages k calls) :
    k.answers calls = k.books.answers calls := by
  induction calls generalizing k with
  | nil => rfl
  | cons c cs ih =>
    obtain ⟨hres, hb, hidle, -⟩ := h.memCall_books hn.1
    rw [Kernel.answers, Books.answers, hres, ih hidle hn.2, hb]

theorem Idle.not_mapsPage (h : Idle k) (hn : EnoughPages k calls) (v : Nat) :
    ¬ MapsPage k calls v := by
  have hmap : (k.memCalls calls).machine.lastMapped = k.machine.lastMapped := by
    induction calls generalizing k with
    | nil => rfl
    | cons c cs ih =>
      obtain ⟨-, -, hidle, hU⟩ := h.memCall_books hn.1
      exact (ih hidle hn.2).trans hU.lastMapped
  exact fun hne => hne (by rw [hmap])

theorem Idle.sameTreatment_iff (h1 : Idle k1) (h2 : Idle k2) (hn1 : EnoughPages k1 calls)
    (hn2 : EnoughPages k2 calls) :
    SameTreatment k1 k2 calls ↔ k1.books.answers calls = k2.books.answers calls := by
  unfold SameTreatment
  rw [h1.answers_books hn1, h2.answers_books hn2]
  refine ⟨fun h => h.1, fun h => ⟨h, fun v => ?_⟩⟩
  exact iff_of_false (h1.not_mapsPage hn1 v) (h2.not_mapsPage hn2 v)

/-! ## Different books are told apart -/

theorem toI64_inj {y : Nat} (hx : x < 2 ^ 64) (hy : y < 2 ^ 64) (h : toI64 x = toI64 y) :
    x = y := by
  unfold toI64 at h
  split at h <;> split at h <;> omega

/-- A `brk` that asks shows the break. -/
theorem enough_brk (k : Kernel) : EnoughPages k [.brk 0] := ⟨Nat.zero_le _, trivial⟩

theorem Books.call_anywhere (b : Books) (h : length ≠ 0) :
    b.call (.mmap 0 length 0) = ({ b with next := (b.next + roundUp length) % 2 ^ 64 },
      if (b.next + roundUp length) % 2 ^ 64 > mmapMax then linuxEnomem else toI64 b.next) := by
  rw [Books.call, if_neg h, if_neg fun hf => hf.2 rfl]

theorem Books.pages_anywhere (b : Books) (h : length ≠ 0) :
    b.pages (.mmap 0 length 0) =
      if (b.next + roundUp length) % 2 ^ 64 > mmapMax then 0 else roundUp length / 4096 := by
  rw [Books.pages, if_neg h, if_neg fun hf => hf.2 rfl]

/-- A length that rounds to 0 shows `mmap_next` and takes no page. -/
def peek : List MemCall := [.mmap 0 (2 ^ 64 - 1) 0]

theorem roundUp_peek : roundUp (2 ^ 64 - 1) = 0 := by decide

theorem enough_peek (k : Kernel) : EnoughPages k peek := by
  have hpages : k.books.pages (.mmap 0 (2 ^ 64 - 1) 0) = 0 := by
    rw [Books.pages_anywhere _ (by decide), roundUp_peek]
    split <;> rfl
  exact ⟨hpages.le.trans (Nat.zero_le _), trivial⟩

theorem answers_peek (hb : b.next < 2 ^ 64) :
    b.answers peek = [if b.next > mmapMax then linuxEnomem else toI64 b.next] := by
  rw [peek, Books.answers, Books.call_anywhere _ (by decide), roundUp_peek, Nat.add_zero,
    Nat.mod_eq_of_lt hb]
  rfl

/-- A length that moves `next` to the last page of the address space and one
more page. -/
def overTheTop (next : Nat) : List MemCall := [.mmap 0 (2 ^ 64 - 4096 - next) 0, .mmap 0 4096 0]

theorem roundUp_of_aligned (h : x % 4096 = 0) (hx : x < 2 ^ 64) : roundUp x = x := by
  unfold roundUp
  omega

/-- The first of the two calls when `next` is past the region and at most `n`. -/
theorem call_overTheTop (hn : n % 4096 = 0) (hn64 : n ≤ 2 ^ 64 - 4096) (hb : mmapMax < b.next)
    (hle : b.next ≤ n) :
    (b.call (.mmap 0 (2 ^ 64 - 4096 - n) 0)).1 = { b with next := b.next + (2 ^ 64 - 4096 - n) } ∧
    b.pages (.mmap 0 (2 ^ 64 - 4096 - n) 0) = 0 := by
  by_cases h0 : 2 ^ 64 - 4096 - n = 0
  · rw [h0]
    exact ⟨rfl, rfl⟩
  have hr : roundUp (2 ^ 64 - 4096 - n) = 2 ^ 64 - 4096 - n :=
    roundUp_of_aligned (by omega) (by omega)
  have hmod : (b.next + (2 ^ 64 - 4096 - n)) % 2 ^ 64 = b.next + (2 ^ 64 - 4096 - n) :=
    Nat.mod_eq_of_lt (by omega)
  rw [Books.call_anywhere _ h0, Books.pages_anywhere _ h0, hr, hmod]
  exact ⟨rfl, if_pos (by omega)⟩

theorem roundUp_page : roundUp 4096 = 4096 := by decide

/-- The second call when `next` is the last page: it wraps into the region. -/
theorem call_lastPage (hb : b.next = 2 ^ 64 - 4096) :
    (b.call (.mmap 0 4096 0)).2 = -4096 ∧ b.pages (.mmap 0 4096 0) = 1 := by
  rw [Books.call_anywhere _ (by decide), Books.pages_anywhere _ (by decide), roundUp_page, hb]
  dsimp only
  decide

theorem call_pastRegion (hb : mmapMax < b.next) (hlt : b.next + 4096 < 2 ^ 64) :
    (b.call (.mmap 0 4096 0)).2 = linuxEnomem ∧ b.pages (.mmap 0 4096 0) = 0 := by
  have hmod : (b.next + 4096) % 2 ^ 64 > mmapMax := by
    rw [Nat.mod_eq_of_lt hlt]
    omega
  rw [Books.call_anywhere _ (by decide), Books.pages_anywhere _ (by decide), roundUp_page]
  constructor <;> rw [if_pos hmod]

/-- Some calls that both kernels have the pages for are answered differently. -/
def ToldApart (k1 k2 : Kernel) : Prop :=
  ∃ calls, EnoughPages k1 calls ∧ EnoughPages k2 calls ∧
    k1.books.answers calls ≠ k2.books.answers calls

theorem ToldApart.symm (h : ToldApart k1 k2) : ToldApart k2 k1 := by
  obtain ⟨calls, h1, h2, hne⟩ := h
  exact ⟨calls, h2, h1, hne.symm⟩

theorem toldApart_brk (h1 : Idle k1) (h2 : Idle k2) (hne : k1.books.brk ≠ k2.books.brk) :
    ToldApart k1 k2 := by
  refine ⟨[.brk 0], enough_brk k1, enough_brk k2, fun he => hne ?_⟩
  have hask : ∀ b : Books, b.answers [.brk 0] = [toI64 b.brk] := fun b => rfl
  rw [hask, hask] at he
  have hlt : ∀ {k : Kernel}, Idle k → k.books.brk < 2 ^ 64 := by
    intro k h
    have := h.brk
    simp only [Kernel.books, brkBaseAddr, brkMaxSize] at this ⊢
    omega
  exact toI64_inj (hlt h1) (hlt h2) (List.cons.inj he).1

/-- Inside the region `mmap_next` can be read. -/
theorem toldApart_inside (h1 : Idle k1) (h2 : Idle k2) (hne : k1.mmapNext ≠ k2.mmapNext)
    (hin : k1.mmapNext ≤ mmapMax) : ToldApart k1 k2 := by
  have hn1 : k1.books.next < 2 ^ 64 := h1.mmap_u64
  have hn2 : k2.books.next < 2 ^ 64 := h2.mmap_u64
  refine ⟨peek, enough_peek k1, enough_peek k2, fun he => hne ?_⟩
  have hin' : ¬ k1.books.next > mmapMax := by
    show ¬ k1.mmapNext > mmapMax
    omega
  rw [answers_peek hn1, answers_peek hn2, if_neg hin'] at he
  have hval := (List.cons.inj he).1
  split at hval
  · -- a break of the region is not an error code
    have hsmall : toI64 k1.books.next = (k1.books.next : Int) :=
      if_pos (by unfold mmapMax at hin'; omega)
    rw [hsmall] at hval
    unfold linuxEnomem at hval
    omega
  · exact toI64_inj hn1 hn2 hval

theorem Idle.enough_overTheTop (h : Idle k) (hn : n % 4096 = 0) (hn64 : n ≤ 2 ^ 64 - 4096)
    (hb : mmapMax < k.mmapNext) (hle : k.mmapNext ≤ n)
    (hp : ({ k.books with next := k.mmapNext + (2 ^ 64 - 4096 - n) } :
      Books).pages (.mmap 0 4096 0) ≤ freeCount k.machine.pages) :
    EnoughPages k (overTheTop n) := by
  obtain ⟨hc, hp0⟩ := call_overTheTop (b := k.books) hn hn64 hb hle
  have hn0 : k.books.pages (.mmap 0 (2 ^ 64 - 4096 - n) 0) ≤ freeCount k.machine.pages := by omega
  obtain ⟨-, hbooks, -, -⟩ := h.memCall_books hn0
  refine ⟨hn0, ?_, trivial⟩
  -- the call fails without taking a page
  have hpages : (k.memCall (.mmap 0 (2 ^ 64 - 4096 - n) 0)).1.machine = k.machine := by
    rw [Kernel.memCall, Kernel.sysMmap]
    by_cases h0 : 2 ^ 64 - 4096 - n = 0
    · rw [if_pos h0]
    have hr : roundUp (2 ^ 64 - 4096 - n) = 2 ^ 64 - 4096 - n :=
      roundUp_of_aligned (by omega) (by omega)
    have hmod : (k.mmapNext + (2 ^ 64 - 4096 - n)) % 2 ^ 64 = k.mmapNext + (2 ^ 64 - 4096 - n) :=
      Nat.mod_eq_of_lt (by omega)
    rw [if_neg h0, if_neg fun hf => hf.2 rfl, hr]
    dsimp only
    rw [hmod, if_pos (by omega)]
  rw [hpages, hbooks, hc]
  exact hp

/-- Past the region the larger `mmap_next` wraps first. -/
theorem toldApart_past (h1 : Idle k1) (h2 : Idle k2) (hlt : k2.mmapNext < k1.mmapNext)
    (hout : mmapMax < k2.mmapNext) (hfree : 1 ≤ freeCount k1.machine.pages) : ToldApart k1 k2 := by
  have ha1 := h1.mmap_aligned
  have h64 := h1.mmap_u64
  have htop : k1.mmapNext ≤ 2 ^ 64 - 4096 := by omega
  have hout1 : mmapMax < k1.mmapNext := by omega
  obtain ⟨hc1, -⟩ := call_overTheTop (b := k1.books) ha1 htop hout1 (Nat.le_refl _)
  obtain ⟨hc2, -⟩ := call_overTheTop (b := k2.books) ha1 htop hout hlt.le
  obtain ⟨hlast, hlastp⟩ := call_lastPage
    (b := { k1.books with next := k1.mmapNext + (2 ^ 64 - 4096 - k1.mmapNext) })
      (by dsimp only; omega)
  obtain ⟨hpast, hpastp⟩ := call_pastRegion
    (b := { k2.books with next := k2.mmapNext + (2 ^ 64 - 4096 - k1.mmapNext) })
    (by dsimp only; omega) (by dsimp only; omega)
  refine ⟨overTheTop k1.mmapNext, h1.enough_overTheTop ha1 htop hout1 (Nat.le_refl _) (by omega),
    h2.enough_overTheTop ha1 htop hout hlt.le (by omega), fun he => ?_⟩
  have hsecond := (List.cons.inj (List.cons.inj he).2).1
  have e1 : k1.books.next = k1.mmapNext := rfl
  have e2 : k2.books.next = k2.mmapNext := rfl
  rw [hc1, hc2, e1, e2, hlast, hpast] at hsecond
  exact absurd hsecond (by decide)

/-- Different books can be told apart, given one free page each. -/
theorem toldApart_of_ne (h1 : Idle k1) (h2 : Idle k2) (hf1 : 1 ≤ freeCount k1.machine.pages)
    (hf2 : 1 ≤ freeCount k2.machine.pages) (hne : k1.books ≠ k2.books) : ToldApart k1 k2 := by
  by_cases hbrk : k1.books.brk = k2.books.brk
  · have hnext : k1.mmapNext ≠ k2.mmapNext := by
      intro he
      apply hne
      unfold Kernel.books at hbrk ⊢
      dsimp only at hbrk
      rw [he, hbrk]
    by_cases hin1 : k1.mmapNext ≤ mmapMax
    · exact toldApart_inside h1 h2 hnext hin1
    by_cases hin2 : k2.mmapNext ≤ mmapMax
    · exact (toldApart_inside h2 h1 hnext.symm hin2).symm
    rcases Nat.lt_or_gt_of_ne hnext with hlt | hlt
    · exact (toldApart_past h2 h1 hlt (by omega) hf2).symm
    · exact toldApart_past h1 h2 hlt (by omega) hf1
  · exact toldApart_brk h1 h2 hbrk

/-! ## Histories -/

theorem Idle.of_eq (h : Idle k) (hc : k'.current = k.current)
    (hp : (k'.procs 0).pageTable = (k.procs 0).pageTable) (hb : k'.brkBase = k.brkBase)
    (hcb : k'.currentBrk = k.currentBrk) (hm : k'.mmapNext = k.mmapNext) : Idle k' := by
  refine ⟨hc.trans h.current, hp.trans h.idle, ?_, ?_, ?_⟩
  · rw [hb, hcb]
    exact h.brk
  · rw [hm]
    exact h.mmap_aligned
  · rw [hm]
    exact h.mmap_u64

theorem idle_init (s : Machine) (ttbr0 : Nat) : Idle (Kernel.init s ttbr0) :=
  ⟨rfl, rfl, .inl ⟨rfl, rfl⟩, show mmapBase % 4096 = 0 by decide, show mmapBase < 2 ^ 64 by decide⟩

theorem Idle.createUser (h : Idle k) (entryPoint pageTable : Nat) :
    Idle (k.createUser entryPoint pageTable).1 := by
  unfold Kernel.createUser
  cases hs : k.freeSlot with
  | none => exact h
  | some i =>
    have hi := (freeSlot_spec hs).1
    dsimp only
    split
    · exact h.of_eq rfl rfl rfl rfl rfl
    split
    · exact h.of_eq rfl rfl rfl rfl rfl
    · refine h.of_eq rfl ?_ rfl rfl rfl
      dsimp only
      rw [Function.update_of_ne hi.symm]

theorem Idle.loadAndExec (h : Idle k) (kpgd : Nat) (read : Option (Mem × Nat)) :
    Idle (k.loadAndExec kpgd read).1 := by
  unfold Kernel.loadAndExec
  cases read with
  | none => exact h
  | some r =>
    dsimp only
    split
    · exact h
    split
    · exact h.of_eq rfl rfl rfl rfl rfl
    split
    · exact h.of_eq rfl rfl rfl rfl rfl
    · have hc : Idle { k with machine :=
          (L5.loadSegments r.1 r.2 (k.machine.createUserPageTable kpgd).2
          (headers r.1) (k.machine.createUserPageTable kpgd).1).1 } := h.of_eq rfl rfl rfl rfl rfl
      have hu := hc.createUser (eEntry r.1) (k.machine.createUserPageTable kpgd).2
      split <;> exact hu

theorem Idle.startProgram (h : Idle k) (kpgd : Nat) (read : Option (Mem × Nat)) :
    Idle (k.startProgram kpgd read).1 := by
  have hl := h.loadAndExec kpgd read
  unfold Kernel.startProgram
  dsimp only
  split
  · exact hl
  split
  · exact hl
  · split
    · exact hl.of_eq rfl rfl rfl rfl rfl
    · exact hl

/-- Whatever the calls, they keep the ranges of the statics. -/
theorem Idle.memCall (h : Idle k) (c : MemCall) : Idle (k.memCall c).1 := by
  cases c with
  | brk addr => exact (h.sysBrk_books addr).2.2.1
  | mmap addr length flags =>
    rw [Kernel.memCall, Kernel.sysMmap]
    split
    · exact h
    split
    · exact h.of_eq rfl rfl rfl rfl rfl
    dsimp only
    split
    · exact h.next length
    · exact (h.next length).of_eq rfl rfl rfl rfl rfl

theorem Idle.memCalls (h : Idle k) (calls : List MemCall) : Idle (k.memCalls calls) := by
  induction calls generalizing k with
  | nil => exact h
  | cons c cs ih => exact ih (h.memCall c)

theorem Idle.sysExit (h : Idle k) : Idle k.sysExit := by
  unfold Kernel.sysExit
  rw [h.current]
  exact h.of_eq rfl (by simp [Kernel.setProc]) rfl rfl rfl

theorem Idle.reapZombies (h : Idle k) : Idle k.reapZombies := by
  have hfold : ∀ (l : List (Fin 64)), (∀ i ∈ l, i ≠ 0) → ∀ k, Idle k →
      Idle (l.foldl Kernel.reap k) := by
    intro l hl
    induction l with
    | nil => exact fun _ h => h
    | cons i l ih =>
      intro k h
      refine ih (fun j hj => hl j (List.mem_cons_of_mem _ hj)) _ ?_
      have hi := hl i (List.mem_cons_self ..)
      unfold Kernel.reap
      split
      · refine h.of_eq rfl ?_ rfl rfl rfl
        dsimp only
        rw [Function.update_of_ne hi.symm]
      · exact h
  exact hfold _ (fun i hi => by simpa using hi) k h

theorem Idle.runCommand (h : Idle k) (kpgd : Nat) (p : Program) : Idle (k.runCommand kpgd p) := by
  have hs := h.startProgram kpgd p.read
  unfold Kernel.runCommand
  dsimp only
  split
  · exact hs.reapZombies
  · rw [endProgram_eq]
    exact ((hs.memCalls p.calls).sysExit).reapZombies

/-- The kernel after the `run` commands of the shell. -/
def Kernel.history (k : Kernel) (kpgd : Nat) (ps : List Program) : Kernel :=
  ps.foldl (fun k p => k.runCommand kpgd p) k

theorem Idle.history (h : Idle k) (kpgd : Nat) (ps : List Program) : Idle (k.history kpgd ps) := by
  induction ps generalizing k with
  | nil => exact h
  | cons p ps ih => exact ih (h.runCommand kpgd p)

/-- Two histories of one boot and the same program started after each: its
memory calls are treated the same exactly when the two histories leave the same
books. -/
theorem memory_books_iff {kpgd : Nat} {ps1 ps2 : List Program} {read : Option (Mem × Nat)}
    {i1 i2 : Fin 64}
    (hs1 : ((Kernel.init s kpgd).history kpgd ps1).startProgram kpgd read = (k1, some i1))
    (hs2 : ((Kernel.init s kpgd).history kpgd ps2).startProgram kpgd read = (k2, some i2))
    (hf1 : 1 ≤ freeCount k1.machine.pages) (hf2 : 1 ≤ freeCount k2.machine.pages) :
    (∀ calls, EnoughPages k1 calls → EnoughPages k2 calls → SameTreatment k1 k2 calls) ↔
      k1.books = k2.books := by
  have hidle : ∀ ps, Idle (((Kernel.init s kpgd).history kpgd ps).startProgram kpgd read).1 :=
    fun ps => ((idle_init s kpgd).history kpgd ps).startProgram kpgd read
  have h1 : Idle k1 := by
    have := hidle ps1
    rwa [hs1] at this
  have h2 : Idle k2 := by
    have := hidle ps2
    rwa [hs2] at this
  constructor
  · intro hsame
    by_contra hne
    obtain ⟨calls, hn1, hn2, hdiff⟩ := toldApart_of_ne h1 h2 hf1 hf2 hne
    exact hdiff ((h1.sameTreatment_iff h2 hn1 hn2).mp (hsame calls hn1 hn2))
  · intro he calls hn1 hn2
    rw [h1.sameTreatment_iff h2 hn1 hn2, he]

end

/-- A small program starts after the programs `ps`. -/
def demoStart (ps : List Program) : Kernel × Option (Fin 64) :=
  (demoKernel.history 0x40001000 ps).startProgram 0x40001000 (some (demoElf [0x80000000], 121))

/-- What the examples need of it, evaluated at once. -/
def demoFacts (r : Kernel × Option (Fin 64)) : Option (Fin 64) × List Int × Books × Bool :=
  (r.2, r.1.answers [.mmap 0 4096 0], r.1.books, decide (r.1.machine.allocPage.2 ≠ 0))

theorem demo_boot : demoFacts (demoStart []) =
    (some 1, [0x20000000], ⟨0x10000000, 0x20000000⟩, true) := by
  decide +kernel

/-- **Counterexample**: after a program that asked for one page the next
program's first page is another one than after boot. -/
theorem mmap_inherits_next : (demoStart []).2 = some 1 ∧ (demoStart [demoProgram]).2 = some 2 ∧
    (demoStart []).1.answers [.mmap 0 4096 0] = [0x20000000] ∧
    (demoStart [demoProgram]).1.answers [.mmap 0 4096 0] = [0x20001000] ∧
    ¬ SameTreatment (demoStart []).1 (demoStart [demoProgram]).1 [.mmap 0 4096 0] := by
  have h : demoFacts (demoStart [demoProgram]) =
      (some 2, [0x20001000], ⟨0x10000000, 0x20001000⟩, true) := by decide +kernel
  obtain ⟨hs1, ha1, -⟩ := Prod.mk.inj demo_boot |>.imp_right Prod.mk.inj
  obtain ⟨hs2, ha2, -⟩ := Prod.mk.inj h |>.imp_right Prod.mk.inj
  refine ⟨hs1, hs2, ha1, ha2, fun hsame => ?_⟩
  rw [SameTreatment, ha1, ha2] at hsame
  exact absurd hsame.1 (by decide)

/-- The demo program without its memory call. -/
def quietProgram : Program := { demoProgram with calls := [] }

theorem demo_enough {r : Kernel × Option (Fin 64)} {i : Fin 64} {as : List Int}
    (h : demoFacts r = (some i, as, ⟨0x10000000, 0x20000000⟩, true)) :
    r = (r.1, some i) ∧ 1 ≤ freeCount r.1.machine.pages ∧ EnoughPages r.1 [.mmap 0 4096 0] ∧
      r.1.books = ⟨0x10000000, 0x20000000⟩ := by
  simp only [demoFacts, Prod.mk.injEq, decide_eq_true_eq] at h
  obtain ⟨hi, -, hb, ha⟩ := h
  have hfree := Nat.one_le_iff_ne_zero.mpr ((allocPage_ne_zero_iff _).mp ha)
  refine ⟨Prod.ext rfl hi, hfree, ⟨?_, trivial⟩, hb⟩
  rw [hb, show (⟨0x10000000, 0x20000000⟩ : Books).pages (.mmap 0 4096 0) = 1 by decide]
  exact hfree

/-- A program without memory calls leaves the books as they were. -/
theorem memory_books_quiet :
    SameTreatment (demoStart []).1 (demoStart [quietProgram]).1 [.mmap 0 4096 0] := by
  have h : demoFacts (demoStart [quietProgram]) =
      (some 2, [0x20000000], ⟨0x10000000, 0x20000000⟩, true) := by decide +kernel
  obtain ⟨hs1, hf1, hn1, hb1⟩ := demo_enough demo_boot
  obtain ⟨hs2, hf2, hn2, hb2⟩ := demo_enough h
  exact (memory_books_iff (s := demoMachine) hs1 hs2 hf1 hf2).mpr (hb1.trans hb2.symm) _ hn1 hn2

end HackersOs.L5

import HackersOs.Core.LTS
import HackersOs.Core.Traced
import HackersOs.L5User.Syscalls

/-!
# The bookkeeping of `sys_brk`

A process with a page table calls `brk` again and again while the rest of the
kernel takes and returns pages as it likes. `brkTraced` is `sys_brk` with the
two things the property speaks of written down: what is passed to
`map_user_page`, and an `alloc_page` that answers 0.

An `alloc_page` that failed fails for the rest of the call, since nothing in
`sys_brk` returns a page (`premapTraced_refused`): so a first call whose
pre-mapping ran out of pages moves the break no further than any other.

Result: `brk_bookkeeping`: the break returned is in its region, the pages below
it were passed to `map_user_page`, none below the break before was passed again,
and a call that ran out of pages leaves the break alone.
-/
namespace HackersOs.L5
open HackersOs.Core L2 L2.Mmu L2.Pages HackersOs.Core.Traced

inductive BrkEvent where
  /-- `MMU::map_user_page(pgd, va, ..)` -/
  | map (pgd va : Nat)
  /-- an `alloc_page` of `sys_brk` answered 0 -/
  | refused
  deriving DecidableEq

/-! ## The code, with its events -/

def premapTraced (s : Machine) (pgd : Nat) : Nat → Traced BrkEvent Machine
  | 0 => pure s
  | n + 1 => do
    let s ← premapTraced s pgd n
    let r := s.allocPage
    if r.2 = 0 then do
      .event .refused
      pure r.1
    else do
      .event (.map pgd (brkBaseAddr + n * 4096))
      pure (r.1.mapUserPage pgd (brkBaseAddr + n * 4096) r.2 pteUserRwx)

def mapFreshTraced (pgd : Nat) : Nat → Nat → Machine → Traced BrkEvent (Machine × Bool)
  | 0, _, s => pure (s, true)
  | n + 1, va, s =>
    let r := s.allocPage
    if r.2 = 0 then do
      .event .refused
      pure (r.1, false)
    else if pgd = 0 then mapFreshTraced pgd n ((va + 4096) % 2 ^ 64) r.1
    else do
      .event (.map pgd va)
      mapFreshTraced pgd n ((va + 4096) % 2 ^ 64) (r.1.mapUserPage pgd va r.2 pteUserRwx)

def Kernel.premapped (k : Kernel) : Traced BrkEvent Machine :=
  if k.currentPgd = 0 then pure k.machine else premapTraced k.machine k.currentPgd 16

def Kernel.brkInitTraced (k : Kernel) : Traced BrkEvent Kernel :=
  if k.brkBase = 0 then do
    let s ← k.premapped
    pure { k with brkBase := brkBaseAddr, currentBrk := brkBaseAddr, machine := s }
  else pure k

/-- `sysBrk` with its events. -/
def Kernel.brkTraced (k : Kernel) (addr : Nat) : Traced BrkEvent (Kernel × Int) := do
  let k1 ← k.brkInitTraced
  if addr = 0 then pure (k1, toI64 k1.currentBrk)
  else if addr < k1.brkBase ∨ addr > k1.brkBase + brkMaxSize then pure (k1, toI64 k1.currentBrk)
  else
    let oldPageEnd := roundUp k1.currentBrk
    let newPageEnd := roundUp addr
    if newPageEnd > oldPageEnd ∧ k1.currentPgd ≠ 0 then do
      let r ← mapFreshTraced k1.currentPgd ((newPageEnd - oldPageEnd) / 4096) oldPageEnd k1.machine
      if r.2 then pure ({ k1 with machine := r.1, currentBrk := addr }, toI64 addr)
      else pure ({ k1 with machine := r.1 }, toI64 k1.currentBrk)
    else pure ({ k1 with currentBrk := addr }, toI64 addr)

section
variable {pgd : Nat} {s : Machine} {k : Kernel}

theorem premapTraced_value (s : Machine) (pgd n : Nat) :
    (premapTraced s pgd n).value = premap s pgd n := by
  induction n with
  | zero => rfl
  | succ n ih =>
    simp only [premapTraced, premap, value_bind, ih]
    split <;> rfl

theorem mapFreshTraced_value (pgd n va : Nat) (s : Machine) :
    (mapFreshTraced pgd n va s).value = mapFresh pgd n va s := by
  induction n generalizing va s with
  | zero => rfl
  | succ n ih =>
    simp only [mapFreshTraced, mapFresh]
    split
    · rfl
    · split
      · exact ih _ _
      · rw [value_bind, ih]

theorem Kernel.brkInitTraced_value (k : Kernel) : k.brkInitTraced.value = k.brkInit := by
  unfold Kernel.brkInitTraced Kernel.brkInit
  split
  · rw [value_bind, Kernel.premapped]
    split
    · rfl
    · rw [premapTraced_value]
      rfl
  · rfl

/-- The traced call computes what the call computes. -/
theorem Kernel.brkTraced_value (k : Kernel) (addr : Nat) :
    (k.brkTraced addr).value = k.sysBrk addr := by
  unfold Kernel.brkTraced Kernel.sysBrk
  rw [value_bind, k.brkInitTraced_value]
  dsimp only
  split
  · rfl
  split
  · rfl
  split
  · rw [value_bind, mapFreshTraced_value]
    split <;> rfl
  · rfl

/-! ## The growth loop -/

/-- A page passed to `map_user_page` is not below `lo`. -/
def NotBelow (pgd lo : Nat) : BrkEvent → Prop
  | .map p va => p = pgd ∧ lo ≤ va
  | .refused => True

theorem NotBelow.mono {lo lo' : Nat} (hle : lo ≤ lo') {e : BrkEvent} (h : NotBelow pgd lo' e) :
    NotBelow pgd lo e := by
  cases e with
  | map p va => exact ⟨h.1, Nat.le_trans hle h.2⟩
  | refused => trivial

/-- Every page of the loop is passed to `map_user_page`, unless the allocator
refuses one. -/
theorem mapFreshTraced_events (hpgd : pgd ≠ 0) {n va : Nat} (hva : va + n * 4096 < 2 ^ 64) :
    Every (NotBelow pgd va) (mapFreshTraced pgd n va s) ∧
    ((mapFreshTraced pgd n va s).value.2 = true →
      ∀ i < n, .map pgd (va + i * 4096) ∈ (mapFreshTraced pgd n va s).trace) ∧
    (.refused ∈ (mapFreshTraced pgd n va s).trace → (mapFreshTraced pgd n va s).value.2 = false) := by
  induction n generalizing va s with
  | zero =>
    refine ⟨every_pure _, fun _ i hi => by omega, fun h => ?_⟩
    cases h
  | succ n ih =>
    have hlt : va + 4096 < 2 ^ 64 := by omega
    rw [mapFreshTraced, Nat.mod_eq_of_lt hlt]
    by_cases h0 : s.allocPage.2 = 0
    · rw [if_pos h0, value_bind, value_pure]
      refine ⟨?_, fun h => ?_, fun _ => rfl⟩
      · simp [NotBelow]
      · cases h
    · rw [if_neg h0, if_neg hpgd]
      obtain ⟨hlow, hall, href⟩ := @ih (s.allocPage.1.mapUserPage pgd va s.allocPage.2 pteUserRwx)
        (va + 4096) (by omega)
      refine ⟨?_, fun hdone i hi => ?_, fun h => ?_⟩
      · rw [every_bind, every_event]
        exact ⟨⟨rfl, Nat.le_refl _⟩, hlow.imp fun e he => he.mono (by omega)⟩
      · rw [trace_bind, trace_event, List.mem_append]
        rcases Nat.eq_zero_or_pos i with rfl | hpos
        · exact .inl (by simp)
        · have hi' := hall hdone (i - 1) (by omega)
          have e : va + 4096 + (i - 1) * 4096 = va + i * 4096 := by omega
          rw [e] at hi'
          exact .inr hi'
      · rw [trace_bind, trace_event, List.mem_append] at h
        refine href (h.resolve_left fun h' => ?_)
        simp at h'

/-- An empty allocator refuses the first page. -/
theorem mapFreshTraced_empty {n va : Nat} (hn : 0 < n) (hs : freeCount s.pages = 0) :
    (mapFreshTraced pgd n va s).value.2 = false := by
  cases n with
  | zero => omega
  | succ n =>
    rcases allocPage_count s with ⟨h0, -⟩ | ⟨-, hc⟩
    · rw [mapFreshTraced, if_pos h0, value_bind, value_pure]
    · omega

/-! ## The pre-mapped pages -/

theorem premapTraced_notBelow (n : Nat) :
    Every (NotBelow pgd brkBaseAddr) (premapTraced s pgd n) := by
  induction n with
  | zero => exact every_pure _
  | succ n ih =>
    rw [premapTraced, every_bind]
    refine ⟨ih, ?_⟩
    dsimp only
    split <;> simp [NotBelow]

/-- A refused `alloc_page` leaves an empty allocator behind, to the end of the loop. -/
theorem premapTraced_refused {n : Nat} (h : .refused ∈ (premapTraced s pgd n).trace) :
    freeCount (premapTraced s pgd n).value.pages = 0 := by
  induction n with
  | zero => cases h
  | succ n ih =>
    rw [premapTraced, trace_bind, List.mem_append] at h
    rw [premapTraced, value_bind]
    generalize (premapTraced s pgd n).value = s' at *
    rcases allocPage_count s' with ⟨h0, hc, hs⟩ | ⟨h0, hc⟩
    · rw [if_pos h0, hs]
      exact hc
    rw [if_neg h0] at h ⊢
    have hbefore : freeCount s'.pages = 0 := by
      refine ih (h.resolve_right fun h' => ?_)
      simp at h'
    omega

/-! ## One call -/

/-- The break that holds when a call of `brk` looks at it: the first call sets it up. -/
def Kernel.breakOf (k : Kernel) : Nat := if k.brkBase = 0 then brkBaseAddr else k.currentBrk

/-- Between the calls of a process with page table `pgd`; `log` has the events so far. -/
structure BrkInv (pgd : Nat) (k : Kernel) (log : List BrkEvent) : Prop where
  table : k.currentPgd = pgd
  base : k.brkBase = 0 ∨ k.brkBase = brkBaseAddr
  lo : brkBaseAddr ≤ k.breakOf
  hi : k.breakOf ≤ brkBaseAddr + brkMaxSize
  mapped : ∀ v, brkBaseAddr ≤ v * 4096 → v * 4096 < roundUp k.breakOf → .map pgd (v * 4096) ∈ log

theorem roundUp_eq {x : Nat} (hx : x ≤ brkBaseAddr + brkMaxSize) :
    roundUp x = (x + 4095) / 4096 * 4096 := by
  simp only [brkBaseAddr, brkMaxSize] at hx
  rw [roundUp, Nat.mod_eq_of_lt (by omega)]
  rfl

theorem Kernel.currentPgd_congr (k' : Kernel) (hcur : k'.current = k.current)
    (hprocs : k'.procs = k.procs) : k'.currentPgd = k.currentPgd := by
  rw [Kernel.currentPgd, Kernel.currentPgd, hcur, hprocs]

variable {log : List BrkEvent} {addr : Nat}

/-- The set-up of the first call; later calls do nothing here. -/
theorem BrkInv.brkInit (h : BrkInv pgd k log) (hpgd : pgd ≠ 0) :
    k.brkInit.brkBase = brkBaseAddr ∧ k.brkInit.currentBrk = k.breakOf ∧ k.brkInit.currentPgd = pgd ∧
    Every (NotBelow pgd (roundUp k.breakOf)) k.brkInitTraced ∧
    (.refused ∈ k.brkInitTraced.trace →
      freeCount k.brkInit.machine.pages = 0 ∧ k.breakOf = brkBaseAddr) := by
  rw [← k.brkInitTraced_value]
  unfold Kernel.brkInitTraced Kernel.breakOf
  have hp := h.table
  by_cases h0 : k.brkBase = 0
  · have hround : roundUp brkBaseAddr = brkBaseAddr := by decide
    have hne : k.currentPgd ≠ 0 := by rwa [hp]
    rw [if_pos h0, if_pos h0, hround, Kernel.premapped, if_neg hne, hp, value_bind,
      value_pure]
    refine ⟨rfl, rfl, ?_, ?_, fun href => ⟨premapTraced_refused ?_, rfl⟩⟩
    · rw [← hp]
      exact Kernel.currentPgd_congr _ rfl rfl
    · rw [every_bind]
      exact ⟨premapTraced_notBelow 16, every_pure _⟩
    · rw [trace_bind, trace_pure, List.append_nil] at href
      exact href
  · rw [if_neg h0, if_neg h0]
    exact ⟨h.base.resolve_left h0, rfl, hp, every_pure _, fun href => by cases href⟩

/-- The break `nb` a call leaves and returns. -/
structure BrkOutcome (k : Kernel) (addr nb : Nat) : Prop where
  currentBrk : (k.sysBrk addr).1.currentBrk = nb
  result : (k.sysBrk addr).2 = toI64 nb
  base : (k.sysBrk addr).1.brkBase = k.brkInit.brkBase
  table : (k.sysBrk addr).1.currentPgd = k.brkInit.currentPgd

/-- The loop of a call that grows the break. -/
def Kernel.growth (k : Kernel) (addr : Nat) : Traced BrkEvent (Machine × Bool) :=
  mapFreshTraced k.currentPgd ((roundUp addr - roundUp k.currentBrk) / 4096)
    (roundUp k.currentBrk) k.machine

/-- The three ways through a call: the address is refused, no page is missing, or
the loop runs. -/
theorem Kernel.brkTraced_cases (k : Kernel) (addr : Nat) (hp : k.brkInit.currentPgd ≠ 0) :
    (BrkOutcome k addr k.brkInit.currentBrk ∧ (k.brkTraced addr).trace = k.brkInitTraced.trace) ∨
    (k.brkInit.brkBase ≤ addr ∧ addr ≤ k.brkInit.brkBase + brkMaxSize ∧
      ((roundUp addr ≤ roundUp k.brkInit.currentBrk ∧ BrkOutcome k addr addr ∧
          (k.brkTraced addr).trace = k.brkInitTraced.trace) ∨
        (roundUp k.brkInit.currentBrk < roundUp addr ∧
          (k.brkTraced addr).trace = k.brkInitTraced.trace ++ (k.brkInit.growth addr).trace ∧
          BrkOutcome k addr (if (k.brkInit.growth addr).value.2 then addr
            else k.brkInit.currentBrk)))) := by
  have hout : ∀ {k' : Kernel} {r : Int} {nb : Nat}, k.sysBrk addr = (k', r) → k'.currentBrk = nb →
      r = toI64 nb → k'.brkBase = k.brkInit.brkBase → k'.currentPgd = k.brkInit.currentPgd →
      BrkOutcome k addr nb := by
    intro k' r nb e h1 h2 h3 h4
    exact ⟨by rw [e, h1], by rw [e, h2], by rw [e, h3], by rw [e, h4]⟩
  rw [Kernel.brkTraced, trace_bind, k.brkInitTraced_value]
  by_cases h0 : addr = 0
  · refine .inl ⟨@hout k.brkInit _ _ ?_ rfl rfl rfl rfl, ?_⟩
    · rw [Kernel.sysBrk, if_pos h0]
    · rw [if_pos h0, trace_pure, List.append_nil]
  by_cases hin : addr < k.brkInit.brkBase ∨ addr > k.brkInit.brkBase + brkMaxSize
  · refine .inl ⟨@hout k.brkInit _ _ ?_ rfl rfl rfl rfl, ?_⟩
    · rw [Kernel.sysBrk, if_neg h0, if_pos hin]
    · rw [if_neg h0, if_pos hin, trace_pure, List.append_nil]
  refine .inr ⟨by omega, by omega, ?_⟩
  by_cases hgrow : roundUp addr > roundUp k.brkInit.currentBrk
  · refine .inr ⟨hgrow, ?_, ?_⟩
    · rw [if_neg h0, if_neg hin]
      rw [if_pos ⟨hgrow, hp⟩, trace_bind]
      split
      all_goals
        rw [trace_pure, List.append_nil]
        rfl
    · have hval := mapFreshTraced_value k.brkInit.currentPgd
        ((roundUp addr - roundUp k.brkInit.currentBrk) / 4096) (roundUp k.brkInit.currentBrk)
        k.brkInit.machine
      have hsys : k.sysBrk addr =
          if (k.brkInit.growth addr).value.2 then
            ({ k.brkInit with machine := (k.brkInit.growth addr).value.1, currentBrk := addr },
              toI64 addr)
          else ({ k.brkInit with machine := (k.brkInit.growth addr).value.1 },
            toI64 k.brkInit.currentBrk) := by
        rw [Kernel.sysBrk, if_neg h0, if_neg hin, Kernel.growth, hval]
        rw [if_pos ⟨hgrow, hp⟩]
      cases hd : (k.brkInit.growth addr).value.2 with
      | true =>
        rw [hd, if_pos rfl] at hsys
        exact hout hsys rfl rfl rfl (Kernel.currentPgd_congr _ rfl rfl)
      | false =>
        rw [hd, if_neg Bool.false_ne_true] at hsys
        exact hout hsys rfl rfl rfl (Kernel.currentPgd_congr _ rfl rfl)
  · refine .inl ⟨by omega, ?_, ?_⟩
    · refine @hout { k.brkInit with currentBrk := addr } _ _ ?_ rfl rfl rfl
        (Kernel.currentPgd_congr _ rfl rfl)
      rw [Kernel.sysBrk, if_neg h0, if_neg hin]
      rw [if_neg fun h => hgrow h.1]
    · rw [if_neg h0, if_neg hin]
      rw [if_neg fun h => hgrow h.1, trace_pure, List.append_nil]

/-- What a call of `brk` does to the books. -/
structure BrkCallOk (pgd : Nat) (k : Kernel) (log : List BrkEvent) (addr : Nat) : Prop where
  /-- the events are those of the code -/
  code : (k.brkTraced addr).value = k.sysBrk addr
  returns : (k.sysBrk addr).2 = ((k.sysBrk addr).1.currentBrk : Int)
  range : brkBaseAddr ≤ (k.sysBrk addr).1.currentBrk ∧
    (k.sysBrk addr).1.currentBrk ≤ brkBaseAddr + brkMaxSize
  mapped : ∀ v, brkBaseAddr ≤ v * 4096 → v * 4096 < roundUp (k.sysBrk addr).1.currentBrk →
    .map pgd (v * 4096) ∈ log ++ (k.brkTraced addr).trace
  above : ∀ p va, .map p va ∈ (k.brkTraced addr).trace → p = pgd ∧ roundUp k.breakOf ≤ va
  failed : .refused ∈ (k.brkTraced addr).trace → (k.sysBrk addr).1.currentBrk = k.breakOf

theorem toI64_brk {nb : Nat} (h : nb ≤ brkBaseAddr + brkMaxSize) : toI64 nb = (nb : Int) := by
  simp only [brkBaseAddr, brkMaxSize] at h
  rw [toI64, if_pos (by omega)]

/-- A call is in order when the break it leaves is, and the books go on from there. -/
theorem BrkOutcome.callOk {nb : Nat} (h : BrkOutcome k addr nb)
    (hbase : k.brkInit.brkBase = brkBaseAddr)
    (hp : k.brkInit.currentPgd = pgd) (hlo : brkBaseAddr ≤ nb) (hhi : nb ≤ brkBaseAddr + brkMaxSize)
    (hmapped : ∀ v, brkBaseAddr ≤ v * 4096 → v * 4096 < roundUp nb →
      .map pgd (v * 4096) ∈ log ++ (k.brkTraced addr).trace)
    (habove : Every (NotBelow pgd (roundUp k.breakOf)) (k.brkTraced addr))
    (hfailed : .refused ∈ (k.brkTraced addr).trace → nb = k.breakOf) :
    BrkCallOk pgd k log addr ∧ BrkInv pgd (k.sysBrk addr).1 (log ++ (k.brkTraced addr).trace) := by
  have hne : (k.sysBrk addr).1.brkBase ≠ 0 := by
    rw [h.base, hbase]
    decide
  have hbreak : (k.sysBrk addr).1.breakOf = nb := by
    rw [Kernel.breakOf, if_neg hne, h.currentBrk]
  refine ⟨⟨k.brkTraced_value addr, ?_, ?_, ?_, fun p va hm => habove _ hm, ?_⟩,
    ⟨h.table.trans hp, .inr (h.base.trans hbase), ?_, ?_, ?_⟩⟩
  · rw [h.result, h.currentBrk, toI64_brk hhi]
  · rw [h.currentBrk]
    exact ⟨hlo, hhi⟩
  · rw [h.currentBrk]
    exact hmapped
  · rw [h.currentBrk]
    exact hfailed
  · rw [hbreak]
    exact hlo
  · rw [hbreak]
    exact hhi
  · rw [hbreak]
    exact hmapped

theorem BrkInv.call (h : BrkInv pgd k log) (hpgd : pgd ≠ 0) (addr : Nat) :
    BrkCallOk pgd k log addr ∧ BrkInv pgd (k.sysBrk addr).1 (log ++ (k.brkTraced addr).trace) := by
  obtain ⟨hbase, hcur, hp, hinit, hrefused⟩ := h.brkInit hpgd
  have hold : ∀ {trace : List BrkEvent} {v : Nat}, brkBaseAddr ≤ v * 4096 →
      v * 4096 < roundUp k.breakOf → .map pgd (v * 4096) ∈ log ++ trace := by
    intro trace v h1 h2
    exact List.mem_append_left _ (h.mapped v h1 h2)
  have hlo := h.lo
  have hhi := h.hi
  rcases k.brkTraced_cases addr (by rwa [hp]) with
    ⟨hout, htr⟩ | ⟨hle, hge, ⟨hround, hout, htr⟩ | ⟨hround, htr, hout⟩⟩
  · -- the break stays
    rw [hcur] at hout
    refine hout.callOk hbase hp hlo hhi (fun v h1 h2 => hold h1 h2) ?_ fun _ => rfl
    intro e he
    rw [htr] at he
    exact hinit e he
  · -- a break on a page that is there already
    rw [hbase] at hle hge
    rw [hcur] at hround
    refine hout.callOk hbase hp hle hge (fun v h1 h2 => hold h1 (by omega)) ?_ fun href => ?_
    · intro e he
      rw [htr] at he
      exact hinit e he
    · rw [htr] at href
      obtain ⟨-, hb⟩ := hrefused href
      rw [hb, roundUp_eq hge, roundUp_eq (by omega)] at hround
      simp only [brkBaseAddr] at hround hle hb
      omega
  · rw [hbase] at hle hge
    rw [hcur] at hround hout
    have hr1 := roundUp_eq hge
    have hr2 := roundUp_eq hhi
    have hmax : roundUp addr < 2 ^ 64 := by
      simp only [brkBaseAddr, brkMaxSize] at hge
      omega
    obtain ⟨q, hq⟩ : ∃ q, roundUp k.breakOf = q * 4096 := ⟨_, hr2⟩
    obtain ⟨t, ht⟩ : ∃ t, roundUp addr = t * 4096 := ⟨_, hr1⟩
    have hcount : (roundUp addr - roundUp k.breakOf) / 4096 = t - q := by omega
    have hgrowth : k.brkInit.growth addr =
        mapFreshTraced pgd (t - q) (roundUp k.breakOf) k.brkInit.machine := by
      rw [Kernel.growth, hp, hcur, hcount]
    obtain ⟨hev, hall, href⟩ := @mapFreshTraced_events pgd k.brkInit.machine hpgd (t - q)
      (roundUp k.breakOf) (by omega)
    rw [← hgrowth] at hev hall href
    have hnone : .refused ∈ (k.brkTraced addr).trace → (k.brkInit.growth addr).value.2 = false := by
      intro hin
      rw [htr, List.mem_append] at hin
      rcases hin with hin | hin
      · rw [hgrowth]
        exact mapFreshTraced_empty (by omega) (hrefused hin).1
      · exact href hin
    have habove : Every (NotBelow pgd (roundUp k.breakOf)) (k.brkTraced addr) := by
      intro e he
      rw [htr, List.mem_append] at he
      exact he.elim (hinit e) (hev e)
    cases hd : (k.brkInit.growth addr).value.2 with
    | false =>
      rw [hd, if_neg Bool.false_ne_true] at hout
      exact hout.callOk hbase hp hlo hhi (fun v h1 h2 => hold h1 h2) habove fun _ => rfl
    | true =>
      rw [hd, if_pos rfl] at hout
      refine hout.callOk hbase hp hle hge (fun v h1 h2 => ?_) habove fun hin => ?_
      · by_cases hv : v * 4096 < roundUp k.breakOf
        · exact hold h1 hv
        -- a page of the loop
        have hm := hall hd (v - q) (by omega)
        have e : roundUp k.breakOf + (v - q) * 4096 = v * 4096 := by omega
        rw [e] at hm
        rw [htr]
        exact List.mem_append_right _ (List.mem_append_right _ hm)
      · rw [hnone hin] at hd
        cases hd

end

/-! ## Runs -/

structure BrkRun where
  kernel : Kernel
  /-- ghost: the events of the calls so far -/
  log : List BrkEvent

inductive BrkStep where
  | call (addr : Nat)
  /-- the rest of the kernel: memory and the allocator are something else now -/
  | other (machine : Machine)

/-- A process with page table `pgd` calls `brk`, from boot on. -/
def brkLTS (pgd : Nat) : LTS BrkRun BrkStep where
  init s := s.kernel.brkBase = 0 ∧ s.kernel.currentPgd = pgd ∧ s.log = []
  step s l s' := match l with
    | .call addr => addr < 2 ^ 64 ∧
        s' = ⟨(s.kernel.sysBrk addr).1, s.log ++ (s.kernel.brkTraced addr).trace⟩
    | .other m => s' = { s with kernel := { s.kernel with machine := m } }

theorem brkInv_inductive {pgd : Nat} (hpgd : pgd ≠ 0) :
    (brkLTS pgd).Inductive fun s => BrkInv pgd s.kernel s.log where
  init := by
    intro s ⟨h0, hp, _⟩
    have hb : s.kernel.breakOf = brkBaseAddr := if_pos h0
    refine ⟨hp, .inl h0, ?_, ?_, fun v h1 h2 => ?_⟩
    · rw [hb]
    · rw [hb]
      exact Nat.le_add_right _ _
    · have hround : roundUp brkBaseAddr = brkBaseAddr := by decide
      rw [hb, hround] at h2
      omega
  step := by
    intro s l s' h hstep
    cases l with
    | call addr =>
      obtain ⟨-, rfl⟩ := hstep
      exact (h.call hpgd addr).2
    | other m =>
      cases hstep
      exact ⟨(Kernel.currentPgd_congr _ rfl rfl).trans h.table, h.base, h.lo, h.hi, h.mapped⟩

/-- Every call of `brk`, at any point of any sequence of calls and with the
allocator in any state, keeps the books. -/
theorem brk_bookkeeping {pgd : Nat} (hpgd : pgd ≠ 0) {s : BrkRun} (hs : (brkLTS pgd).Reachable s)
    (addr : Nat) : BrkCallOk pgd s.kernel s.log addr :=
  (((brkInv_inductive hpgd).reachable s hs).call hpgd addr).1

/-- A process with a page table, in 2 MB of free RAM. -/
def oneProcess : Kernel where
  machine := ⟨fun _ => 0, ⟨fun _ => 0, 512, 512⟩, fun _ _ => none⟩
  procs := fun i => ⟨if i = 1 then 1 else 0, if i = 1 then .running else .unused, 0, 0,
    if i = 1 then 0x40001000 else 0, 0, 0⟩
  nextPid := 2
  current := some 1
  ttbr0 := 0x40001000
  brkBase := 0
  currentBrk := 0
  mmapNext := mmapBase

/-- Its second call, after one that grew the break by a page. -/
theorem brk_bookkeeping_second : BrkCallOk 0x40001000 (oneProcess.sysBrk 0x10001000).1
      ([] ++ (oneProcess.brkTraced 0x10001000).trace) 0x10004000 := by
  have hinit : (brkLTS 0x40001000).init ⟨oneProcess, []⟩ := ⟨rfl, rfl, rfl⟩
  have hcall : (brkLTS 0x40001000).step ⟨oneProcess, []⟩ (.call 0x10001000)
      ⟨(oneProcess.sysBrk 0x10001000).1, [] ++ (oneProcess.brkTraced 0x10001000).trace⟩ :=
    ⟨by decide, rfl⟩
  exact brk_bookkeeping (by decide) ⟨_, _, hinit, .cons hcall (.nil _)⟩ 0x10004000

end HackersOs.L5

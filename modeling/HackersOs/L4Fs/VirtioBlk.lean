import HackersOs.Core.LTS
import HackersOs.L4Fs.Fat32

/-!
# The disk driver (`drivers/virtio_blk.cpp`)

`do_request` writes a header and a status byte, describes them and the caller's
buffer in a chain of three descriptors, publishes the chain and polls until the
used index moves. The device runs beside it: it sees the new index, follows the
chain from the ring, moves the 512 bytes, stores the status and moves the used
index. Every store of the driver and every action of the device is a step, in any order.
The file system takes a request as one step (`Fat.readSector`, `Fat.writeSector`).

* `disk_requests_atomic`: every run of calls, with the device at its own pace and
  with requests that fail, has the results, the disk and the buffers of that model.
* `disk_request_returns`: a call ends, whatever the order of the steps.

The driver takes ring slots modulo 16 and the device modulo the size it was given.
They may differ, but every slot names descriptor 0. A device that fails a request
moves no bytes; the descriptor table and the rings are in pages of their own.
-/
namespace HackersOs.L4.VirtioBlk
open HackersOs.Core Fat

def queueSize : Nat := 16
def blkTIn : Nat := 0
def blkTOut : Nat := 1
def descFNext : UInt16 := 1
def descFWrite : UInt16 := 2

/-- What the driver finds at `init`, and where its statics are. -/
structure Config where
  /-- the addresses of `header` and `status_byte` -/
  header : Nat
  status : Nat
  apart : status < header ∨ header + 16 ≤ status
  /-- `VIRTIO_MMIO_QUEUE_NUM_MAX`; a request takes three descriptors -/
  maxSize : Nat
  three : 3 ≤ maxSize
  /-- `capacity_sectors` -/
  capacity : UInt64

/-- mirrors src/drivers/virtio_blk.cpp:78 -/
def Config.qsize (a : Config) : Nat := if queueSize < a.maxSize then queueSize else a.maxSize

/-- An address outside the statics of the driver. -/
def Config.Free (a : Config) (x : Nat) : Prop := (x < a.header ∨ a.header + 16 ≤ x) ∧ x ≠ a.status

structure VirtqDesc where
  addr : Nat
  len : Nat
  flags : UInt16
  next : Nat

/-- Memory and the descriptor table. -/
structure Shared where
  mem : Mem
  desc : Nat → VirtqDesc

/-- A call of `read_sector` or `write_sector`. -/
structure Call where
  read : Bool
  sector : Nat
  buf : Nat

def Call.type (c : Call) : Nat := if c.read then blkTIn else blkTOut

/-- The buffer lies beside the statics. -/
def Call.Apart (a : Config) (c : Call) : Prop := ∀ i, i < 512 → a.Free (c.buf + i)

abbrev Store := Shared → Shared

def storeMem (f : Mem → Mem) : Store := fun s => { s with mem := f s.mem }

def storeDesc (i : Nat) (f : VirtqDesc → VirtqDesc) : Store := fun s =>
  { s with desc := Function.update s.desc i (f (s.desc i)) }

def describe (i : Nat) (d : VirtqDesc) : List Store :=
  [storeDesc i fun x => { x with addr := d.addr }, storeDesc i fun x => { x with len := d.len },
   storeDesc i fun x => { x with flags := d.flags }, storeDesc i fun x => { x with next := d.next }]

/-- mirrors src/drivers/virtio_blk.cpp:119-141 -/
def stores (a : Config) (c : Call) : List Store :=
  [storeMem fun m => write32 m a.header c.type, storeMem fun m => write32 m (a.header + 4) 0,
   storeMem fun m => write64 m (a.header + 8) c.sector,
   storeMem fun m => Function.update m a.status 0xFF] ++
  describe 0 ⟨a.header, 16, descFNext, 1⟩ ++
  describe 1 ⟨c.buf, 512, descFNext ||| if c.type = blkTIn then descFWrite else 0, 2⟩ ++
  describe 2 ⟨a.status, 1, descFWrite, 0⟩

def applyAll (l : List Store) (s : Shared) : Shared := l.foldl (fun s st => st s) s

/-- What the device reads from a chain: the request and where its status goes. -/
structure Request where
  call : Call
  status : Nat

/-- The chain from descriptor `head` on, if it is one of a read or a write of a sector. -/
def parse (qsize : Nat) (s : Shared) (head : Nat) : Option Request :=
  let h := s.desc head
  let d := s.desc h.next
  let t := s.desc d.next
  let type := read32 s.mem h.addr
  if head < qsize ∧ h.next < qsize ∧ d.next < qsize ∧ h.len = 16 ∧ h.flags = descFNext ∧
      d.len = 512 ∧
      t.len = 1 ∧ t.flags = descFWrite ∧ (type = blkTIn ∧ d.flags = descFNext ||| descFWrite ∨
        type = blkTOut ∧ d.flags = descFNext) then
    some ⟨⟨type == blkTIn, read64 s.mem (h.addr + 8), d.addr⟩, t.addr⟩
  else none

/-- Where the device is in a request. -/
inductive Job where
  | idle
  | fetched (r : Request)
  | moved (r : Request) (ok : Bool)
  | answered

/-- Where the driver is in a call. -/
inductive Pc where
  | idle
  /-- in front of `avail->idx++`, with these stores left -/
  | storing (rest : List Store)
  | polling
  /-- behind the polling loop -/
  | seen

/-- A call that has returned, with the memory when it began and when it ended. -/
structure Entry where
  call : Call
  before : Mem
  after : Mem
  result : Bool

structure Blk where
  sh : Shared
  /-- `avail->ring` -/
  ring : Nat → Nat
  availIdx : UInt16
  usedIdx : UInt16
  pc : Pc
  /-- the call under way -/
  call : Call
  lastUsed : UInt16
  disk : Mem
  /-- the index up to which the device has fetched -/
  lastAvail : UInt16
  job : Job
  /-- requests that the device has decided -/
  served : Nat
  /-- ghost: the memory when the call began -/
  before : Mem
  /-- ghost: the calls so far -/
  log : List Entry

/-- After `init`: the pages of the queue are zero. -/
def Blk.init (mem disk : Mem) : Blk :=
  ⟨⟨mem, fun _ => ⟨0, 0, 0, 0⟩⟩, fun _ => 0, 0, 0, .idle, ⟨true, 0, 0⟩, 0, disk, 0, .idle, 0, mem,
    []⟩

/-- Memory and disk after the device has moved the bytes of a sector, or has failed to. -/
def Call.move (c : Call) (ok : Bool) (m disk : Mem) : Mem × Mem :=
  if ok = false then (m, disk)
  else if c.read then (blit m c.buf 512 (sectorOf disk c.sector), disk)
  else (m, blit disk (512 * c.sector) 512 fun i => m (c.buf + i))

section
variable (a : Config) (flt : Nat → Bool)

/-- The device decides a request: `flt` says which ones fail. -/
def Blk.serve (s : Blk) (r : Request) : Blk :=
  let ok := !flt s.served && decide (r.call.sector < a.capacity.toNat)
  let m := r.call.move ok s.sh.mem s.disk
  { s with sh := { s.sh with mem := m.1 }, disk := m.2, job := .moved r ok, served := s.served + 1 }

/-- mirrors src/drivers/virtio_blk.cpp:165-173 up to the call of `do_request` -/
def Blk.start (s : Blk) (c : Call) : Blk :=
  if a.capacity.toNat ≤ c.sector then { s with log := s.log ++ [⟨c, s.sh.mem, s.sh.mem, false⟩] }
  else { s with pc := .storing (stores a c), call := c, before := s.sh.mem }

/-- The next action of `do_request`; the device reads a slot of the ring after the index has
moved past it. mirrors src/drivers/virtio_blk.cpp:119-162 -/
def Blk.driver (s : Blk) : Option Blk :=
  match s.pc with
  | .idle => none
  | .storing (st :: rest) => some { s with sh := st s.sh, pc := .storing rest }
  | .storing [] =>
    some { s with
      ring := Function.update s.ring (s.availIdx.toNat % queueSize) 0
      availIdx := s.availIdx + 1
      pc := .polling }
  | .polling => some (if s.usedIdx = s.lastUsed then s else { s with pc := .seen })
  | .seen =>
    some { s with
      lastUsed := s.usedIdx
      pc := .idle
      log := s.log ++ [⟨s.call, s.before, s.sh.mem, s.sh.mem a.status == 0⟩] }

/-- The next action of the device, if it has one. -/
def Blk.device (s : Blk) : Option Blk :=
  match s.job with
  | .idle =>
    if s.lastAvail = s.availIdx then none
    else (parse a.qsize s.sh (s.ring (s.lastAvail.toNat % a.qsize))).map fun r =>
      { s with job := .fetched r, lastAvail := s.lastAvail + 1 }
  | .fetched r => some (s.serve a flt r)
  | .moved r ok =>
    some { s with
      sh := { s.sh with mem := Function.update s.sh.mem r.status (if ok then 0 else 1) }
      job := .answered }
  | .answered => some { s with usedIdx := s.usedIdx + 1, job := .idle }

/-- The driver finds the used index as it was. -/
def Blk.Waits (s : Blk) : Prop := s.pc = .polling ∧ s.usedIdx = s.lastUsed

inductive Op where
  /-- a call, with memory as the kernel has left it -/
  | begin (c : Call) (mem : Mem)
  | driver
  | device

/-- The driver and the device from `init` on; calls are made with buffers beside the
statics of the driver. -/
def blkLTS (disk : Mem) : LTS Blk Op where
  init s := ∃ mem, s = .init mem disk
  step s op s' :=
    match op with
    | .begin c m => s.pc = .idle ∧ c.Apart a ∧
        s' = Blk.start a { s with sh := { s.sh with mem := m } } c
    | .driver => s.driver a = some s'
    | .device => s.device a flt = some s'

/-- The steps inside a call, without looks at the used index that find nothing. -/
def callLTS (disk : Mem) : LTS Blk Op where
  init := (blkLTS a flt disk).init
  step s op s' := s.pc ≠ .idle ∧ (op = .driver → ¬ s.Waits) ∧ (blkLTS a flt disk).step s op s'

/-! ## The requests as single steps -/

/-- The call on the model of the file system. -/
def Entry.spec (fs : Fs) (e : Entry) : Fs × Bool :=
  if e.call.read then
    readSector flt { fs with buf := fun i => e.before (e.call.buf + i) } e.call.sector
  else writeSector flt fs e.call.sector fun i => e.before (e.call.buf + i)

/-- The memory after the call in that model. -/
def Entry.memory (fs : Fs) (e : Entry) : Mem :=
  if e.call.read then blit e.before e.call.buf 512 (e.spec flt fs).1.buf else e.before

/-- The call has the result of the model, and memory outside the statics is as there. -/
def Entry.Agrees (fs : Fs) (e : Entry) : Prop :=
  e.result = (e.spec flt fs).2 ∧ ∀ x, a.Free x → e.after x = e.memory flt fs x

/-- The file system's model after the calls. -/
def replay (fs : Fs) (log : List Entry) : Fs := log.foldl (fun fs e => (e.spec flt fs).1) fs

/-- Every call agrees with the model after those before it. -/
def Agree : Fs → List Entry → Prop
  | _, [] => True
  | fs, e :: log => e.Agrees a flt fs ∧ Agree (e.spec flt fs).1 log

end

section
variable {a : Config} {flt : Nat → Bool}

theorem replay_append (fs : Fs) (log : List Entry) (e : Entry) :
    replay flt fs (log ++ [e]) = (e.spec flt (replay flt fs log)).1 := List.foldl_append ..

theorem agree_append {fs : Fs} {log : List Entry} {e : Entry} (h : Agree a flt fs log)
    (he : e.Agrees a flt (replay flt fs log)) : Agree a flt fs (log ++ [e]) := by
  induction log generalizing fs with
  | nil => exact ⟨he, trivial⟩
  | cons d log ih => exact ⟨h.1, ih h.2 he⟩

/-- The call in the model: what the device does, unless the driver refuses it. -/
theorem spec_move (t : Fs) (e : Entry) :
    (e.spec flt t).2 = (!flt t.ops && decide (e.call.sector < t.capacity)) ∧
    (e.memory flt t, (e.spec flt t).1.disk) =
      e.call.move (!flt t.ops && decide (e.call.sector < t.capacity)) e.before t.disk ∧
    (e.spec flt t).1.ops = (if e.call.sector < t.capacity then t.ops + 1 else t.ops) ∧
    (e.spec flt t).1.capacity = t.capacity := by
  have hblit (m : Mem) :
      blit e.before e.call.buf 512 (blit m 0 512 (sectorOf t.disk e.call.sector)) =
      blit e.before e.call.buf 512 (sectorOf t.disk e.call.sector) :=
    funext fun x => blit_congr rfl fun i hi => blit_inside (Nat.zero_le i) (by omega)
  unfold Entry.memory Entry.spec Call.move readSector writeSector
  by_cases hread : e.call.read = true <;> by_cases hlt : e.call.sector < t.capacity <;>
    cases flt t.ops <;> simp [hread, hlt, hblit, blit_self, Nat.not_le.mpr, Nat.not_lt.mp]

/-! ## The chain -/

theorem Config.two_lt (a : Config) : 2 < a.qsize := by
  have := a.three
  unfold Config.qsize queueSize
  split <;> omega

/-- Descriptor 0 is the head of the chain of `c`, and memory outside the statics is `m`. -/
def Described (a : Config) (c : Call) (m : Mem) (s : Shared) : Prop :=
  parse a.qsize s 0 = some ⟨c, a.status⟩ ∧ ∀ x, a.Free x → s.mem x = m x

/-- The header and the rest of memory after the stores. -/
theorem stores_mem (c : Call) (s : Shared) (hc : c.sector < 2 ^ 64) :
    read32 (applyAll (stores a c) s).mem a.header = c.type ∧
    read64 (applyAll (stores a c) s).mem (a.header + 8) = c.sector ∧
    ∀ x, a.Free x → (applyAll (stores a c) s).mem x = s.mem x := by
  have hmem : (applyAll (stores a c) s).mem =
    Function.update (write64 (write32 (write32 s.mem a.header
    c.type) (a.header + 4) 0) (a.header + 8) c.sector) a.status 0xFF := rfl
  have hapart := a.apart
  have htype : c.type % 256 ^ 4 = c.type := by
    unfold Call.type
    split <;> rfl
  rw [hmem]
  refine ⟨?_, ?_, fun x hx => ?_⟩
  · refine (readLE_congr fun i h1 h2 => ?_).trans
      ((readLE_writeLE s.mem a.header 4 c.type).trans htype)
    rw [Function.update_of_ne (by omega), write64_outside (by omega), write32,
      writeLE_outside (by omega)]
    rfl
  · rw [read64_congr fun i h1 h2 => Function.update_of_ne (by omega) _ _, read64_write64 hc]
  · obtain ⟨h1, h2⟩ := hx
    rw [Function.update_of_ne h2, write64_outside (by omega), write32, writeLE_outside (by omega),
      write32,
      writeLE_outside (by omega)]

theorem stores_described (c : Call) (s : Shared) (hc : c.sector < 2 ^ 64) :
    Described a c s.mem (applyAll (stores a c) s) := by
  obtain ⟨htype, hsector, hmem⟩ := @stores_mem a c s hc
  have hq := a.two_lt
  have h0 : (applyAll (stores a c) s).desc 0 = ⟨a.header, 16, descFNext, 1⟩ := rfl
  have h1 : (applyAll (stores a c) s).desc 1 =
    ⟨c.buf, 512, descFNext ||| if c.type = blkTIn then descFWrite else 0, 2⟩ := rfl
  have h2 : (applyAll (stores a c) s).desc 2 = ⟨a.status, 1, descFWrite, 0⟩ := rfl
  refine ⟨?_, hmem⟩
  unfold parse
  simp only [h0, h1, h2, htype, hsector]
  obtain ⟨read, sector, buf⟩ := c
  cases read with
  | true => exact if_pos ⟨by omega, by omega, hq, trivial, trivial, trivial, trivial, trivial,
      .inl ⟨rfl, rfl⟩⟩
  | false =>
    exact if_pos ⟨by omega, by omega, hq, trivial, trivial, trivial, trivial, trivial,
      .inr ⟨rfl, UInt16.or_zero⟩⟩

/-! ## The invariant -/

/-- The device is where the model is. -/
structure At (t : Fs) (d : Mem) (n : Nat) : Prop where
  disk : d = t.disk
  served : n = t.ops

/-- The driver has accepted the call, and the device has not decided it. -/
structure Asked (a : Config) (t : Fs) (c : Call) (d : Mem) (n : Nat) : Prop extends At t d n where
  lt : c.sector < t.capacity
  apart : c.Apart a

/-- The bytes are moved: the call agrees with the model, and the device is where the model
is after it. -/
structure Moved (a : Config) (flt : Nat → Bool) (t : Fs) (e : Entry) (d : Mem) (n : Nat) : Prop
    extends At (e.spec flt t).1 d n where
  agrees : e.Agrees a flt t

/-- The device has fetched every request, and the driver has seen every answer. -/
structure Sync (s : Blk) (pc : Pc) (job : Job) : Prop where
  pc : s.pc = pc
  job : s.job = job
  fetched : s.lastAvail = s.availIdx
  used : s.usedIdx = s.lastUsed

/-- The call under way with the result `ok`. -/
def Blk.entry (s : Blk) (ok : Bool) : Entry := ⟨s.call, s.before, s.sh.mem, ok⟩

/-- Where the driver and the device are together, and the steps until the call returns. -/
inductive Phase (a : Config) (flt : Nat → Bool) (t : Fs) (s : Blk) : Nat → Prop where
  | idle : Sync s .idle .idle → At t s.disk s.served → Phase a flt t s 0
  | storing {rest : List Store} : Sync s (.storing rest) .idle → rest.length ≤ 16 →
      Asked a t s.call s.disk s.served → Described a s.call s.before (applyAll rest s.sh) →
      Phase a flt t s (rest.length + 7)
  | published : s.pc = .polling → s.job = .idle → s.lastAvail + 1 = s.availIdx →
      s.usedIdx = s.lastUsed →
      Asked a t s.call s.disk s.served → Described a s.call s.before s.sh → Phase a flt t s 6
  | fetched : Sync s .polling (.fetched ⟨s.call, a.status⟩) → Asked a t s.call s.disk s.served →
      (∀ x, a.Free x → s.sh.mem x = s.before x) → Phase a flt t s 5
  | moved {ok : Bool} : Sync s .polling (.moved ⟨s.call, a.status⟩ ok) →
      Moved a flt t (s.entry ok) s.disk s.served → Phase a flt t s 4
  | answered {ok : Bool} : Sync s .polling .answered → Moved a flt t (s.entry ok) s.disk s.served →
      (s.sh.mem a.status == 0) = ok → Phase a flt t s 3
  | completed {ok : Bool} : s.pc = .polling → s.job = .idle → s.lastAvail = s.availIdx →
      s.usedIdx = s.lastUsed + 1 → Moved a flt t (s.entry ok) s.disk s.served →
      (s.sh.mem a.status == 0) = ok → Phase a flt t s 2
  | seen {ok : Bool} : s.pc = .seen → s.job = .idle → s.lastAvail = s.availIdx →
      Moved a flt t (s.entry ok) s.disk s.served → (s.sh.mem a.status == 0) = ok → Phase a flt t s 1

/-- The calls agree with the model, and the system is in a phase of the next one. -/
structure Inv (a : Config) (flt : Nat → Bool) (fs : Fs) (s : Blk) (n : Nat) : Prop where
  capacity : (replay flt fs s.log).capacity = a.capacity.toNat
  agree : Agree a flt fs s.log
  ring : ∀ i, s.ring i = 0
  phase : Phase a flt (replay flt fs s.log) s n

section
variable {fs t : Fs} {s s' : Blk} {n : Nat}

theorem move_congr {c : Call} {ok : Bool} {m m' d : Mem} (hapart : c.Apart a)
    (h : ∀ x, a.Free x → m x = m' x) :
    (∀ x, a.Free x → (c.move ok m d).1 x = (c.move ok m' d).1 x) ∧
      (c.move ok m d).2 = (c.move ok m' d).2 := by
  unfold Call.move
  split
  · exact ⟨h, rfl⟩
  · split
    · exact ⟨fun x hx => blit_congr (h x hx) fun _ _ => rfl, rfl⟩
    · exact ⟨h, funext fun x => blit_congr rfl fun i hi => h _ (hapart i hi)⟩

/-- The device decides the request: the model does the same. -/
theorem moved_serve (hcap : t.capacity = a.capacity.toNat) (hc : Asked a t s.call s.disk s.served)
    (hmem : ∀ x, a.Free x → s.sh.mem x = s.before x) (hs : s' = s.serve a flt ⟨s.call, a.status⟩) :
    ∃ ok, s'.job = .moved ⟨s.call, a.status⟩ ok ∧
      Moved a flt t (s'.entry ok) s'.disk s'.served := by
  subst hs
  refine ⟨_, rfl, ?_⟩
  unfold Blk.serve
  rw [hc.served, hc.disk, ← hcap]
  generalize hok : (!flt t.ops && decide (s.call.sector < t.capacity)) = ok
  obtain ⟨hm, hd⟩ := @move_congr a s.call ok _ _ t.disk hc.apart hmem
  obtain ⟨hresult, hmove, hops, -⟩ :=
    @spec_move flt t ⟨s.call, s.before, (s.call.move ok s.sh.mem t.disk).1, ok⟩
  rw [hok] at hmove hresult
  rw [if_pos hc.lt] at hops
  exact ⟨⟨hd.trans (congrArg Prod.snd hmove).symm, hops.symm⟩, hresult.symm,
    fun x hx => (hm x hx).trans (congrFun (congrArg Prod.fst hmove) x).symm⟩

theorem succ_ne (x : UInt16) : x ≠ x + 1 := fun h => absurd (UInt16.left_eq_add.mp h) (by decide)

/-- The device has nothing to fetch. -/
theorem device_none (hjob : s.job = .idle) (hfetched : s.lastAvail = s.availIdx) :
    s.device a flt = none := by
  unfold Blk.device
  rw [hjob]
  exact if_pos hfetched

theorem driver_waits (h : s.Waits) : s.driver a = some s := by
  unfold Blk.driver
  rw [h.1]
  exact congrArg some (if_pos h.2)

theorem Inv.idle (h : Inv a flt fs s n) (hpc : s.pc = .idle) :
    n = 0 ∧ Sync s .idle .idle ∧ At (replay flt fs s.log) s.disk s.served := by
  cases h.phase with
  | idle hy hat => exact ⟨rfl, hy, hat⟩
  | storing hy | fetched hy | moved hy | answered hy => cases hy.pc.symm.trans hpc
  | published hpc' | completed hpc' | seen hpc' => cases hpc'.symm.trans hpc

/-- A call, from any memory. -/
theorem Inv.start (h : Inv a flt fs s n) (hpc : s.pc = .idle) {c : Call} (hc : c.Apart a)
    (m : Mem) :
    ∃ n, Inv a flt fs (Blk.start a { s with sh := { s.sh with mem := m } } c) n := by
  obtain ⟨-, hy, hat⟩ := h.idle hpc
  unfold Blk.start
  split
  · rename_i hle
    rw [← h.capacity] at hle
    obtain ⟨hresult, hmove, hops, hcap⟩ := @spec_move flt (replay flt fs s.log) ⟨c, m, m, false⟩
    rw [decide_eq_false (Nat.not_lt.mpr hle), Bool.and_false] at hresult hmove
    rw [if_neg (Nat.not_lt.mpr hle)] at hops
    rw [← replay_append] at hmove hops hcap
    exact ⟨0, hcap.trans h.capacity,
      agree_append h.agree ⟨hresult.symm, fun x _ => (congrFun (congrArg Prod.fst hmove) x).symm⟩,
        h.ring,
      .idle ⟨hpc, hy.job, hy.fetched, hy.used⟩
        ⟨hat.disk.trans (congrArg Prod.snd hmove).symm, hat.served.trans hops.symm⟩⟩
  · rename_i hlt
    have hlt := Nat.lt_of_not_le hlt
    exact ⟨_, h.capacity, h.agree, h.ring, .storing ⟨rfl, hy.job, hy.fetched, hy.used⟩
      (Nat.le_refl 16)
      ⟨hat, h.capacity ▸ hlt, hc⟩ (stores_described c _ (Nat.lt_trans hlt a.capacity.toNat_lt))⟩

/-- Inside a call one of the two goes on towards the return: the driver, and the device has
nothing to do, or the device, and the driver polls. -/
theorem Inv.turn (h : Inv a flt fs s n) (hpc : s.pc ≠ .idle) : ∃ k s', n = k + 1 ∧
    ((s.driver a = some s' ∧ ¬ s.Waits ∧ s.device a flt = none) ∨
      (s.device a flt = some s' ∧ s.Waits)) ∧ Inv a flt fs s' k := by
  cases h.phase with
  | idle hy => exact absurd hy.pc hpc
  | @storing rest hy hlen hc hd =>
    have hwait : ¬ s.Waits := fun hw => Pc.noConfusion (hy.pc.symm.trans hw.1)
    have hnone : s.device a flt = none := device_none hy.job hy.fetched
    unfold Blk.driver
    rw [hy.pc]
    cases rest with
    | nil =>
      have hring : ∀ i, Function.update s.ring (s.availIdx.toNat % queueSize) 0 i = 0 := fun i => by
        rw [Function.update_apply, h.ring, ite_self]
      exact ⟨6, _, rfl, .inl ⟨rfl, hwait, hnone⟩, h.capacity, h.agree, hring,
        .published rfl hy.job (congrArg (· + 1) hy.fetched) hy.used hc hd⟩
    | cons st rest =>
      exact ⟨rest.length + 7, _, rfl, .inl ⟨rfl, hwait, hnone⟩, h.capacity, h.agree, h.ring,
        .storing ⟨rfl, hy.job, hy.fetched, hy.used⟩ (Nat.le_of_succ_le hlen) hc hd⟩
  | published hpc hjob havail hu hc hd =>
    have hne : s.lastAvail ≠ s.availIdx := havail ▸ succ_ne _
    unfold Blk.device
    rw [hjob]
    rw [if_neg hne, h.ring, hd.1]
    exact ⟨5, _, rfl, .inr ⟨rfl, hpc, hu⟩, h.capacity, h.agree, h.ring,
      .fetched ⟨hpc, rfl, havail, hu⟩ hc hd.2⟩
  | fetched hy hc hmem =>
    obtain ⟨ok, hjob, hm⟩ := @moved_serve a flt _ s _ h.capacity hc hmem rfl
    unfold Blk.device
    rw [hy.job]
    exact ⟨4, _, rfl, .inr ⟨rfl, hy.pc, hy.used⟩, h.capacity, h.agree, h.ring,
      .moved ⟨hy.pc, hjob, hy.fetched, hy.used⟩ hm⟩
  | @moved ok hy hm =>
    have hstatus : (Function.update s.sh.mem a.status (if ok then 0 else 1) a.status == 0) =
        ok := by
      rw [Function.update_self]
      cases ok <;> rfl
    have hagrees : ∀ x, a.Free x → Function.update s.sh.mem a.status (if ok then 0 else 1) x = _ :=
      fun x hx =>
      (Function.update_of_ne hx.2 _ _).trans (hm.agrees.2 x hx)
    unfold Blk.device
    rw [hy.job]
    exact ⟨3, _, rfl, .inr ⟨rfl, hy.pc, hy.used⟩, h.capacity, h.agree, h.ring,
      .answered ⟨hy.pc, rfl, hy.fetched, hy.used⟩ ⟨hm.toAt, hm.agrees.1, hagrees⟩ hstatus⟩
  | answered hy hm hstatus =>
    unfold Blk.device
    rw [hy.job]
    exact ⟨2, _, rfl, .inr ⟨rfl, hy.pc, hy.used⟩, h.capacity, h.agree, h.ring,
      .completed hy.pc rfl hy.fetched (congrArg (· + 1) hy.used) hm hstatus⟩
  | completed hpc hjob hfetched hu hm hstatus =>
    have hne : s.usedIdx ≠ s.lastUsed := hu ▸ (succ_ne s.lastUsed).symm
    have hnone : s.device a flt = none := device_none hjob hfetched
    unfold Blk.driver
    rw [hpc]
    exact ⟨1, _, rfl, .inl ⟨congrArg some (if_neg hne), fun hw => hne hw.2, hnone⟩, h.capacity,
      h.agree, h.ring,
      .seen rfl hjob hfetched hm hstatus⟩
  | @seen ok hpc hjob hfetched hm hstatus =>
    have hwait : ¬ s.Waits := fun hw => Pc.noConfusion (hpc.symm.trans hw.1)
    have hnone : s.device a flt = none := device_none hjob hfetched
    have hnext := @replay_append flt fs s.log (s.entry ok)
    unfold Blk.driver
    rw [hpc, hstatus]
    refine ⟨0, _, rfl, .inl ⟨rfl, hwait, hnone⟩, ?_, agree_append h.agree hm.agrees, h.ring,
      .idle ⟨rfl, hjob, hfetched, rfl⟩ ⟨?_, ?_⟩⟩
    · exact (congrArg Fs.capacity hnext).trans ((spec_move _ _).2.2.2.trans h.capacity)
    · exact hm.disk.trans (congrArg Fs.disk hnext).symm
    · exact hm.served.trans (congrArg Fs.ops hnext).symm

/-- A step of the driver that does not wait, or of the device, is one towards the return. -/
theorem Inv.next (h : Inv a flt fs s n)
    (hs : s.driver a = some s' ∧ ¬ s.Waits ∨ s.device a flt = some s') :
    ∃ k, n = k + 1 ∧ Inv a flt fs s' k := by
  by_cases hpc : s.pc = .idle
  · obtain ⟨-, hy, -⟩ := h.idle hpc
    rw [device_none hy.job hy.fetched, Blk.driver, hpc] at hs
    simp at hs
  · obtain ⟨k, s₁, hk, ⟨hd, hw, hv⟩ | ⟨hv, hw⟩, hi⟩ := h.turn hpc
    · rw [hd, hv] at hs
      rcases hs with ⟨h1, -⟩ | h1
      · exact ⟨k, hk, Option.some.inj h1 ▸ hi⟩
      · cases h1
    · rw [hv] at hs
      exact ⟨k, hk, Option.some.inj (hs.resolve_left fun hn => hn.2 hw) ▸ hi⟩

theorem call_run_le {ops : List Op} (h : Inv a flt fs s n)
    (hr : (callLTS a flt fs.disk).Run s ops s') : ops.length ≤ n := by
  induction hr generalizing n with
  | nil => exact Nat.zero_le n
  | @cons s s₁ _ op ops hs _ ih =>
    obtain ⟨hpc, hgo, hs⟩ := hs
    have hnext : ∃ k, n = k + 1 ∧ Inv a flt fs s₁ k := by
      cases op with
      | begin c m => exact absurd hs.1 hpc
      | driver => exact h.next (.inl ⟨hs, hgo rfl⟩)
      | device => exact h.next (.inr hs)
    obtain ⟨k, rfl, h'⟩ := hnext
    exact Nat.succ_le_succ (ih h')

theorem Inv.le (h : Inv a flt fs s n) : n ≤ 23 := by
  cases h.phase with
  | storing _ hlen => exact Nat.add_le_add_right hlen 7
  | _ => decide

theorem inv_inductive (hcap : fs.capacity = a.capacity.toNat) (hops : fs.ops = 0) :
    (blkLTS a flt fs.disk).Inductive fun s => ∃ n, Inv a flt fs s n where
  init := by
    rintro s ⟨mem, rfl⟩
    exact ⟨0, hcap, trivial, fun _ => rfl, .idle ⟨rfl, rfl, rfl, rfl⟩ ⟨rfl, hops.symm⟩⟩
  step := by
    rintro s op s' ⟨n, h⟩ hs
    cases op with
    | begin c m =>
      obtain ⟨hpc, hc, rfl⟩ := hs
      exact h.start hpc hc m
    | driver =>
      by_cases hw : s.Waits
      · cases (driver_waits hw).symm.trans hs
        exact ⟨n, h⟩
      · obtain ⟨k, -, h'⟩ := h.next (.inl ⟨hs, hw⟩)
        exact ⟨k, h'⟩
    | device =>
      obtain ⟨k, -, h'⟩ := h.next (.inr hs)
      exact ⟨k, h'⟩

end

end

/-- For every run of calls on the driver, the device working at its own pace beside it and
failing the requests that `flt` names: every call that has returned has the result of
`readSector flt` or `writeSector flt` on the disk as the calls before it have left it, memory
outside the two statics is as that call makes it, and between two calls the disk is the one
of the model. -/
theorem disk_requests_atomic (a : Config) (flt : Nat → Bool) {fs : Fs}
    (hcap : fs.capacity = a.capacity.toNat) (hops : fs.ops = 0) {s : Blk}
    (hr : (blkLTS a flt fs.disk).Reachable s) :
    Agree a flt fs s.log ∧ (s.pc = .idle → s.disk = (replay flt fs s.log).disk) := by
  obtain ⟨n, h⟩ := (inv_inductive hcap hops).reachable s hr
  exact ⟨h.agree, fun hpc => (h.idle hpc).2.2.disk⟩

/-- A queue of 16 slots and a disk of 8 sectors. -/
def demoConfig : Config := ⟨0, 16, .inr (by decide), 16, by decide, 8⟩

def demoDisk : Fs := ⟨⟨0, 0, 0, 0, 0, 0, 0⟩, false, fun _ => 0, 8, fun _ => 0, 0⟩

instance (a : Config) (c : Call) : Decidable (c.Apart a) := by
  unfold Call.Apart Config.Free; infer_instance

/-- The step of a label, if it is possible. -/
def Blk.next (a : Config) (flt : Nat → Bool) (s : Blk) : Op → Option Blk
  | .begin c m => match s.pc with
    | .idle =>
      if c.Apart a then some (Blk.start a { s with sh := { s.sh with mem := m } } c) else none
    | _ => none
  | .driver => s.driver a
  | .device => s.device a flt

theorem Blk.next_step {a : Config} {flt : Nat → Bool} {disk : Mem} (s : Blk) (op : Op) (s' : Blk)
    (h : s.next a flt op = some s') : (blkLTS a flt disk).step s op s' := by
  cases op with
  | begin c m =>
    simp only [Blk.next] at h
    split at h
    · rename_i hpc
      obtain ⟨hc, h⟩ := Option.ite_none_right_eq_some.mp h
      exact ⟨hpc, hc, (Option.some.inj h).symm⟩
    · cases h
  | driver | device => exact h

/-- A call from begin to end: the device has it in one go. -/
def wholeCall (c : Call) (m : Mem) : List Op :=
  .begin c m :: (List.replicate 17 .driver ++ List.replicate 4 .device ++ List.replicate 2 .driver)

/-- Sector 3 is written with sevens and read back. -/
def writeRead : Option Blk :=
  LTS.runIf (Blk.next demoConfig fun _ => false) (fun _ _ => True)
    (.init (fun _ => 0) demoDisk.disk)
    (wholeCall ⟨false, 3, 100⟩ (fun _ => 7) ++ wholeCall ⟨true, 3, 100⟩ fun _ => 0)

theorem disk_requests_atomic_served : ∃ s, writeRead = some s ∧
    s.log.map (fun e => (e.call.read, e.result, e.before 100, e.after 100)) =
      [(false, true, 7, 7), (true, true, 0, 7)] ∧
    Agree demoConfig (fun _ => false) demoDisk s.log := by
  have hrun : writeRead.map
      (fun s => s.log.map fun e => (e.call.read, e.result, e.before 100, e.after 100)) =
      some [(false, true, 7, 7), (true, true, 0, 7)] := by decide +kernel
  obtain ⟨s, hs, hlog⟩ := Option.map_eq_some_iff.mp hrun
  have hr : (blkLTS demoConfig (fun _ => false) demoDisk.disk).Reachable s :=
    LTS.Reachable.runIf (fun s op s' _ => Blk.next_step s op s') ⟨_, [], ⟨_, rfl⟩, .nil _⟩ hs
  exact ⟨s, hs, hlog, (disk_requests_atomic demoConfig (fun _ => false) rfl rfl hr).1⟩

/-- In every run a call under way can go on, and whatever steps are taken, it has returned
after at most 23 of them, not counting the rounds of the polling loop that find nothing. -/
theorem disk_request_returns (a : Config) (flt : Nat → Bool) {fs : Fs}
    (hcap : fs.capacity = a.capacity.toNat) (hops : fs.ops = 0) {s : Blk}
    (hr : (blkLTS a flt fs.disk).Reachable s) :
    (s.pc ≠ .idle → ∃ op s', (callLTS a flt fs.disk).step s op s') ∧
    ∀ ops s', (callLTS a flt fs.disk).Run s ops s' → ops.length ≤ 23 := by
  obtain ⟨n, h⟩ := (inv_inductive hcap hops).reachable s hr
  refine ⟨fun hpc => ?_, fun ops s' hrun => Nat.le_trans (call_run_le h hrun) h.le⟩
  obtain ⟨-, s', -, ⟨hs, hw, -⟩ | ⟨hs, -⟩, -⟩ := h.turn hpc
  · exact ⟨.driver, s', hpc, fun _ => hw, hs⟩
  · exact ⟨.device, s', hpc, fun h => Op.noConfusion h, hs⟩

/-- A write of sector 3 that has begun can go on. -/
theorem disk_request_returns_begun : ∃ op s',
    (callLTS demoConfig (fun _ => false) demoDisk.disk).step
    (Blk.start demoConfig (.init (fun _ => 7) demoDisk.disk) ⟨false, 3, 100⟩) op s' :=
  (disk_request_returns demoConfig (fun _ => false) rfl rfl
    ⟨_, [.begin ⟨false, 3, 100⟩ fun _ => 7], ⟨_, rfl⟩,
      .cons ⟨rfl, by decide +kernel, rfl⟩ (.nil _)⟩).1
    fun h => Pc.noConfusion h

end HackersOs.L4.VirtioBlk

import HackersOs.Core.Fuel
import HackersOs.Core.Mem

/-!
# FAT32 (`fs/fat32.cpp`)

The driver behind `init`, `resolve_path`, `list_dir`, `read_file`, `file_size`,
`create_file`, `write_file` and `delete_file`, over a disk of bytes: sector `k`
is `[512 k, 512 k + 512)`. The one `sector_buf` all functions share is part of
the state. Numbers are 32-bit, so sums, products and differences go through `u32`.

`flt` says which I/O requests fail (a failed request changes nothing); a
request behind the end of the disk fails in the driver. The loops over cluster
chains follow whatever is on the disk and need not end: they take fuel, and
`none` means that it ran out.
-/
namespace HackersOs.L4.Fat
open HackersOs.Core

def u32 (x : Nat) : Nat := x % 2 ^ 32

/-- The geometry of a mounted volume (`bytes_per_sector` is 512). -/
structure Geom where
  sectorsPerCluster : Nat
  fatStart : Nat
  dataStart : Nat
  rootCluster : Nat
  numFats : Nat
  fatSize : Nat
  totalClusters : Nat
  deriving DecidableEq

structure Fs where
  g : Geom
  mounted : Bool
  disk : Mem
  capacity : Nat
  /-- `sector_buf` -/
  buf : Mem
  /-- requests so far -/
  ops : Nat

/-- The fields of a directory entry that the driver uses. -/
structure DirEntry where
  name : List UInt8
  attr : UInt8
  first : Nat
  size : Nat
  deriving DecidableEq, Repr

def attrVolumeId : UInt8 := 0x08
def attrDirectory : UInt8 := 0x10
def attrArchive : UInt8 := 0x20
def attrLfn : UInt8 := 0x0F

def DirEntry.isDir (e : DirEntry) : Bool := e.attr &&& attrDirectory != 0

/-! ## Sectors -/

section
variable (flt : Nat → Bool)

/-- Sector `k` of a disk. -/
def sectorOf (m : Mem) (k : Nat) : Mem := fun i => m (512 * k + i)

/-- mirrors src/drivers/virtio_blk.cpp:165-168, into `sector_buf` -/
def readSector (s : Fs) (sector : Nat) : Fs × Bool :=
  if s.capacity ≤ sector then (s, false)
  else if flt s.ops then ({ s with ops := s.ops + 1 }, false)
  else ({ s with ops := s.ops + 1, buf := blit s.buf 0 512 (sectorOf s.disk sector) }, true)

/-- mirrors src/drivers/virtio_blk.cpp:170-173 -/
def writeSector (s : Fs) (sector : Nat) (src : Mem) : Fs × Bool :=
  if s.capacity ≤ sector then (s, false)
  else if flt s.ops then ({ s with ops := s.ops + 1 }, false)
  else ({ s with ops := s.ops + 1, disk := blit s.disk (512 * sector) 512 src }, true)

/-! ## The FAT -/

/-- mirrors src/fs/fat32.cpp:73-75 -/
def clusterToSector (g : Geom) (cluster : Nat) : Nat :=
  u32 (g.dataStart + u32 (u32 (cluster + (2 ^ 32 - 2)) * g.sectorsPerCluster))

/-- The sector of the first FAT that holds a cluster's entry. -/
def fatSectorOf (g : Geom) (cluster : Nat) : Nat := u32 (g.fatStart + u32 (cluster * 4) / 512)

def entryOffset (cluster : Nat) : Nat := u32 (cluster * 4) % 512

/-- mirrors src/fs/fat32.cpp:77-86 -/
def nextCluster (s : Fs) (cluster : Nat) : Fs × Nat :=
  let r := readSector flt s (fatSectorOf s.g cluster)
  if r.2 then (r.1, read32 r.1.buf (entryOffset cluster) &&& 0x0FFFFFFF) else (r.1, 0x0FFFFFF8)

/-- mirrors src/fs/fat32.cpp:88-90 -/
def isEndCluster (cluster : Nat) : Bool := decide (0x0FFFFFF8 ≤ cluster)

/-- The copies `f`, `f + 1`, … of the FAT, `n` of them. mirrors src/fs/fat32.cpp:313-319 -/
def setFatLoop (cluster value : Nat) : Nat → Nat → Fs → Fs × Bool
  | 0, _, s => (s, true)
  | n + 1, f, s =>
    let sector := u32 (fatSectorOf s.g cluster + u32 (f * s.g.fatSize))
    let r := readSector flt s sector
    if r.2 then
      let old := read32 r.1.buf (entryOffset cluster)
      let new := old &&& 0xF0000000 ||| value &&& 0x0FFFFFFF
      let s := { r.1 with buf := write32 r.1.buf (entryOffset cluster) new }
      let w := writeSector flt s sector s.buf
      if w.2 then setFatLoop cluster value n (f + 1) w.1 else w
    else r

/-- mirrors src/fs/fat32.cpp:308-321 -/
def setFatEntry (s : Fs) (cluster value : Nat) : Fs × Bool :=
  setFatLoop flt cluster value s.g.numFats 0 s

/-- `n` sectors from `sector` on, filled with zeros; failures are ignored. -/
def zeroSectors : Nat → Nat → Fs → Fs
  | 0, _, s => s
  | n + 1, sector, s => zeroSectors n (u32 (sector + 1)) (writeSector flt s sector fun _ => 0).1

/-- The loop of `alloc_cluster` from `c` on, `n` rounds. mirrors src/fs/fat32.cpp:325-344 -/
def allocLoop : Nat → Nat → Fs → Fs × Nat
  | 0, _, s => (s, 0)
  | n + 1, c, s =>
    let r := readSector flt s (fatSectorOf s.g c)
    if r.2 then
      if read32 r.1.buf (entryOffset c) &&& 0x0FFFFFFF = 0 then
        let s := (setFatEntry flt r.1 c 0x0FFFFFF8).1
        (zeroSectors flt s.g.sectorsPerCluster (clusterToSector s.g c) s, c)
      else allocLoop n (c + 1) r.1
    else allocLoop n (c + 1) r.1

/-- mirrors src/fs/fat32.cpp:324-346 -/
def allocCluster (s : Fs) : Fs × Nat := allocLoop flt (u32 (s.g.totalClusters + 2) - 2) 2 s

/-! ## Names -/

def lower (b : UInt8) : UInt8 := if 65 ≤ b ∧ b ≤ 90 then b + 32 else b
def upper (b : UInt8) : UInt8 := if 97 ≤ b ∧ b ≤ 122 then b - 32 else b

/-- mirrors src/fs/fat32.cpp:93-109 -/
def fatNameToString (name : List UInt8) : List UInt8 :=
  ((name.take 8).takeWhile (· ≠ 32)).map lower ++
    if name.getD 8 0 ≠ 32 then 46 :: (((name.drop 8).take 3).takeWhile (· ≠ 32)).map lower else []

/-- `strcmp` stops at a NUL. mirrors src/fs/fat32.cpp:112-116 -/
def nameMatches (fatName name : List UInt8) : Bool :=
  (fatNameToString fatName).takeWhile (· ≠ 0) = name

/-- Up to `n` characters in upper case, padded with blanks. -/
def padName (n : Nat) (l : List UInt8) : List UInt8 :=
  (l.take n).map upper ++ List.replicate (n - l.length) 32

/-- mirrors src/fs/fat32.cpp:349-364 -/
def stringToFatName (name : List UInt8) : List UInt8 :=
  padName 8 (name.takeWhile (· ≠ 46)) ++ padName 3 ((name.dropWhile (· ≠ 46)).drop 1)

/-- Entry `e` of a sector. -/
def entryAt (buf : Mem) (e : Nat) : DirEntry where
  name := (List.range 11).map fun i => buf (32 * e + i)
  attr := buf (32 * e + 11)
  first := readLE buf (32 * e + 20) 2 <<< 16 ||| readLE buf (32 * e + 26) 2
  size := read32 buf (32 * e + 28)

/-! ## Directories -/

/-- The sectors of one cluster: `visit` stops the walk with a result, a failed
read stops it without one (`some none`). -/
def walkCluster {α : Type} (visit : Mem → Option α) :
    Nat → Nat → Fs → Fs × Option (Option (Nat × α))
  | 0, _, s => (s, none)
  | n + 1, sector, s =>
    let r := readSector flt s sector
    if r.2 then
      match visit r.1.buf with
      | some a => (r.1, some (some (sector, a)))
      | none => walkCluster visit n (u32 (sector + 1)) r.1
    else (r.1, some none)

/-- The walk over a directory's chain that `find_in_dir` and `create_file` share:
the sector it stopped in and the result.
mirrors src/fs/fat32.cpp:120-144 and 424-453 -/
def walkDir {α : Type} (visit : Mem → Option α) : Nat → Nat → Fs → Option (Fs × Option (Nat × α))
  | 0, _, _ => none
  | fuel + 1, cluster, s =>
    if isEndCluster cluster then some (s, none)
    else
      match walkCluster flt visit s.g.sectorsPerCluster (clusterToSector s.g cluster) s with
      | (s, some r) => some (s, r)
      | (s, none) =>
        let n := nextCluster flt s cluster
        walkDir visit fuel n.2 n.1

/-- The entries of a sector from `e` on, `n` of them: `some none` at the end of
the directory. mirrors src/fs/fat32.cpp:130-140 -/
def findEntry (name : List UInt8) (buf : Mem) : Nat → Nat → Option (Option DirEntry)
  | 0, _ => none
  | n + 1, e =>
    let d := entryAt buf e
    let c := d.name.getD 0 0
    if c = 0x00 then some none
    else if c = 0xE5 ∨ d.attr = attrLfn ∨ d.attr &&& attrVolumeId ≠ 0 then
      findEntry name buf n (e + 1)
    else if nameMatches d.name name then some (some d)
    else findEntry name buf n (e + 1)

/-- mirrors src/fs/fat32.cpp:119-145 -/
def findInDir (fuel : Nat) (s : Fs) (dirCluster : Nat) (name : List UInt8) :
    Option (Fs × Option DirEntry) :=
  (walkDir flt (fun buf => findEntry name buf 16 0) fuel dirCluster s).map fun r =>
    (r.1, r.2.bind (·.2))

/-- The components of a path that the loop of `resolve_path` sees; `cur` is the
one being read, backwards. -/
def components : List UInt8 → List UInt8 → List (List UInt8)
  | cur, [] => if cur = [] then [] else [cur.reverse]
  | cur, b :: rest => if b = 47 then cur.reverse :: components [] rest else components (b :: cur) rest

/-- mirrors src/fs/fat32.cpp:162-181; names are cut to 127 characters. -/
def resolveLoop (fuel : Nat) : List (List UInt8) → Nat → Fs → Option (Fs × Option DirEntry)
  | [], _, s => some (s, none)
  | [name], cluster, s => findInDir flt fuel s cluster (name.take 127)
  | name :: rest, cluster, s =>
    (findInDir flt fuel s cluster (name.take 127)).bind fun
    | (s, none) => some (s, none)
    | (s, some de) => if de.isDir then resolveLoop fuel rest de.first s else some (s, none)

/-- A path without its leading slash. -/
def dropSlash (path : List UInt8) : List UInt8 := if path.head? = some 47 then path.tail else path

/-- The entry made up for the root. mirrors src/fs/fat32.cpp:153-160 -/
def rootEntry (g : Geom) : DirEntry := ⟨[], attrDirectory, g.rootCluster, 0⟩

theorem rootEntry_isDir (g : Geom) : (rootEntry g).isDir = true := by
  show (attrDirectory &&& attrDirectory != 0) = true
  decide

/-- mirrors src/fs/fat32.cpp:148-182 -/
def resolvePath (fuel : Nat) (s : Fs) (path : List UInt8) : Option (Fs × Option DirEntry) :=
  if dropSlash path = [] then some (s, some (rootEntry s.g))
  else resolveLoop flt fuel (components [] (dropSlash path)) s.g.rootCluster s

/-! ## `read_file` -/

/-- The sectors of one cluster: the bytes copied to `dst`, and whether every read
succeeded. mirrors src/fs/fat32.cpp:276-282 -/
def readSectors : Nat → Nat → Nat → Fs → Fs × List UInt8 × Bool
  | 0, _, _, s => (s, [], true)
  | n + 1, sector, remaining, s =>
    if remaining = 0 then (s, [], true)
    else
      let r := readSector flt s sector
      if r.2 then
        let toCopy := if remaining < 512 then remaining else 512
        let t := readSectors n (u32 (sector + 1)) (remaining - toCopy) r.1
        (t.1, bytesAt r.1.buf 0 toCopy ++ t.2.1, t.2.2)
      else (r.1, [], false)

/-- mirrors src/fs/fat32.cpp:274-284 -/
def readLoop : Nat → Nat → Nat → Fs → Option (Fs × List UInt8 × Bool)
  | 0, _, _, _ => none
  | fuel + 1, cluster, remaining, s =>
    if remaining = 0 ∨ isEndCluster cluster then some (s, [], true)
    else
      match readSectors flt s.g.sectorsPerCluster (clusterToSector s.g cluster) remaining s with
      | (s, out, false) => some (s, out, false)
      | (s, out, true) =>
        let n := nextCluster flt s cluster
        (readLoop fuel n.2 (remaining - out.length) n.1).map fun r => (r.1, out ++ r.2.1, r.2.2)

/-- The bytes stored in `buf` from its start on, and `*bytes_read` if the call
returns true. mirrors src/fs/fat32.cpp:260-288 -/
def readFile (fuel : Nat) (s : Fs) (path : List UInt8) (bufSize : Nat) :
    Option (Fs × List UInt8 × Option Nat) :=
  if s.mounted = false then some (s, [], none)
  else
    (resolvePath flt fuel s path).bind fun
    | (s, none) => some (s, [], none)
    | (s, some de) =>
      if de.isDir then some (s, [], none)
      else
        let fsize := if de.size > bufSize then bufSize else de.size
        (readLoop flt fuel de.first fsize s).map fun r =>
          (r.1, r.2.1, if r.2.2 then some fsize else none)

/-! ## `write_file` -/

/-- A sector image: up to 512 bytes of data, then zeros. -/
def fillBuf (buf : Mem) (data : List UInt8) : Mem := blit buf 0 512 fun i => data.getD i 0

/-- The sectors of one cluster; `none` if a write failed, else the data left.
mirrors src/fs/fat32.cpp:391-398 -/
def writeSectors : Nat → Nat → List UInt8 → Fs → Fs × Option (List UInt8)
  | 0, _, data, s => (s, some data)
  | n + 1, sector, data, s =>
    if data = [] then (s, some [])
    else
      let s := { s with buf := fillBuf s.buf (data.take 512) }
      let w := writeSector flt s sector s.buf
      if w.2 then writeSectors n (u32 (sector + 1)) (data.drop 512) w.1 else (w.1, none)

/-- The cluster to write to: the current one, or a new one behind `prev`.
mirrors src/fs/fat32.cpp:380-388 -/
def clusterToWrite (s : Fs) (cluster prev : Nat) : Fs × Option Nat :=
  if isEndCluster cluster ∨ cluster = 0 then
    let r := allocCluster flt s
    if r.2 = 0 then (r.1, none)
    else (if prev ≠ 0 then (setFatEntry flt r.1 prev r.2).1 else r.1, some r.2)
  else (s, some cluster)

/-- mirrors src/fs/fat32.cpp:379-402 -/
def writeLoop : Nat → Nat → Nat → List UInt8 → Fs → Option (Fs × Bool)
  | 0, _, _, _, _ => none
  | fuel + 1, cluster, prev, data, s =>
    if data = [] then some (s, true)
    else
      match clusterToWrite flt s cluster prev with
      | (s, none) => some (s, false)
      | (s, some c) =>
        match writeSectors flt s.g.sectorsPerCluster (clusterToSector s.g c) data s with
        | (s, none) => some (s, false)
        | (s, some rest) =>
          let n := nextCluster flt s c
          writeLoop fuel n.2 c rest n.1

/-- mirrors src/fs/fat32.cpp:366-408 -/
def writeFile (fuel : Nat) (s : Fs) (path data : List UInt8) : Option (Fs × Bool) :=
  if s.mounted = false then some (s, false)
  else
    (resolvePath flt fuel s path).bind fun
    | (s, none) => some (s, false)
    | (s, some de) => if de.isDir then some (s, false) else writeLoop flt fuel de.first 0 data s

/-! ## `create_file` -/

/-- The directory a path names. mirrors src/fs/fat32.cpp:413-421 -/
def dirClusterOf (fuel : Nat) (s : Fs) (dirPath : List UInt8) : Option (Fs × Option Nat) :=
  if dirPath = [47] then some (s, some s.g.rootCluster)
  else
    (resolvePath flt fuel s dirPath).map fun
    | (s, none) => (s, none)
    | (s, some de) => (s, if de.isDir then some de.first else none)

/-- The first free slot of a sector. -/
def freeSlot (buf : Mem) : Option Nat :=
  (List.range 16).find? fun e => buf (32 * e) = 0x00 ∨ buf (32 * e) = 0xE5

/-- The entry as it is first laid out in `sector_buf`. mirrors src/fs/fat32.cpp:436-438 -/
def layOutEntry (buf : Mem) (e : Nat) (filename : List UInt8) : Mem :=
  let buf := fillBytes buf (32 * e) 32 0
  let buf := blit buf (32 * e) 11 fun i => (stringToFatName filename).getD i 0
  blit buf (32 * e + 11) 1 fun _ => attrArchive

/-- The rest of the entry, after the allocation. mirrors src/fs/fat32.cpp:443-445 -/
def setFirst (buf : Mem) (e first : Nat) : Mem :=
  let buf := writeLE buf (32 * e + 20) 2 (first >>> 16 &&& 0xFFFF)
  let buf := writeLE buf (32 * e + 26) 2 (first &&& 0xFFFF)
  write32 buf (32 * e + 28) 0

/-- mirrors src/fs/fat32.cpp:410-454. `alloc_cluster` reads FAT sectors into the
same `sector_buf`. -/
def createFile (fuel : Nat) (s : Fs) (dirPath filename : List UInt8) : Option (Fs × Bool) :=
  if s.mounted = false then some (s, false)
  else
    (dirClusterOf flt fuel s dirPath).bind fun
    | (s, none) => some (s, false)
    | (s, some dirCluster) =>
      (walkDir flt freeSlot fuel dirCluster s).map fun
      | (s, none) => (s, false)
      | (s, some (sector, e)) =>
        let a := allocCluster flt { s with buf := layOutEntry s.buf e filename }
        if a.2 = 0 then (a.1, false)
        else
          let s := { a.1 with buf := setFirst a.1.buf e a.2 }
          writeSector flt s sector s.buf

/-! ## `delete_file` -/

/-- mirrors src/fs/fat32.cpp:468-472 -/
def deleteLoop : Nat → Nat → Fs → Option Fs
  | 0, _, _ => none
  | fuel + 1, cluster, s =>
    if isEndCluster cluster ∨ cluster < 2 then some s
    else
      let n := nextCluster flt s cluster
      deleteLoop fuel n.2 (setFatEntry flt n.1 cluster 0).1

/-- mirrors src/fs/fat32.cpp:456-477 -/
def deleteFile (fuel : Nat) (s : Fs) (path : List UInt8) : Option (Fs × Bool) :=
  if s.mounted = false then some (s, false)
  else
    (resolvePath flt fuel s path).bind fun
    | (s, none) => some (s, false)
    | (s, some de) =>
      if de.isDir then some (s, false)
      else (deleteLoop flt fuel de.first s).map fun s => (s, true)

/-! ## `list_dir` and `file_size` -/

/-- `Fat32DirEntry` -/
structure ListedEntry where
  /-- up to the NUL -/
  name : List UInt8
  size : Nat
  firstCluster : Nat
  isDir : Bool
  deriving DecidableEq

/-- mirrors src/fs/fat32.cpp:247-251 -/
def listed (d : DirEntry) : ListedEntry where
  name := (fatNameToString d.name).takeWhile (· ≠ 0)
  size := d.size
  firstCluster := d.first
  isDir := d.isDir

/-- The entries of a sector from `e` on, `n` of them, with `room` for so many more in
the array; `true` at the end of the directory. mirrors src/fs/fat32.cpp:240-253 -/
def listSector (buf : Mem) : Nat → Nat → Nat → List ListedEntry × Bool
  | 0, _, _ => ([], false)
  | n + 1, e, room =>
    if room = 0 then ([], false)
    else
      let d := entryAt buf e
      let c := d.name.getD 0 0
      if c = 0x00 then ([], true)
      else if c = 0xE5 ∨ d.attr = attrLfn ∨ d.attr &&& attrVolumeId ≠ 0 then
        listSector buf n (e + 1) room
      else
        let r := listSector buf n (e + 1) (room - 1)
        (listed d :: r.1, r.2)

/-- The sectors of one cluster: what is listed, and what the call returns if it returns
here. mirrors src/fs/fat32.cpp:233-254 -/
def listCluster : Nat → Nat → Nat → Fs → Fs × List ListedEntry × Option Bool
  | 0, _, _, s => (s, [], none)
  | n + 1, sector, room, s =>
    if room = 0 then (s, [], none)
    else
      let r := readSector flt s sector
      if r.2 then
        let l := listSector r.1.buf 16 0 room
        if l.2 then (r.1, l.1, some true)
        else
          let t := listCluster n (u32 (sector + 1)) (room - l.1.length) r.1
          (t.1, l.1 ++ t.2.1, t.2.2)
      else (r.1, [], some false)

/-- mirrors src/fs/fat32.cpp:230-257 -/
def listLoop : Nat → Nat → Nat → Fs → Option (Fs × List ListedEntry × Bool)
  | 0, _, _, _ => none
  | fuel + 1, cluster, room, s =>
    if isEndCluster cluster ∨ room = 0 then some (s, [], true)
    else
      match listCluster flt s.g.sectorsPerCluster (clusterToSector s.g cluster) room s with
      | (s, l, some b) => some (s, l, b)
      | (s, l, none) =>
        let n := nextCluster flt s cluster
        (listLoop fuel n.2 (room - l.length) n.1).map fun r => (r.1, l ++ r.2.1, r.2.2)

/-- The entries stored in the array (`*count` of them), and the result.
mirrors src/fs/fat32.cpp:215-258 -/
def listDir (fuel : Nat) (s : Fs) (path : List UInt8) (maxEntries : Nat) :
    Option (Fs × List ListedEntry × Bool) :=
  if s.mounted = false then some (s, [], false)
  else
    (dirClusterOf flt fuel s path).bind fun
    | (s, none) => some (s, [], false)
    | (s, some dirCluster) => listLoop flt fuel dirCluster maxEntries s

/-- mirrors src/fs/fat32.cpp:296-301 -/
def fileSize (fuel : Nat) (s : Fs) (path : List UInt8) : Option (Fs × Nat) :=
  if s.mounted = false then some (s, 0)
  else (resolvePath flt fuel s path).map fun
    | (s, none) => (s, 0)
    | (s, some de) => (s, de.size)

/-! ## `init` -/

/-- The fields of the boot sector that `init` reads. mirrors src/fs/fat32.cpp:7-36 -/
structure BootSector where
  bytesPerSector : Nat
  sectorsPerCluster : Nat
  reservedSectors : Nat
  numFats : Nat
  totalSectors : Nat
  fatSize : Nat
  rootCluster : Nat
  deriving DecidableEq

def bootSector (buf : Mem) : BootSector where
  bytesPerSector := readLE buf 11 2
  sectorsPerCluster := (buf 13).toNat
  reservedSectors := readLE buf 14 2
  numFats := (buf 16).toNat
  totalSectors := read32 buf 32
  fatSize := read32 buf 36
  rootCluster := read32 buf 44

/-- The geometry computed from it, in 32 bits. A division by zero gives 0, as the
processor's `udiv` does. mirrors src/fs/fat32.cpp:200-207 -/
def geometry (b : BootSector) : Geom :=
  let dataStart := u32 (b.reservedSectors + u32 (b.numFats * b.fatSize))
  { sectorsPerCluster := b.sectorsPerCluster
    fatStart := b.reservedSectors
    dataStart := dataStart
    rootCluster := b.rootCluster
    numFats := b.numFats
    fatSize := b.fatSize
    totalClusters := u32 (b.totalSectors + (2 ^ 32 - dataStart)) / b.sectorsPerCluster }

/-- mirrors src/fs/fat32.cpp:186-213 -/
def init (s : Fs) : Fs × Bool :=
  let r := readSector flt s 0
  if r.2 then
    let b := bootSector r.1.buf
    if b.bytesPerSector ≠ 512 then (r.1, false)
    else ({ r.1 with g := geometry b, mounted := true }, true)
  else (r.1, false)

end

/-! ## Calls -/

inductive Call where
  | create (dirPath filename : List UInt8)
  | write (path data : List UInt8)
  | delete (path : List UInt8)

def exec (flt : Nat → Bool) (fuel : Nat) (s : Fs) : Call → Option (Fs × Bool)
  | .create dirPath filename => createFile flt fuel s dirPath filename
  | .write path data => writeFile flt fuel s path data
  | .delete path => deleteFile flt fuel s path

section
variable (flt : Nat → Bool)

theorem walkDir_persists {α : Type} (visit : Mem → Option α) (c : Nat) (s : Fs) :
    Persists fun fuel => walkDir flt visit fuel c s := by
  intro fuel
  induction fuel generalizing c s with
  | zero => exact fun r h => nomatch h
  | succ fuel ih =>
    intro r h
    beta_reduce at h ih ⊢
    rw [walkDir] at h ⊢
    split at h
    · rwa [if_pos ‹_›]
    · rw [if_neg ‹_›]
      split at h
      · exact h
      · exact ih _ _ r h

theorem findInDir_persists (s : Fs) (c : Nat) (name : List UInt8) :
    Persists fun fuel => findInDir flt fuel s c name := (walkDir_persists flt _ c s).map _

/-! A component with more behind it: the lookup, and where it leads. -/

section
variable {flt} {fuel c : Nat} {name name' : List UInt8} {rest : List (List UInt8)} {s s₁ : Fs}

theorem resolveLoop_enter {d : DirEntry}
    (hfind : findInDir flt fuel s c (name.take 127) = some (s₁, some d)) (hdir : d.isDir = true) :
    resolveLoop flt fuel (name :: name' :: rest) c s =
      resolveLoop flt fuel (name' :: rest) d.first s₁ := by
  rw [resolveLoop, hfind, Option.bind_some]
  · simp only [hdir, if_true]
  · simp

theorem resolveLoop_stop {o : Option DirEntry}
    (hfind : findInDir flt fuel s c (name.take 127) = some (s₁, o))
    (hstop : ∀ d, o = some d → d.isDir = false) :
    resolveLoop flt fuel (name :: name' :: rest) c s = some (s₁, none) := by
  rw [resolveLoop, hfind, Option.bind_some]
  · cases o with
    | none => rfl
    | some d => simp only [hstop d rfl, Bool.false_eq_true, if_false]
  · simp

/-- A path that is followed to its end. -/
theorem resolveLoop_cases {r : Fs × Option DirEntry}
    (h : resolveLoop flt fuel (name :: name' :: rest) c s = some r) :
    (∃ s₁ d, findInDir flt fuel s c (name.take 127) = some (s₁, some d) ∧ d.isDir = true ∧
      resolveLoop flt fuel (name' :: rest) d.first s₁ = some r) ∨
    ∃ s₁ o, findInDir flt fuel s c (name.take 127) = some (s₁, o) ∧
      (∀ d, o = some d → d.isDir = false) ∧ r = (s₁, none) := by
  have hcons := h
  rw [resolveLoop] at h
  · obtain ⟨⟨s₁, o⟩, hfind, -⟩ := Option.bind_eq_some_iff.mp h
    by_cases hstop : ∀ d, o = some d → d.isDir = false
    · rw [resolveLoop_stop hfind hstop] at hcons
      exact .inr ⟨s₁, o, hfind, hstop, (Option.some.inj hcons).symm⟩
    · simp only [not_forall, Bool.not_eq_false] at hstop
      obtain ⟨d, rfl, hdir⟩ := hstop
      rw [resolveLoop_enter hfind hdir] at hcons
      exact .inl ⟨s₁, d, hfind, hdir, hcons⟩
  · simp

end

theorem resolveLoop_persists (comps : List (List UInt8)) (c : Nat) (s : Fs) :
    Persists fun fuel => resolveLoop flt fuel comps c s := by
  match comps with
  | [] => exact .const _
  | [name] => exact findInDir_persists flt s c _
  | name :: name' :: rest =>
    refine (findInDir_persists flt s c (name.take 127)).bind fun a => ?_
    match a with
    | (s', none) => exact .const _
    | (s', some de) =>
      cases hdir : de.isDir with
      | false => simpa only [hdir] using .const _
      | true => simpa only [hdir, if_true] using resolveLoop_persists (name' :: rest) de.first s'

theorem resolvePath_persists (s : Fs) (path : List UInt8) :
    Persists fun fuel => resolvePath flt fuel s path := by
  unfold resolvePath
  split
  · exact .const _
  · exact resolveLoop_persists flt _ _ s

theorem writeLoop_persists (c prev : Nat) (data : List UInt8) (s : Fs) :
    Persists fun fuel => writeLoop flt fuel c prev data s := by
  intro fuel
  induction fuel generalizing c prev data s with
  | zero => exact fun r h => nomatch h
  | succ fuel ih =>
    intro r h
    beta_reduce at h ih ⊢
    rw [writeLoop] at h ⊢
    split at h
    · rwa [if_pos ‹_›]
    rw [if_neg ‹_›]
    split at h
    · exact h
    · split at h
      · exact h
      · exact ih _ _ _ _ r h

theorem deleteLoop_persists (c : Nat) (s : Fs) : Persists fun fuel => deleteLoop flt fuel c s := by
  intro fuel
  induction fuel generalizing c s with
  | zero => exact fun r h => nomatch h
  | succ fuel ih =>
    intro r h
    beta_reduce at h ih ⊢
    rw [deleteLoop] at h ⊢
    split at h
    · rwa [if_pos ‹_›]
    · rw [if_neg ‹_›]
      exact ih _ _ r h

theorem dirClusterOf_persists (s : Fs) (dirPath : List UInt8) :
    Persists fun fuel => dirClusterOf flt fuel s dirPath := by
  unfold dirClusterOf
  split
  · exact .const _
  · exact (resolvePath_persists flt s dirPath).map _

/-- A call on the file at `path`, which returns at once if there is none. -/
theorem fileCall_persists {β : Type} (s : Fs) (path : List UInt8) {miss : Fs → β}
    {f : Nat → Fs → DirEntry → Option β} (hf : ∀ s' de, Persists fun fuel => f fuel s' de) :
    Persists fun fuel => (resolvePath flt fuel s path).bind fun
      | (s, none) => some (miss s)
      | (s, some de) => if de.isDir then some (miss s) else f fuel s de := by
  refine (resolvePath_persists flt s path).bind fun a => ?_
  obtain ⟨s', o⟩ := a
  cases o with
  | none => exact .const _
  | some de =>
    cases hdir : de.isDir with
    | true => simpa only [hdir] using .const _
    | false => simpa [hdir] using hf s' de

/-- A call has one result, whatever the fuel. -/
theorem exec_persists (s : Fs) (c : Call) : Persists fun fuel => exec flt fuel s c := by
  cases c with
  | create dirPath filename =>
    simp only [exec, createFile]
    split
    · exact .const _
    · refine (dirClusterOf_persists flt s dirPath).bind fun a => ?_
      match a with
      | (s', none) => exact .const _
      | (s', some dirCluster) => exact (walkDir_persists flt freeSlot dirCluster s').map _
  | write path data =>
    simp only [exec, writeFile]
    split
    · exact .const _
    · exact fileCall_persists flt s path fun s' de => writeLoop_persists flt de.first 0 data s'
  | delete path =>
    simp only [exec, deleteFile]
    split
    · exact .const _
    · exact fileCall_persists flt s path fun s' de => (deleteLoop_persists flt de.first s').map _

end

end HackersOs.L4.Fat

import FanOS.FloppyDisk.Basic
import FanOS.Loop.Basic
import FanOS.Memory.Bytes
import FanOS.Strings.Basic

/-!
# The FAT12 file system (`fat12.c`, `bpb.h`, `file.h`)

`fat_mount` takes the layout of the volume from its boot sector.  `fat_parse_rootdir` and
`fat_parse_subdir` look a name up in a directory, `fat_read_file` reads the current cluster of a file
and goes on to the next, and `fat_open_file` is to resolve a path.  `fat_load_root`, `fat_find_image`,
`fat_load_FAT` and `fat_load_image` are an older reader, which keeps the whole root directory and the
whole table in buffers of its caller.

Functions that read sectors run in `Fd`, which notes the sector numbers passed to `fd_read_sector` in
their order.  Variables that the source leaves uninitialised are arguments.  The loops of which the
disk decides whether they end are `Loop.run` of their bodies.
-/

namespace FanOS.Filesystem

open FloppyDisk Strings

/-- The little-endian half word at byte `o`. -/
def halfWord (s : Bytes) (o : ℕ) : BitVec 16 := s (o + 1) ++ s o

/-- The little-endian word at byte `o`. -/
def word (s : Bytes) (o : ℕ) : BitVec 32 := s (o + 3) ++ s (o + 2) ++ s (o + 1) ++ s o

/-! ### The volume -/

/-- `BIOSPARAMATERBLOCK`, up to the geometry of the disk. -/
structure Bpb where
  bytesPerSector : BitVec 16
  sectorsPerCluster : BitVec 8
  reservedSectors : BitVec 16
  numberOfFats : BitVec 8
  numRootEntries : BitVec 16
  numSectors : BitVec 16
  sectorsPerFat : BitVec 16
  sectorsPerTrack : BitVec 16
  headsPerCyl : BitVec 16
  deriving DecidableEq

/-- `((PBOOTSECTOR)s)->bpb`. -/
def bpbOf (s : Sector) : Bpb where
  bytesPerSector := halfWord s 11
  sectorsPerCluster := s 13
  reservedSectors := halfWord s 14
  numberOfFats := s 16
  numRootEntries := halfWord s 17
  numSectors := halfWord s 19
  sectorsPerFat := halfWord s 22
  sectorsPerTrack := halfWord s 24
  headsPerCyl := halfWord s 26

/-- The parameter block that is assembled into the boot sector (`boot.asm`). -/
def bootBpb : Bpb where
  bytesPerSector := 512
  sectorsPerCluster := 1
  reservedSectors := 1
  numberOfFats := 2
  numRootEntries := 224
  numSectors := 2880
  sectorsPerFat := 9
  sectorsPerTrack := 18
  headsPerCyl := 2

/-- The boot sector with that block in it. -/
def bootSector : Sector := fun i =>
  ([0x00, 0x02, 0x01, 0x01, 0x00, 0x02, 0xE0, 0x00, 0x40, 0x0B, 0xF8, 0x09, 0x00, 0x12, 0x00, 0x02,
    0x00] : List (BitVec 8)).getD (i - 11) 0

example : bpbOf bootSector = bootBpb := by decide

/-- `MOUNT_INFO`. -/
structure MountInfo where
  numSectors : BitVec 32
  fatOffset : BitVec 32
  numRootEntries : BitVec 32
  rootOffset : BitVec 32
  rootSize : BitVec 32
  fatSize : BitVec 32
  fatEntrySize : BitVec 32
  dataOffset : BitVec 32
  deriving DecidableEq

/-- The assignments of `fat_mount`. -/
def mountInfo (bpb : Bpb) : MountInfo :=
  let rootOffset := bpb.numberOfFats.setWidth 32 * bpb.sectorsPerFat.setWidth 32 +
    bpb.reservedSectors.setWidth 32
  let rootSize := bpb.numRootEntries.setWidth 32 * 32 / bpb.bytesPerSector.setWidth 32
  { numSectors := bpb.numSectors.setWidth 32
    fatOffset := bpb.reservedSectors.setWidth 32
    fatSize := bpb.sectorsPerFat.setWidth 32
    fatEntrySize := 8
    numRootEntries := bpb.numRootEntries.setWidth 32
    rootOffset := rootOffset
    rootSize := rootSize
    dataOffset := rootOffset + rootSize }

/-- `fat_mount`. -/
def fatMount (d : Drive) : MountInfo := mountInfo (bpbOf (d.sector 0))

/-- A disk with that boot sector, a table and a root directory that start with the given bytes, and a
data area in which every sector is filled with its number. -/
def disk (fat root : List (BitVec 8)) : Drive :=
  .ofImage fun n i =>
    if n = 0 then bootSector i
    else if n = 1 then fat.getD i 0
    else if n = 19 then root.getD i 0
    else if n < 33 then 0
    else BitVec.ofNat 8 n

/-- `FILE    TXT`. -/
def fileTxt : List (BitVec 8) := [0x46, 0x49, 0x4C, 0x45, 0x20, 0x20, 0x20, 0x20, 0x54, 0x58, 0x54]

/-- An entry of a directory. -/
def entryBytes (name : List (BitVec 8)) (attrib cluster size : BitVec 8) : List (BitVec 8) :=
  name ++ (attrib :: List.replicate 14 0 ++ [cluster, 0, size, 0, 0, 0])

/-! ### Files -/

def fsFile : BitVec 32 := 0
def fsDirectory : BitVec 32 := 1
def fsInvaild : BitVec 32 := 2

/-- `FILE`; `atEnd` is its field `end`. -/
structure File where
  name : Bytes
  flags : BitVec 32
  size : BitVec 32
  id : BitVec 32
  atEnd : BitVec 32
  position : BitVec 32
  currentCluster : BitVec 32
  deviceId : BitVec 32
  deriving Inhabited

/-- Computations that request sectors, whose numbers are noted. -/
abbrev Fd := StateM (List (BitVec 32))

/-- A call of `fd_read_sector` that does not test for null. -/
def fdSector (d : Drive) (sectorLba : BitVec 32) : Fd Sector := do
  modify (· ++ [sectorLba])
  return d.sector sectorLba

/-- The static array `FAT`, which holds two sectors of the table. -/
def tableOf (first second : Sector) : Bytes :=
  fun i => if i < sectorSize then first i else second (i - sectorSize)

/-- The entry of `cur_cluster` in that array. -/
def nextClusterOf (table : Bytes) (curCluster : BitVec 32) : BitVec 16 :=
  let fatEntryOffset := (curCluster / 2 + curCluster) % 512
  let nextCluster := halfWord table fatEntryOffset.toNat
  if curCluster % 2 = 0 then nextCluster &&& 0xFFF else nextCluster >>> 4

/-- `fat_read_file`: the file, moved on, and the sector copied to the caller's buffer. -/
def fatReadFile (d : Drive) (mount : MountInfo) (file : File) : Fd (File × Sector) := do
  let curCluster := file.currentCluster
  let dataSector := fdChsToLba (curCluster.setWidth 16) + mount.dataOffset
  let buffer ← fdSector d dataSector
  let fatOffset := curCluster / 2 + curCluster
  let fatSector := fatOffset / 512 + 1
  let first ← fdSector d fatSector
  let second ← fdSector d (fatSector + 1)
  let nextCluster := nextClusterOf (tableOf first second) curCluster
  if nextCluster ≥ 0xFF8 then return ({ file with atEnd := 1 }, buffer)
  else if nextCluster = 0 then return ({ file with atEnd := 1 }, buffer)
  else return ({ file with currentCluster := nextCluster.setWidth 32 }, buffer)

/-- The body of a loop that calls `fat_read_file` until `end` is set, as `cmd_read` does: the file,
the sectors read so far and the requests. -/
def readBody (d : Drive) (mount : MountInfo) (s : File × List Sector × List (BitVec 32)) :
    (File × List Sector × List (BitVec 32)) ⊕ (List Sector × List (BitVec 32)) :=
  if s.1.atEnd ≠ 1 then
    match (fatReadFile d mount s.1).run s.2.2 with
    | ((file, buffer), log) => .inl (file, s.2.1 ++ [buffer], log)
  else .inr s.2

/-- That loop, of which at most so many rounds are run: the sectors read, and the requests. -/
def readUntilEnd (d : Drive) (mount : MountInfo) (file : File) (rounds : ℕ) :
    Option (List Sector × List (BitVec 32)) :=
  Loop.run (readBody d mount) rounds (file, [], [])

/-! ### Directories -/

/-- Entry `i` of a sector of a directory, a `DIRECTORY` of 32 bytes. -/
def directory (s : Sector) (i : ℕ) : Bytes := fun j => s (32 * i + j)

/-- `dir->attrib`. -/
def attrib (dir : Bytes) : BitVec 8 := dir 11
/-- `dir->first_cluster`. -/
def firstCluster (dir : Bytes) : BitVec 16 := halfWord dir 26
/-- `dir->filesize`. -/
def filesize (dir : Bytes) : BitVec 32 := word dir 28

/-- The loop over the entries of a sector, at entry `i` and with `k` to go: the first one whose name
and extension are `dos_fname`. -/
def findEntry (dosFname : Bytes) (s : Sector) : ℕ → ℕ → Option Bytes
  | 0, _ => none
  | k + 1, i =>
    if strncmp dosFname (directory s i) 11 = 0 then some (directory s i)
    else findEntry dosFname s k (i + 1)

/-- `dos_fname`, after `memcpy(dos_fname, fname, 11)`. -/
def dosFname (fname : Bytes) : Bytes := fun i => if i < 11 then fname i else 0

/-- The `FILE` that is made of an entry, in the variable `file`. -/
def fileOf (file : File) (fname dir : Bytes) : Option File :=
  (strcpy file.name fname).map fun name =>
    { file with
      name := name
      id := 0
      currentCluster := (firstCluster dir).setWidth 32
      size := filesize dir
      atEnd := 0
      flags := if attrib dir = 0x10 then fsDirectory else fsFile }

/-- The loop of `fat_parse_rootdir` over sectors, at sector `i` and with `k` to go. -/
def rootdirLoop (d : Drive) (mount : MountInfo) (name : Bytes) : ℕ → BitVec 32 → Fd (Option Bytes)
  | 0, _ => return none
  | k + 1, i => do
    let dir ← fdSector d (mount.rootOffset + i)
    match findEntry name dir 16 0 with
    | some e => return some e
    | none => rootdirLoop d mount name k (i + 1)

/-- `fat_parse_rootdir`. -/
def fatParseRootdir (d : Drive) (mount : MountInfo) (file : File) (fname : Bytes) :
    Fd (Option File) := do
  match ← rootdirLoop d mount (dosFname fname) 14 0 with
  | some dir => return fileOf file fname dir
  | none => return some { file with flags := fsInvaild }

/-- The body of the loop of `fat_parse_subdir`. -/
def subdirBody (d : Drive) (mount : MountInfo) (name : Bytes) (s : File × List (BitVec 32)) :
    (File × List (BitVec 32)) ⊕ (Option Bytes × List (BitVec 32)) :=
  if s.1.atEnd = 0 then
    match (fatReadFile d mount s.1).run s.2 with
    | ((kfile, buffer), log) =>
      match findEntry name buffer 16 0 with
      | some e => .inr (some e, log)
      | none => .inl (kfile, log)
  else .inr (none, s.2)

/-- What `fat_parse_subdir` makes of the entry that its loop ended with. -/
def subdirResult (file : File) (fname : Bytes) : Option Bytes → Option File
  | some dir => fileOf file fname dir
  | none => some { file with flags := fsInvaild }

/-- `fat_parse_subdir`, of which at most so many rounds are run. -/
def fatParseSubdir (d : Drive) (mount : MountInfo) (file kfile : File) (fname : Bytes)
    (rounds : ℕ) : Option File :=
  (Loop.run (subdirBody d mount (dosFname fname)) rounds (kfile, [])).bind fun r =>
    subdirResult file fname r.1

/-! ### Paths -/

/-- The bytes from address `p` on. -/
def bytesAt (m : Mem) (p : BitVec 32) : Bytes := fun i => m (p + BitVec.ofNat 32 i)

/-- `'\\'`. -/
def backslash : BitVec 8 := 0x5C

/-- The loop of `fat_open_file` over the characters of a component:
`while (*p != '\\' && *p != '\0') pathname[i++] = *p++`. -/
def componentLoop (pathname : BitVec 32) :
    ℕ → Mem → BitVec 32 → BitVec 32 → Option (Mem × BitVec 32)
  | 0, _, _, _ => none
  | k + 1, m, p, i =>
    if m p ≠ backslash ∧ m p ≠ 0 then
      componentLoop pathname k (m.store8 (pathname + i) (m p)) (p + 1) (i + 1)
    else some (m, p)

/-- The variables of `fat_open_file`. -/
structure OpenState where
  mem : Mem
  curdir : File
  rootdir : Bool
  p : BitVec 32

/-- `uint8_t *pathname = 0`. -/
def pathname : BitVec 32 := 0

/-- The part of the loop of `fat_open_file` that looks the component at `pathname` up; `file` is the
uninitialised variable of the function called. -/
def openComponent (d : Drive) (mount : MountInfo) (file : File) (rounds : ℕ) (s : OpenState) :
    Option OpenState :=
  if s.rootdir = true ∧ pathname ≠ 0 then
    ((fatParseRootdir d mount file (bytesAt s.mem pathname)).run []).1.map
      fun f => { s with curdir := f, rootdir := false }
  else if pathname ≠ 0 then
    (fatParseSubdir d mount file s.curdir (bytesAt s.mem pathname) rounds).map
      fun f => { s with curdir := f }
  else some s

/-- The loop of `fat_open_file`, of which at most so many rounds are run. -/
def openLoop (d : Drive) (mount : MountInfo) (file ret : File) : ℕ → OpenState → Option (File × Mem)
  | 0, _ => none
  | k + 1, s =>
    if s.p = 0 then some ({ ret with flags := fsInvaild }, s.mem)
    else
      match componentLoop pathname (2 ^ 32) s.mem s.p 0 with
      | none => none
      | some (m, p) =>
        match openComponent d mount file k { s with mem := m, p := p } with
        | none => none
        | some s =>
          if s.curdir.flags = fsInvaild then some ({ ret with flags := fsInvaild }, s.mem)
          else if s.curdir.flags = fsFile then some (s.curdir, s.mem)
          else
            match strchr (bytesAt s.mem s.p) backslash with
            | none => none
            | some none => openLoop d mount file ret k { s with p := 0 }
            | some (some j) =>
              openLoop d mount file ret k { s with p := s.p + BitVec.ofNat 32 j + 1 }

/-- `fat_open_file`; `curdir`, `ret` and `file` are uninitialised variables. -/
def fatOpenFile (d : Drive) (mount : MountInfo) (curdir ret file : File) (m : Mem)
    (path : BitVec 32) (rounds : ℕ) : Option (File × Mem) :=
  match strchr (bytesAt m path) backslash with
  | none => none
  | some none =>
    ((fatParseRootdir d mount file (bytesAt m path)).run []).1.map fun curdir =>
      if curdir.flags = fsFile then (curdir, m) else ({ ret with flags := fsInvaild }, m)
  | some (some j) =>
    openLoop d mount file ret rounds ⟨m, curdir, true, path + BitVec.ofNat 32 j + 1⟩

/-! ### The older reader -/

/-- `fat_load_FAT`, at sector `i` of the table and with `k` to go. -/
def loadFATLoop (d : Drive) (mount : MountInfo) : ℕ → ℕ → Bytes → Bytes
  | 0, _, buffer => buffer
  | k + 1, i, buffer =>
    loadFATLoop d mount k (i + 1)
      (match d.fdReadSector (mount.fatOffset + BitVec.ofNat 32 i) with
      | some sector => memcpy buffer (i * sectorSize) sector sectorSize
      | none => buffer)

/-- `fat_load_FAT`. -/
def fatLoadFAT (d : Drive) (mount : MountInfo) (buffer : Bytes) : Bytes :=
  loadFATLoop d mount mount.fatSize.toNat 0 buffer

/-- Copy sectors from `offset` on to the buffer, at sector `i` of them and with `k` to go. -/
def loadSectors (d : Drive) (offset : BitVec 32) : ℕ → ℕ → Bytes → Bytes
  | 0, _, buffer => buffer
  | k + 1, i, buffer =>
    loadSectors d offset k (i + 1)
      (match d.fdReadSector (offset + BitVec.ofNat 32 i) with
      | some sector => memcpy buffer (i * sectorSize) sector sectorSize
      | none => buffer)

/-- `fat_load_root`. -/
def fatLoadRoot (d : Drive) (mount : MountInfo) (buffer : Bytes) : Bytes :=
  loadSectors d mount.rootOffset mount.rootSize.toNat 0 buffer

/-- The loop of `fat_find_image`, at entry `i` and with `k` to go. -/
def findImageLoop (imgName buffer : Bytes) : ℕ → ℕ → Option ℕ
  | 0, _ => none
  | k + 1, i =>
    if strncmp imgName (fun j => buffer (i * 32 + j)) 11 = 0 then some (i * 32)
    else findImageLoop imgName buffer k (i + 1)

/-- `fat_find_image`: where in the buffer the pointer that it returns points, or null. -/
def fatFindImage (mount : MountInfo) (imgName buffer : Bytes) : Option ℕ :=
  findImageLoop imgName buffer mount.numRootEntries.toNat 0

/-- The variables of `fat_load_image`. -/
structure ImageState where
  cluster : BitVec 16
  sectorCount : BitVec 32
  buffer : Bytes

/-- The entry of a cluster in a table, as `fat_load_image` reads it. -/
def fatEntry (fatBuffer : Bytes) (cluster : BitVec 16) : BitVec 16 :=
  let entry := halfWord fatBuffer (cluster.toNat / 2 + cluster.toNat)
  if cluster % 2 = 0 then entry &&& 0xFFF else entry >>> 4

/-- The body of the loop of `fat_load_image`.  `SECTORS_PER_CLUSTER` is 1, so its inner loop has one
round. -/
def loadImageBody (d : Drive) (mount : MountInfo) (fatBuffer : Bytes) (s : ImageState) :
    ImageState ⊕ (BitVec 32 × Bytes) :=
  if s.cluster < 0x0FF0 then
    let imgSector := fdChsToLba s.cluster + mount.dataOffset
    .inl
      { cluster := fatEntry fatBuffer s.cluster
        sectorCount := s.sectorCount + sectorsPerCluster
        buffer :=
          match d.fdReadSector imgSector with
          | some sector => memcpy s.buffer (s.sectorCount * 512).toNat sector sectorSize
          | none => s.buffer }
  else .inr (s.sectorCount, s.buffer)

/-- `fat_load_image`, of which at most so many rounds are run. -/
def fatLoadImage (d : Drive) (mount : MountInfo) (buffer fatBuffer : Bytes) (imgCluster : BitVec 16)
    (rounds : ℕ) : Option (BitVec 32 × Bytes) :=
  Loop.run (loadImageBody d mount fatBuffer) rounds ⟨imgCluster, 0, buffer⟩

end FanOS.Filesystem

import FanOS.Filesystem.Basic

/-!
# The volume manager (`file.c`)

`file_system[]` holds a pointer to the file system of each of the devices `a` to `z`.  File systems are
registered under the number of a device; files are opened by a name that may start with the letter of one
and a colon, and remember the device that they are on.

The array is in memory, and an index that is out of its range reads or writes a word that is not part of
it.  `accesses` notes the indices that are used.  A file system is known by what its functions do to a
`FILE` and a buffer; fields that `invalid_file` does not set are those of an arbitrary `FILE`.
-/

namespace FanOS

open Filesystem (File fsInvaild)
open Strings (Bytes)

/-- `DEVICE_MAX`. -/
def deviceMax : BitVec 32 := 26

/-- `FILESYSTEM`, as far as the volume manager calls it; `openFile` is its field `open`. -/
structure FileSystem where
  read : File → Bytes → File × Bytes
  close : File → File
  openFile : Bytes → File

/-- The volume manager. -/
structure Volume where
  mem : Mem
  /-- The address of `file_system[0]`. -/
  fileSystem : BitVec 32
  /-- The indices at which `file_system[]` has been accessed. -/
  accesses : List (BitVec 32)

namespace Volume

/-- Read `file_system[i]`. -/
def load (v : Volume) (i : BitVec 32) : BitVec 32 × Volume :=
  (v.mem.load32 (v.fileSystem + 4 * i), { v with accesses := v.accesses ++ [i] })

/-- `file_system[i] = system`. -/
def store (v : Volume) (i system : BitVec 32) : Volume :=
  { v with
    mem := v.mem.store32 (v.fileSystem + 4 * i) system
    accesses := v.accesses ++ [i] }

/-! ### Registering -/

/-- The body of the two functions that enter a file system under a device. -/
def enter (v : Volume) (system deviceId : BitVec 32) : Volume :=
  if deviceId > deviceMax then v else v.store deviceId system

/-- `vol_register_filesystem`. -/
def volRegisterFilesystem (v : Volume) (system deviceId : BitVec 32) : Volume := v.enter system deviceId

/-- `vol_register_filesystem_by_id`. -/
def volRegisterFilesystemById (v : Volume) (deviceId : BitVec 32) : Volume := v.enter 0 deviceId

/-- The loop of `vol_unregister_filesystem`, with `n` devices to go. -/
def unregisterLoop (system : BitVec 32) : ℕ → BitVec 32 → Volume → Volume
  | 0, _, v => v
  | n + 1, i, v =>
    let (entry, v) := v.load i
    let v := if entry = system then v.store i 0 else v
    unregisterLoop system n (i + 1) v

/-- `vol_unregister_filesystem`. -/
def volUnregisterFilesystem (v : Volume) (system : BitVec 32) : Volume :=
  unregisterLoop system deviceMax.toNat 0 v

/-! ### Files -/

/-- `invalid_file`. -/
def invalidFile (file : File) : File := { file with flags := fsInvaild }

/-- `get_filename`. -/
def getFilename (fname : Bytes) : Bytes := if fname 1 = 0x3A then fun i => fname (i + 2) else fname

/-- `get_device`. -/
def getDevice (fname : Bytes) : BitVec 8 := if fname 1 = 0x3A then fname 0 else 0x61

section

variable (systems : BitVec 32 → FileSystem)

/-- `vol_open_file_impl`.  The index is an `int`, and negative for a device below `a`. -/
def volOpenFileImpl (file : File) (v : Volume) (fname : Bytes) (device : BitVec 8) : File × Volume :=
  let (system, v) := v.load (device.setWidth 32 - 0x61)
  if system = 0 then (invalidFile file, v)
  else ({ (systems system).openFile fname with deviceId := device.setWidth 32 }, v)

/-- `vol_open_file`; the name may be null. -/
def volOpenFile (file : File) (v : Volume) : Option Bytes → File × Volume
  | none => (invalidFile file, v)
  | some fname => volOpenFileImpl systems file v (getFilename fname) (getDevice fname)

/-- `vol_read_file`; the file may be null. -/
def volReadFile (v : Volume) (buffer : Bytes) : Option File → Option (File × Bytes) × Volume
  | none => (none, v)
  | some file =>
    let (system, v) := v.load (file.deviceId - 0x61)
    if system = 0 then (some (file, buffer), v) else (some ((systems system).read file buffer), v)

/-- `vol_close_file`; the file may be null. -/
def volCloseFile (v : Volume) : Option File → Option File × Volume
  | none => (none, v)
  | some file =>
    let (system, v) := v.load (file.deviceId - 0x61)
    if system = 0 then (some file, v) else (some ((systems system).close file), v)

end

/-! ### Opening on a FAT disk -/

/-- What the variables hold that are read before they are set: `file` of `invalid_file`, `curdir` and
`ret` of `fat_open_file`, and `file` of the functions that it calls. -/
structure Leftovers where
  invalid : File
  curdir : File
  ret : File
  file : File

/-- `strcpy` to the name of a `FILE` goes on behind the `FILE`, which has 60 bytes. -/
def Overruns (fname : Bytes) : Prop := ∀ i < 61, fname i ≠ 0

instance (fname : Bytes) : Decidable (Overruns fname) :=
  inferInstanceAs (Decidable (∀ i < 61, fname i ≠ 0))

open Filesystem in
/-- `vol_open_file` where the file system at address `fat` is that of `fat_init`, of whose loops at most so
many rounds are run.  Nothing is known of a pointer to another file system, or after a name has been written
behind its `FILE`. -/
def volOpenFileFat (d : FloppyDisk.Drive) (fat : BitVec 32) (v : Volume) (u : Leftovers)
    (path : BitVec 32) (rounds : ℕ) : Option File :=
  if path = 0 then some (invalidFile u.invalid)
  else
    let fname := bytesAt v.mem path
    let device := getDevice fname
    let filename := if fname 1 = 0x3A then path + 2 else path
    let (system, _) := v.load (device.setWidth 32 - 0x61)
    if system = 0 then some (invalidFile u.invalid)
    else if system = fat then
      (fatOpenFile d (fatMount d) u.curdir u.ret u.file v.mem filename rounds).bind fun r =>
        if r.1.flags = fsFile ∧ Overruns (bytesAt v.mem filename) then none
        else some { r.1 with deviceId := device.setWidth 32 }
    else none

end Volume

end FanOS

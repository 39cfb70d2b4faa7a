import FanOS.Boot.MemoryMap

/-!
# The boot sector

`boot.asm`, the first 512 bytes of the floppy: it looks for the second-stage loader in the root directory
and reads it to `0x0500`.  BIOS has put the sector at `0x7C00`; the directory, and after it the tables,
come right behind it, and the stack grows down from `0xFFFF` as in the second stage.  The image grows up
from `0x0500`, towards the boot sector that reads it.

The routines are those of the second stage, with other segments.  `boot` is both stages in a row, from
the jump to `0x7C00` to the jump to the kernel.
-/

namespace FanOS.Boot.FirstStage

/-- How the boot ends before the kernel. -/
inductive Failure
  /-- The ends that the second stage knows. -/
  | disk (e : Boot.Failure)
  /-- A sector was read over the boot sector, whose code would have to go on. -/
  | loaderOverwritten
deriving DecidableEq

/-- `DS`, and `ES` for the root directory and the tables. -/
def bootSeg : BitVec 16 := 0x07C0

/-- Where the root directory and the tables are read to, behind the boot sector. -/
def bufferOffset : BitVec 16 := 0x0200

/-- `ES` for the image. -/
def imageSeg : BitVec 16 := 0x0050

/-- `imageName`: `"KRNLDR  SYS"` -/
def imageName : List (BitVec 8) :=
  [0x4B, 0x52, 0x4E, 0x4C, 0x44, 0x52, 0x20, 0x20, 0x53, 0x59, 0x53]

/-- A sector read to `es:bx` is read over the boot sector. -/
def overLoader (es bx : BitVec 16) : Prop :=
  0x7C00 < (linear es bx).toNat + 512 ∧ (linear es bx).toNat < 0x7E00

instance (es bx : BitVec 16) : Decidable (overLoader es bx) :=
  inferInstanceAs (Decidable (_ ∧ _))

/-- `read_sectors`, entered with the stack pointer `sp`: `cx` sectors from `ax` on to `es:bx`. -/
def readSectors (f : Floppy) (es : BitVec 16) (sp : ℕ) :
    ℕ → BitVec 16 → BitVec 16 → Mem → Except Failure (BitVec 16 × Mem)
  | 0, _, bx, m => .ok (bx, m)
  | cx + 1, ax, bx, m =>
    match sectorLoop f ax 5 with
    | none => .error (.disk .readError)
    | some s =>
      if overLoader es bx then .error .loaderOverwritten
      else if (linear es bx).toNat + 512 ≤ sp - 12 then
        readSectors f es sp cx (ax + 1) (bx + bpb.bytesPerSector)
          (m.storeBlock (linear es bx) 512 s)
      else .error (.disk .stackOverwritten)

/-- `rep cmpsb` of a name with the bytes at `es:di`. -/
def cmpsb (m : Mem) : List (BitVec 8) → BitVec 16 → Bool
  | [], _ => true
  | b :: name, di => m (linear bootSeg di) == b && cmpsb m name (di + 1)

/-- `.loop` over `cx` entries from `di` on; the offset of the entry found. -/
def findImage (m : Mem) (name : List (BitVec 8)) : ℕ → BitVec 16 → Option (BitVec 16)
  | 0, _ => none
  | cx + 1, di => if cmpsb m name di then some di else findImage m name cx (di + 0x20)

/-- The entry of `cluster` in the table in memory. -/
def nextCluster (m : Mem) (cluster : BitVec 16) : BitVec 16 :=
  let dx := m.load16 (linear bootSeg (bufferOffset + (cluster + cluster >>> 1)))
  if cluster &&& 1 = 0 then dx &&& 0x0FFF else dx >>> 4

/-- The stack pointer in the `read_sectors` of the root directory: the return address is on the stack. -/
def rootSp : ℕ := stackTop - 2

/-- That of the later ones: `je load_FAT` leaves the counter of the entries on the stack too. -/
def loadSp : ℕ := stackTop - 4

/-- A read below the stack does not wrap round the end of the segment. -/
theorem toNat_of_readSectors {f : Floppy} {es ax bx bx' : BitVec 16} {sp cx : ℕ} {m m' : Mem}
    (hsp : sp ≤ 0xFFFF) (h : readSectors f es sp cx ax bx m = .ok (bx', m')) :
    bx'.toNat = bx.toNat + cx * 512 := by
  induction cx generalizing ax bx m with
  | zero =>
    rw [readSectors, Except.ok.injEq, Prod.mk.injEq] at h
    rw [h.1, Nat.zero_mul, Nat.add_zero]
  | succ cx ih =>
    rw [readSectors] at h
    split at h
    · cases h
    · split_ifs at h with hover hfit
      rw [ih h, toNat_add_bytesPerSector hsp hfit]
      omega

/-- `load_image`: read the cluster and go on with its entry in the table until that is an end mark. -/
def loadImage (f : Floppy) (cluster bx : BitVec 16) (m : Mem) : Except Failure Mem :=
  match h : readSectors f imageSeg loadSp bpb.sectorsPerCluster.toNat
      (clusterLba bpb (datasector bpb) cluster) bx m with
  | .error e => .error e
  | .ok (bx', m') =>
    let dx := nextCluster m' cluster
    if dx < 0x0FF0 then loadImage f dx bx' m' else .ok m'
termination_by 0x10000 - bx.toNat
decreasing_by
  have hstep := toNat_of_readSectors (by decide) h
  rw [show bpb.sectorsPerCluster.toNat = 1 from rfl] at hstep
  have := bx'.isLt
  omega

/-- `main`: memory as the second stage finds it. -/
def main (f : Floppy) (m : Mem) : Except Failure Mem := do
  let (_, m) ← readSectors f bootSeg rootSp (rootSectors bpb).toNat (rootBase bpb) bufferOffset m
  match findImage m imageName bpb.rootEntries.toNat bufferOffset with
  | none => .error (.disk .noImage)
  | some di =>
    let cluster := m.load16 (linear bootSeg (di + 0x1A))
    let (_, m) ← readSectors f bootSeg loadSp (fatSectors bpb).toNat bpb.reservedSectors bufferOffset m
    loadImage f cluster 0 m

/-! ### Both stages -/

/-- From the boot sector to the kernel, on a machine whose BIOS reports `ρ`; the loop of `get_memory_map`
is cut off after `n` rounds. -/
def boot (ρ : Report) (f : Floppy) (m : Mem) (n : ℕ) : Option (Except Failure Mem) :=
  match main f m with
  | .error e => some (.error e)
  | .ok m₁ =>
    (getMemoryMap ρ m₁ n).map fun r =>
      (r >>= fun s => Boot.main f (storeCount s)).mapError Failure.disk

end FanOS.Boot.FirstStage

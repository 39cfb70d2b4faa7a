import FanOS.Memory.Blocks

/-!
# The second-stage loader

The part of `stage2.asm` that brings the kernel into memory, with the routines of `fat12.inc` and
`floppy16.inc` that it calls: `load_root` reads the root directory, `load_image` looks the kernel
up in it, reads the file allocation table and follows the chain of the file, sector by sector, and
`copy_image` moves the image to its protected mode address.

Everything shares the first 64 KiB.  The root directory is read to `0x2E00`, the table to `0x2C00`,
the image to `0x3000` on, the stack grows down from `0xFFFF` and the size of the image is stored at
`0x8000`.  Registers are `BitVec 16`, so the buffer pointer wraps as it does on the machine; memory
is that of the whole development.
-/

namespace FanOS.Boot

/-! ### The disk -/

/-- The bytes of a floppy disk; sector `s` starts at `s * 512`. -/
abbrev Floppy := ℕ → BitVec 8

/-- The bytes of one sector. -/
def Floppy.sector (f : Floppy) (s : ℕ) : ℕ → BitVec 8 := fun i => f (s * 512 + i)

/-- The fields of the BIOS parameter block that the loader reads. -/
structure Bpb where
  bytesPerSector : BitVec 16
  sectorsPerCluster : BitVec 8
  reservedSectors : BitVec 16
  numberOfFATs : BitVec 8
  rootEntries : BitVec 16
  sectorsPerFAT : BitVec 16
  sectorsPerTrack : BitVec 16
  headsPerCylinder : BitVec 16
deriving DecidableEq

/-- The parameter block assembled into the loader. -/
def bpb : Bpb where
  bytesPerSector := 512
  sectorsPerCluster := 1
  reservedSectors := 1
  numberOfFATs := 2
  rootEntries := 224
  sectorsPerFAT := 9
  sectorsPerTrack := 18
  headsPerCylinder := 2

/-- A cylinder, head and sector address: `absoluteTrack`, `absoluteHead` and `absoluteSector`. -/
structure Chs where
  track : BitVec 8
  head : BitVec 8
  sector : BitVec 8
deriving DecidableEq

/-- `LBACHS`: two divisions of `ax`, each result cut to its low byte. -/
def lbachs (b : Bpb) (ax : BitVec 16) : Chs where
  sector := (ax % b.sectorsPerTrack).setWidth 8 + 1
  head := (ax / b.sectorsPerTrack % b.headsPerCylinder).setWidth 8
  track := (ax / b.sectorsPerTrack / b.headsPerCylinder).setWidth 8

/-- `ClusterLBA`. -/
def clusterLba (b : Bpb) (datasector ax : BitVec 16) : BitVec 16 :=
  (ax - 2) * b.sectorsPerCluster.setWidth 16 + datasector

/-- BIOS `int 13h` with `ah = 2` on a 1.44 MB floppy: the sector at an address, or the carry flag
when the disk has no such sector. -/
def int13 (f : Floppy) (a : Chs) : Option (ℕ → BitVec 8) :=
  if a.track.toNat < 80 ∧ a.head.toNat < 2 ∧ 1 ≤ a.sector.toNat ∧ a.sector.toNat ≤ 18 then
    some (f.sector ((a.track.toNat * 2 + a.head.toNat) * 18 + (a.sector.toNat - 1)))
  else none

/-! ### Reading sectors -/

/-- How a boot ends without a kernel. -/
inductive Failure
  /-- Five attempts at a sector failed and `int 18h` was called. -/
  | readError
  /-- A sector was read over the stack, the return addresses with it. -/
  | stackOverwritten
  /-- The root directory has no entry of the name. -/
  | noImage
deriving DecidableEq

/-- The linear address of `seg:off`. -/
def linear (seg off : BitVec 16) : BitVec 32 :=
  seg.setWidth 32 * 16 + off.setWidth 32

/-- `.sector_loop`: `di` attempts at the sector `ax`. -/
def sectorLoop (f : Floppy) (ax : BitVec 16) : ℕ → Option (ℕ → BitVec 8)
  | 0 => none
  | di + 1 =>
    match int13 f (lbachs bpb ax) with
    | some s => some s
    | none => sectorLoop f ax di

/-- `read_sectors`, entered with the stack pointer `sp`: `cx` sectors from `ax` on to `es:bx`.

While `int 13h` runs, the stack holds three registers and the frame of the interrupt below `sp`; a
sector that is read over it leaves nothing to return to. -/
def readSectors (f : Floppy) (es : BitVec 16) (sp : ℕ) :
    ℕ → BitVec 16 → BitVec 16 → Mem → Except Failure (BitVec 16 × Mem)
  | 0, _, bx, m => .ok (bx, m)
  | cx + 1, ax, bx, m =>
    match sectorLoop f ax 5 with
    | none => .error .readError
    | some s =>
      if (linear es bx).toNat + 512 ≤ sp - 12 then
        readSectors f es sp cx (ax + 1) (bx + bpb.bytesPerSector)
          (m.storeBlock (linear es bx) 512 s)
      else .error .stackOverwritten

/-! ### The root directory and the table -/

/-- Where `main` puts the stack. -/
def stackTop : ℕ := 0xFFFF

def rootOffset : BitVec 16 := 0x2E00

def fatSeg : BitVec 16 := 0x2C0

def rootSeg : BitVec 16 := 0x2E0

/-- The sectors of the root directory: a 32-bit product, divided. -/
def rootSectors (b : Bpb) : BitVec 16 :=
  ((0x20 : BitVec 32) * b.rootEntries.setWidth 32 / b.bytesPerSector.setWidth 32).setWidth 16

/-- The sectors of all tables. -/
def fatSectors (b : Bpb) : BitVec 16 :=
  b.numberOfFATs.setWidth 16 * b.sectorsPerFAT

/-- The first sector of the root directory. -/
def rootBase (b : Bpb) : BitVec 16 :=
  fatSectors b + b.reservedSectors

/-- What `load_root` leaves in `datasector`. -/
def datasector (b : Bpb) : BitVec 16 :=
  rootBase b + rootSectors b

/-- `load_root`.  The stack holds its return address, the eight registers of `pusha`, `es` and the
return address of `read_sectors`. -/
def loadRoot (f : Floppy) (m : Mem) : Except Failure Mem := do
  let (_, m) ← readSectors f rootSeg (stackTop - 22) (rootSectors bpb).toNat (rootBase bpb) 0 m
  return m

/-- `load_FAT`, called from `load_image` with ten bytes on the stack. -/
def loadFAT (f : Floppy) (m : Mem) : Except Failure Mem := do
  let (_, m) ← readSectors f fatSeg (stackTop - 32) (fatSectors bpb).toNat bpb.reservedSectors 0 m
  return m

/-- `rep cmpsb` of a name with the bytes at `di`. -/
def cmpsb (m : Mem) : List (BitVec 8) → BitVec 16 → Bool
  | [], _ => true
  | b :: name, di => m (linear 0 di) == b && cmpsb m name (di + 1)

/-- The loop of `find_image` over `cx` entries from `di` on; the address of the entry found. -/
def findImage (m : Mem) (name : List (BitVec 8)) : ℕ → BitVec 16 → Option (BitVec 16)
  | 0, _ => none
  | cx + 1, di => if cmpsb m name di then some di else findImage m name cx (di + 0x20)

/-! ### The image -/

/-- The entry of `cluster` in the table in memory. -/
def nextCluster (m : Mem) (cluster : BitVec 16) : BitVec 16 :=
  let dx := m.load16 (linear fatSeg (cluster + cluster >>> 1))
  if cluster &&& 1 = 0 then dx &&& 0x0FFF else dx >>> 4

/-- The stack pointer in `read_sectors` when `load_image` reads a cluster: its return address, the
counter and the return address of `read_sectors` are on the stack. -/
def loadSp : ℕ := stackTop - 8

/-- The first sector of a read that succeeds is read to `es:bx`, below the stack. -/
theorem of_readSectors_succ {f : Floppy} {es ax bx bx' : BitVec 16} {sp cx : ℕ} {m m' : Mem}
    (h : readSectors f es sp (cx + 1) ax bx m = .ok (bx', m')) :
    ∃ s, sectorLoop f ax 5 = some s ∧ (linear es bx).toNat + 512 ≤ sp - 12 ∧
      readSectors f es sp cx (ax + 1) (bx + bpb.bytesPerSector) (m.storeBlock (linear es bx) 512 s) =
        .ok (bx', m') := by
  rw [readSectors] at h
  split at h
  · cases h
  · rename_i s hs
    split_ifs at h with hfit
    exact ⟨s, hs, hfit, h⟩

/-- Below the stack the buffer pointer does not wrap round. -/
theorem toNat_add_bytesPerSector {es bx : BitVec 16} {sp : ℕ} (hsp : sp ≤ 0xFFFF)
    (hfit : (linear es bx).toNat + 512 ≤ sp - 12) :
    (bx + bpb.bytesPerSector).toNat = bx.toNat + 512 := by
  unfold linear at hfit
  rw [show bpb.bytesPerSector = 512 from rfl]
  bv_omega

/-- A sector that was read leaves the buffer pointer 512 bytes further, with no wrap-around. -/
theorem toNat_of_readSectors {f : Floppy} {es ax bx bx' : BitVec 16} {sp cx : ℕ} {m m' : Mem}
    (hsp : sp ≤ 0xFFFF) (h : readSectors f es sp cx ax bx m = .ok (bx', m')) :
    bx'.toNat = bx.toNat + cx * 512 := by
  induction cx generalizing ax bx m with
  | zero =>
    rw [readSectors, Except.ok.injEq, Prod.mk.injEq] at h
    rw [h.1, Nat.zero_mul, Nat.add_zero]
  | succ cx ih =>
    obtain ⟨s, -, hfit, hrest⟩ := of_readSectors_succ h
    rw [ih hrest, toNat_add_bytesPerSector hsp hfit]
    omega

/-- `.load_image`: read the cluster, count it and go on with its entry in the table until that is an
end mark. -/
def loadImageLoop (f : Floppy) (es cluster bx : BitVec 16) (ecx : BitVec 32) (m : Mem) :
    Except Failure (BitVec 32 × Mem) :=
  match h : readSectors f es loadSp bpb.sectorsPerCluster.toNat
      (clusterLba bpb (datasector bpb) cluster) bx m with
  | .error e => .error e
  | .ok (bx', m') =>
    let dx := nextCluster m' cluster
    if dx < 0x0FF0 then loadImageLoop f es dx bx' (ecx + 1) m' else .ok (ecx + 1, m')
termination_by 0x10000 - bx.toNat
decreasing_by
  have hstep := toNat_of_readSectors (by decide) h
  rw [show bpb.sectorsPerCluster.toNat = 1 from rfl] at hstep
  have := bx'.isLt
  omega

/-- `load_image`: the image called `name`, to the buffer `es:bx`. -/
def loadImage (f : Floppy) (name : List (BitVec 8)) (es bx : BitVec 16) (m : Mem) :
    Except Failure (BitVec 32 × Mem) :=
  match findImage m name bpb.rootEntries.toNat rootOffset with
  | none => .error .noImage
  | some di => do
    let cluster := m.load16 (linear rootSeg (di - rootOffset + 0x1A))
    let m ← loadFAT f m
    loadImageLoop f es cluster bx 0 m

/-! ### The loader -/

/-- `"KRNL    SYS"` -/
def kernelImageName : List (BitVec 8) :=
  [0x4B, 0x52, 0x4E, 0x4C, 0x20, 0x20, 0x20, 0x20, 0x53, 0x59, 0x53]

def kernelRmodeBase : BitVec 16 := 0x3000

def kernelPmodeBase : BitVec 32 := 0x100000

/-- `copy_image`: leave the size at `0x8000` for the kernel, then move the image. -/
def copyImage (kernelImageSize : BitVec 32) (m : Mem) : Mem :=
  let m := m.store32 0x8000 kernelImageSize
  let eax := (kernelImageSize.setWidth 64 * bpb.bytesPerSector.setWidth 64 / 4).setWidth 32
  m.movsd kernelPmodeBase (kernelRmodeBase.setWidth 32) eax.toNat

/-- `main` from `load_root` to the jump to the kernel: memory as the kernel finds it. -/
def main (f : Floppy) (m : Mem) : Except Failure Mem := do
  let m ← loadRoot f m
  let (ecx, m) ← loadImage f kernelImageName 0 kernelRmodeBase m
  return copyImage ecx m

end FanOS.Boot

import Mathlib.Data.Nat.Notation
import Mathlib.Logic.Basic

/-!
# The floppy disk driver (`floppydisk.c`)

`fd_read_sector` turns a sector number into head, track and sector, moves the head to the track and
sends the controller a read command, whose bytes hold the address cut to 8 bits.  The controller
itself is a `Drive`: it tells whether a seek gets to its track and what a read command leaves in the
buffer for DMA transfers.  `fd_read_sector` returns a pointer to that buffer, or null when the seek
failed; callers that do not test for null read what is at address 0.
-/

namespace FanOS.FloppyDisk

/-- `FD_SECTORS_PER_TRACK`. -/
def fdSectorsPerTrack : BitVec 32 := 18

/-- `SECTOR_SIZE`. -/
def sectorSize : ℕ := 512

/-- `SECTORS_PER_CLUSTER`. -/
def sectorsPerCluster : BitVec 32 := 1

/-! ### Addresses -/

/-- What `fd_lba_to_chs` stores through its three pointers. -/
structure Chs where
  head : BitVec 32
  track : BitVec 32
  sector : BitVec 32
  deriving DecidableEq

/-- `fd_lba_to_chs`.  The sectors of a track are a `uint32_t`, so `lba` is taken as unsigned. -/
def fdLbaToChs (lba : BitVec 32) : Chs where
  head := lba % (fdSectorsPerTrack * 2) / fdSectorsPerTrack
  track := lba / (fdSectorsPerTrack * 2)
  sector := lba % fdSectorsPerTrack + 1

/-- `fd_chs_to_lba`. -/
def fdChsToLba (cluster : BitVec 16) : BitVec 32 :=
  (cluster.setWidth 32 - 2) * sectorsPerCluster

theorem fdChsToLba_eq (cluster : BitVec 16) : fdChsToLba cluster = cluster.setWidth 32 - 2 :=
  BitVec.mul_one _

/-- The numbers that `fd_lba_to_chs` computes. -/
theorem toNat_fdLbaToChs (lba : BitVec 32) :
    (fdLbaToChs lba).head.toNat = lba.toNat % 36 / 18 ∧
    (fdLbaToChs lba).track.toNat = lba.toNat / 36 ∧
    (fdLbaToChs lba).sector.toNat = lba.toNat % 18 + 1 := by
  unfold fdLbaToChs
  simp only [BitVec.toNat_udiv, BitVec.toNat_umod, BitVec.toNat_add,
    show (fdSectorsPerTrack * 2).toNat = 36 from rfl, show fdSectorsPerTrack.toNat = 18 from rfl,
    show (1 : BitVec 32).toNat = 1 from rfl, true_and]
  omega

/-! ### Reading -/

/-- The arguments of `fd_read_sector_impl`, which are bytes. -/
structure SectorAddress where
  head : BitVec 8
  track : BitVec 8
  sector : BitVec 8
  deriving DecidableEq

/-- The address as it is passed to `fd_read_sector_impl`. -/
def Chs.bytes (a : Chs) : SectorAddress where
  head := a.head.setWidth 8
  track := a.track.setWidth 8
  sector := a.sector.setWidth 8

theorem Chs.toNat_bytes (a : Chs) :
    a.bytes.head.toNat = a.head.toNat % 256 ∧ a.bytes.track.toNat = a.track.toNat % 256 ∧
      a.bytes.sector.toNat = a.sector.toNat % 256 :=
  ⟨BitVec.toNat_setWidth 8 _, BitVec.toNat_setWidth 8 _, BitVec.toNat_setWidth 8 _⟩

/-- `fd_read_sector_impl`: the bytes of the command that it sends to the controller. -/
def fdReadSectorImpl (currentDrive : BitVec 8) (a : SectorAddress) : List (BitVec 8) :=
  let nextSector : BitVec 32 := a.sector.setWidth 32 + 1
  let nextSector := if nextSector ≥ fdSectorsPerTrack then fdSectorsPerTrack else nextSector
  [0x06 ||| 0x80 ||| 0x20 ||| 0x40, a.head <<< 2 ||| currentDrive, a.track, a.head, a.sector, 2,
    nextSector.setWidth 8, 27, 0xFF]

/-- The bytes of a sector. -/
abbrev Sector := ℕ → BitVec 8

/-- The drive and its controller. -/
structure Drive where
  /-- `current_drive`. -/
  currentDrive : BitVec 8
  /-- `fd_seek(track, head) == 0`. -/
  seek : (track head : BitVec 32) → Bool
  /-- What a read command leaves in the DMA buffer. -/
  read : List (BitVec 8) → Sector
  /-- What is at address 0, where a null pointer leads. -/
  zero : Sector

namespace Drive

/-- `fd_read_sector`: what the returned pointer points to, or null. -/
def fdReadSector (d : Drive) (sectorLba : BitVec 32) : Option Sector :=
  if d.currentDrive > 3 then none
  else
    let a := fdLbaToChs sectorLba
    if d.seek a.track a.head then some (d.read (fdReadSectorImpl d.currentDrive a.bytes))
    else none

/-- What a caller that does not test for null sees. -/
def sector (d : Drive) (sectorLba : BitVec 32) : Sector := (d.fdReadSector sectorLba).getD d.zero

/-- A drive with a disk in it whose sectors are `image 0`, `image 1`, … -/
def ofImage (image : ℕ → Sector) : Drive where
  currentDrive := 0
  seek _ _ := true
  read
    | [_, _, track, head, sector, _, _, _, _] =>
      image ((track.toNat * 2 + head.toNat) * 18 + sector.toNat - 1)
    | _ => fun _ => 0
  zero _ := 0

/-- Every sector is read. -/
def Reads (d : Drive) : Prop := ∀ lba, d.fdReadSector lba ≠ none

/-- Such a drive reads the sectors of the image. -/
theorem ofImage_sector (image : ℕ → Sector) {lba : BitVec 32} (h : lba.toNat < 9216) :
    (ofImage image).sector lba = image lba.toNat := by
  obtain ⟨h1, h2, h3⟩ := toNat_fdLbaToChs lba
  obtain ⟨g1, g2, g3⟩ := (fdLbaToChs lba).toNat_bytes
  have hread : (ofImage image).sector lba =
      image (((fdLbaToChs lba).bytes.track.toNat * 2 + (fdLbaToChs lba).bytes.head.toNat) * 18 +
        (fdLbaToChs lba).bytes.sector.toNat - 1) := rfl
  rw [hread, g1, g2, g3, h1, h2, h3]
  congr 1
  omega

theorem ofImage_reads (image : ℕ → Sector) : (ofImage image).Reads := by
  intro lba
  simp [ofImage, fdReadSector]

theorem Reads.fdReadSector_eq {d : Drive} (h : d.Reads) (lba : BitVec 32) :
    d.fdReadSector lba = some (d.sector lba) := by
  obtain ⟨s, hs⟩ := Option.ne_none_iff_exists'.mp (h lba)
  rw [sector, hs]
  rfl

end Drive

end FanOS.FloppyDisk

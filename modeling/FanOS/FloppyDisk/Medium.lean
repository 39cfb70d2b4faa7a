import FanOS.FloppyDisk.Driver
import FanOS.Hal.Equiv.Dma

/-!
# A drive with a disk in it

The controller with a drive that works: it moves the head to the cylinder that it is told, and a read brings
the sectors of the disk into memory, through channel 2 of the DMA controllers.  A drive works only while its
motor is on and it is selected, and only for the sector that it is on the cylinder of.
-/

namespace FanOS.FloppyDisk

open Driver (Devices)
open Fdc82077 (Chip Behaviour)

/-- The digital output register selects the drive of the command and has its motor on. -/
def Selected (dor unit : BitVec 8) : Prop :=
  dor &&& 3 = unit &&& 3 ∧ dor.getLsbD (4 + (unit &&& 3).toNat) = true

/-- The command has the address of a sector, and can be done. -/
structure Addressed (unit track head sector n last : BitVec 8) : Prop where
  track_lt : track < 80
  side : unit >>> 2 &&& 1 = head
  sector_pos : 0 < sector
  sector_le : sector ≤ last
  last_le : last ≤ 18
  /-- The size of the sectors. -/
  size : n = 2

/-- The number of a sector on the disk. -/
def sectorNumber (track head sector : BitVec 8) : ℕ := (track.toNat * 2 + head.toNat) * 18 + sector.toNat - 1

/-- Channel 2 takes bytes into memory, upwards, and starts anew each time. -/
structure Takes (s : Hal.DmaState) : Prop where
  unmasked : (s.dma0.channel 2).masked = false
  mode : (s.dma0.channel 2).mode &&& 0x3C = 0x14
  enabled : s.dma0.command.getLsbD 2 = false
  /-- The other controller passes its requests on. -/
  cascade : (s.dma1.channel 0).masked = false

/-- Bytes are stored at these addresses, one after the other. -/
def storeAll : List ℕ → (ℕ → BitVec 8) → Mem → Mem
  | [], _, m => m
  | a :: addrs, bytes, m => storeAll addrs (fun k => bytes (k + 1)) (m.store8 (BitVec.ofNat 32 a) (bytes 0))

/-- What a read of the sectors from `sector` to `last` does.  Behind the last one the bytes are unknown. -/
def Transfers (image : ℕ → Sector) (track head sector last : BitVec 8) (x x' : Devices) : Prop :=
  ∃ bytes : ℕ → BitVec 8,
    (∀ k < 512 * (last.toNat + 1 - sector.toNat),
      bytes k = image (sectorNumber track head sector + k / 512) (k % 512)) ∧
    x' = { x with mem := storeAll (Hal.transfers x.dma) bytes x.mem }

/-- The controller and the drive at the end of a command.  A read that cannot be done transfers nothing, and
a seek to a cylinder that does not exist leaves the head anywhere. -/
def Finishes (image : ℕ → Sector) (c : Chip) (x : Devices) (data : ℕ → BitVec 8) (x' : Devices) : Prop :=
  match c.phase with
  | .executing [_, unit] =>
    Selected c.dor unit ∧ data 1 = 0 ∧ x' = { x with cylinder := 0 } ∨ ¬Selected c.dor unit ∧ x' = x
  | .executing [_, unit, cy1] =>
    Selected c.dor unit ∧ cy1 < 80 ∧ data 1 = cy1 ∧ x' = { x with cylinder := cy1 } ∨
      ¬(Selected c.dor unit ∧ cy1 < 80) ∧ ∃ cy, x' = { x with cylinder := cy }
  | .executing [cmd, unit, track, head, sector, n, last, _, _] =>
    let possible := (cmd &&& 0x1F).toNat = 6 ∧ Selected c.dor unit ∧
      Addressed unit track head sector n last ∧ x.cylinder = track ∧ Takes x.dma
    possible ∧ Transfers image track head sector last x x' ∨ ¬possible ∧ x' = x
  | _ => x' = x

/-- The controller with that drive. -/
def floppy (image : ℕ → Sector) : Behaviour Devices where
  completes := Finishes image
  exists_completes c x _ := by
    unfold Finishes
    split
    · rename_i unit _
      by_cases h : Selected c.dor unit
      · exact ⟨fun _ => 0, _, Or.inl ⟨h, rfl, rfl⟩⟩
      · exact ⟨fun _ => 0, x, Or.inr ⟨h, rfl⟩⟩
    · rename_i unit cy1 _
      by_cases h : Selected c.dor unit ∧ cy1 < 80
      · exact ⟨fun _ => cy1, _, Or.inl ⟨h.1, h.2, rfl, rfl⟩⟩
      · exact ⟨fun _ => 0, _, Or.inr ⟨h, 0, rfl⟩⟩
    · rename_i cmd unit track head sector n last _ _ _
      by_cases h : (cmd &&& 0x1F).toNat = 6 ∧ Selected c.dor unit ∧
        Addressed unit track head sector n last ∧ x.cylinder = track ∧ Takes x.dma
      · exact ⟨fun _ => 0, _, Or.inl ⟨h, _, fun _ _ => rfl, rfl⟩⟩
      · exact ⟨fun _ => 0, x, Or.inr ⟨h, rfl⟩⟩
    · exact ⟨fun _ => 0, x, rfl⟩

end FanOS.FloppyDisk

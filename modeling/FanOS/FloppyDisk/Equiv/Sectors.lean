import FanOS.FloppyDisk.Equiv.Driver
import FanOS.FloppyDisk.Medium
import Mathlib.Data.List.Forall2

/-!
# The driver reads the disk

With a drive that works, `fd_init` and any reads after it bring the sectors of the disk into the buffer, one
after the other, and write nothing else (`sectors_read`).  So the driver, the DMA controllers and the floppy
disk controller are together the `Drive` that the file system reads.

Between two reads channel 2 is set for the buffer (`Set`); its mode is not, and `dma_set_read` sets it before
each read.
-/

namespace FanOS.FloppyDisk.Driver

open Fdc82077 hiding Program
open Fdc82077.Program (Safe.bind safe_sends safe_execute sends)

variable {image : ℕ → Sector} {m₀ : Mem} {c : Chip} {x x' : Devices} {d : BitVec 8} {lba : BitVec 32}

/-! ### Memory -/

/-- Bytes are stored at consecutive addresses. -/
theorem storeAll_range' {a n : ℕ} (bytes : ℕ → BitVec 8) (m : Mem) (hfit : a + n ≤ 2 ^ 32) (y : BitVec 32) :
    storeAll (List.range' a n) bytes m y =
      if a ≤ y.toNat ∧ y.toNat < a + n then bytes (y.toNat - a) else m y := by
  induction n generalizing a bytes m with
  | zero => rw [List.range'_zero, storeAll, if_neg (by omega)]
  | succ n ih =>
    rw [List.range'_succ, storeAll, ih _ _ (by omega)]
    by_cases hself : y.toNat = a
    · have hy : y = BitVec.ofNat 32 a := by rw [← hself, BitVec.ofNat_toNat, BitVec.setWidth_eq]
      rw [if_neg (by omega), if_pos (by omega), Mem.store8_apply, if_pos hy, hself, Nat.sub_self]
    · have hne : y ≠ BitVec.ofNat 32 a := by
        rintro rfl
        exact hself (by rw [BitVec.toNat_ofNat, Nat.mod_eq_of_lt (by omega)])
      rw [Mem.store8_apply, if_neg hne]
      by_cases hin : a + 1 ≤ y.toNat ∧ y.toNat < a + 1 + n
      · rw [if_pos hin, if_pos (by omega)]
        congr 1
        omega
      · rw [if_neg hin, if_neg (by omega)]

/-- The buffer. -/
def InBuffer (y : BitVec 32) : Prop := 0x1000 ≤ y.toNat ∧ y.toNat < 0x1200

/-! ### Between two reads -/

/-- Channel 2 is set for the buffer, and only there memory differs from `m₀`. -/
structure Set (m₀ : Mem) (x : Devices) : Prop where
  address : (x.dma.dma0.channel 2).address = 0x1000
  count : (x.dma.dma0.channel 2).count = 511
  enabled : x.dma.dma0.command.getLsbD 2 = false
  page : x.dma.page Hal.dmaPageChan2Addrbyte2 = 0
  mem : ∀ y, ¬InBuffer y → x.mem y = m₀ y

/-- `dma_set_read` sets the mode and unmasks the channel. -/
theorem channel_setRead (s : Hal.DmaState) :
    (Hal.dmaSetRead Hal.fdcDmaChannel s).dma0.channel 2 =
      ⟨(s.dma0.channel 2).address, (s.dma0.channel 2).count, 0x56, false⟩ := rfl

theorem set_dmaInitFloppy (hpage : x.dma.page Hal.dmaPageChan2Addrbyte2 = 0) :
    Set x.mem { x with dma := Hal.dmaInitFloppy dmaBuffer 512 x.dma } := by
  have hchannel := Hal.channel_dmaSetRead dmaBuffer 512 x.dma
  rw [channel_setRead] at hchannel
  injection hchannel with haddress hcount
  have hcommand : (Hal.dmaInitFloppy dmaBuffer 512 x.dma).dma0.command = 0 := rfl
  refine ⟨haddress.trans (by decide), hcount.trans (by decide), ?_, hpage, fun _ _ => rfl⟩
  change (Hal.dmaInitFloppy dmaBuffer 512 x.dma).dma0.command.getLsbD 2 = false
  rw [hcommand]
  decide

theorem Set.takes (h : Set m₀ x) : Takes (Hal.dmaSetRead Hal.fdcDmaChannel x.dma) where
  unmasked := rfl
  mode := show (0x56 : BitVec 8) &&& 0x3C = 0x14 by decide
  enabled := h.enabled
  cascade := rfl

/-- The transfer goes to the buffer. -/
theorem Set.transfers (h : Set m₀ x) :
    Hal.transfers (Hal.dmaSetRead Hal.fdcDmaChannel x.dma) = List.range' 0x1000 512 := by
  rw [Hal.transfers, channel_setRead, h.address, h.count]
  have hpage : (Hal.dmaSetRead Hal.fdcDmaChannel x.dma).page Hal.dmaPageChan2Addrbyte2 = 0 := h.page
  have hoffsets := Dma8237.offsets_of_le (r := ⟨0x1000, 511, 0x56, false⟩)
    (show (0x56 : BitVec 8).getLsbD 5 = false from rfl) (by decide)
  rw [hpage]
  refine Eq.trans (List.map_congr_left fun o _ => ?_) hoffsets
  exact Nat.zero_add _

/-- What a read leaves. -/
theorem Set.of_transfers (h : Set m₀ x) {track head sector last : BitVec 8}
    (hx : Transfers image track head sector last
      { x with dma := Hal.dmaSetRead Hal.fdcDmaChannel x.dma } x') :
    Set m₀ x' := by
  obtain ⟨bytes, -, rfl⟩ := hx
  refine ⟨h.address, h.count, h.enabled, h.page, fun y hy => ?_⟩
  change storeAll _ bytes x.mem y = m₀ y
  rw [h.transfers, storeAll_range' bytes _ (by decide), if_neg (fun hin => hy ⟨hin.1, by omega⟩)]
  exact h.mem y hy

theorem Set.setRead (h : Set m₀ x) : Set m₀ { x with dma := Hal.dmaSetRead Hal.fdcDmaChannel x.dma } :=
  ⟨h.address, h.count, h.enabled, h.page, h.mem⟩

theorem Set.withCylinder (h : Set m₀ x) (cy : BitVec 8) : Set m₀ { x with cylinder := cy } :=
  ⟨h.address, h.count, h.enabled, h.page, h.mem⟩

theorem keeps_set (image : ℕ → Sector) (m₀ : Mem) : Keeps (floppy image) (Set m₀) where
  move := by
    intro c x data x' hmove hx hfinishes
    change Finishes image c x data x' at hfinishes
    unfold Finishes at hfinishes
    split at hfinishes
    · obtain ⟨-, -, rfl⟩ | ⟨-, rfl⟩ := hfinishes
      · exact hx.withCylinder 0
      · exact hx
    · obtain ⟨-, -, -, rfl⟩ | ⟨-, cy, rfl⟩ := hfinishes <;> exact hx.withCylinder _
    · rename_i hphase
      obtain ⟨⟨hcmd, -⟩, -⟩ | ⟨-, rfl⟩ := hfinishes
      · exact absurd hcmd (hmove _ hphase)
      · exact hx
    · rw [hfinishes]
      exact hx
  read := by
    intro c x data x' hx hfinishes
    change Finishes image c _ data x' at hfinishes
    unfold Finishes at hfinishes
    split at hfinishes
    · obtain ⟨-, -, rfl⟩ | ⟨-, rfl⟩ := hfinishes
      · exact hx.setRead.withCylinder 0
      · exact hx.setRead
    · obtain ⟨-, -, -, rfl⟩ | ⟨-, cy, rfl⟩ := hfinishes <;> exact hx.setRead.withCylinder _
    · obtain ⟨-, htransfers⟩ | ⟨-, rfl⟩ := hfinishes
      · exact hx.of_transfers htransfers
      · exact hx.setRead
    · rw [hfinishes]
      exact hx.setRead

/-! ### Drive 0 -/

/-- The motor of the drive. -/
theorem safe_motor {Q : Unit → Chip → Devices → Prop} (on : Bool) (h : Rest c)
    (hQ : Q () { c with dor := if on then 0x1C else 4 } x) :
    (fdControlMotor 0 on).Safe (floppy image) Q c x := by
  have hphase : c.phase = .command [] := h.idle
  have hprogram : fdControlMotor 0 on = .dor (if on then 0x1C else 4) (.ret ()) := by cases on <;> rfl
  have henabled : (if on then 0x1C else 4 : BitVec 8).getLsbD 2 = true := by cases on <;> rfl
  have hwrite : c.writeDor (if on then 0x1C else 4) = { c with dor := if on then 0x1C else 4 } := by
    rw [Chip.writeDor, henabled, hphase]
    rfl
  rw [hprogram]
  refine ⟨h.idle.not_busy, ?_⟩
  rw [hwrite]
  exact hQ

/-- The last sector of the read command. -/
def lastSector (sector : BitVec 8) : BitVec 8 :=
  (if sector.setWidth 32 + 1 ≥ fdSectorsPerTrack then fdSectorsPerTrack
    else sector.setWidth 32 + 1).setWidth 8

theorem fdReadSectorImpl_eq (a : SectorAddress) :
    fdReadSectorImpl 0 a = [(0x06 : BitVec 8) ||| 0x80 ||| 0x20 ||| 0x40, a.head <<< 2 ||| 0, a.track, a.head,
      a.sector, 2, lastSector a.sector, 27, 0xFF] := rfl

/-- What is known of the address of a sector of the disk. -/
structure OnDisk (lba : BitVec 32) (a : SectorAddress) : Prop where
  head : a.head = 0 ∨ a.head = 1
  head_eq : (fdLbaToChs lba).head = a.head.setWidth 32
  track_lt : a.track.toNat < 80
  track_eq : (fdLbaToChs lba).track = a.track.setWidth 32
  sector : 0 < a.sector.toNat ∧ a.sector.toNat ≤ 18
  number : sectorNumber a.track a.head a.sector = lba.toNat

theorem onDisk (hlba : lba.toNat < 2880) : OnDisk lba (fdLbaToChs lba).bytes := by
  obtain ⟨h1, h2, h3⟩ := toNat_fdLbaToChs lba
  obtain ⟨g1, g2, g3⟩ := (fdLbaToChs lba).toNat_bytes
  have hword : ∀ y : BitVec 32, y.toNat < 256 → y = (y.setWidth 8).setWidth 32 := by
    intro y hy
    apply BitVec.eq_of_toNat_eq
    rw [BitVec.toNat_setWidth_of_le (by decide), BitVec.toNat_setWidth]
    omega
  refine ⟨?_, hword _ (by omega), by omega, hword _ (by omega), by omega, ?_⟩
  · have hhead : (fdLbaToChs lba).bytes.head.toNat = 0 ∨ (fdLbaToChs lba).bytes.head.toNat = 1 := by omega
    exact hhead.imp (fun h => BitVec.eq_of_toNat_eq h) fun h => BitVec.eq_of_toNat_eq h
  · rw [sectorNumber]
    omega

theorem OnDisk.selected {a : SectorAddress} (h : OnDisk lba a) : Selected 0x1C (a.head <<< 2 ||| 0) := by
  obtain hhead | hhead := h.head <;> rw [hhead] <;> exact ⟨by decide, by decide⟩

theorem toNat_lastSector {sector : BitVec 8} (h : sector.toNat ≤ 18) :
    (lastSector sector).toNat = min (sector.toNat + 1) 18 := by
  have hnext : (sector.setWidth 32 + 1).toNat = sector.toNat + 1 := by
    rw [BitVec.toNat_add, BitVec.toNat_setWidth_of_le (by decide), show (1 : BitVec 32).toNat = 1 from rfl]
    omega
  have hmax : fdSectorsPerTrack.toNat = 18 := rfl
  unfold lastSector
  split_ifs with hge
  · have hle : 18 ≤ sector.toNat + 1 := by
      rw [ge_iff_le, BitVec.le_def, hmax, hnext] at hge
      exact hge
    rw [BitVec.toNat_setWidth, hmax]
    omega
  · have hlt : sector.toNat + 1 < 18 := by
      rw [ge_iff_le, BitVec.le_def, hmax, hnext] at hge
      omega
    rw [BitVec.toNat_setWidth, hnext]
    omega

theorem OnDisk.addressed {a : SectorAddress} (h : OnDisk lba a) :
    Addressed (a.head <<< 2 ||| 0) a.track a.head a.sector 2 (lastSector a.sector) := by
  have hlast := toNat_lastSector h.sector.2
  have htrack := h.track_lt
  have hsector := h.sector
  refine ⟨BitVec.lt_def.mpr h.track_lt, ?_, BitVec.lt_def.mpr h.sector.1, ?_, ?_, rfl⟩
  · obtain hhead | hhead := h.head <;> rw [hhead] <;> decide
  · rw [BitVec.le_def, hlast]
    omega
  · rw [BitVec.le_def, hlast]
    exact Nat.min_le_right _ _

/-- The bytes of a sector of the disk. -/
def sectorOf (image : ℕ → Sector) (lba : BitVec 32) : List (BitVec 8) :=
  (List.range sectorSize).map ((Drive.ofImage image).sector lba)

/-- The buffer after a read. -/
theorem sectorAt_of_transfers (hx : Set m₀ x) (hlba : lba.toNat < 2880) {a : SectorAddress} (h : OnDisk lba a)
    (htransfers : Transfers image a.track a.head a.sector (lastSector a.sector)
      { x with dma := Hal.dmaSetRead Hal.fdcDmaChannel x.dma } x') :
    sectorOf image lba = sectorAt x'.mem dmaBuffer := by
  obtain ⟨bytes, hbytes, rfl⟩ := htransfers
  have hlast := toNat_lastSector h.sector.2
  have hsector := h.sector
  refine List.map_congr_left fun i hi => ?_
  have hi' : i < 512 := List.mem_range.mp hi
  have hat : (dmaBuffer + BitVec.ofNat 32 i).toNat = 0x1000 + i := by
    rw [BitVec.toNat_add, BitVec.toNat_ofNat, show dmaBuffer.toNat = 0x1000 from rfl]
    omega
  symm
  change storeAll _ bytes x.mem _ = _
  rw [hx.transfers, storeAll_range' bytes _ (by decide), hat, if_pos (by omega), Nat.add_sub_cancel_left,
    hbytes i (by omega), h.number, Nat.div_eq_of_lt hi', Nat.mod_eq_of_lt hi', Nat.add_zero,
    Drive.ofImage_sector image (by omega)]

/-- `fd_read_sector` reads a sector of the disk. -/
theorem safe_fdReadSector_floppy (hlba : lba.toNat < 2880) (h : Rest c) (hx : Set m₀ x) :
    (fdReadSector 0 lba).Safe (floppy image) (fun buffer c x => Rest c ∧ Set m₀ x ∧
      sectorOf image lba = sectorAt x.mem buffer) c x := by
  have hdisk := onDisk hlba
  set a := (fdLbaToChs lba).bytes with ha
  have hdrive : ¬(0 : BitVec 8) > 3 := by decide
  unfold fdReadSector
  rw [if_neg hdrive]
  refine Safe.bind (safe_motor true h ?_)
  have hirq : (0x1C : BitVec 8).getLsbD 3 = true := by decide
  have henabled : (0x1C : BitVec 8).getLsbD 2 = true := by decide
  have hrest : Rest { c with dor := 0x1C } := ⟨h.idle, h.sense, henabled⟩
  refine Safe.bind ?_
  rw [fdSeek, if_neg hdrive]
  -- the first attempt to seek succeeds
  refine safe_fdSeekLoop_succ hrest hirq fun data x₁ hseek => ?_
  have hunit : (((fdLbaToChs lba).head <<< 2 ||| (0 : BitVec 8).setWidth 32).setWidth 8 : BitVec 8) =
      a.head <<< 2 ||| 0 := by
    rw [hdisk.head_eq]
    obtain hhead | hhead := hdisk.head <;> rw [hhead] <;> decide
  rw [hunit] at hseek
  obtain ⟨-, -, hcylinder, rfl⟩ | ⟨hnot, -⟩ := hseek
  · have htrack : (fdLbaToChs lba).track = ((fdLbaToChs lba).track.setWidth 8).setWidth 32 := hdisk.track_eq
    rw [hcylinder, if_pos htrack]
    simp only [ne_eq, not_true_eq_false, if_false]
    have hx₁ := hx.withCylinder a.track
    refine Safe.bind (safe_readSectorImpl _ hrest hirq fun data x₂ hread => ?_)
    rw [← ha, fdReadSectorImpl_eq] at hread
    obtain ⟨-, htransfers⟩ | ⟨hnot, -⟩ := hread
    · refine Safe.bind (safe_motor false hrest ?_)
      have hoff : (4 : BitVec 8).getLsbD 2 = true := by decide
      exact ⟨⟨h.idle, h.sense, hoff⟩, hx₁.of_transfers htransfers,
        sectorAt_of_transfers hx₁ hlba hdisk htransfers⟩
    · exact absurd ⟨by decide, hdisk.selected, hdisk.addressed, rfl, hx₁.takes⟩ hnot
  · exact absurd ⟨hdisk.selected, BitVec.lt_def.mpr hdisk.track_lt⟩ hnot

/-! ### Sectors -/

/-- What `fd_init` and reads after it should do: the sectors are those of the disk, and memory changes in the
buffer only. -/
structure Reads (image : ℕ → Sector) (lbas : List (BitVec 32)) (m₀ : Mem) (sectors : List (List (BitVec 8)))
    (c : Chip) (x : Devices) : Prop where
  rest : Rest c
  sectors_eq : sectors = lbas.map (sectorOf image)
  mem : ∀ y, ¬InBuffer y → x.mem y = m₀ y

/-- **The driver reads the disk**: `fd_init(0)` and reads after it, with a drive that works, from any
controller that is not busy and any state of the DMA controllers in which the page register of channel 2 is
zero, in every interleaving with the interrupts of the controller. -/
theorem sectors_read (image : ℕ → Sector) (c : Chip) (x : Devices) (currentDrive : BitVec 8)
    (lbas : List (BitVec 32)) (hc : ¬c.Busy) (hpage : x.dma.page Hal.dmaPageChan2Addrbyte2 = 0)
    (hlbas : ∀ lba ∈ lbas, lba.toNat < 2880) {s : Bus Devices (List (List (BitVec 8)))}
    (h : (system (floppy image) (session currentDrive 0 lbas) c x).Reachable s) :
    Orderly (Reads image lbas x.mem) s ∧
      Ends (floppy image) (session currentDrive 0 lbas) c x s := by
  have hkeeps := keeps_set image x.mem
  have hsafe : (session currentDrive 0 lbas).Safe (floppy image)
      (Reads image lbas x.mem) c x := by
    refine Safe.bind (safe_fdInit hkeeps 0 hc (set_dmaInitFloppy hpage) fun c x hrest hx => ?_)
    refine (safe_readAll (S := fun lba sector => sectorOf image lba = sector)
      (fun lba hlba c x h hx => safe_fdReadSector_floppy (hlbas lba hlba) h hx) hrest hx).mono ?_
    rintro sectors c x ⟨hrest, hx, hall⟩
    have hmap : List.Forall₂ Eq (lbas.map (sectorOf image)) sectors := List.forall₂_map_left_iff.mpr hall
    rw [List.forall₂_eq_eq_eq] at hmap
    exact ⟨hrest, hmap.symm, hx.mem⟩
  have hQ : ∀ sectors c x', Reads image lbas x.mem sectors c x' → ¬c.Busy :=
    fun _ _ _ h => h.rest.idle.not_busy
  exact ⟨invariant_of_safe hQ hsafe h, ends_of_safe hQ hsafe h⟩

/-- The root directory of a disk, before it has been read. -/
theorem sectors_read_root :
    Orderly (Reads (fun n _ => BitVec.ofNat 8 n) [19, 20] devices₀.mem)
      ⟨⟨.command [], 0, 0, []⟩, devices₀, false, session 0 0 [19, 20], 0⟩ ∧
    Ends (floppy fun n _ => BitVec.ofNat 8 n) (session 0 0 [19, 20]) ⟨.command [], 0, 0, []⟩
      devices₀ ⟨⟨.command [], 0, 0, []⟩, devices₀, false, session 0 0 [19, 20], 0⟩ := by
  have hlbas : ∀ lba ∈ ([19, 20] : List (BitVec 32)), lba.toNat < 2880 :=
    List.forall_mem_cons.mpr
      ⟨show 19 < 2880 by omega, List.forall_mem_singleton.mpr (show 20 < 2880 by omega)⟩
  have hc : ¬(⟨.command [], 0, 0, []⟩ : Chip).Busy := Chip.Idle.not_busy rfl
  exact sectors_read _ _ devices₀ 0 [19, 20] hc rfl hlbas (.init rfl)

end FanOS.FloppyDisk.Driver

import FanOS.Fdc82077.Basic
import FanOS.FloppyDisk.Controller
import FanOS.Memory.Bytes

/-!
# The floppy driver as a program (`floppydisk.c`)

The functions of the driver as they run beside the controller: every access to a register is a step, and
`fd_wait_irq6` waits for the flag that `fd_irq6_handler` sets.  The controller is one that becomes ready in
time, so each byte is one step.  `sleep`, which is called behind the motor, is left out.

The other devices are those for DMA, with memory, and the drive, of which all that matters is the cylinder
that its head is at.
-/

namespace FanOS.FloppyDisk.Driver

/-- What the controller and the driver share. -/
structure Devices where
  dma : Hal.DmaState
  mem : Mem
  /-- The cylinder of the head. -/
  cylinder : BitVec 8

abbrev Program := Fdc82077.Program Devices

/-- A call of a function of `dma.c`. -/
def callDma (f : Hal.DmaState → Hal.DmaState) : Program Unit :=
  .update (fun x => { x with dma := f x.dma }) (.ret ())

/-- `fd_write_dor`. -/
def fdWriteDor (val : BitVec 8) : Program Unit := .dor val (.ret ())

/-- `fd_write_ccr`. -/
def fdWriteCcr (val : BitVec 8) : Program Unit := .ccr val (.ret ())

/-- `fd_send_command`. -/
def fdSendCommand (cmd : BitVec 8) : Program Unit := .send cmd (.ret ())

/-- `fd_read_data`. -/
def fdReadData : Program (BitVec 8) := .recv .ret

/-- `fd_wait_irq6`. -/
def fdWaitIrq6 : Program Unit := .wait (.ret ())

/-- `fd_control_motor`. -/
def fdControlMotor (currentDrive : BitVec 8) (on : Bool) : Program Unit :=
  if currentDrive > 3 then return
  else
    let motor : BitVec 32 :=
      if currentDrive = 0 then 16
      else if currentDrive = 1 then 32
      else if currentDrive = 2 then 64
      else 128
    if on then fdWriteDor ((motor ||| 4 ||| 8).setWidth 8) else fdWriteDor 4

/-- `fd_drive_data`. -/
def fdDriveData (stepr loadt unloadt : BitVec 32) (dma : Bool) : Program Unit := do
  fdSendCommand 0x03
  fdSendCommand (((stepr &&& 0xF) <<< 4 ||| unloadt &&& 0xF).setWidth 8)
  fdSendCommand ((loadt <<< 1 ||| if dma then 1 else 0).setWidth 8)

/-- `fd_check_int`: status and cylinder. -/
def fdCheckInt : Program (BitVec 32 × BitVec 32) := do
  fdSendCommand 0x08
  let st0 ← fdReadData
  let cy1 ← fdReadData
  return (st0.setWidth 32, cy1.setWidth 32)

/-- The loop of `fd_calibrate`, with so many attempts to go. -/
def fdCalibrateLoop (currentDrive : BitVec 8) (drive : BitVec 32) : ℕ → Program (BitVec 32)
  | 0 => do
    fdControlMotor currentDrive false
    return -1
  | n + 1 => do
    fdSendCommand 0x07
    fdSendCommand (drive.setWidth 8)
    fdWaitIrq6
    let (_, cy1) ← fdCheckInt
    if cy1 = 0 then do
      fdControlMotor currentDrive false
      return 0
    else fdCalibrateLoop currentDrive drive n

/-- `fd_calibrate`. -/
def fdCalibrate (currentDrive : BitVec 8) (drive : BitVec 32) : Program (BitVec 32) :=
  if drive > 3 then return -1
  else do
    fdControlMotor currentDrive true
    fdCalibrateLoop currentDrive drive 9

/-- The loop of `fd_seek`, with so many attempts to go. -/
def fdSeekLoop (currentDrive : BitVec 8) (cy1 head : BitVec 32) : ℕ → Program (BitVec 32)
  | 0 => return -1
  | n + 1 => do
    fdSendCommand 0x0F
    fdSendCommand ((head <<< 2 ||| currentDrive.setWidth 32).setWidth 8)
    fdSendCommand (cy1.setWidth 8)
    fdWaitIrq6
    let (_, cy10) ← fdCheckInt
    if cy1 = cy10 then return 0 else fdSeekLoop currentDrive cy1 head n

/-- `fd_seek`. -/
def fdSeek (currentDrive : BitVec 8) (cy1 head : BitVec 32) : Program (BitVec 32) :=
  if currentDrive > 3 then return -1 else fdSeekLoop currentDrive cy1 head 9

/-- `fd_disable_controller`. -/
def fdDisableController : Program Unit := fdWriteDor 0

/-- `fd_enable_controller`. -/
def fdEnableController : Program Unit := fdWriteDor 0x0C

/-- `for (i = 0; i < 4; i++) fd_check_int(&st0, &cy1)`, with so many to go. -/
def checkInts : ℕ → Program Unit
  | 0 => return
  | n + 1 => do
    let _ ← fdCheckInt
    checkInts n

/-- `fd_reset`. -/
def fdReset (currentDrive : BitVec 8) : Program Unit := do
  fdDisableController
  fdEnableController
  fdWaitIrq6
  checkInts 4
  fdWriteCcr 0
  fdDriveData 3 16 240 true
  let _ ← fdCalibrate currentDrive (currentDrive.setWidth 32)

/-- `for (i = 0; i < 7; i++) fd_read_data()`, with so many to go. -/
def readResults : ℕ → Program Unit
  | 0 => return
  | n + 1 => do
    let _ ← fdReadData
    readResults n

/-- The calls of `fd_send_command` for the bytes of a command. -/
def sendAll : List (BitVec 8) → Program Unit
  | [] => return
  | b :: bs => do
    fdSendCommand b
    sendAll bs

/-- `fd_read_sector_impl`. -/
def readSectorImpl (currentDrive : BitVec 8) (a : SectorAddress) : Program Unit := do
  callDma (Hal.dmaSetRead Hal.fdcDmaChannel)
  sendAll (fdReadSectorImpl currentDrive a)
  fdWaitIrq6
  readResults 7
  let _ ← fdCheckInt

/-- `fd_read_sector`. -/
def fdReadSector (currentDrive : BitVec 8) (sectorLba : BitVec 32) : Program (BitVec 32) :=
  if currentDrive > 3 then return 0
  else do
    let a := fdLbaToChs sectorLba
    fdControlMotor currentDrive true
    let r ← fdSeek currentDrive a.track a.head
    if r ≠ 0 then return 0
    else do
      readSectorImpl currentDrive a.bytes
      fdControlMotor currentDrive false
      return dmaBuffer

/-- `fd_set_working_drive`. -/
def fdSetWorkingDrive (drive currentDrive : BitVec 8) : BitVec 8 :=
  if drive < 4 then drive else currentDrive

/-- `fd_init`, where `current_drive` is `currentDrive` before. -/
def fdInit (currentDrive : BitVec 8) (drive : BitVec 32) : Program (BitVec 8) := do
  callDma (Hal.dmaInitFloppy dmaBuffer 512)
  let currentDrive := fdSetWorkingDrive (drive.setWidth 8) currentDrive
  fdReset currentDrive
  fdDriveData 13 1 0xF true
  return currentDrive

/-- The bytes of a sector at an address. -/
def sectorAt (m : Mem) (a : BitVec 32) : List (BitVec 8) :=
  (List.range sectorSize).map fun i => m (a + BitVec.ofNat 32 i)

/-- Sectors that are read one after the other: what is where `fd_read_sector` says. -/
def readAll (currentDrive : BitVec 8) : List (BitVec 32) → Program (List (List (BitVec 8)))
  | [] => return []
  | lba :: lbas => do
    let buffer ← fdReadSector currentDrive lba
    let sector ← Fdc82077.Program.look fun x => .ret (sectorAt x.mem buffer)
    let sectors ← readAll currentDrive lbas
    return sector :: sectors

/-- `fd_init`, and reads after it. -/
def session (currentDrive : BitVec 8) (drive : BitVec 32) (lbas : List (BitVec 32)) :
    Program (List (List (BitVec 8))) := do
  let currentDrive ← fdInit currentDrive drive
  readAll currentDrive lbas

end FanOS.FloppyDisk.Driver

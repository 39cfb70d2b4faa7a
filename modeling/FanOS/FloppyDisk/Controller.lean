import FanOS.FloppyDisk.Basic
import FanOS.Hal.Dma

/-!
# The floppy disk controller (`floppydisk.c`)

`fd_read_sector` turns the motor on, tries up to nine times to seek, sends a read command, takes its seven
result bytes, and turns the motor off.  Each byte of a command or of an answer is a transfer: the driver
reads the main status register up to 500 times, until the data register is ready, and otherwise goes on
without the byte.

`Responses` is what the controller answers.  Interrupts that are awaited arrive; `sleep`, which is called
behind the motor, is left out.  Beside the registers run the bytes that the controller has given for the
cylinder at each attempt to seek, and for the results of the read command.
-/

namespace FanOS.FloppyDisk

/-- The answers of the controller, by transfers. -/
structure Responses where
  /-- The main status register, by the number of times that it has been read in the transfer. -/
  status : ℕ → ℕ → BitVec 8
  /-- The data register. -/
  data : ℕ → BitVec 8

/-- `if (fd_read_status() & FD_MSR_MASK_DATAREG)`, for the `i`-th time and with `n` to go. -/
def Responses.poll (ρ : Responses) (t : ℕ) : ℕ → ℕ → Bool
  | 0, _ => false
  | n + 1, i => if ρ.status t i &&& 0x80 ≠ 0 then true else ρ.poll t n (i + 1)

/-- The byte that the driver takes in a transfer, if the data register is ready. -/
def Responses.received (ρ : Responses) (t : ℕ) : Option (BitVec 8) :=
  if ρ.poll t 500 0 then some (ρ.data t) else none

/-- The driver and the registers that it writes. -/
structure Fdc where
  /-- `current_drive`. -/
  currentDrive : BitVec 8
  /-- What has last been written to the digital output register. -/
  dor : BitVec 8
  /-- The bytes of commands that have been written to the data register. -/
  commands : List (BitVec 8)
  dma : Hal.DmaState
  /-- The number of transfers so far. -/
  transfers : ℕ
  /-- The cylinder in the answer to each attempt to seek. -/
  cylinders : List (Option (BitVec 8))
  /-- The result bytes of the read command. -/
  results : List (Option (BitVec 8))

/-- `DMA_BUFFER`. -/
def dmaBuffer : BitVec 32 := 0x1000

/-- The motor bits of the digital output register. -/
def motorMask : BitVec 8 := 0xF0

/-! ### Registers -/

/-- `fd_write_dor`. -/
def fdWriteDor (val : BitVec 8) (s : Fdc) : Fdc := { s with dor := val }

/-- `fd_control_motor`. -/
def fdControlMotor (on : Bool) (s : Fdc) : Fdc :=
  if s.currentDrive > 3 then s
  else
    let motor : BitVec 32 :=
      if s.currentDrive = 0 then 16
      else if s.currentDrive = 1 then 32
      else if s.currentDrive = 2 then 64
      else 128
    if on then fdWriteDor ((motor ||| 4 ||| 8).setWidth 8) s else fdWriteDor 4 s

section

variable (ρ : Responses)

/-- `fd_send_command`. -/
def fdSendCommand (cmd : BitVec 8) (s : Fdc) : Fdc :=
  { s with
    commands := if ρ.poll s.transfers 500 0 then s.commands ++ [cmd] else s.commands
    transfers := s.transfers + 1 }

/-- `fd_read_data`; `none` is zero to the driver. -/
def fdReadData (s : Fdc) : Option (BitVec 8) × Fdc :=
  (ρ.received s.transfers, { s with transfers := s.transfers + 1 })

/-- `fd_check_int`. -/
def fdCheckInt (s : Fdc) : Option (BitVec 8) × Option (BitVec 8) × Fdc :=
  let s := fdSendCommand ρ 0x08 s
  let (st0, s) := fdReadData ρ s
  let (cy1, s) := fdReadData ρ s
  (st0, cy1, s)

/-! ### Seeking -/

/-- An attempt of `fd_seek`: the cylinder that the head is at. -/
def seekAttempt (cy1 head : BitVec 32) (s : Fdc) : BitVec 32 × Fdc :=
  let s := fdSendCommand ρ 0x0F s
  let s := fdSendCommand ρ ((head <<< 2 ||| s.currentDrive.setWidth 32).setWidth 8) s
  let s := fdSendCommand ρ (cy1.setWidth 8) s
  let (_, cy10, s) := fdCheckInt ρ s
  ((cy10.getD 0).setWidth 32, { s with cylinders := s.cylinders ++ [cy10] })

/-- The loop of `fd_seek`, with so many attempts to go. -/
def fdSeekLoop (cy1 head : BitVec 32) : ℕ → Fdc → BitVec 32 × Fdc
  | 0, s => (-1, s)
  | n + 1, s =>
    let (cy10, s) := seekAttempt ρ cy1 head s
    if cy1 = cy10 then (0, s) else fdSeekLoop cy1 head n s

/-- `fd_seek`. -/
def fdSeek (cy1 head : BitVec 32) (s : Fdc) : BitVec 32 × Fdc :=
  if s.currentDrive > 3 then (-1, s) else fdSeekLoop ρ cy1 head 9 s

/-! ### Reading -/

/-- `for (i = 0; i < 7; i++) fd_read_data()`, with so many bytes to go. -/
def readResults : ℕ → Fdc → Fdc
  | 0, s => s
  | n + 1, s =>
    let (b, s) := fdReadData ρ s
    readResults n { s with results := s.results ++ [b] }

/-- `fd_read_sector_impl`. -/
def readSectorImpl (a : SectorAddress) (s : Fdc) : Fdc :=
  let s := { s with dma := Hal.dmaSetRead Hal.fdcDmaChannel s.dma }
  let s := (fdReadSectorImpl s.currentDrive a).foldl (fun s b => fdSendCommand ρ b s) s
  let s := readResults ρ 7 s
  let (_, _, s) := fdCheckInt ρ s
  s

/-- `fd_read_sector`. -/
def fdReadSector (sectorLba : BitVec 32) (s : Fdc) : BitVec 32 × Fdc :=
  let s := { s with cylinders := [], results := [] }
  if s.currentDrive > 3 then (0, s)
  else
    let a := fdLbaToChs sectorLba
    let s := fdControlMotor true s
    let (r, s) := fdSeek ρ a.track a.head s
    if r ≠ 0 then (0, s)
    else
      let s := readSectorImpl ρ a.bytes s
      (dmaBuffer, fdControlMotor false s)

end

/-! ### What it should do -/

/-- The controller has reported that the head is at the cylinder. -/
def Fdc.Reached (s : Fdc) (cy1 : BitVec 32) : Prop := ∃ c, some c ∈ s.cylinders ∧ c.setWidth 32 = cy1

/-- The first result byte says that the command has ended normally: its interrupt code is zero. -/
def NormalEnd (b : Option (BitVec 8)) : Prop := ∃ st0, b = some st0 ∧ st0 &&& 0xC0 = 0

/-- The result bytes report success. -/
def Fdc.Succeeded (s : Fdc) : Prop := ∃ b, s.results.head? = some b ∧ NormalEnd b

/-- `fd_read_sector` returns a buffer only if the sector has been read, and leaves all motors off. -/
structure HandlesErrors (ρ : Responses) (sectorLba : BitVec 32) (s : Fdc) : Prop where
  returns : (fdReadSector ρ sectorLba s).1 ≠ 0 ↔
    (fdReadSector ρ sectorLba s).2.Reached (fdLbaToChs sectorLba).track ∧
      (fdReadSector ρ sectorLba s).2.Succeeded
  motorOff : (fdReadSector ρ sectorLba s).2.dor &&& motorMask = 0

/-- The cylinder in the answer to the `i`-th attempt to seek, when the first one begins with transfer `t`. -/
def Responses.cylinder (ρ : Responses) (t i : ℕ) : Option (BitVec 8) := ρ.received (t + 6 * i + 5)

/-- The driver takes it for the one that it seeks.  A byte that it has not received is zero to it. -/
def Responses.Taken (ρ : Responses) (t : ℕ) (cy1 : BitVec 32) (i : ℕ) : Prop :=
  ((ρ.cylinder t i).getD 0).setWidth 32 = cy1

/-- The answers to the attempts to seek and to the read command that follows: after `n` attempts in which
the driver does not take the head to be at the cylinder, the controller reports that it is there, and then
that the command has ended normally. -/
def Responses.ReadsAfter (ρ : Responses) (t : ℕ) (cy1 : BitVec 32) (n : ℕ) : Prop :=
  (∀ i < n, ¬ρ.Taken t cy1 i) ∧ (∃ c, ρ.cylinder t n = some c ∧ c.setWidth 32 = cy1) ∧
    NormalEnd (ρ.received (t + 6 * n + 15))

end FanOS.FloppyDisk

import FanOS.Pic8259.Basic

/-!
# The driver of the interrupt controllers (`pic.c`)

A PC has two controllers of eight lines, at the ports `0x20` and `0xA0`.  Every function of the driver is a
sequence of reads and writes there.
-/

namespace FanOS.Hal

open Pic8259

/-- `PIC_1_CMD`. -/
def pic1Cmd : BitVec 16 := 0x20

/-- `PIC_1_DATA`. -/
def pic1Data : BitVec 16 := 0x21

/-- `PIC_2_CMD`. -/
def pic2Cmd : BitVec 16 := 0xA0

/-- `PIC_2_DATA`. -/
def pic2Data : BitVec 16 := 0xA1

/-- `PIC_EOI`. -/
def picEoi : BitVec 8 := 0x20

/-- `outb`, at the ports of the controllers. -/
def outb (port : BitVec 16) (b : BitVec 8) (p : Pair) : Pair :=
  if port = pic1Cmd then { p with master := p.master.writeCommand b }
  else if port = pic1Data then { p with master := p.master.writeData b }
  else if port = pic2Cmd then { p with slave := p.slave.writeCommand b }
  else if port = pic2Data then { p with slave := p.slave.writeData b }
  else p

/-- `inb`: the mask at a data port, the lines that ask at the others. -/
def inb (port : BitVec 16) (p : Pair) : BitVec 8 :=
  if port = pic1Data then p.master.imr
  else if port = pic2Data then p.slave.imr
  else if port = pic1Cmd then p.master.irr
  else p.slave.irr

/-- `send_pic_eoi`. -/
def sendPicEoi (irq : BitVec 8) (p : Pair) : Pair :=
  let p := if irq ≥ 8 then outb pic2Cmd picEoi p else p
  outb pic1Cmd picEoi p

/-- `disable_pic`. -/
def disablePic (p : Pair) : Pair := outb pic2Data 0xFF (outb pic1Data 0xFF p)

/-- The mask of a line is read, changed and written back: `set_irq_mask` and `clear_irq_mask`. -/
def changeMask (change : BitVec 8 → BitVec 8 → BitVec 8) (irq : BitVec 8) (p : Pair) : Pair :=
  let (irq, port) := if irq ≥ 8 then (irq - 8, pic2Data) else (irq, pic1Data)
  let curmask := inb port p
  outb port (change curmask (((1 : BitVec 32) <<< irq.toNat).setWidth 8)) p

/-- `set_irq_mask`. -/
def setIrqMask : BitVec 8 → Pair → Pair := changeMask fun curmask bit => curmask ||| bit

/-- `clear_irq_mask`. -/
def clearIrqMask : BitVec 8 → Pair → Pair := changeMask fun curmask bit => curmask &&& ~~~bit

/-- `pic_init`. -/
def picInit (p : Pair) : Pair :=
  let pic1Mask := inb pic1Data p
  let pic2Mask := inb pic2Data p
  let p := outb pic2Cmd 0x11 (outb pic1Cmd 0x11 p)
  let p := outb pic2Data 0x28 (outb pic1Data 0x20 p)
  let p := outb pic2Data 0x02 (outb pic1Data 0x04 p)
  let p := outb pic2Data 0x01 (outb pic1Data 0x01 p)
  outb pic2Data pic2Mask (outb pic1Data pic1Mask p)

/-- Both controllers are initialized. -/
structure Ready (p : Pair) : Prop where
  master : p.master.phase = .ready
  slave : p.slave.phase = .ready

/-! ### Calls in any order -/

/-- A call of the driver, or what the devices and the processor do in between. -/
inductive PicOp
  | setMask (irq : BitVec 8)
  | clearMask (irq : BitVec 8)
  | disable
  | init
  | eoi (irq : BitVec 8)
  | raise (line : ℕ)
  | acknowledge

def PicOp.run (p : Pair) : PicOp → Pair
  | .setMask irq => setIrqMask irq p
  | .clearMask irq => clearIrqMask irq p
  | .disable => disablePic p
  | .init => picInit p
  | .eoi irq => sendPicEoi irq p
  | .raise line => p.raise line
  | .acknowledge => p.acknowledge.2

/-- The shift of the call is one that C defines. -/
def PicOp.Defined : PicOp → Prop
  | .setMask irq | .clearMask irq => irq < 39
  | _ => True

/-- What a call does to the mask of a line. -/
def PicOp.maskOf (line : ℕ) : PicOp → Option Bool
  | .setMask irq => if irq.toNat = line then some true else none
  | .clearMask irq => if irq.toNat = line then some false else none
  | .disable => some true
  | _ => none

end FanOS.Hal

import FanOS.Dma8237.Basic

/-!
# The DMA driver (`dma.c`)

There are two controllers: one at the ports from `0x00` on, one at the even ports from `0xC0` on.  The
upper byte of an address is not theirs: each channel has a page register for it, from port `0x80` on.

What the driver calls masking sets or clears the mask of a channel as bit 2 of the byte says, and for
channel 2 that bit is clear.
-/

namespace FanOS.Hal

open Dma8237 (Controller)

/-- The controllers and the page registers. -/
structure DmaState where
  dma0 : Controller
  dma1 : Controller
  page : BitVec 8 → BitVec 8

/-- The ports as a reset leaves them. -/
def afterReset : DmaState where
  dma0 := ⟨fun _ => ⟨0, 0, 0, true⟩, false, 0⟩
  dma1 := ⟨fun _ => ⟨0, 0, 0, true⟩, false, 0⟩
  page _ := 0

/-- `outb(port, b)`, at the ports of DMA. -/
def DmaState.outb (port b : BitVec 8) (s : DmaState) : DmaState :=
  if port < 0x10 then { s with dma0 := s.dma0.write (port.setWidth 4) b }
  else if 0x80 ≤ port ∧ port < 0x90 then { s with page := Function.update s.page port b }
  else if 0xC0 ≤ port ∧ port < 0xE0 then
    { s with dma1 := s.dma1.write (((port - 0xC0) >>> 1).setWidth 4) b }
  else s

/-- `FDC_DMA_CHANNEL`. -/
def fdcDmaChannel : BitVec 8 := 2

/-- `DMA_PAGE_CHAN2_ADDRBYTE2`. -/
def dmaPageChan2Addrbyte2 : BitVec 8 := 0x81

def dmaModeReadTransfer : BitVec 8 := 0x04
def dmaModeMaskAuto : BitVec 8 := 0x10
def dmaModeTransferSingle : BitVec 8 := 0x40

/-- The ports of addresses, by channel. -/
def addrRegs : List (BitVec 8) := [0x00, 0x02, 0x04, 0x06, 0xC0, 0xC4, 0xC8, 0xCC]

/-- The ports of counts, by channel. -/
def countRegs : List (BitVec 8) := [0x01, 0x03, 0x05, 0x07, 0xC2, 0xC6, 0xCA, 0xCE]

/-- `dma_set_address` and `dma_set_count`: two bytes to the port of the channel. -/
def dmaSetRegister (regs : List (BitVec 8)) (channel low high : BitVec 8) (s : DmaState) : DmaState :=
  if channel > 8 then s
  else
    let port := regs.getD channel.toNat 0
    (s.outb port low).outb port high

def dmaSetAddress : (channel low high : BitVec 8) → DmaState → DmaState := dmaSetRegister addrRegs

def dmaSetCount : (channel low high : BitVec 8) → DmaState → DmaState := dmaSetRegister countRegs

/-- `dma_mask_channel`. -/
def dmaMaskChannel (channel : BitVec 8) (s : DmaState) : DmaState :=
  if channel ≤ 4 then s.outb 0x0A (((1 : BitVec 32) <<< (channel.setWidth 32 - 1)).setWidth 8)
  else s.outb 0xD4 (((1 : BitVec 32) <<< (channel.setWidth 32 - 5)).setWidth 8)

/-- `dma_reset_flipflop`. -/
def dmaResetFlipflop (dma : BitVec 8) (s : DmaState) : DmaState :=
  if dma > 1 then s else s.outb (if dma = 0 then 0x0C else 0xD8) 0xFF

/-- `dma_reset`. -/
def dmaReset (s : DmaState) : DmaState := s.outb 0x0D 0xFF

/-- `dma_unmask_all`. -/
def dmaUnmaskAll (s : DmaState) : DmaState := s.outb 0xDC 0xFF

/-- `dma_set_mode`. -/
def dmaSetMode (channel mode : BitVec 8) (s : DmaState) : DmaState :=
  if channel > 8 then s
  else
    let dma : BitVec 8 := if channel < 4 then 0 else 1
    let dmaModeReg : BitVec 8 := if dma = 0 then 0x0B else 0xD6
    let chan := if dma = 0 then channel else channel - 4
    let s := dmaMaskChannel channel s
    let s := s.outb dmaModeReg (chan ||| mode)
    dmaUnmaskAll s

/-- `dma_set_read`. -/
def dmaSetRead (channel : BitVec 8) : DmaState → DmaState :=
  dmaSetMode channel (dmaModeReadTransfer ||| dmaModeTransferSingle ||| dmaModeMaskAuto)

/-- `dma_init_floppy`. -/
def dmaInitFloppy (buffer length : BitVec 32) (s : DmaState) : DmaState :=
  let a := buffer
  let c := length - 1
  let s := dmaReset s
  let s := dmaMaskChannel fdcDmaChannel s
  let s := dmaResetFlipflop 1 s
  let s := dmaSetAddress fdcDmaChannel (a.setWidth 8) ((a >>> 8).setWidth 8) s
  let s := dmaResetFlipflop 1 s
  let s := dmaSetCount fdcDmaChannel (c.setWidth 8) ((c >>> 8).setWidth 8) s
  dmaUnmaskAll s

end FanOS.Hal

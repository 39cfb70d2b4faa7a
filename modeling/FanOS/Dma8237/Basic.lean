import Mathlib.Data.Nat.Bitwise
import Mathlib.Logic.Function.Basic
import Mathlib.Tactic.SplitIfs

/-!
# The 8237 DMA controller

A controller has four channels and sixteen registers.  Address and count of a channel are 16 bits wide and
are written one byte at a time: the flip-flop, which all channels share and each such write turns over,
tells which byte is meant.  A channel is masked or unmasked by a register for a single channel, by one for
all of them, or by commands that clear the mask or reset the controller.

A channel transfers one byte more than its count, from its address upwards, or downwards if its mode says so;
addresses wrap round (`Channel.offsets`).  The registers for requests and for temporary data are left out.
-/

namespace FanOS.Dma8237

structure Channel where
  address : BitVec 16
  count : BitVec 16
  mode : BitVec 8
  masked : Bool

structure Controller where
  channel : BitVec 2 → Channel
  /-- The next byte of an address or a count is the high one. -/
  flipFlop : Bool
  command : BitVec 8

/-- A 16-bit register after one of its bytes has been written. -/
def putByte (high : Bool) (b : BitVec 8) (r : BitVec 16) : BitVec 16 :=
  if high then b ++ r.setWidth 8 else (r >>> 8).setWidth 8 ++ b

namespace Controller

variable (c : Controller)

/-- A channel is changed. -/
def modify (ch : BitVec 2) (f : Channel → Channel) : Controller :=
  { c with channel := Function.update c.channel ch (f (c.channel ch)) }

/-- A byte is written to a register. -/
def write (reg : BitVec 4) (b : BitVec 8) : Controller :=
  if reg < 0x8 then
    let ch : BitVec 2 := (reg >>> 1).setWidth 2
    let c := c.modify ch fun r =>
      if reg.getLsbD 0 then { r with count := putByte c.flipFlop b r.count }
      else { r with address := putByte c.flipFlop b r.address }
    { c with flipFlop := !c.flipFlop }
  else if reg = 0x8 then { c with command := b }
  -- mask of a single channel, mode
  else if reg = 0xA then c.modify (b.setWidth 2) fun r => { r with masked := b.getLsbD 2 }
  else if reg = 0xB then c.modify (b.setWidth 2) fun r => { r with mode := b }
  else if reg = 0xC then { c with flipFlop := false }
  -- master clear
  else if reg = 0xD then
    { channel ch := { c.channel ch with masked := true }
      flipFlop := false
      command := 0 }
  -- mask of all channels
  else if reg = 0xE then { c with channel := fun ch => { c.channel ch with masked := false } }
  else if reg = 0xF then { c with channel := fun ch => { c.channel ch with masked := b.getLsbD ch.toNat } }
  else c

end Controller

/-- The addresses that a channel transfers, in order. -/
def Channel.offsets (r : Channel) : List (BitVec 16) :=
  (List.range (r.count.toNat + 1)).map fun k =>
    if r.mode.getLsbD 5 then r.address - BitVec.ofNat 16 k else r.address + BitVec.ofNat 16 k

/-! ### Programming a channel -/

/-- Both bytes of a register are written, the low one first. -/
theorem putByte_putByte (low high : BitVec 8) (r : BitVec 16) :
    putByte true high (putByte false low r) = high ++ low := by
  have hlow : ((r >>> 8).setWidth 8 ++ low : BitVec 16).setWidth 8 = low := by
    rw [BitVec.setWidth_append, dif_pos (by omega), BitVec.setWidth_eq]
  exact congrArg (high ++ ·) hlow

variable {r : Channel}

/-- Upwards from its address, a channel transfers as many bytes as there are up to the end of the address
space at most. -/
theorem offsets_of_le (hmode : r.mode.getLsbD 5 = false) (hfit : r.address.toNat + r.count.toNat < 2 ^ 16) :
    r.offsets.map BitVec.toNat = List.range' r.address.toNat (r.count.toNat + 1) := by
  rw [Channel.offsets, hmode, List.map_map, List.range'_eq_map_range]
  refine List.map_congr_left fun k hk => ?_
  have hk' := List.mem_range.mp hk
  simp only [Function.comp_apply, Bool.false_eq_true, if_false, BitVec.toNat_add, BitVec.toNat_ofNat]
  omega

end FanOS.Dma8237

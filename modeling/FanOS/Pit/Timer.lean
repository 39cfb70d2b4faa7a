import FanOS.Pit.Basic
import FanOS.Pit8253.Basic
import Mathlib.Data.Int.Notation

/-!
# Setting the timer (`pit.c`)

`pit_set_channel_mode_frequency` divides the frequency of the clock by the one that is asked for, cut to 16
bits, and writes the quotient, cut to 16 bits as well, to the counter of the channel.  The division traps if
the lower half of the frequency is zero.

`sleep` beside the clock: every pulse of counter 0 requests the interrupt of the timer, which may come some
time later.  A request that has not been served yet takes up the next one.
-/

namespace FanOS.Pit

open Pit8253 (Chip Counter)

/-- `PIT_OCW_MASK_MODE`, `PIT_OCW_MASK_RL` and `PIT_OCW_MASK_CHANNEL`. -/
def pitOcwMaskMode : BitVec 8 := 0xE
def pitOcwMaskRl : BitVec 8 := 0x30
def pitOcwMaskChannel : BitVec 8 := 0xC0

/-- `PIT_OCW_MODE_RATEGEN` and `PIT_OCW_RL_DATA`. -/
def pitOcwModeRategen : BitVec 8 := 0x4
def pitOcwRlData : BitVec 8 := 0x30

/-- `PIT_OCW_CHANNEL_0` and so on. -/
def pitOcwChannel (channel : BitVec 8) : BitVec 8 :=
  if channel = 0 then 0 else if channel = 1 then 0x40 else 0x80

/-- The timer, and the static variable of `pit.c`. -/
structure Timer where
  chip : Chip
  pitTicks : BitVec 32

/-- `outb(PIT_CHANNEL_0 + port, b)`; `PIT_CMD` is the port behind the channels. -/
def outb (port : BitVec 8) (b : BitVec 8) (s : Timer) : Timer :=
  { s with chip := s.chip.write (port.setWidth 2) b }

/-- `pit_set_channel_mode_frequency`, if the division does not trap. -/
def pitSetChannelModeFrequency (channel : BitVec 8) (freq : BitVec 32) (mode : BitVec 8) (s : Timer) :
    Option Timer :=
  if channel > 2 ∨ freq = 0 then some s
  else
    let freq : BitVec 16 := freq.setWidth 16
    if freq = 0 then none
    else
      let divisor : BitVec 16 := ((1193181 : BitVec 32) / freq.setWidth 32).setWidth 16
      let cmd : BitVec 8 := 0
      let cmd := cmd &&& ~~~pitOcwMaskChannel ||| pitOcwChannel channel
      let cmd := cmd &&& ~~~pitOcwMaskMode ||| mode
      let cmd := cmd &&& ~~~pitOcwMaskRl ||| pitOcwRlData
      let s := outb 3 cmd s
      let s := outb channel (divisor.setWidth 8) s
      let s := outb channel ((divisor >>> 8).setWidth 8) s
      some { s with pitTicks := 0 }

/-! ### What it should do -/

/-- The counter of the channel counts down from the quotient, in that mode; the other counters are as they
were, and the ticks are counted anew. -/
structure IsSet (channel : BitVec 8) (freq : BitVec 32) (mode : BitVec 8) (s s' : Timer) : Prop where
  access : (s'.chip.counter (channel.setWidth 2)).access = 3
  bcd : (s'.chip.counter (channel.setWidth 2)).bcd = mode.getLsbD 0
  reload : (s'.chip.counter (channel.setWidth 2)).reload.toNat = 1193181 / freq.toNat
  high : (s'.chip.counter (channel.setWidth 2)).high = false
  count : (s'.chip.counter (channel.setWidth 2)).count = some (s'.chip.counter (channel.setWidth 2)).period
  others : ∀ ch ≠ channel.setWidth 2, s'.chip.counter ch = s.chip.counter ch
  pitTicks : s'.pitTicks = 0
  mode : (s'.chip.counter (channel.setWidth 2)).mode = (mode >>> 1).setWidth 3

/-- The channel is set, whatever the timer was like before. -/
def Sets (channel : BitVec 8) (freq : BitVec 32) (mode : BitVec 8) : Prop :=
  ∀ s, ∃ s', pitSetChannelModeFrequency channel freq mode s = some s' ∧ IsSet channel freq mode s s'

/-! ### `sleep` beside the clock -/

structure Clocked where
  sleep : Sleep
  counter : Counter
  /-- The interrupt has been requested. -/
  pending : Bool
  /-- The clocks since `sleep` was called. -/
  clocks : ℕ

inductive ClockEvent
  /-- A clock of the timer. -/
  | clock
  /-- The interrupt comes. -/
  | irq
  /-- A step of `sleep`. -/
  | sleep

namespace Clocked

variable (s : Clocked)

def clock : Clocked :=
  { s with
    counter := s.counter.clock.1
    pending := s.pending || s.counter.clock.2
    clocks := s.clocks + 1 }

def irq : Clocked :=
  if s.pending then { s with sleep := timerIrq0Handler s.sleep, pending := false } else s

def next (ms : BitVec 32) : ClockEvent → Clocked
  | .clock => s.clock
  | .irq => s.irq
  | .sleep => { s with sleep := sleepStep ms s.sleep }

end Clocked

/-- Runs of `sleep(ms)`, called when the counter of ticks is `count`, and that of the timer is `counter`. -/
def clockedSystem (ms count : BitVec 32) (counter : Counter) (pending : Bool) :
    System Clocked ClockEvent where
  init s := s = ⟨⟨count, .start, 0⟩, counter, pending, 0⟩
  step s e s' := s' = s.next ms e

end FanOS.Pit

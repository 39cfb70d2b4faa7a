import FanOS.Transition.Basic
import Mathlib.Data.Nat.Notation

/-!
# The timer (`pit.c`)

The handler of the timer counts its interrupts in `pit_ticks`.  `sleep` reads the counter once, adds the
delay to it, and polls the counter until it has come to the sum.  Both are 32 bits wide.

An interrupt may come between any two statements of `sleep`.  Beside it run the interrupts since the call.
-/

namespace FanOS.Pit

/-- The statement of `sleep` that comes next. -/
inductive Place
  /-- `ticks = ms + get_tick_count()`. -/
  | start
  /-- `while (ticks > get_tick_count())`. -/
  | poll (ticks : BitVec 32)
  | returned
  deriving DecidableEq

structure Sleep where
  pitTicks : BitVec 32
  place : Place
  /-- The interrupts since `sleep` was called. -/
  irqs : ℕ

/-- `get_tick_count`. -/
def getTickCount (s : Sleep) : BitVec 32 := s.pitTicks

/-- `timer_irq0_handler`. -/
def timerIrq0Handler (s : Sleep) : Sleep := { s with pitTicks := s.pitTicks + 1, irqs := s.irqs + 1 }

/-- The next statement of `sleep`. -/
def sleepStep (ms : BitVec 32) (s : Sleep) : Sleep :=
  match s.place with
  | .start => { s with place := .poll (ms + getTickCount s) }
  | .poll ticks => if ticks > getTickCount s then s else { s with place := .returned }
  | .returned => s

/-- An interrupt, or a step of `sleep`. -/
inductive Event
  | irq
  | sleep

def Sleep.next (ms : BitVec 32) (s : Sleep) : Event → Sleep
  | .irq => timerIrq0Handler s
  | .sleep => sleepStep ms s

/-- Runs of `sleep(ms)`, called when the counter is `count`. -/
def sleepSystem (ms count : BitVec 32) : System Sleep Event where
  init s := s = ⟨count, .start, 0⟩
  step s e s' := s' = s.next ms e

/-- At least `ms` interrupts come before `sleep(ms)` returns. -/
def NeverEarly (ms count : BitVec 32) : Prop :=
  ∀ s, (sleepSystem ms count).Reachable s → s.place = .returned → ms.toNat ≤ s.irqs

end FanOS.Pit

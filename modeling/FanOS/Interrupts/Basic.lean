import FanOS.Hal.Init
import FanOS.Transition.Basic

/-!
# Interrupts

The kernel after `setup_interrupt_handlers`: the two controllers, the processor's interrupt flag, the handlers
that are running, and what the devices and user programs do in between.  A handler runs statement by
statement; every gate of a device is an interrupt gate, so the processor clears the flag on the way in and
`iret` brings it back.

The handlers of the devices do something and send the end of the interrupt.  `default_int_handler` prints a
message and calls `sleep(200)`; it is meant for interrupts that have no handler, and the only such one is
that which a controller reports when a line no longer asks.  What the handler of the keyboard reads is not
followed here, nor what it prints.
-/

namespace FanOS.Interrupts

open Hal Pic8259

/-- The statement of a handler that comes next. -/
inductive Place
  /-- What is done for the device; in `default_int_handler` the message and the start of `sleep(200)`. -/
  | body
  /-- `send_pic_eoi`. -/
  | eoi
  /-- `while (ticks > get_tick_count())`, in `sleep`. -/
  | poll (ticks : BitVec 32)
  | iret
  deriving DecidableEq

/-- A handler that was entered and has not returned. -/
structure Frame where
  handler : Handler
  place : Place
  /-- The interrupt flag that `iret` brings back. -/
  savedIf : Bool
  deriving DecidableEq

/-- The line that a handler is for. -/
def lineOf : Handler → Option ℕ
  | .timerIrq0 => some 0
  | .keyboardIrq1 => some 1
  | .fdIrq6 => some 6
  | _ => none

structure Machine where
  pic : Pair
  /-- The interrupt flag. -/
  ifl : Bool
  /-- The innermost one comes first. -/
  frames : List Frame
  pitTicks : BitVec 32
  fdIrq6Stat : BitVec 8
  /-- How often a line has asked for an interrupt, -/
  raised : ℕ → ℕ
  /-- how often of these it was asking already, -/
  merged : ℕ → ℕ
  /-- and how often its interrupt was taken. -/
  taken : ℕ → ℕ

namespace Machine

variable (s : Machine)

/-- A device asks for an interrupt. -/
def raise (line : ℕ) : Machine :=
  { s with
    pic := s.pic.raise line
    raised := Function.update s.raised line (s.raised line + 1)
    merged :=
      if s.pic.master.irr.getLsbD line then Function.update s.merged line (s.merged line + 1) else s.merged }

/-- The processor reads a vector and enters the handler there. -/
def enter (v : ℕ) : Machine :=
  { s with frames := ⟨handlerAt v, .body, s.ifl⟩ :: s.frames, ifl := false }

/-- The processor takes the interrupt of a line. -/
def take (line : ℕ) : Machine :=
  let (v, pic) := s.pic.acknowledge
  { s with pic := pic, taken := Function.update s.taken line (s.taken line + 1) }.enter v.toNat

/-- The next statement of the innermost handler. -/
def runFrame (f : Frame) (rest : List Frame) : Machine :=
  match f.place with
  | .body =>
    match f.handler with
    | .timerIrq0 => { s with pitTicks := s.pitTicks + 1, frames := { f with place := .eoi } :: rest }
    | .fdIrq6 => { s with fdIrq6Stat := 1, frames := { f with place := .eoi } :: rest }
    | .keyboardIrq1 => { s with frames := { f with place := .eoi } :: rest }
    | _ => { s with frames := { f with place := .poll (200 + s.pitTicks) } :: rest }
  | .eoi =>
    { s with
      pic := sendPicEoi (BitVec.ofNat 8 ((lineOf f.handler).getD 0)) s.pic
      frames := { f with place := .iret } :: rest }
  | .poll ticks => if ticks > s.pitTicks then s else { s with frames := { f with place := .iret } :: rest }
  | .iret => { s with frames := rest, ifl := f.savedIf }

end Machine

/-- What happens next. -/
inductive Event
  /-- A device asks; line 2 is that of the second controller. -/
  | raise (line : ℕ)
  /-- The processor takes an interrupt. -/
  | take
  /-- The processor takes one whose line no longer asks. -/
  | spurious
  /-- A handler of a device, or `default_int_handler`, goes on. -/
  | handler
  /-- A user program executes `int 0x80`. -/
  | syscall
  /-- The system call returns. -/
  | sysret
  /-- `cli` or `sti`, in the kernel but not in a handler, as `flush_tlb_entry` does. -/
  | setIf (b : Bool)
  deriving DecidableEq

/-- The innermost handler, if it is not that of the system calls. -/
def Machine.deviceFrame (s : Machine) : Option (Frame × List Frame) :=
  match s.frames with
  | f :: rest => if f.handler = .syscallDispatcher then none else some (f, rest)
  | [] => none

/-- The state after an event, if it can happen. -/
def Machine.next (s : Machine) : Event → Option Machine
  | .raise line => if line < 16 ∧ line ≠ 2 then some (s.raise line) else none
  | .take => if s.ifl then s.pic.request.map s.take else none
  | .spurious =>
    if s.ifl ∧ s.pic.request = none then some (s.enter s.pic.acknowledge.1.toNat) else none
  | .handler => s.deviceFrame.map fun (f, rest) => s.runFrame f rest
  | .syscall => if s.frames = [] then some (s.enter 0x80) else none
  | .sysret =>
    match s.frames with
    | f :: rest => if f.handler = .syscallDispatcher then some { s with frames := rest, ifl := f.savedIf }
      else none
    | [] => none
  | .setIf b => if s.deviceFrame = none then some { s with ifl := b } else none

/-- Runs from the end of `setup_interrupt_handlers` on, of a kernel that found no line being served. -/
def interrupts : System Machine Event where
  init s := ∃ address tss processor, Ready processor.pic ∧ processor.pic.master.isr = 0 ∧
    processor.pic.slave.isr = 0 ∧
    s = { pic := (setupInterruptHandlers address (halInit address tss processor)).pic
          ifl := true
          frames := []
          pitTicks := 0
          fdIrq6Stat := 0
          raised := fun _ => 0
          merged := fun _ => 0
          taken := fun _ => 0 }
  step s e s' := s.next e = some s'

end FanOS.Interrupts

import FanOS.Hal.Equiv.Descriptors
import FanOS.Hal.Pic
import FanOS.Hal.Tss

/-!
# Setting up the processor (`gdt_init`, `idt_init`, `hal_init`, `setup_interrupt_handlers`)

`kmain` fills the descriptor tables and initializes the interrupt controllers, and then puts its own handlers
into the table.  Where a handler lies is not known before the kernel is linked: `address` says it.

`handlerAt` and `flagsAt` are what should come of it, a handler and its kind of gate for each vector.
-/

namespace FanOS.Hal

open Ia32 Pic8259

/-! ### `gdt_init` -/

/-- `GDT_DESC_READWRITE`. -/
def gdtDescReadwrite : BitVec 8 := 0x02

/-- `GDT_DESC_CODEDATA`. -/
def gdtDescCodedata : BitVec 8 := 0x10

/-- `GDT_GRAND_LIMITHI_MASK`. -/
def gdtGrandLimithiMask : BitVec 8 := 0x0F

/-- `GDT_GRAND_32BIT`. -/
def gdtGrand32bit : BitVec 8 := 0x40

/-- `GDT_GRAND_4K`. -/
def gdtGrand4k : BitVec 8 := 0x80

/-- The calls of `gdt_init`. -/
def gdtInitCalls : List DescriptorCall :=
  let defaultCodeSegAccess := gdtDescReadwrite ||| gdtDescExecCode ||| gdtDescCodedata ||| gdtDescMemory
  let defaultDataSegAccess := gdtDescReadwrite ||| gdtDescCodedata ||| gdtDescMemory
  let userCodeSegAccess :=
    gdtDescReadwrite ||| gdtDescExecCode ||| gdtDescCodedata ||| gdtDescMemory ||| gdtDescDpl
  let userDataSegAccess := gdtDescReadwrite ||| gdtDescCodedata ||| gdtDescMemory ||| gdtDescDpl
  let grand := gdtGrand4k ||| gdtGrand32bit ||| gdtGrandLimithiMask
  [.segment 0 0 0 0 0,
    .segment 1 0 0xFFFFFFFF defaultCodeSegAccess grand,
    .segment 2 0 0xFFFFFFFF defaultDataSegAccess grand,
    .segment 3 0 0xFFFFFFFF userCodeSegAccess grand,
    .segment 4 0 0xFFFFFFFF userDataSegAccess grand]

/-! ### `idt_init` -/

/-- The functions that entries of the interrupt descriptor table name. -/
inductive Handler
  | defaultExcp
  | defaultExcpErrCode
  | defaultInt
  | pageFault
  | syscallDispatcher
  | timerIrq0
  | keyboardIrq1
  | fdIrq6
  deriving DecidableEq

/-- `TRAP_GATE_FLAGS`. -/
def trapGateFlags : BitVec 16 := 0x8F

/-- `INT_GATE_FLAGS`. -/
def intGateFlags : BitVec 16 := 0x8E

/-- `INT_GATE_USER_FLAGS`. -/
def intGateUserFlags : BitVec 16 := 0xEE

/-- The vectors whose handler `idt_init` takes to have an error code. -/
def errCodeVectors : List ℕ := [8, 10, 11, 12, 13, 14, 17, 21]

section

variable (address : Handler → BitVec 32)

/-- The two loops of `idt_init`. -/
def idtInitCalls : List DescriptorCall :=
  ((List.range 32).map fun entry =>
      .gate (BitVec.ofNat 32 entry)
        (address (if entry ∈ errCodeVectors then .defaultExcpErrCode else .defaultExcp)) trapGateFlags) ++
    (List.range' 32 224).map fun entry =>
      .gate (BitVec.ofNat 32 entry) (address .defaultInt) intGateFlags

/-- `memset` in `idt_init`: the table but for its last byte. -/
def clearIdt (idt : Idt) : Idt := fun i =>
  if i < 255 then ⟨0, 0, 0, 0, 0⟩
  else if i = 255 then ⟨0, 0, 0, 0, (idt 255).baseHigh &&& 0xFF00⟩
  else idt i

/-- The calls of `setup_interrupt_handlers`. -/
def setupCalls : List DescriptorCall :=
  [.gate 14 (address .pageFault) trapGateFlags,
    .gate 0x80 (address .syscallDispatcher) intGateUserFlags,
    .gate 0x20 (address .timerIrq0) intGateFlags,
    .gate 0x21 (address .keyboardIrq1) intGateFlags,
    .gate 0x26 (address .fdIrq6) intGateFlags]

/-! ### `hal_init` and `setup_interrupt_handlers` -/

/-- The tables and the interrupt controllers. -/
structure Processor where
  tables : DescriptorTables
  tss : TssEntry
  tr : BitVec 16
  pic : Pair

/-- `gdt_init` and `idt_init`. -/
def initTables (t : DescriptorTables) : DescriptorTables :=
  let t := gdtInitCalls.foldl DescriptorCall.run t
  (idtInitCalls address).foldl DescriptorCall.run { t with idt := clearIdt t.idt }

/-- `hal_init`, where the task state segment is at `tss`. -/
def halInit (tss : BitVec 32) (s : Processor) : Processor :=
  let tables := initTables address s.tables
  let pic := picInit (disablePic s.pic)
  let t := tssInit tss 5 0x10 0 ⟨tables.gdt, s.tss, s.tr⟩
  { tables := { tables with gdt := t.gdt }, tss := t.tss, tr := t.tr, pic := pic }

/-- `setup_interrupt_handlers`, without the timer. -/
def setupInterruptHandlers (s : Processor) : Processor :=
  { s with
    tables := (setupCalls address).foldl DescriptorCall.run s.tables
    pic := clearIrqMask 6 (clearIrqMask 2 (clearIrqMask 1 (clearIrqMask 0 s.pic))) }

end

/-! ### What should come of it -/

/-- The handler of a vector. -/
def handlerAt (v : ℕ) : Handler :=
  if v = 14 then .pageFault
  else if v < 32 then if v ∈ errCodeVectors then .defaultExcpErrCode else .defaultExcp
  else if v = 0x20 then .timerIrq0
  else if v = 0x21 then .keyboardIrq1
  else if v = 0x26 then .fdIrq6
  else if v = 0x80 then .syscallDispatcher
  else .defaultInt

/-- Its kind of gate. -/
def flagsAt (v : ℕ) : BitVec 8 := if v < 32 then 0x8F else if v = 0x80 then 0xEE else 0x8E

end FanOS.Hal

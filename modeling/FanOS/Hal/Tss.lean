import FanOS.Hal.Gdt

/-!
# The task state segment (`tss.c`)

The processor takes the stack of the kernel from the task state segment when it leaves user mode.
`tss_init` describes the segment in the global descriptor table, clears it and sets its selectors;
`tss_set_stack` sets the stack.  `kmain` calls them one after the other.
-/

namespace FanOS.Hal

/-- `tss_entry_t`. -/
structure TssEntry where
  prevTss : BitVec 32 := 0
  esp0 : BitVec 32 := 0
  ss0 : BitVec 32 := 0
  esp1 : BitVec 32 := 0
  ss1 : BitVec 32 := 0
  esp2 : BitVec 32 := 0
  ss2 : BitVec 32 := 0
  cr3 : BitVec 32 := 0
  eip : BitVec 32 := 0
  eflags : BitVec 32 := 0
  eax : BitVec 32 := 0
  ecx : BitVec 32 := 0
  edx : BitVec 32 := 0
  ebx : BitVec 32 := 0
  esp : BitVec 32 := 0
  ebp : BitVec 32 := 0
  esi : BitVec 32 := 0
  edi : BitVec 32 := 0
  es : BitVec 32 := 0
  cs : BitVec 32 := 0
  ss : BitVec 32 := 0
  ds : BitVec 32 := 0
  fs : BitVec 32 := 0
  gs : BitVec 32 := 0
  ldt : BitVec 32 := 0
  trap : BitVec 16 := 0
  iomap : BitVec 16 := 0
  deriving DecidableEq

/-- `sizeof(tss_entry_t)`: 25 words and two halves. -/
def sizeofTssEntry : BitVec 32 := 25 * 4 + 2 * 2

/-- The table, the segment, and the task register. -/
structure Tables where
  gdt : Gdt
  tss : TssEntry
  tr : BitVec 16

/-- `tss_set_stack`. -/
def tssSetStack (kernelSs kernelEsp : BitVec 16) (s : Tables) : Tables :=
  { s with tss := { s.tss with ss0 := kernelSs.setWidth 32, esp0 := kernelEsp.setWidth 32 } }

/-- `flush_tss`.  That `ltr` also marks the descriptor as busy is left out. -/
def flushTss (sel : BitVec 16) (s : Tables) : Tables := { s with tr := sel }

/-- `tss_init`, where the segment is at `address`. -/
def tssInit (address idx : BitVec 32) (kernelSs kernelEsp : BitVec 16) (s : Tables) : Tables :=
  let base := address
  let access := gdtDescAccess ||| gdtDescExecCode ||| gdtDescMemory ||| gdtDescDpl
  let s := { s with
    gdt := gdtSetDescriptor idx (base.setWidth 64) ((base + sizeofTssEntry).setWidth 64) access 0 s.gdt }
  -- the other fields are cleared
  let s := { s with
    tss := {
      ss0 := kernelSs.setWidth 32
      esp0 := kernelEsp.setWidth 32
      cs := 0x0B
      ss := 0x13
      es := 0x13
      ds := 0x13
      fs := 0x13
      gs := 0x13 } }
  flushTss ((idx * sizeofGdtDescriptor ||| 3).setWidth 16) s

/-- The calls of `kmain`, with the stack pointer `stack`. -/
def kmainTss (address stack : BitVec 32) (s : Tables) : Tables :=
  tssSetStack 0x10 (stack.setWidth 16) (tssInit address 5 0x10 0 s)

end FanOS.Hal

import FanOS.Memory.Bytes
import Mathlib.Logic.Function.Basic

/-!
# The system call dispatcher (`syscall.c`, `syscall.h`)

`syscall_dispatcher` is the handler of `int 0x80`, written in assembly.  It compares the number in `EAX`
with its own limit, pushes the registers so that they form a `syscall_regs_t`, calls the function from
`syscalls[]`, pops the registers again but for `EDX` and `EAX`, and returns with `iretd`.

The dispatcher is its list of instructions.  A function of `syscalls[]` is what it makes of the machine;
one that does not return has no result.  `push` of a segment register writes a word with the selector in
its lower half; whether the upper half is cleared depends on the processor.
-/

namespace FanOS

/-- The registers that the dispatcher uses. -/
inductive Reg
  | eax | ebx | ecx | edx | esi | edi | ebp | esp
  deriving DecidableEq

/-- The segment registers that it uses. -/
inductive Seg
  | ds | es | fs | gs
  deriving DecidableEq

/-- Registers and memory. -/
structure Machine where
  reg : Reg → BitVec 32
  seg : Seg → BitVec 16
  mem : Mem

namespace Syscall

/-- `MAX_SYSCALLS` of `syscall.h`, the length of `syscalls[]`. -/
def maxSyscalls : ℕ := 5

/-- `MAX_SYSCALLS` of the inline assembly. -/
def maxSyscallsAsm : BitVec 32 := 4

/-- `syscall_regs_t`. -/
structure SyscallRegs where
  esp : BitVec 32
  ebx : BitVec 32
  ecx : BitVec 32
  edx : BitVec 32
  esi : BitVec 32
  edi : BitVec 32
  ebp : BitVec 32
  ds : BitVec 32
  es : BitVec 32
  fs : BitVec 32
  gs : BitVec 32
  eax : BitVec 32
  deriving DecidableEq

/-- The structure at `a`. -/
def syscallRegsAt (m : Mem) (a : BitVec 32) : SyscallRegs where
  esp := m.load32 a
  ebx := m.load32 (a + 4)
  ecx := m.load32 (a + 8)
  edx := m.load32 (a + 12)
  esi := m.load32 (a + 16)
  edi := m.load32 (a + 20)
  ebp := m.load32 (a + 24)
  ds := m.load32 (a + 28)
  es := m.load32 (a + 32)
  fs := m.load32 (a + 36)
  gs := m.load32 (a + 40)
  eax := m.load32 (a + 44)

/-! ### The instructions -/

/-- The instructions of the dispatcher. -/
inductive Instr
  | push (r : Reg)
  | pushSeg (s : Seg)
  | pop (r : Reg)
  | popSeg (s : Seg)
  | addEsp (n : BitVec 32)
  | movEax (n : BitVec 32)
  /-- `call [syscalls+eax*4]`. -/
  | callSyscalls

/-- What the dispatcher runs on: the processor and the functions of `syscalls[]`. -/
structure Env where
  /-- `push` of a segment register clears the upper half of the word. -/
  clears : Bool
  /-- The address behind the `call`. -/
  returnAddr : BitVec 32
  /-- What the function whose address is at `syscalls+i*4` makes of the machine, if it returns. -/
  syscalls : BitVec 32 → Machine → Option Machine

/-- Push the word `w`. -/
def push (m : Machine) (w : BitVec 32) : Machine where
  reg := Function.update m.reg .esp (m.reg .esp - 4)
  seg := m.seg
  mem := m.mem.store32 (m.reg .esp - 4) w

/-- The word that a `push` of the selector `s` leaves in place of the word `old`. -/
def segWord (clears : Bool) (s : BitVec 16) (old : BitVec 32) : BitVec 32 :=
  (if clears then 0 else old.extractLsb' 16 16) ++ s

/-- The word on top of the stack. -/
def top (m : Machine) : BitVec 32 := m.mem.load32 (m.reg .esp)

/-- Add to the stack pointer. -/
def addEsp (m : Machine) (n : BitVec 32) : Machine :=
  { m with reg := Function.update m.reg .esp (m.reg .esp + n) }

/-- An instruction other than the call. -/
def exec (env : Env) (m : Machine) : Instr → Machine
  | .push r => push m (m.reg r)
  | .pushSeg s => push m (segWord env.clears (m.seg s) (m.mem.load32 (m.reg .esp - 4)))
  | .pop r => { addEsp m 4 with reg := Function.update (addEsp m 4).reg r (top m) }
  | .popSeg s => { addEsp m 4 with seg := Function.update m.seg s ((top m).setWidth 16) }
  | .addEsp n => addEsp m n
  | .movEax n => { m with reg := Function.update m.reg .eax n }
  | .callSyscalls => m

/-- What a run of the dispatcher does: the entries of `syscalls[]` that it calls with what they are
given, and the machine at the `iretd` if it comes to that. -/
structure Outcome where
  calls : List (BitVec 32 × SyscallRegs)
  atIretd : Option Machine

/-- Run the instructions up to the `iretd` behind them. -/
def run (env : Env) : List Instr → Machine → Outcome
  | [], m => ⟨[], some m⟩
  | .callSyscalls :: rest, m =>
    let called := push m env.returnAddr
    let call := (m.reg .eax, syscallRegsAt called.mem (called.reg .esp + 4))
    match env.syscalls (m.reg .eax) called with
    | none => ⟨[call], none⟩
    | some m =>
      let outcome := run env rest m
      ⟨call :: outcome.calls, outcome.atIretd⟩
  | i :: rest, m => run env rest (exec env m i)

/-! ### The dispatcher -/

/-- The instructions up to the call. -/
def pushes : List Instr :=
  [.push .eax, .pushSeg .gs, .pushSeg .fs, .pushSeg .es, .pushSeg .ds, .push .ebp, .push .edi, .push .esi,
    .push .edx, .push .ecx, .push .ebx, .push .esp]

/-- The instructions from the call to the `iretd`. -/
def pops : List Instr :=
  [.addEsp 4, .pop .ebx, .pop .ecx, .addEsp 4, .pop .esi, .pop .edi, .pop .ebp, .popSeg .ds, .popSeg .es,
    .popSeg .fs, .popSeg .gs, .addEsp 4]

/-- The instructions from `invalid_syscall` on. -/
def invalidSyscall : List Instr := [.movEax (-1)]

/-- `syscall_dispatcher`; the jump is `ja`, which compares without sign. -/
def syscallDispatcher (env : Env) (m : Machine) : Outcome :=
  if m.reg .eax > maxSyscallsAsm - 1 then run env invalidSyscall m
  else run env (pushes ++ .callSyscalls :: pops) m

end Syscall

end FanOS

import FanOS.Hal.Init
import FanOS.Ia32.Privilege
import FanOS.LastWrite.Basic
import FanOS.Syscall.Basic

/-!
# User mode (`user.asm`, `stdlib.c`, the end of `kmain`)

`kmain` reads its stack pointer, hands it to `tss_set_stack` and jumps to `userspace` in ring 3, with the
stack that it has itself.  From then on the processor comes back to ring 0 for interrupts and for `int 0x80`,
on the stack that the task state segment names.

What a handler does to memory is a parameter of the interrupt, and the functions of `syscalls[]` are those of
the dispatcher's `Env`.
-/

namespace FanOS.Userspace

open Hal Ia32 Syscall

/-- The processor. -/
structure Cpu where
  machine : Machine
  eip : BitVec 32
  cs : BitVec 16
  eflags : BitVec 32
  ss : BitVec 16

namespace Cpu

variable (c : Cpu)

/-- What an interrupt saves of it. -/
def context : Context := ⟨c.eip, c.cs, c.eflags, c.machine.reg .esp, c.ss⟩

/-- Another context is loaded. -/
def load (ctx : Context) : Cpu where
  machine := { c.machine with reg := Function.update c.machine.reg .esp ctx.esp }
  eip := ctx.eip
  cs := ctx.cs
  eflags := ctx.eflags
  ss := ctx.ss

/-- `iret`, in ring 0. -/
def iret : Cpu := c.load (c.context.iret c.machine.mem)

/-- `push`. -/
def push (w : BitVec 32) : Cpu := { c with machine := Syscall.push c.machine w }

/-- `ret`. -/
def ret : Cpu := { c with machine := addEsp c.machine 4, eip := top c.machine }

end Cpu

/-! ### The way to user mode -/

/-- `kmain` from `hal_init` to `tss_set_stack`, where the segment is at `tss` and the stack pointer is
`stack`. -/
def kmainRings (address : Handler → BitVec 32) (tss stack : BitVec 32) (s : Processor) : Processor :=
  let s := setupInterruptHandlers address (halInit address tss s)
  let t := tssSetStack 0x10 (stack.setWidth 16) ⟨s.tables.gdt, s.tss, s.tr⟩
  { s with tss := t.tss }

/-- `jmp_userspace`, where `userspace` is the address of the function. -/
def jmpUserspace (userspace : BitVec 32) (c : Cpu) : Cpu :=
  -- cli
  let c := { c with eflags := c.eflags &&& ~~~0x200 }
  -- mov ax, 0x23 and the segment registers
  let eax := (c.machine.reg .eax).extractLsb' 16 16 ++ (0x23 : BitVec 16)
  let c := { c with
    machine := { c.machine with reg := Function.update c.machine.reg .eax eax, seg := fun _ => 0x23 } }
  let c := c.push 0x23
  let c := c.push (c.machine.reg .esp)
  -- pushf, pop eax, or eax, 0x200, push eax
  let eax := c.eflags &&& 0x00FCFFFF ||| 0x200
  let c := { c with machine := { c.machine with reg := Function.update c.machine.reg .eax eax } }
  let c := c.push eax
  let c := c.push 0x1B
  let c := c.push userspace
  c.iret

/-! ### The way back -/

/-- The stack that the processor finds in the task state segment, if this is long enough to have one. -/
def ringStack (p : Processor) : Option (BitVec 16 × BitVec 32) :=
  if 9 ≤ (p.tables.gdt (selectorIndex p.tr)).segment.limit.toNat then
    some (p.tss.ss0.setWidth 16, p.tss.esp0)
  else none

namespace Cpu

variable (p : Processor) (env : Env) (c : Cpu)

/-- The processor goes through the gate of a vector into ring 0. -/
def interrupt (v : ℕ) : Option Cpu :=
  (ringStack p).map fun (ss0, esp0) =>
    let (ctx, mem) := c.context.enter (p.tables.gate v) ss0 esp0 c.machine.mem
    { c with machine := { c.machine with mem := mem } }.load ctx

/-- An interrupt whose handler does `handler` to memory and gives the registers back. -/
def interrupted (v : ℕ) (handler : Mem → Mem) : Option Cpu :=
  (c.interrupt p v).map fun c => { c with machine := { c.machine with mem := handler c.machine.mem } }.iret

/-- `int 0x80`, if the gate may be used and the function of `syscalls[]` returns. -/
def int80 : Option Cpu :=
  if (p.tables.gate 0x80).Admits (selectorRpl c.cs) then do
    let c ← c.interrupt p 0x80
    let m ← (syscallDispatcher env c.machine).atIretd
    return { c with machine := m }.iret
  else none

end Cpu

/-! ### A user program -/

/-- What a program sets by its instructions. -/
structure Registers where
  reg : Reg → BitVec 32
  seg : Seg → BitVec 16
  eip : BitVec 32
  eflags : BitVec 32

inductive Event
  /-- The program stores a byte. -/
  | store (a : BitVec 32) (b : BitVec 8)
  /-- It sets its registers. -/
  | move (r : Registers)
  | interrupt (v : ℕ) (handler : Mem → Mem)
  | int80

def step (p : Processor) (env : Env) (c : Cpu) : Event → Option Cpu
  | .store a b => some { c with machine := { c.machine with mem := c.machine.mem.store8 a b } }
  | .move r => some { c with machine := ⟨r.reg, r.seg, c.machine.mem⟩, eip := r.eip, eflags := r.eflags }
  | .interrupt v handler => c.interrupted p v handler
  | .int80 => c.int80 p env

/-! ### `stdlib.c` -/

/-- `int $0x80` with the number of the call in `EAX` and its argument in `EBX`. -/
def libraryCall (p : Processor) (env : Env) (number arg : BitVec 32) (c : Cpu) : Option Cpu :=
  let reg := Function.update (Function.update c.machine.reg .eax number) .ebx arg
  { c with machine := { c.machine with reg := reg } }.int80 p env

/-- `malloc`: the pointer is left in `EDX`. -/
def malloc (p : Processor) (env : Env) (size : BitVec 32) (c : Cpu) : Option (BitVec 32 × Cpu) :=
  (libraryCall p env 2 size c).map fun c => (c.machine.reg .edx, c)

/-- `free`. -/
def free (p : Processor) (env : Env) (ptr : BitVec 32) (c : Cpu) : Option Cpu := libraryCall p env 3 ptr c

/-- `exit`. -/
def exit (p : Processor) (env : Env) (status : BitVec 32) (c : Cpu) : Option Cpu :=
  libraryCall p env 4 status c

/-! ### What should come of it -/

/-- What no call changes: all registers but `EAX` and `EDX`. -/
structure Kept where
  context : Context
  reg : Reg → BitVec 32
  seg : Seg → BitVec 16

def Cpu.kept (c : Cpu) : Kept where
  context := c.context
  reg r := if r = .eax ∨ r = .edx then 0 else c.machine.reg r
  seg := c.machine.seg

/-- What an event sets of it. -/
def Event.kept : Event → Option Kept
  | .move r => some {
      context := ⟨r.eip, 0x1B, r.eflags, r.reg .esp, 0x23⟩
      reg := fun i => if i = .eax ∨ i = .edx then 0 else r.reg i
      seg := r.seg }
  | _ => none

/-- What an event puts at an address. -/
def Event.storeAt (x : BitVec 32) : Event → Option (BitVec 8)
  | .store a b => if a = x then some b else none
  | _ => none

/-- The `n` bytes below `top` are the program's stack, and the kernel may use `k` bytes below `esp0`. -/
structure Stacks where
  top : BitVec 32
  n : ℕ
  esp0 : BitVec 32
  k : ℕ

/-- A handler changes the stack of the kernel below the words of `iret`, and what is neither these words nor
the stack of the program. -/
def Event.Within (w : Stacks) : Event → Prop
  | .interrupt v handler => 32 ≤ v ∧ v < 256 ∧ ∀ m a, handler m a ≠ m a →
      Mem.Below (w.esp0 - 20) (w.k - 20) a ∨ ¬Mem.Below w.top w.n a ∧ ¬Mem.Below w.esp0 20 a
  | _ => True

/-- So do the functions of `syscalls[]`, below their arguments; and they return behind their call. -/
structure EnvWithin (env : Env) (w : Stacks) : Prop where
  esp : ∀ i m m', env.syscalls i m = some m' → m'.reg .esp = m.reg .esp + 4
  mem : ∀ i m m', env.syscalls i m = some m' → m.reg .esp = w.esp0 - 72 → ∀ a, m'.mem a ≠ m.mem a →
    Mem.Below (w.esp0 - 68) (w.k - 68) a ∨ ¬Mem.Below w.top w.n a ∧ ¬Mem.Below w.esp0 68 a

/-- The program goes on behind a call of the C library, with the argument still in `EBX`. -/
structure Answered (w : Stacks) (c : Cpu) (arg : BitVec 32) (c' : Cpu) : Prop where
  kept : c'.kept = { c.kept with reg := Function.update c.kept.reg .ebx arg }
  stack : ∀ a, Mem.Below w.top w.n a → c'.machine.mem a = c.machine.mem a

/-- A run of the program with interrupts and system calls in between. -/
def Run (p : Processor) (env : Env) (w : Stacks) (c₀ : Cpu) (es : List Event) (c : Cpu) : Prop :=
  (∀ e ∈ es, e.Within w) ∧ es.foldlM (step p env) c₀ = some c

/-- The program does not notice the kernel: interrupts always come back, its registers are as it has set them,
and so is its stack. -/
structure Transparent (p : Processor) (env : Env) (w : Stacks) (c₀ : Cpu) : Prop where
  returns : ∀ es c, Run p env w c₀ es c → ∀ v handler, (Event.interrupt v handler).Within w →
    (c.interrupted p v handler).isSome
  registers : ∀ es c, Run p env w c₀ es c → c.kept = (LastWrite.lastWrite Event.kept es).getD c₀.kept
  stack : ∀ es c, Run p env w c₀ es c → ∀ a, Mem.Below w.top w.n a →
    c.machine.mem a = (LastWrite.lastWrite (Event.storeAt a) es).getD (c₀.machine.mem a)

end FanOS.Userspace

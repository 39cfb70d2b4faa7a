import FanOS.Hal.Equiv.Init
import FanOS.Hal.Equiv.Tss
import FanOS.Syscall.Equiv.Dispatch
import FanOS.Userspace.Basic

/-!
# Into the kernel and back

From user mode an interrupt comes back to the same processor but for what its handler does to memory
(`interrupted_eq`), and so does a system call but for `EAX` and `EDX` (`int80_of_admitted`).  Both use the
stack that the task state segment names, and nothing depends on the stack pointer of the program.
-/

namespace FanOS.Userspace

open Hal Ia32 Syscall
open Mem (Below)

variable {p : Processor} {env : Env} {w : Stacks} {c : Cpu} {m m' : Machine} {esp0 a : BitVec 32} {v : ℕ}

/-! ### The rings -/

/-- The way into the kernel is open: there is a stack, the gates lead to ring 0, and that of the system calls
may be used. -/
structure Open (p : Processor) (esp0 : BitVec 32) : Prop where
  stack : ringStack p = some (0x10, esp0)
  ring : ∀ v, 32 ≤ v → v < 256 → selectorRpl (p.tables.gate v).selector = 0
  admits : (p.tables.gate 0x80).Admits 3

/-- The stack pointer that `tss_set_stack` keeps. -/
def kernelSp (stack : BitVec 32) : BitVec 32 := (stack.setWidth 16).setWidth 32

/-- What the processor finds of the task state segment. -/
theorem ringStack_kmainRings (address : Handler → BitVec 32) (tss stack : BitVec 32) (s : Processor) :
    ringStack (kmainRings address tss stack s) =
      if 9 ≤ (tss.toNat + 104) % 2 ^ 20 then some (0x10, kernelSp stack) else none := by
  have hsetup : (setupInterruptHandlers address (halInit address tss s)).tables.gdt 5 =
      (halInit address tss s).tables.gdt 5 :=
    (keepsWrites_foldl (setupCalls address) _).gdt_of_none 5 (segmentAt_of_gate (by simp [setupCalls]))
  have hgdt : (kmainRings address tss stack s).tables.gdt 5 =
      (kmainTss tss stack ⟨(initTables address s.tables).gdt, s.tss, s.tr⟩).gdt 5 := hsetup
  have htr : selectorIndex (kmainRings address tss stack s).tr = 5 := by
    change selectorIndex (((5 : BitVec 32) * sizeofGdtDescriptor ||| 3).setWidth 16) = 5
    decide
  rw [ringStack, htr, hgdt, toNat_limit_kmainTss]
  rfl

/-- With a segment that is long enough, all is set up. -/
theorem open_kmainRings {address : Handler → BitVec 32} (haddress : ∀ h, address h ≠ 0) {tss : BitVec 32}
    (stack : BitVec 32) (s : Processor) (hlimit : 9 ≤ (tss.toNat + 104) % 2 ^ 20) :
    Open (kmainRings address tss stack s) (kernelSp stack) where
  stack := by rw [ringStack_kmainRings, if_pos hlimit]
  ring v _ hv := by
    have hgate : (kmainRings address tss stack s).tables.gate v = ⟨address (handlerAt v), 0x08, flagsAt v⟩ :=
      gate_setup haddress tss s hv
    rw [hgate]
    change selectorRpl 0x08 = 0
    decide
  admits := by
    have hgate : (kmainRings address tss stack s).tables.gate 0x80 =
        ⟨address (handlerAt 0x80), 0x08, flagsAt 0x80⟩ := gate_setup haddress tss s (by decide)
    rw [hgate]
    change (flagsAt 0x80).getLsbD 7 = true ∧ 3 ≤ (flagsAt 0x80).extractLsb' 5 2
    decide

/-- The program runs in ring 3, on its own segments. -/
structure InUser (c : Cpu) : Prop where
  cs : c.cs = 0x1B
  ss : c.ss = 0x23

/-! ### Interrupts -/

/-- Memory when the handler of a vector begins. -/
def entered (p : Processor) (esp0 : BitVec 32) (v : ℕ) (c : Cpu) : Mem :=
  (c.context.enter (p.tables.gate v) 0x10 esp0 c.machine.mem).2

theorem entered_of_not_below (h : ¬Below esp0 20 a) : entered p esp0 v c a = c.machine.mem a :=
  Context.enter_of_not_below h

/-- The processor when the handler of a vector begins. -/
theorem interrupt_eq (h : Open p esp0) (v : ℕ) (c : Cpu) :
    c.interrupt p v = some {
      machine := ⟨Function.update c.machine.reg .esp (esp0 - 20), c.machine.seg, entered p esp0 v c⟩
      eip := (p.tables.gate v).offset
      cs := (p.tables.gate v).selector
      eflags := c.eflags &&& ~~~Context.clearedFlags
      ss := 0x10 } := by
  rw [Cpu.interrupt, h.stack]
  rfl

/-- `iret` from ring 0, with the words of the program as they were. -/
theorem iret_eq (hc : InUser c) {c' : Cpu} (hcs : selectorRpl c'.cs = 0)
    (hesp : c'.machine.reg .esp = esp0 - 20)
    (hmem : ∀ a, Below esp0 20 a → c'.machine.mem a = entered p esp0 v c a) :
    c'.iret = c'.load c.context := by
  have hring : selectorRpl c.context.cs ≠ selectorRpl c'.context.cs := by
    rw [show c'.context.cs = c'.cs from rfl, hcs, show c.context.cs = c.cs from rfl, hc.cs]
    decide
  rw [Cpu.iret, Context.iret_enter hring hesp hmem]

/-- **An interrupt** comes back, with memory as its handler leaves it. -/
theorem interrupted_eq (h : Open p esp0) (hc : InUser c) (hv : 32 ≤ v) (hv' : v < 256) {handler : Mem → Mem}
    (hhandler : ∀ m a, Below esp0 20 a → handler m a = m a) :
    c.interrupted p v handler =
      some { c with machine := { c.machine with mem := handler (entered p esp0 v c) } } := by
  rw [Cpu.interrupted, interrupt_eq h, Option.map_some, Option.some.injEq,
    iret_eq (p := p) (v := v) hc (h.ring v hv hv') rfl fun a ha => hhandler _ a ha]
  simp only [Cpu.load, Cpu.context, Function.update_idem, Function.update_eq_self]

/-! ### The dispatcher on the stack of the kernel -/

/-- An instruction that pushes a word. -/
def IsPush : Instr → Prop
  | .push _ | .pushSeg _ => True
  | _ => False

/-- Pushes change the stack pointer, and memory below it. -/
theorem foldl_pushes (env : Env) {is : List Instr} (his : ∀ i ∈ is, IsPush i) (m : Machine) :
    (is.foldl (exec env) m).reg .esp = m.reg .esp - BitVec.ofNat 32 (4 * is.length) ∧
      ∀ a, ¬Below (m.reg .esp) (4 * is.length) a → (is.foldl (exec env) m).mem a = m.mem a := by
  induction is generalizing m with
  | nil => exact ⟨(BitVec.sub_zero _).symm, fun _ _ => rfl⟩
  | cons i is ih =>
    obtain ⟨hesp, hmem⟩ := ih (fun j hj => his j (List.mem_cons_of_mem i hj)) (exec env m i)
    have hone : (exec env m i).reg .esp = m.reg .esp - 4 ∧
        ∀ a, ¬Below (m.reg .esp) 4 a → (exec env m i).mem a = m.mem a := by
      have hi := his i List.mem_cons_self
      cases i with
      | push r => exact ⟨rfl, fun a ha => Mem.store32_of_not_below ha⟩
      | pushSeg s => exact ⟨rfl, fun a ha => Mem.store32_of_not_below ha⟩
      | pop r => exact hi.elim
      | popSeg s => exact hi.elim
      | addEsp n => exact hi.elim
      | movEax n => exact hi.elim
      | callSyscalls => exact hi.elim
    rw [List.foldl_cons, List.length_cons]
    refine ⟨?_, fun a ha => ?_⟩
    · rw [hesp, hone.1, Nat.mul_add, BitVec.ofNat_add]
      bv_omega
    · have hrest : ¬Below ((exec env m i).reg .esp) (4 * is.length) a := by
        rw [hone.1]
        exact fun hbelow => ha ((Below.of_sub (k := 4) hbelow).mono (by omega))
      rw [hmem a hrest, hone.2 a fun hbelow => ha (hbelow.mono (by omega))]

/-- The function of `syscalls[]` is entered 52 bytes further down. -/
theorem called_frame (env : Env) (m : Machine) :
    (called env m).reg .esp = m.reg .esp - 52 ∧
      ∀ a, ¬Below (m.reg .esp) 52 a → (called env m).mem a = m.mem a := by
  have hpushes : ∀ i ∈ pushes, IsPush i := by simp [pushes, IsPush]
  obtain ⟨hesp, hmem⟩ := foldl_pushes env hpushes m
  have hlen : pushes.length = 12 := rfl
  rw [hlen] at hesp hmem
  refine ⟨?_, fun a ha => ?_⟩
  · have hpush : (called env m).reg .esp = (pushes.foldl (exec env) m).reg .esp - 4 := rfl
    rw [hpush, hesp]
    bv_omega
  · have hlast : ¬Below ((pushes.foldl (exec env) m).reg .esp) 4 a := by
      rw [hesp]
      exact fun h => ha h.of_sub
    exact (Mem.store32_of_not_below hlast).trans (hmem a fun h => ha (h.mono (by decide)))

/-! ### System calls -/

/-- The machine when the dispatcher begins. -/
def dispatched (p : Processor) (esp0 : BitVec 32) (c : Cpu) : Machine :=
  ⟨Function.update c.machine.reg .esp (esp0 - 20), c.machine.seg, entered p esp0 0x80 c⟩

/-- The program goes on with the registers and the memory that the dispatcher leaves. -/
def resumed (c : Cpu) (m : Machine) : Cpu :=
  { c with machine := { m with reg := Function.update m.reg .esp (c.machine.reg .esp) } }

/-- A system call is a run of the dispatcher, if it leaves the words of `iret` alone. -/
theorem int80_eq (h : Open p esp0) (hc : InUser c)
    (hiretd : ∀ m, (syscallDispatcher env (dispatched p esp0 c)).atIretd = some m →
      m.reg .esp = esp0 - 20 ∧ ∀ a, Below esp0 20 a → m.mem a = entered p esp0 0x80 c a) :
    c.int80 p env = (syscallDispatcher env (dispatched p esp0 c)).atIretd.map (resumed c) := by
  have hadmits : (p.tables.gate 0x80).Admits (selectorRpl c.cs) := by
    rw [hc.cs]
    exact h.admits
  rw [Cpu.int80, if_pos hadmits, interrupt_eq h]
  change (syscallDispatcher env (dispatched p esp0 c)).atIretd.bind _ = _
  cases hm : (syscallDispatcher env (dispatched p esp0 c)).atIretd with
  | none => rfl
  | some m =>
    obtain ⟨hesp, hmem⟩ := hiretd m hm
    rw [Option.bind_some, Option.map_some, iret_eq (p := p) (v := 0x80) hc (h.ring _ (by decide) (by decide))
      hesp hmem]
    rfl

/-- Registers that the dispatcher gives back are those of the program. -/
theorem kept_resumed (hm : Restored (dispatched p esp0 c) m) : (resumed c m).kept = c.kept := by
  have hreg : ∀ r, r ≠ .eax → r ≠ .edx → r ≠ .esp → m.reg r = c.machine.reg r := by
    intro r heax hedx hesp
    have hother : (dispatched p esp0 c).reg r = c.machine.reg r := Function.update_of_ne hesp _ _
    rw [← hother]
    cases r with
    | eax => exact absurd rfl heax
    | edx => exact absurd rfl hedx
    | esp => exact absurd rfl hesp
    | ebx => exact hm.ebx
    | ecx => exact hm.ecx
    | esi => exact hm.esi
    | edi => exact hm.edi
    | ebp => exact hm.ebp
  rw [Cpu.kept, Cpu.kept, Kept.mk.injEq]
  refine ⟨rfl, funext fun r => ?_, hm.seg⟩
  by_cases hans : r = .eax ∨ r = .edx
  · rw [if_pos hans, if_pos hans]
  · have hresumed : (resumed c m).machine.reg r =
        Function.update m.reg .esp (c.machine.reg .esp) r := rfl
    obtain ⟨heax, hedx⟩ := not_or.mp hans
    rw [if_neg hans, if_neg hans, hresumed]
    by_cases hesp : r = .esp
    · rw [hesp, Function.update_self]
    · rw [Function.update_of_ne hesp, hreg r heax hedx hesp]

/-- A number that the assembly does not admit. -/
theorem int80_of_not_admitted (env : Env) (h : Open p esp0) (hc : InUser c) (heax : c.machine.reg .eax > 3) :
    ∃ c', c.int80 p env = some c' ∧ c'.machine.reg .eax = 0xFFFFFFFF ∧ c'.kept = c.kept ∧
      ∀ a, ¬Below esp0 20 a → c'.machine.mem a = c.machine.mem a := by
  have hdispatcher : syscallDispatcher env (dispatched p esp0 c) = _ := syscallDispatcher_of_not_admitted heax
  have hiretd : (syscallDispatcher env (dispatched p esp0 c)).atIretd = some _ :=
    congrArg Outcome.atIretd hdispatcher
  refine ⟨_, ?_, ?_, kept_resumed (restored_update_eax (dispatched p esp0 c) (-1)), fun a ha => ?_⟩
  · rw [int80_eq h hc fun m hm => ?_, hiretd, Option.map_some]
    rw [hiretd, Option.some.injEq] at hm
    rw [← hm]
    exact ⟨rfl, fun _ _ => rfl⟩
  · rfl
  · exact entered_of_not_below (p := p) (v := 0x80) ha

/-- What a function of `syscalls[]` leaves as it was. -/
theorem EnvWithin.of_called (henv : EnvWithin env w) (hk : 72 ≤ w.k) (hk' : w.k ≤ 2 ^ 32)
    (hesp : m.reg .esp = w.esp0 - 20) {i : BitVec 32} (hcall : env.syscalls i (called env m) = some m') :
    ArgKept (called env m) m' ∧ (∀ a, Below w.esp0 20 a → m'.mem a = m.mem a) ∧
      ∀ a, Below w.top w.n a → ¬Below w.esp0 w.k a → m'.mem a = m.mem a := by
  obtain ⟨hcalled, hframe⟩ := called_frame env m
  have hdown : (called env m).reg .esp = w.esp0 - 72 := by
    rw [hcalled, hesp]
    bv_omega
  -- nothing changes on the stack from the arguments up
  have habove : ∀ a, Below w.esp0 68 a → m'.mem a = (called env m).mem a := by
    intro a ha
    by_contra hne
    obtain hbelow | ⟨-, hnot⟩ := henv.mem i _ _ hcall hdown a hne
    · exact Below.not_of_sub (k := 68) hbelow (by omega) ha
    · exact hnot ha
  refine ⟨⟨henv.esp i _ _ hcall, fun j hj => habove _ ?_⟩, fun a ha => ?_, fun a ha hna => ?_⟩
  · rw [hdown]
    unfold Below
    bv_omega
  · rw [habove a (ha.mono (by decide)), hframe a ?_]
    rw [hesp]
    exact fun hbelow => Below.not_of_sub (k := 20) hbelow (by decide) ha
  · have hsame : m'.mem a = (called env m).mem a := by
      by_contra hne
      obtain hbelow | ⟨hnot, -⟩ := henv.mem i _ _ hcall hdown a hne
      · exact hna ((Below.of_sub (k := 68) hbelow).mono (by omega))
      · exact hnot ha
    rw [hsame, hframe a ?_]
    rw [hesp]
    exact fun hbelow => hna ((Below.of_sub (k := 20) hbelow).mono (by omega))

/-- **A system call** that the assembly admits. -/
theorem int80_of_admitted (h : Open p w.esp0) (hc : InUser c) (henv : EnvWithin env w) (hk : 72 ≤ w.k)
    (hk' : w.k ≤ 2 ^ 32) (heax : ¬c.machine.reg .eax > 3) :
    c.int80 p env = (env.syscalls (c.machine.reg .eax) (called env (dispatched p w.esp0 c))).map
        (fun m => resumed c (pops.foldl (exec env) m)) ∧
      ∀ m, env.syscalls (c.machine.reg .eax) (called env (dispatched p w.esp0 c)) = some m →
        (resumed c (pops.foldl (exec env) m)).kept = c.kept ∧
          ∀ a, Below w.top w.n a → ¬Below w.esp0 w.k a → m.mem a = c.machine.mem a := by
  have hdispatcher : syscallDispatcher env (dispatched p w.esp0 c) = _ := syscallDispatcher_of_admitted heax
  have hiretd : (syscallDispatcher env (dispatched p w.esp0 c)).atIretd =
      (env.syscalls (c.machine.reg .eax) (called env (dispatched p w.esp0 c))).map (pops.foldl (exec env)) :=
    congrArg Outcome.atIretd hdispatcher
  constructor
  · rw [int80_eq h hc fun m hm => ?_, hiretd, Option.map_map]
    · rfl
    · rw [hiretd, Option.map_eq_some_iff] at hm
      obtain ⟨m', hcall, rfl⟩ := hm
      obtain ⟨hkept, hframe, -⟩ := henv.of_called hk hk' rfl hcall
      exact ⟨(restored_of_argKept hkept).esp, hframe⟩
  · intro m hcall
    obtain ⟨hkept, -, hmem⟩ := henv.of_called hk hk' rfl hcall
    refine ⟨kept_resumed (restored_of_argKept hkept), fun a ha hna => ?_⟩
    rw [hmem a ha hna]
    exact entered_of_not_below (p := p) (v := 0x80) fun hbelow => hna (hbelow.mono (by omega))

end FanOS.Userspace

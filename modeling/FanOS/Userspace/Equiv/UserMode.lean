import FanOS.Userspace.Equiv.Entry

/-!
# User programs and the stack of the kernel

A program in user mode does not notice interrupts and system calls, in any run, exactly when the stack of the
kernel keeps clear of its own (`transparent_iff`).  `kmain` means both to be the same stack; what keeps them
apart is that `tss_set_stack` cuts the stack pointer to 16 bits (`user_mode_transparent_iff`).

`malloc` and `free` reach their functions in the kernel, and bring back their results.  `exit` does not halt
the machine: it returns, and `userspace` finds a selector where its return address would be
(`library_calls`).
-/

namespace FanOS.Userspace

open Hal Ia32 LastWrite Syscall
open Mem (Below)

variable {p : Processor} {env : Env} {w : Stacks} {c c' c₀ : Cpu} {es : List Event} {a : BitVec 32} {v : ℕ}

/-! ### `jmp_userspace` -/

/-- The program begins in ring 3 with interrupts enabled, on the stack below that of `kmain`. -/
structure Started (userspace sp : BitVec 32) (c : Cpu) : Prop where
  user : InUser c
  eip : c.eip = userspace
  esp : c.machine.reg .esp = sp - 4
  interrupts : c.eflags.getLsbD 9 = true
  /-- The selector that `jmp_userspace` pushed first is on top. -/
  top : c.machine.mem.load32 (sp - 4) = 0x23

theorem started_jmpUserspace (userspace : BitVec 32) (c : Cpu) (hring : selectorRpl c.cs = 0) :
    Started userspace (c.machine.reg .esp) (jmpUserspace userspace c) := by
  generalize hsp : c.machine.reg .esp = sp
  obtain ⟨eflags, heflags⟩ : ∃ eflags, eflags = c.eflags &&& ~~~0x200 &&& 0x00FCFFFF ||| 0x200 := ⟨_, rfl⟩
  obtain ⟨c₁, hjmp, hcs, hesp, hmem⟩ : ∃ c₁ : Cpu, jmpUserspace userspace c = c₁.iret ∧ c₁.cs = c.cs ∧
      c₁.machine.reg .esp = sp - 4 - 4 - 4 - 4 - 4 ∧
      c₁.machine.mem = ((((c.machine.mem.store32 (sp - 4) 0x23).store32 (sp - 4 - 4) (sp - 4)).store32
        (sp - 4 - 4 - 4) eflags).store32 (sp - 4 - 4 - 4 - 4) 0x1B).store32 (sp - 4 - 4 - 4 - 4 - 4)
          userspace := by
    rw [heflags, ← hsp]
    exact ⟨_, rfl, rfl, rfl, rfl⟩
  -- the words that are pushed are those of a context
  have hstack : c₁.machine.mem.Stacked (c₁.machine.reg .esp) (⟨userspace, 0x1B, eflags, sp - 4, 0x23⟩ :
      Context).words := by
    have h0 : c.machine.mem.Stacked sp [] := trivial
    rw [hmem, hesp]
    exact ((((h0.push (by simp) _).push (by simp) _).push (by simp) _).push (by simp) _).push (by simp) _
  have hcontext : c₁.context.iret c₁.machine.mem = ⟨userspace, 0x1B, eflags, sp - 4, 0x23⟩ := by
    refine Context.iret_of_stacked hstack ?_
    rw [show c₁.context.cs = c.cs from hcs, hring]
    change selectorRpl 0x1B ≠ 0
    decide
  have htop : c₁.machine.mem.load32 (c₁.machine.reg .esp + 4 + 4 + 4 + 4) = 0x23 := hstack.2.2.2.2.1
  rw [hesp, BitVec.sub_add_cancel, BitVec.sub_add_cancel, BitVec.sub_add_cancel, BitVec.sub_add_cancel]
    at htop
  rw [hjmp, Cpu.iret, hcontext]
  refine ⟨⟨rfl, rfl⟩, rfl, rfl, ?_, htop⟩
  change eflags.getLsbD 9 = true
  rw [heflags, BitVec.getLsbD_or]
  exact Bool.or_true _

/-! ### Runs -/

/-- The stack of the kernel is deep enough for a system call. -/
structure Deep (w : Stacks) : Prop where
  le : 72 ≤ w.k
  ge : w.k ≤ 2 ^ 16

/-- A handler leaves the words of `iret` alone. -/
theorem handler_of_within (hw : Deep w) {handler : Mem → Mem} (he : (Event.interrupt v handler).Within w)
    (m : Mem) (ha : Below w.esp0 20 a) : handler m a = m a := by
  have hk := hw.ge
  by_contra hne
  obtain hbelow | ⟨-, hnot⟩ := he.2.2 m a hne
  · exact Below.not_of_sub (k := 20) hbelow (by omega) ha
  · exact hnot ha

/-- One event. -/
structure Follows (w : Stacks) (c : Cpu) (e : Event) (c' : Cpu) : Prop where
  user : InUser c'
  kept : c'.kept = e.kept.getD c.kept
  stack : ∀ a, Below w.top w.n a → ¬Below w.esp0 w.k a →
    c'.machine.mem a = (e.storeAt a).getD (c.machine.mem a)

/-- The kernel gives the program back its registers, so it is in user mode. -/
theorem inUser_of_kept (hc : InUser c) (h : c'.kept = c.kept) : InUser c' := by
  have hcontext : c'.context = c.context := congrArg Kept.context h
  exact ⟨(congrArg Context.cs hcontext).trans hc.cs, (congrArg Context.ss hcontext).trans hc.ss⟩

/-- **One event**: only a move sets registers, and only a store the bytes of the program's stack that the
kernel does not use. -/
theorem follows_of_step (h : Open p w.esp0) (hw : Deep w) (henv : EnvWithin env w) (hc : InUser c) {e : Event}
    (he : e.Within w) (hstep : step p env c e = some c') : Follows w c e c' := by
  have hle := hw.le
  have hge := hw.ge
  cases e with
  | store x b =>
    obtain rfl := Option.some.inj hstep
    refine ⟨⟨hc.cs, hc.ss⟩, rfl, fun a _ _ => ?_⟩
    rw [Event.storeAt]
    by_cases hax : a = x
    · rw [if_pos hax.symm, hax]
      exact if_pos rfl
    · rw [if_neg (Ne.symm hax)]
      exact if_neg hax
  | move r =>
    obtain rfl := Option.some.inj hstep
    refine ⟨⟨hc.cs, hc.ss⟩, ?_, fun a _ _ => rfl⟩
    rw [Event.kept, Option.getD_some, ← hc.cs, ← hc.ss]
    rfl
  | interrupt v handler =>
    have heq := interrupted_eq h hc he.1 he.2.1 fun m a ha => handler_of_within hw he m ha
    obtain rfl := Option.some.inj (heq.symm.trans hstep)
    refine ⟨⟨hc.cs, hc.ss⟩, rfl, fun a ha hna => ?_⟩
    have hsame : handler (entered p w.esp0 v c) a = entered p w.esp0 v c a := by
      by_contra hne
      obtain hbelow | ⟨hnot, -⟩ := he.2.2 _ a hne
      · exact hna ((Below.of_sub (k := 20) hbelow).mono (by omega))
      · exact hnot ha
    exact hsame.trans (entered_of_not_below fun hbelow => hna (hbelow.mono (by omega)))
  | int80 =>
    by_cases heax : c.machine.reg .eax > 3
    · obtain ⟨c₁, heq, -, hkept, hmem⟩ := int80_of_not_admitted env h hc heax
      obtain rfl := Option.some.inj (heq.symm.trans hstep)
      exact ⟨inUser_of_kept hc hkept, hkept, fun a _ hna => hmem a fun hbelow => hna (hbelow.mono (by omega))⟩
    · obtain ⟨heq, hall⟩ := int80_of_admitted h hc henv hle (by omega) heax
      obtain ⟨m, hcall, rfl⟩ := Option.map_eq_some_iff.mp (heq.symm.trans hstep)
      obtain ⟨hkept, hmem⟩ := hall m hcall
      exact ⟨inUser_of_kept hc hkept, hkept, hmem⟩

/-- **A run**: registers and bytes are as they were last set. -/
theorem run_spec (h : Open p w.esp0) (hw : Deep w) (henv : EnvWithin env w) (hc₀ : InUser c₀)
    (hrun : Run p env w c₀ es c) :
    InUser c ∧ c.kept = (lastWrite Event.kept es).getD c₀.kept ∧
      ∀ a, Below w.top w.n a → ¬Below w.esp0 w.k a →
        c.machine.mem a = (lastWrite (Event.storeAt a) es).getD (c₀.machine.mem a) := by
  obtain ⟨hes, hfold⟩ := hrun
  have hstep : ∀ c e c', InUser c → Event.Within w e → step p env c e = some c' → Follows w c e c' :=
    fun c e c' hc he hstep => follows_of_step h hw henv hc he hstep
  have hkept : ∀ c e c', InUser c → Event.Within w e → step p env c e = some c' →
      InUser c' ∧ c'.kept = e.kept.getD c.kept :=
    fun c e c' hc he h => ⟨(hstep c e c' hc he h).user, (hstep c e c' hc he h).kept⟩
  obtain ⟨huser, hregs⟩ := read_foldlM_of_invariant Cpu.kept (step p env) hkept hes hc₀ hfold
  refine ⟨huser, hregs, fun a ha hna => ?_⟩
  have hstack : ∀ c e c', InUser c → Event.Within w e → step p env c e = some c' →
      InUser c' ∧ c'.machine.mem a = (e.storeAt a).getD (c.machine.mem a) :=
    fun c e c' hc he h => ⟨(hstep c e c' hc he h).user, (hstep c e c' hc he h).stack a ha hna⟩
  exact (read_foldlM_of_invariant (fun c : Cpu => c.machine.mem a) (step p env) hstack hes hc₀ hfold).2

/-! ### The two stacks -/

/-- The stacks have no byte in common. -/
def Apart (w : Stacks) : Prop := ∀ a, Below w.top w.n a → ¬Below w.esp0 w.k a

theorem transparent_of_apart (h : Open p w.esp0) (hw : Deep w) (henv : EnvWithin env w) (hc₀ : InUser c₀)
    (hapart : Apart w) : Transparent p env w c₀ where
  returns es c hrun v handler he := by
    obtain ⟨hc, -, -⟩ := run_spec h hw henv hc₀ hrun
    rw [interrupted_eq h hc he.1 he.2.1 fun m a ha => handler_of_within hw he m ha]
    rfl
  registers es c hrun := (run_spec h hw henv hc₀ hrun).2.1
  stack es c hrun a ha := (run_spec h hw henv hc₀ hrun).2.2 a ha (hapart a ha)

/-- A byte in both stacks is lost by one interrupt: to the words of `iret`, or to the handler. -/
theorem not_transparent_of_shared (h : Open p w.esp0) (hw : Deep w) (hc₀ : InUser c₀)
    (ha : Below w.top w.n a) (hshared : Below w.esp0 w.k a) : ¬Transparent p env w c₀ := by
  intro hall
  have hk := hw.ge
  by_cases hframe : Below w.esp0 20 a
  · -- the words do not depend on what was there
    obtain ⟨x, hx⟩ : ∃ x, x = entered p w.esp0 32 c₀ a := ⟨_, rfl⟩
    obtain ⟨c₁, hc₁⟩ : ∃ c₁ : Cpu, c₁ =
      { c₀ with machine := { c₀.machine with mem := c₀.machine.mem.store8 a (x + 1) } } := ⟨_, rfl⟩
    have huser : InUser c₁ := by
      rw [hc₁]
      exact ⟨hc₀.cs, hc₀.ss⟩
    have hlost : entered p w.esp0 32 c₁ a = x := by
      rw [hx, hc₁]
      exact Context.enter_of_below hframe _ _
    have hid : ∀ m a, Below w.esp0 20 a → (id : Mem → Mem) m a = m a := fun _ _ _ => rfl
    have hinterrupt := interrupted_eq h huser (v := 32) le_rfl (by decide) hid
    have hrun : Run p env w c₀ [.store a (x + 1), .interrupt 32 id]
        { c₁ with machine := { c₁.machine with mem := entered p w.esp0 32 c₁ } } := by
      refine ⟨?_, ?_⟩
      · simp [Event.Within]
      · rw [List.foldlM_cons, step, ← hc₁]
        change (step p env c₁ (.interrupt 32 id)).bind _ = _
        rw [step, hinterrupt]
        rfl
    have hbyte := hall.stack _ _ hrun a ha
    change entered p w.esp0 32 c₁ a = _ at hbyte
    rw [hlost] at hbyte
    have hlast : lastWrite (Event.storeAt a) [.store a (x + 1), .interrupt 32 id] = some (x + 1) := by
      simp [lastWrite, List.findSome?, Event.storeAt]
    rw [hlast, Option.getD_some] at hbyte
    bv_omega
  · obtain ⟨handler, hhandler⟩ : ∃ handler : Mem → Mem,
      handler = fun m => Function.update m a (m a + 1) := ⟨_, rfl⟩
    have hother : ∀ m x, x ≠ a → handler m x = m x := fun m x hx => by
      rw [hhandler]
      exact Function.update_of_ne hx _ _
    have hwithin : (Event.interrupt 32 handler).Within w := by
      refine ⟨le_rfl, by decide, fun m x hne => Or.inl ?_⟩
      obtain rfl : x = a := by
        by_contra hxa
        exact hne (hother m x hxa)
      exact hshared.sub_of_not hframe
    have hinterrupt := interrupted_eq h hc₀ (v := 32) le_rfl (by decide)
      fun m x hx => hother m x fun hxa => hframe (hxa ▸ hx)
    have hrun : Run p env w c₀ [.interrupt 32 handler]
        { c₀ with machine := { c₀.machine with mem := handler (entered p w.esp0 32 c₀) } } := by
      refine ⟨by simpa using hwithin, ?_⟩
      rw [List.foldlM_cons, step, hinterrupt]
      rfl
    have hbyte := hall.stack _ _ hrun a ha
    change handler (entered p w.esp0 32 c₀) a = c₀.machine.mem a at hbyte
    rw [hhandler] at hbyte
    dsimp only at hbyte
    rw [Function.update_self, entered_of_not_below hframe] at hbyte
    bv_omega

/-- **The program does not notice the kernel** if and only if its stack and the kernel's are apart. -/
theorem transparent_iff (h : Open p w.esp0) (hw : Deep w) (henv : EnvWithin env w) (hc₀ : InUser c₀) :
    Transparent p env w c₀ ↔ Apart w := by
  refine ⟨fun hall a ha hshared => ?_, transparent_of_apart h hw henv hc₀⟩
  exact not_transparent_of_shared h hw hc₀ ha hshared hall

/-- The stacks as `kmain` sets them up, where its stack pointer is `stack` when it reads it, and `sp` in
`jmp_userspace`. -/
def kmainStacks (stack sp : BitVec 32) (n k : ℕ) : Stacks where
  top := sp
  n := n
  esp0 := kernelSp stack
  k := k

/-- They are apart if the cut stack pointer is far enough below. -/
theorem apart_kmainStacks_iff {stack : BitVec 32} {d n k : ℕ} (hd : d < k) (hk : k ≤ 2 ^ 16) (hn : 0 < n) :
    Apart (kmainStacks stack (stack - BitVec.ofNat 32 d) n k) ↔ n + d ≤ 2 ^ 16 * (stack.toNat / 2 ^ 16) := by
  have hsp : (kernelSp stack).toNat = stack.toNat % 2 ^ 16 := by
    rw [kernelSp, BitVec.toNat_setWidth_of_le (by decide), BitVec.toNat_setWidth]
  have hlt := stack.isLt
  unfold Apart kmainStacks
  dsimp only
  rw [Mem.disjoint_iff hn (by omega)]
  simp only [BitVec.toNat_sub, BitVec.toNat_ofNat, hsp]
  omega

/-- **User mode**: a program in ring 3 does not notice interrupts and system calls if and only if the
processor finds the stack of the kernel in the task state segment, and the stack of the program does not reach
down to where the stack pointer is cut to 16 bits.  A pointer that is not cut, since it is below 64 KiB, leads
into the stack of the program. -/
theorem user_mode_transparent_iff (address : Handler → BitVec 32) (tss stack userspace : BitVec 32)
    (s : Processor) (env : Env) (c : Cpu) (d n k : ℕ) (haddress : ∀ h, address h ≠ 0)
    (hring : selectorRpl c.cs = 0) (hesp : c.machine.reg .esp = stack - BitVec.ofNat 32 d) (hd : d < k)
    (hk : 72 ≤ k) (hk' : k ≤ 2 ^ 16) (hn : 0 < n)
    (henv : EnvWithin env (kmainStacks stack (c.machine.reg .esp) n k)) :
    Transparent (kmainRings address tss stack s) env (kmainStacks stack (c.machine.reg .esp) n k)
        (jmpUserspace userspace c) ↔
      9 ≤ (tss.toNat + 104) % 2 ^ 20 ∧ n + d ≤ 2 ^ 16 * (stack.toNat / 2 ^ 16) := by
  have hstarted := started_jmpUserspace userspace c hring
  by_cases hlimit : 9 ≤ (tss.toNat + 104) % 2 ^ 20
  · rw [transparent_iff (open_kmainRings haddress stack s hlimit) ⟨hk, hk'⟩ henv hstarted.user,
      hesp, apart_kmainStacks_iff hd hk' hn, and_iff_right hlimit]
  · -- the first interrupt does not find a stack
    refine iff_of_false (fun hall => ?_) fun h => hlimit h.1
    have hsome := hall.returns [] _ ⟨by simp, rfl⟩ 32 id ⟨le_rfl, by decide, fun _ _ h => absurd rfl h⟩
    rw [Cpu.interrupted, Cpu.interrupt, ringStack_kmainRings, if_neg hlimit] at hsome
    cases hsome

/-- `kmain` with its stack at the top of 576 KiB. -/
def kmainCpu : Cpu where
  machine := ⟨fun r => if r = .esp then 0x8FFDC else 0, fun _ => 0x10, fun _ => 0⟩
  eip := 0x102000
  cs := 0x08
  eflags := 0x202
  ss := 0x10

/-- Tables and controllers with nothing in them. -/
def emptyProcessor : Processor := ⟨⟨fun _ => ⟨0, 0, 0, 0, 0, 0⟩, fun _ => ⟨0, 0, 0, 0, 0⟩⟩, {}, 0, idlePair⟩

theorem envWithin_idleEnv (w : Stacks) : EnvWithin idleEnv w where
  esp i m m' h := by
    obtain rfl := Option.some.inj h
    rfl
  mem i m m' h _ a hne := by
    obtain rfl := Option.some.inj h
    exact absurd rfl hne

/-- A program with 4 KiB of stack does not notice the kernel. -/
theorem user_mode_transparent_kmain :
    Transparent (kmainRings (fun _ => 0x101000) 0x106000 0x8FFE0 emptyProcessor) idleEnv
      (kmainStacks 0x8FFE0 (kmainCpu.machine.reg .esp) 0x1000 0x1000) (jmpUserspace 0x103000 kmainCpu) :=
  (user_mode_transparent_iff (fun _ => 0x101000) 0x106000 0x8FFE0 0x103000 emptyProcessor idleEnv kmainCpu 4
    0x1000 0x1000 (fun _ => by decide) (by decide) (by decide) (by decide) (by decide) (by decide) (by decide)
    (envWithin_idleEnv _)).mpr ⟨by decide, by decide⟩

/-! ### The C library -/

/-- The program when it executes `int $0x80`. -/
def calling (number arg : BitVec 32) (c : Cpu) : Cpu :=
  { c with
    machine := { c.machine with
      reg := Function.update (Function.update c.machine.reg .eax number) .ebx arg } }

theorem kept_calling (number arg : BitVec 32) (c : Cpu) :
    (calling number arg c).kept = { c.kept with reg := Function.update c.kept.reg .ebx arg } := by
  rw [Cpu.kept, Kept.mk.injEq]
  refine ⟨rfl, funext fun r => ?_, rfl⟩
  cases r <;> rfl

/-- The machine on which a function of `syscalls[]` is called. -/
def onCall (p : Processor) (env : Env) (w : Stacks) (number arg : BitVec 32) (c : Cpu) : Machine :=
  called env (dispatched p w.esp0 (calling number arg c))

/-- Its argument has that of the program. -/
theorem ebx_onCall (p : Processor) (env : Env) (w : Stacks) (number arg : BitVec 32) (c : Cpu) :
    (syscallRegsAt (onCall p env w number arg c).mem
      ((onCall p env w number arg c).reg .esp + 4)).ebx = arg :=
  (describes_argument env (dispatched p w.esp0 (calling number arg c))).ebx

/-- A call with a number that the assembly admits. -/
theorem libraryCall_spec (h : Open p w.esp0) (hw : Deep w) (henv : EnvWithin env w) (hc : InUser c)
    (hapart : Apart w) {number : BitVec 32} (hnumber : ¬number > 3) (arg : BitVec 32) :
    ∃ back : Machine → Cpu,
      libraryCall p env number arg c = (env.syscalls number (onCall p env w number arg c)).map back ∧
        ∀ m', (back m').machine.reg .edx = m'.reg .edx ∧
          (env.syscalls number (onCall p env w number arg c) = some m' → Answered w c arg (back m')) := by
  have hle := hw.le
  have hge := hw.ge
  have hc₁ : InUser (calling number arg c) := ⟨hc.cs, hc.ss⟩
  obtain ⟨heq, hall⟩ := int80_of_admitted (c := calling number arg c) h hc₁ henv hle (by omega) hnumber
  refine ⟨_, heq, fun m' => ⟨rfl, fun hcall => ?_⟩⟩
  obtain ⟨hkept, hmem⟩ := hall m' hcall
  exact ⟨hkept.trans (kept_calling number arg c), fun a ha => hmem a ha (hapart a ha)⟩

/-- What the C library does for the program. -/
structure LibraryCalls (p : Processor) (env : Env) (w : Stacks) (c : Cpu) : Prop where
  /-- `malloc` calls its function with the size, and returns what this leaves in `EDX`. -/
  malloc : ∀ size,
    (syscallRegsAt (onCall p env w 2 size c).mem ((onCall p env w 2 size c).reg .esp + 4)).ebx = size ∧
    (malloc p env size c).map Prod.fst = (env.syscalls 2 (onCall p env w 2 size c)).map (·.reg .edx) ∧
      ∀ ptr c', malloc p env size c = some (ptr, c') → Answered w c size c'
  free : ∀ ptr,
    (syscallRegsAt (onCall p env w 3 ptr c).mem ((onCall p env w 3 ptr c).reg .esp + 4)).ebx = ptr ∧
    (free p env ptr c).isSome = (env.syscalls 3 (onCall p env w 3 ptr c)).isSome ∧
      ∀ c', free p env ptr c = some c' → Answered w c ptr c'
  /-- `exit` is answered as an unknown call is. -/
  exit : ∀ status, ∃ c', exit p env status c = some c' ∧ c'.machine.reg .eax = 0xFFFFFFFF ∧
    Answered w c status c'

theorem libraryCalls_of_apart (h : Open p w.esp0) (hw : Deep w) (henv : EnvWithin env w) (hc : InUser c)
    (hapart : Apart w) : LibraryCalls p env w c where
  malloc size := by
    obtain ⟨back, heq, hback⟩ :=
      libraryCall_spec h hw henv hc hapart (show ¬(2 : BitVec 32) > 3 by decide) size
    refine ⟨ebx_onCall p env w 2 size c, ?_, fun ptr c' hmalloc => ?_⟩
    · rw [malloc, heq, Option.map_map, Option.map_map]
      exact congrArg (fun f => Option.map f _) (funext fun m' => (hback m').1)
    · rw [malloc, heq, Option.map_map, Option.map_eq_some_iff] at hmalloc
      obtain ⟨m', hcall, hpair⟩ := hmalloc
      obtain rfl : back m' = c' := congrArg Prod.snd hpair
      exact (hback m').2 hcall
  free ptr := by
    obtain ⟨back, heq, hback⟩ :=
      libraryCall_spec h hw henv hc hapart (show ¬(3 : BitVec 32) > 3 by decide) ptr
    refine ⟨ebx_onCall p env w 3 ptr c, ?_, fun c' hfree => ?_⟩
    · rw [free, heq, Option.isSome_map]
    · rw [free, heq, Option.map_eq_some_iff] at hfree
      obtain ⟨m', hcall, rfl⟩ := hfree
      exact (hback m').2 hcall
  exit status := by
    have hle := hw.le
    have hc₁ : InUser (calling 4 status c) := ⟨hc.cs, hc.ss⟩
    have hfour : (calling 4 status c).machine.reg .eax > 3 := show (4 : BitVec 32) > 3 by decide
    obtain ⟨c', heq, heax, hkept, hmem⟩ := int80_of_not_admitted env h hc₁ hfour
    refine ⟨c', heq, heax, hkept.trans (kept_calling 4 status c), fun a ha => ?_⟩
    exact hmem a fun hbelow => hapart a ha (hbelow.mono (by omega))

/-- **The C library**, in any run of a program whose stack is apart from that of the kernel: `malloc` and
`free` call their functions and bring back what they leave, `exit` comes back with -1, and `userspace` returns
to `0x23`, the selector that lies where its return address would be. -/
theorem library_calls (address : Handler → BitVec 32) (tss stack userspace : BitVec 32) (s : Processor)
    (env : Env) (c₀ : Cpu) (d n k : ℕ) (haddress : ∀ h, address h ≠ 0) (hring : selectorRpl c₀.cs = 0)
    (hesp : c₀.machine.reg .esp = stack - BitVec.ofNat 32 d) (hd : d < k) (hk : 72 ≤ k) (hk' : k ≤ 2 ^ 16)
    (hn : 4 ≤ n) (henv : EnvWithin env (kmainStacks stack (c₀.machine.reg .esp) n k))
    (hlimit : 9 ≤ (tss.toNat + 104) % 2 ^ 20) (hroom : n + d ≤ 2 ^ 16 * (stack.toNat / 2 ^ 16))
    {es : List Event} {c : Cpu}
    (hrun : Run (kmainRings address tss stack s) env (kmainStacks stack (c₀.machine.reg .esp) n k)
      (jmpUserspace userspace c₀) es c)
    (hstore : ∀ i < 4, lastWrite (Event.storeAt (c₀.machine.reg .esp - 4 + BitVec.ofNat 32 i)) es = none) :
    LibraryCalls (kmainRings address tss stack s) env (kmainStacks stack (c₀.machine.reg .esp) n k) c ∧
      (c.machine.reg .esp = c₀.machine.reg .esp - 4 → c.ret.eip = 0x23) := by
  have hopen := open_kmainRings haddress stack s hlimit
  have hstarted := started_jmpUserspace userspace c₀ hring
  have hapart : Apart (kmainStacks stack (c₀.machine.reg .esp) n k) := by
    rw [hesp]
    exact (apart_kmainStacks_iff hd hk' (by omega)).mpr hroom
  obtain ⟨huser, -, hstack⟩ := run_spec hopen ⟨hk, hk'⟩ henv hstarted.user hrun
  refine ⟨libraryCalls_of_apart hopen ⟨hk, hk'⟩ henv huser hapart, fun hpopped => ?_⟩
  -- the word on top has not been written since
  have htop : c.machine.mem.load32 (c₀.machine.reg .esp - 4) =
      (jmpUserspace userspace c₀).machine.mem.load32 (c₀.machine.reg .esp - 4) := by
    refine Mem.load32_congr fun i hi => ?_
    have hbelow : Below (c₀.machine.reg .esp) n (c₀.machine.reg .esp - 4 + BitVec.ofNat 32 i) := by
      unfold Below
      bv_omega
    rw [hstack _ hbelow (hapart _ hbelow), hstore i hi, Option.getD_none]
  change c.machine.mem.load32 (c.machine.reg .esp) = 0x23
  rw [hpopped, htop, hstarted.top]

/-- Functions of `syscalls[]` that leave 12 in `EDX`. -/
def givingEnv : Env where
  clears := true
  returnAddr := 0x100000
  syscalls := fun _ m =>
    some { m with reg := Function.update (Function.update m.reg .esp (m.reg .esp + 4)) .edx 12 }

theorem envWithin_givingEnv (w : Stacks) : EnvWithin givingEnv w where
  esp i m m' h := by
    obtain rfl := Option.some.inj h
    rfl
  mem i m m' h _ a hne := by
    obtain rfl := Option.some.inj h
    exact absurd rfl hne

/-- `userspace` when it is about to return: all that it had on its stack is popped.  The calls of the library
come back from there too. -/
theorem library_calls_kmain : ∃ p w c,
    Run p givingEnv w (jmpUserspace 0x103000 kmainCpu)
        [.move ⟨fun r => if r = .esp then 0x8FFD8 else 0, fun _ => 0x23, 0x103080, 0x202⟩] c ∧
      (malloc p givingEnv 100 c).map Prod.fst = some 12 ∧ (free p givingEnv 12 c).isSome = true ∧
      (∃ c', exit p givingEnv 0 c = some c' ∧ c'.machine.reg .eax = 0xFFFFFFFF) ∧ c.ret.eip = 0x23 := by
  have hrun : Run (kmainRings (fun _ => 0x101000) 0x106000 0x8FFE0 emptyProcessor) givingEnv
      (kmainStacks 0x8FFE0 (kmainCpu.machine.reg .esp) 0x1000 0x1000) (jmpUserspace 0x103000 kmainCpu)
      [.move ⟨fun r => if r = .esp then 0x8FFD8 else 0, fun _ => 0x23, 0x103080, 0x202⟩] _ :=
    ⟨by simp [Event.Within], rfl⟩
  obtain ⟨hcalls, hret⟩ := library_calls (fun _ => 0x101000) 0x106000 0x8FFE0 0x103000 emptyProcessor
    givingEnv kmainCpu 4 0x1000 0x1000 (fun _ => by decide) (by decide) (by decide) (by decide) (by decide)
    (by decide) (by decide) (envWithin_givingEnv _) (by decide) (by decide) hrun fun i _ => rfl
  obtain ⟨c', hexit, heax, -⟩ := hcalls.exit 0
  exact ⟨_, _, _, hrun, (hcalls.malloc 100).2.1, (hcalls.free 12).2.1, ⟨c', hexit, heax⟩, hret rfl⟩

end FanOS.Userspace

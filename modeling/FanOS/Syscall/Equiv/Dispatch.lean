import FanOS.Memory.Stack
import FanOS.Syscall.Basic

/-!
# System calls

The dispatcher should call the function of `syscalls[]` whose number is in `EAX`, on a `syscall_regs_t`
with the registers of the caller, and give them back (`Contract`).  The order of the pushes, the layout
of the structure and the order of the pops agree, for every stack pointer and whatever is in the
registers (`pushed_pushes`, `syscallRegsAt_eq`, `restored_pops`).  The two limits do not: the table has
five entries, and the assembly admits four numbers.  So the contract is met if and only if the number is
not 4 (`contract_iff`).
-/

namespace FanOS.Syscall

open Mem (Stacked)

variable {env : Env} {m m₀ m' : Machine} {ws : List (BitVec 32)}

/-! ### The contract -/

/-- The structure has the registers of the caller.  A segment register is the lower half of its field,
and all of it on a processor that clears the upper half. -/
structure Describes (env : Env) (m : Machine) (r : SyscallRegs) : Prop where
  ebx : r.ebx = m.reg .ebx
  ecx : r.ecx = m.reg .ecx
  edx : r.edx = m.reg .edx
  esi : r.esi = m.reg .esi
  edi : r.edi = m.reg .edi
  ebp : r.ebp = m.reg .ebp
  eax : r.eax = m.reg .eax
  segs : r.ds.setWidth 16 = m.seg .ds ∧ r.es.setWidth 16 = m.seg .es ∧ r.fs.setWidth 16 = m.seg .fs ∧
    r.gs.setWidth 16 = m.seg .gs
  cleared : env.clears = true → r.ds = (m.seg .ds).setWidth 32 ∧ r.es = (m.seg .es).setWidth 32 ∧
    r.fs = (m.seg .fs).setWidth 32 ∧ r.gs = (m.seg .gs).setWidth 32

/-- The caller's registers at the `iretd`, but for `EAX` and `EDX`. -/
structure Restored (m m' : Machine) : Prop where
  ebx : m'.reg .ebx = m.reg .ebx
  ecx : m'.reg .ecx = m.reg .ecx
  esi : m'.reg .esi = m.reg .esi
  edi : m'.reg .edi = m.reg .edi
  ebp : m'.reg .ebp = m.reg .ebp
  esp : m'.reg .esp = m.reg .esp
  seg : m'.seg = m.seg

/-- A function of `syscalls[]` returns behind the call, with its argument as it was. -/
structure ArgKept (m m' : Machine) : Prop where
  esp : m'.reg .esp = m.reg .esp + 4
  arg : ∀ i < 48, m'.mem (m.reg .esp + 4 + BitVec.ofNat 32 i) = m.mem (m.reg .esp + 4 + BitVec.ofNat 32 i)

/-- If function `i` returns, it does so with its argument as it was. -/
def Env.KeepsArg (env : Env) (i : BitVec 32) : Prop :=
  ∀ m m', env.syscalls i m = some m' → ArgKept m m'

/-- A number with an entry in `syscalls[]` is called on the caller's registers.  Only a function that does
not return on them keeps the dispatcher from returning, and if it keeps its argument the registers are
restored.  Any other number is answered with -1 and has no effect otherwise. -/
def Contract (env : Env) (m : Machine) : Prop :=
  if (m.reg .eax).toNat < maxSyscalls then
    (∃ r, (syscallDispatcher env m).calls = [(m.reg .eax, r)] ∧ Describes env m r ∧
      ((syscallDispatcher env m).atIretd = none →
        ∃ c : Machine, syscallRegsAt c.mem (c.reg .esp + 4) = r ∧ env.syscalls (m.reg .eax) c = none)) ∧
    (env.KeepsArg (m.reg .eax) → ∀ m', (syscallDispatcher env m).atIretd = some m' → Restored m m')
  else
    (syscallDispatcher env m).calls = [] ∧
      ∃ m', (syscallDispatcher env m).atIretd = some m' ∧ m'.reg .eax = 0xFFFFFFFF ∧ Restored m m'

/-! ### Selectors -/

theorem getLsbD_segWord (clears : Bool) (s : BitVec 16) (old : BitVec 32) {i : ℕ} (hi : i < 16) :
    (segWord clears s old).getLsbD i = s.getLsbD i := by
  rw [segWord, BitVec.getLsbD_append, if_pos hi]

theorem setWidth_segWord (clears : Bool) (s : BitVec 16) (old : BitVec 32) :
    (segWord clears s old).setWidth 16 = s := by
  apply BitVec.eq_of_getLsbD_eq
  intro i hi
  rw [BitVec.getLsbD_setWidth, getLsbD_segWord _ _ _ hi, decide_eq_true hi, Bool.true_and]

theorem segWord_true (s : BitVec 16) (old : BitVec 32) : segWord true s old = s.setWidth 32 := by
  apply BitVec.eq_of_getLsbD_eq
  intro i hi
  rw [BitVec.getLsbD_setWidth, decide_eq_true hi, Bool.true_and]
  by_cases hlow : i < 16
  · exact getLsbD_segWord _ _ _ hlow
  · rw [segWord, BitVec.getLsbD_append, if_neg hlow, BitVec.getLsbD_of_ge s i (by omega)]
    exact BitVec.getLsbD_zero

/-! ### The pushes -/

/-- The words `ws` have been pushed, and nothing else has happened. -/
structure Pushed (m₀ m : Machine) (ws : List (BitVec 32)) : Prop where
  reg : ∀ r, r ≠ .esp → m.reg r = m₀.reg r
  seg : m.seg = m₀.seg
  esp : m.reg .esp = m₀.reg .esp - BitVec.ofNat 32 (4 * ws.length)
  stacked : m.mem.Stacked (m.reg .esp) ws

namespace Pushed

theorem push (h : Pushed m₀ m ws) (hlen : ws.length < 2 ^ 30 - 1) (w : BitVec 32) :
    Pushed m₀ (push m w) (w :: ws) where
  reg r hr := (Function.update_of_ne hr _ _).trans (h.reg r hr)
  seg := h.seg
  esp := by
    simp only [Syscall.push, Function.update_self, h.esp, List.length_cons]
    bv_omega
  stacked := by
    simp only [Syscall.push, Function.update_self]
    exact h.stacked.push hlen w

theorem exec_push (h : Pushed m₀ m ws) (hlen : ws.length < 2 ^ 30 - 1) (env : Env) {r : Reg}
    (hr : r ≠ .esp) :
    Pushed m₀ (exec env m (.push r)) (m₀.reg r :: ws) := by
  rw [exec, h.reg r hr]
  exact h.push hlen _

theorem exec_pushSeg (h : Pushed m₀ m ws) (hlen : ws.length < 2 ^ 30 - 1) (env : Env) (s : Seg) :
    ∃ old, Pushed m₀ (exec env m (.pushSeg s)) (segWord env.clears (m₀.seg s) old :: ws) := by
  rw [exec, h.seg]
  exact ⟨_, h.push hlen _⟩

end Pushed

/-- **The pushes** leave a `syscall_regs_t` on the stack. -/
theorem pushed_pushes (env : Env) (m : Machine) : ∃ esp ds es fs gs,
    Pushed m (pushes.foldl (exec env) m) [esp, m.reg .ebx, m.reg .ecx, m.reg .edx, m.reg .esi, m.reg .edi,
      m.reg .ebp, segWord env.clears (m.seg .ds) ds, segWord env.clears (m.seg .es) es,
      segWord env.clears (m.seg .fs) fs, segWord env.clears (m.seg .gs) gs, m.reg .eax] := by
  -- one step for each push of the source; what a selector is pushed over is not known
  have h0 : Pushed m m [] := ⟨fun _ _ => rfl, rfl, by simp, trivial⟩
  have h1 := h0.exec_push (by simp) env (r := .eax) (by decide)
  obtain ⟨gs, h2⟩ := h1.exec_pushSeg (by simp) env .gs
  obtain ⟨fs, h3⟩ := h2.exec_pushSeg (by simp) env .fs
  obtain ⟨es, h4⟩ := h3.exec_pushSeg (by simp) env .es
  obtain ⟨ds, h5⟩ := h4.exec_pushSeg (by simp) env .ds
  have h6 := h5.exec_push (by simp) env (r := .ebp) (by decide)
  have h7 := h6.exec_push (by simp) env (r := .edi) (by decide)
  have h8 := h7.exec_push (by simp) env (r := .esi) (by decide)
  have h9 := h8.exec_push (by simp) env (r := .edx) (by decide)
  have h10 := h9.exec_push (by simp) env (r := .ecx) (by decide)
  have h11 := h10.exec_push (by simp) env (r := .ebx) (by decide)
  exact ⟨_, ds, es, fs, gs, h11.push (by simp) _⟩

/-! ### The call -/

/-- The layout of `syscall_regs_t` is that of the words on the stack. -/
theorem syscallRegsAt_eq {mem : Mem} {a esp ebx ecx edx esi edi ebp ds es fs gs eax : BitVec 32}
    (h : mem.Stacked a [esp, ebx, ecx, edx, esi, edi, ebp, ds, es, fs, gs, eax]) :
    syscallRegsAt mem a = ⟨esp, ebx, ecx, edx, esi, edi, ebp, ds, es, fs, gs, eax⟩ := by
  simp only [Stacked, BitVec.add_assoc, BitVec.reduceAdd] at h
  obtain ⟨h0, h1, h2, h3, h4, h5, h6, h7, h8, h9, h10, h11, -⟩ := h
  rw [syscallRegsAt, SyscallRegs.mk.injEq]
  exact ⟨h0, h1, h2, h3, h4, h5, h6, h7, h8, h9, h10, h11⟩

/-! ### The pops -/

/-- **The pops** take the registers from the words on the stack. -/
theorem restored_pops (env : Env) {esp edx eax : BitVec 32} {ds es fs gs : BitVec 32}
    (hesp : m'.reg .esp = m.reg .esp - 48)
    (h : m'.mem.Stacked (m'.reg .esp) [esp, m.reg .ebx, m.reg .ecx, edx, m.reg .esi, m.reg .edi,
      m.reg .ebp, ds, es, fs, gs, eax])
    (hds : ds.setWidth 16 = m.seg .ds) (hes : es.setWidth 16 = m.seg .es)
    (hfs : fs.setWidth 16 = m.seg .fs) (hgs : gs.setWidth 16 = m.seg .gs) :
    Restored m (pops.foldl (exec env) m') := by
  -- the words of `ESP`, `EDX` and `EAX` are skipped
  obtain ⟨-, h1, h2, -, h4, h5, h6, h7, h8, h9, h10, -⟩ := h
  constructor
  case ebx => exact h1
  case ecx => exact h2
  case esi => exact h4
  case edi => exact h5
  case ebp => exact h6
  case esp =>
    have hadd : m'.reg .esp + 4 + 4 + 4 + 4 + 4 + 4 + 4 + 4 + 4 + 4 + 4 + 4 = m.reg .esp := by
      rw [hesp]
      bv_omega
    exact hadd
  case seg =>
    ext s : 1
    cases s with
    | ds => exact (congrArg (BitVec.setWidth 16) h7).trans hds
    | es => exact (congrArg (BitVec.setWidth 16) h8).trans hes
    | fs => exact (congrArg (BitVec.setWidth 16) h9).trans hfs
    | gs => exact (congrArg (BitVec.setWidth 16) h10).trans hgs

/-! ### The dispatcher -/

/-- The machine when the function of `syscalls[]` is entered. -/
def called (env : Env) (m : Machine) : Machine := push (pushes.foldl (exec env) m) env.returnAddr

/-- What that function is given. -/
def argument (env : Env) (m : Machine) : SyscallRegs :=
  syscallRegsAt (called env m).mem ((called env m).reg .esp + 4)

/-- **The argument** has the registers of the caller. -/
theorem describes_argument (env : Env) (m : Machine) : Describes env m (argument env m) := by
  obtain ⟨esp, ds, es, fs, gs, hp⟩ := pushed_pushes env m
  rw [argument, called, syscallRegsAt_eq (hp.push (by simp) env.returnAddr).stacked.2]
  constructor
  case segs =>
    exact ⟨setWidth_segWord _ _ _, setWidth_segWord _ _ _, setWidth_segWord _ _ _, setWidth_segWord _ _ _⟩
  case cleared =>
    intro hclears
    rw [hclears]
    exact ⟨segWord_true _ _, segWord_true _ _, segWord_true _ _, segWord_true _ _⟩
  all_goals rfl

/-- A function that leaves its argument alone leads to the caller's registers. -/
theorem restored_of_argKept (h : ArgKept (called env m) m') : Restored m (pops.foldl (exec env) m') := by
  obtain ⟨esp, ds, es, fs, gs, hp⟩ := pushed_pushes env m
  have hcalled := hp.push (by simp) env.returnAddr
  -- the return address on top of the argument has been taken off, and the argument is as it was
  have hstack := hcalled.stacked.2.congr fun i hi => h.arg i (by simpa using hi)
  rw [called] at h
  rw [← h.esp] at hstack
  have hesp : m'.reg .esp = m.reg .esp - 48 := by
    rw [h.esp, hcalled.esp]
    simp only [List.length_cons, List.length_nil]
    bv_omega
  exact restored_pops env hesp hstack (setWidth_segWord _ _ _) (setWidth_segWord _ _ _)
    (setWidth_segWord _ _ _) (setWidth_segWord _ _ _)

/-- A number that the assembly admits. -/
theorem syscallDispatcher_of_admitted (h : ¬ m.reg .eax > maxSyscallsAsm - 1) :
    syscallDispatcher env m = ⟨[(m.reg .eax, argument env m)],
      (env.syscalls (m.reg .eax) (called env m)).map (pops.foldl (exec env))⟩ := by
  -- none of the pushes is the call, and none of them touches `EAX`
  have hrun : run env (pushes ++ .callSyscalls :: pops) m =
      run env (.callSyscalls :: pops) (pushes.foldl (exec env) m) := rfl
  have heax : (pushes.foldl (exec env) m).reg .eax = m.reg .eax := rfl
  rw [syscallDispatcher, if_neg h, hrun, run, heax]
  cases hret : env.syscalls (m.reg .eax) (called env m) with
  | none =>
    rw [called] at hret
    simp only [hret]
    rfl
  | some m' =>
    rw [called] at hret
    simp only [hret]
    rfl

/-- A number that it does not. -/
theorem syscallDispatcher_of_not_admitted (h : m.reg .eax > maxSyscallsAsm - 1) :
    syscallDispatcher env m = ⟨[], some { m with reg := Function.update m.reg .eax (-1) }⟩ := by
  rw [syscallDispatcher, if_pos h]
  rfl

theorem restored_update_eax (m : Machine) (w : BitVec 32) :
    Restored m { m with reg := Function.update m.reg .eax w } := by
  constructor <;> rfl

/-- **When a system call is answered as the table says**: if and only if it is not number 4, which has
an entry but is not admitted. -/
theorem contract_iff (env : Env) (m : Machine) : Contract env m ↔ m.reg .eax ≠ 4 := by
  have hmax : maxSyscalls = 5 := rfl
  have hasm : maxSyscallsAsm - 1 = 3 := rfl
  have hthree : (3 : BitVec 32).toNat = 3 := rfl
  by_cases hadm : m.reg .eax > maxSyscallsAsm - 1
  · have hgt : 3 < (m.reg .eax).toNat := hadm
    rw [Contract, syscallDispatcher_of_not_admitted hadm]
    constructor
    · -- number 4 has an entry, and nothing is called
      rintro hcall heq
      rw [heq, if_pos (by decide)] at hcall
      obtain ⟨⟨r, hr, -⟩, -⟩ := hcall
      exact absurd hr (by simp)
    · intro hne
      have hne' : (m.reg .eax).toNat ≠ 4 := fun heq => hne (BitVec.eq_of_toNat_eq heq)
      rw [if_neg (by omega)]
      exact ⟨rfl, _, rfl, rfl, restored_update_eax m _⟩
  · have hle : (m.reg .eax).toNat ≤ 3 := by
      rw [hasm, gt_iff_lt, BitVec.lt_def] at hadm
      omega
    refine iff_of_true ?_ fun heq => ?_
    · rw [Contract, syscallDispatcher_of_admitted hadm, if_pos (by omega)]
      refine ⟨⟨_, rfl, describes_argument env m, fun hnone => ?_⟩, fun hkeep m' hm' => ?_⟩
      · exact ⟨called env m, rfl, Option.map_eq_none_iff.mp hnone⟩
      · obtain ⟨m₁, hm₁, rfl⟩ := Option.map_eq_some_iff.mp hm'
        exact restored_of_argKept (hkeep _ _ hm₁)
    · rw [heq] at hle
      exact absurd hle (by decide)

/-! ### A machine -/

/-- Functions that return zero at once. -/
def idleEnv : Env where
  clears := true
  returnAddr := 0x100000
  syscalls := fun _ m =>
    some { m with reg := Function.update (Function.update m.reg .esp (m.reg .esp + 4)) .eax 0 }

/-- A machine with the number `n` in `EAX`. -/
def machineWith (n : BitVec 32) : Machine where
  reg := fun r => if r = .eax then n else 0x9000
  seg := fun _ => 0x23
  mem := fun _ => 0

/-- `SYSCALL_EXIT` is not called. -/
theorem not_contract_exit : ¬ ∀ (env : Env) (m : Machine), Contract env m := by
  intro hall
  have hcall := hall idleEnv (machineWith 4)
  rw [Contract, syscallDispatcher_of_not_admitted (by decide), if_pos (by decide)] at hcall
  obtain ⟨⟨r, hr, -⟩, -⟩ := hcall
  exact absurd hr (by simp)

end FanOS.Syscall

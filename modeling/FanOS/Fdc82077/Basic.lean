import FanOS.Transition.Basic
import Mathlib.Data.Nat.Notation
import Mathlib.Tactic.SplitIfs

/-!
# The 82077 floppy disk controller, and programs that drive it

A command is a sequence of bytes whose length follows from the first one.  When it is complete the
controller has done with it, or gives result bytes, or executes it and interrupts the processor at the end.
Interrupts of the commands that move the head, and the four after a reset, wait to be asked for by the
command 8; with none waiting that command is invalid and has a single result byte.

A `Program` writes registers, sends and receives bytes, uses other devices, and waits for a flag that the
handler of the interrupt sets.  A `Behaviour` tells what the controller may answer and what it does to the
other devices, memory among them.  `Program.Safe` is the weakest precondition of a program, and
`invariant_of_safe` says what follows for every interleaving with the controller: no byte is sent to a
controller that does not take it, a program that waits is not left waiting, and the flag is never left over
from another command.
-/

namespace FanOS.Fdc82077

/-! ### The controller -/

inductive Phase
  /-- It takes commands; so many bytes of one have come. -/
  | command (received : List (BitVec 8))
  /-- It executes a command. -/
  | executing (cmd : List (BitVec 8))
  /-- It has these bytes to give. -/
  | result (bytes : List (BitVec 8))
  /-- It is held in reset. -/
  | reset
  /-- It starts after a reset. -/
  | starting
  deriving DecidableEq

structure Chip where
  phase : Phase
  /-- The digital output register. -/
  dor : BitVec 8
  /-- The data rate. -/
  ccr : BitVec 8
  /-- Status and cylinder of the interrupts that were not asked for yet. -/
  sense : List (BitVec 8 × BitVec 8)
  deriving DecidableEq

/-- The number of bytes of a command, by its first one. -/
def commandLength (b : BitVec 8) : ℕ :=
  match (b &&& 0x1F).toNat with
  | 3 => 3
  | 6 => 9
  | 7 => 2
  | 15 => 3
  | _ => 1

namespace Chip

variable (c : Chip)

/-- It executes a command, or starts, and will interrupt. -/
def Busy : Prop := c.phase = .starting ∨ ∃ cmd, c.phase = .executing cmd

/-- It waits for a command, of which nothing has come. -/
def Idle : Prop := c.phase = .command []

/-- Interrupts come through: the controller is not held in reset, and the gate is open. -/
def irqEnabled : Bool := c.dor.getLsbD 2 && c.dor.getLsbD 3

/-- A command is complete. -/
def dispatch (cmd : List (BitVec 8)) : Chip :=
  match ((cmd.headD 0) &&& 0x1F).toNat with
  | 3 => { c with phase := .command [] }
  | 6 | 7 | 15 => { c with phase := .executing cmd }
  | 8 =>
    match c.sense with
    | [] => { c with phase := .result [0x80] }
    | (st0, cylinder) :: sense => { c with phase := .result [st0, cylinder], sense := sense }
  | _ => { c with phase := .result [0x80] }

/-- A byte is written to the data register. -/
def write (b : BitVec 8) : Chip :=
  match c.phase with
  | .command received =>
    let cmd := received ++ [b]
    if cmd.length < commandLength (cmd.headD 0) then { c with phase := .command cmd } else c.dispatch cmd
  | _ => c

/-- A result byte has been read. -/
def afterRead : Chip :=
  match c.phase with
  | .result (_ :: b :: bs) => { c with phase := .result (b :: bs) }
  | _ => { c with phase := .command [] }

/-- The digital output register is written; its bit 2 is zero to hold the controller in reset. -/
def writeDor (val : BitVec 8) : Chip :=
  let c' := { c with dor := val }
  if !val.getLsbD 2 then { c' with phase := .reset, sense := [] }
  else if c.phase = .reset then { c' with phase := .starting }
  else c'

/-- What was executed comes to its end. -/
def complete (data : ℕ → BitVec 8) : Chip :=
  match c.phase with
  | .starting => { c with phase := .command [], sense := (List.range 4).map fun i => (data i, 0) }
  | .executing cmd =>
    if (cmd.headD 0 &&& 0x1F).toNat = 6 then { c with phase := .result ((List.range 7).map data) }
    else { c with phase := .command [], sense := [(data 0, data 1)] }
  | _ => c

/-! What the kind of a command decides. -/

theorem Idle.with_command {c : Chip} (h : c.Idle) : { c with phase := .command [] } = c := by
  have hphase : c.phase = .command [] := h
  rw [← hphase]

theorem Idle.not_busy {c : Chip} (h : c.Idle) : ¬c.Busy := by
  have hphase : c.phase = .command [] := h
  rintro (h' | ⟨_, h'⟩) <;> rw [hphase] at h' <;> cases h'

/-- The parameters of the drive are taken at once. -/
theorem Idle.dispatch_specify {c : Chip} (h : c.Idle) {cmd : List (BitVec 8)}
    (hcmd : (cmd.headD 0 &&& 0x1F).toNat = 3) : c.dispatch cmd = c := by
  unfold Chip.dispatch
  rw [hcmd]
  exact h.with_command

/-- Reads and moves of the head are executed. -/
theorem dispatch_execute {cmd : List (BitVec 8)}
    (hcmd : (cmd.headD 0 &&& 0x1F).toNat = 6 ∨ (cmd.headD 0 &&& 0x1F).toNat = 7 ∨
      (cmd.headD 0 &&& 0x1F).toNat = 15) : c.dispatch cmd = { c with phase := .executing cmd } := by
  obtain hcmd | hcmd | hcmd := hcmd <;> simp only [Chip.dispatch, hcmd]

/-- At its end a read has seven bytes to give. -/
theorem complete_read {cmd : List (BitVec 8)} (data : ℕ → BitVec 8)
    (hcmd : (cmd.headD 0 &&& 0x1F).toNat = 6) :
    ({ c with phase := .executing cmd } : Chip).complete data =
      { c with phase := .result ((List.range 7).map data) } := by
  unfold Chip.complete
  dsimp only
  rw [if_pos hcmd]

/-- At its end a move of the head waits to be asked for. -/
theorem complete_move {cmd : List (BitVec 8)} (data : ℕ → BitVec 8)
    (hcmd : (cmd.headD 0 &&& 0x1F).toNat ≠ 6) :
    ({ c with phase := .executing cmd } : Chip).complete data =
      { c with phase := .command [], sense := [(data 0, data 1)] } := by
  unfold Chip.complete
  dsimp only
  rw [if_neg hcmd]

end Chip

/-! ### Programs -/

/-- Programs beside other devices `δ`. -/
inductive Program (δ α : Type)
  | ret (a : α)
  | dor (val : BitVec 8) (next : Program δ α)
  | ccr (val : BitVec 8) (next : Program δ α)
  | send (b : BitVec 8) (next : Program δ α)
  | recv (next : BitVec 8 → Program δ α)
  /-- Wait for the flag and clear it. -/
  | wait (next : Program δ α)
  /-- Write to the other devices. -/
  | update (f : δ → δ) (next : Program δ α)
  /-- Look at the other devices. -/
  | look (next : δ → Program δ α)

/-- What happens when the controller comes to an end. -/
structure Behaviour (δ : Type) where
  /-- It may answer with the bytes `data` and leave the devices in the second state. -/
  completes : (c : Chip) → δ → (data : ℕ → BitVec 8) → δ → Prop
  exists_completes : ∀ (c : Chip) (x : δ), c.Busy → ∃ data x', completes c x data x'

/-- Any answer and any effect. -/
def anything (δ : Type) : Behaviour δ where
  completes _ _ _ _ := True
  exists_completes _ x _ := ⟨fun _ => 0, x, trivial⟩

variable {δ α β : Type} (B : Behaviour δ)

namespace Program

def bind : Program δ α → (α → Program δ β) → Program δ β
  | .ret a, f => f a
  | .dor val next, f => .dor val (next.bind f)
  | .ccr val next, f => .ccr val (next.bind f)
  | .send b next, f => .send b (next.bind f)
  | .recv next, f => .recv fun b => (next b).bind f
  | .wait next, f => .wait (next.bind f)
  | .update g next, f => .update g (next.bind f)
  | .look next, f => .look fun x => (next x).bind f

instance : Monad (Program δ) where
  pure := .ret
  bind := .bind

/-- The bytes of a command, one after the other. -/
def sends : List (BitVec 8) → Program δ Unit
  | [] => .ret ()
  | b :: bs => .send b (sends bs)

/-- Run from a controller and devices, the program does nothing amiss, and `Q` holds of its result and of both
at its end.  A read when there is nothing to read gives some byte. -/
def Safe (Q : α → Chip → δ → Prop) : Program δ α → Chip → δ → Prop
  | .ret a, c, x => Q a c x
  | .dor val next, c, x => ¬c.Busy ∧ next.Safe Q (c.writeDor val) x
  | .ccr val next, c, x => ¬c.Busy ∧ next.Safe Q { c with ccr := val } x
  | .send b next, c, x => (∃ received, c.phase = .command received) ∧ next.Safe Q (c.write b) x
  | .recv next, c, x =>
    (c.Idle ∧ ∀ b, (next b).Safe Q c x) ∨
      ∃ b bs, c.phase = .result (b :: bs) ∧ (next b).Safe Q c.afterRead x
  | .wait next, c, x =>
    c.Busy ∧ c.irqEnabled = true ∧ ∀ data x', B.completes c x data x' → next.Safe Q (c.complete data) x'
  | .update f next, c, x => ¬c.Busy ∧ next.Safe Q c (f x)
  | .look next, c, x => ¬c.Busy ∧ (next x).Safe Q c x

variable {B} {Q R : α → Chip → δ → Prop} {p : Program δ α} {c : Chip} {x : δ}

/-- **Consequence.** -/
theorem Safe.mono (h : p.Safe B Q c x) (hQ : ∀ a c x, Q a c x → R a c x) : p.Safe B R c x := by
  induction p generalizing c x with
  | ret a => exact hQ a c x h
  | dor val next ih => exact ⟨h.1, ih h.2⟩
  | ccr val next ih => exact ⟨h.1, ih h.2⟩
  | send b next ih => exact ⟨h.1, ih h.2⟩
  | recv next ih =>
    obtain ⟨hidle, hnext⟩ | ⟨b, bs, hphase, hnext⟩ := h
    · exact Or.inl ⟨hidle, fun b => ih b (hnext b)⟩
    · exact Or.inr ⟨b, bs, hphase, ih b hnext⟩
  | wait next ih => exact ⟨h.1, h.2.1, fun data x' hx => ih (h.2.2 data x' hx)⟩
  | update f next ih => exact ⟨h.1, ih h.2⟩
  | look next ih => exact ⟨h.1, ih x h.2⟩

/-- **Sequencing.** -/
theorem Safe.bind {f : α → Program δ β} {Q : β → Chip → δ → Prop}
    (h : p.Safe B (fun a c x => (f a).Safe B Q c x) c x) : (p >>= f).Safe B Q c x := by
  change (p.bind f).Safe B Q c x
  induction p generalizing c x with
  | ret a => exact h
  | dor val next ih => exact ⟨h.1, ih h.2⟩
  | ccr val next ih => exact ⟨h.1, ih h.2⟩
  | send b next ih => exact ⟨h.1, ih h.2⟩
  | recv next ih =>
    obtain ⟨hidle, hnext⟩ | ⟨b, bs, hphase, hnext⟩ := h
    · exact Or.inl ⟨hidle, fun b => ih b (hnext b)⟩
    · exact Or.inr ⟨b, bs, hphase, ih b hnext⟩
  | wait next ih => exact ⟨h.1, h.2.1, fun data x' hx => ih (h.2.2 data x' hx)⟩
  | update f next ih => exact ⟨h.1, ih h.2⟩
  | look next ih => exact ⟨h.1, ih x h.2⟩

/-- The rest of a command, after some bytes of it. -/
theorem safe_sends_of {received bs : List (BitVec 8)} {Q : Unit → Chip → δ → Prop}
    (hphase : c.phase = .command received) (hne : bs ≠ [])
    (hlen : (received ++ bs).length = commandLength ((received ++ bs).headD 0))
    (hQ : Q () ({ c with phase := .command received }.dispatch (received ++ bs)) x) :
    (sends bs).Safe B Q c x := by
  induction bs generalizing received c with
  | nil => exact absurd rfl hne
  | cons b bs ih =>
    refine ⟨⟨received, hphase⟩, ?_⟩
    rw [Chip.write, hphase]
    dsimp only
    have hassoc : received ++ b :: bs = received ++ [b] ++ bs := by simp
    rw [hassoc] at hlen hQ
    obtain rfl | hbs := eq_or_ne bs []
    · -- the last byte
      rw [List.append_nil] at hlen hQ
      rw [if_neg (by rw [hlen]; exact Nat.lt_irrefl _)]
      have hchip : ({ c with phase := .command received } : Chip) = c := by rw [← hphase]
      rw [hchip] at hQ
      exact hQ
    · have hhead : (received ++ [b] ++ bs).headD 0 = (received ++ [b]).headD 0 := by
        cases received <;> rfl
      have hpos : 0 < bs.length := List.length_pos_iff.mpr hbs
      have hmore : (received ++ [b] ++ bs).length = (received ++ [b]).length + bs.length := List.length_append
      rw [if_pos (by rw [← hhead, ← hlen, hmore]; omega)]
      refine ih rfl hbs hlen ?_
      have hsame : ({ { c with phase := .command (received ++ [b]) } with
          phase := .command (received ++ [b]) } : Chip).dispatch (received ++ [b] ++ bs) =
          ({ c with phase := .command received } : Chip).dispatch (received ++ [b] ++ bs) := by
        unfold Chip.dispatch
        rfl
      rw [hsame]
      exact hQ

/-- **A command** sent to an idle controller is taken as a whole. -/
theorem safe_sends {cmd : List (BitVec 8)} {Q : Unit → Chip → δ → Prop} (hidle : c.Idle) (hne : cmd ≠ [])
    (hlen : cmd.length = commandLength (cmd.headD 0)) (hQ : Q () (c.dispatch cmd) x) :
    (sends cmd).Safe B Q c x := by
  refine safe_sends_of hidle hne hlen ?_
  have hchip : ({ c with phase := .command [] } : Chip) = c := by rw [← hidle]
  rw [hchip]
  exact hQ

/-- **A command that is executed**: sent to an idle controller whose interrupts come through, and waited
for. -/
theorem safe_execute {cmd : List (BitVec 8)} {next : Program δ α} (hidle : c.Idle) (hne : cmd ≠ [])
    (hlen : cmd.length = commandLength (cmd.headD 0))
    (hexec : c.dispatch cmd = { c with phase := .executing cmd }) (hirq : c.irqEnabled = true)
    (hQ : ∀ data x', B.completes { c with phase := .executing cmd } x data x' →
      next.Safe B Q (({ c with phase := .executing cmd } : Chip).complete data) x') :
    (sends cmd >>= fun _ => .wait next).Safe B Q c x := by
  refine Safe.bind (safe_sends hidle hne hlen ?_)
  rw [hexec]
  exact ⟨Or.inr ⟨cmd, rfl⟩, hirq, hQ⟩

end Program

/-! ### Programs beside the controller -/

structure Bus (δ α : Type) where
  chip : Chip
  devices : δ
  /-- What the handler of the interrupt sets. -/
  flag : Bool
  program : Program δ α
  /-- Bytes that were sent when the controller takes none. -/
  lost : ℕ

inductive Event (δ : Type)
  /-- The program goes on; a read of nothing gives the byte. -/
  | program (b : BitVec 8)
  /-- The controller comes to the end of what it does. -/
  | complete (data : ℕ → BitVec 8) (devices : δ)

namespace Bus

variable (s : Bus δ α)

/-- The next step of the program. -/
def run (garbage : BitVec 8) : Bus δ α :=
  match s.program with
  | .ret _ => s
  | .dor val next => { s with chip := s.chip.writeDor val, program := next }
  | .ccr val next => { s with chip := { s.chip with ccr := val }, program := next }
  | .send b next =>
    match s.chip.phase with
    | .command _ => { s with chip := s.chip.write b, program := next }
    | _ => { s with program := next, lost := s.lost + 1 }
  | .recv next =>
    match s.chip.phase with
    | .result (b :: _) => { s with chip := s.chip.afterRead, program := next b }
    | _ => { s with program := next garbage }
  | .wait next => if s.flag then { s with flag := false, program := next } else s
  | .update f next => { s with devices := f s.devices, program := next }
  | .look next => { s with program := next s.devices }

/-- The controller comes to the end of what it does, and interrupts if it may. -/
def complete (data : ℕ → BitVec 8) (devices : δ) : Bus δ α :=
  { s with chip := s.chip.complete data, devices := devices, flag := s.flag || s.chip.irqEnabled }

end Bus

/-- A program and the controller, step by step in any order. -/
def system (p : Program δ α) (c : Chip) (x : δ) : System (Bus δ α) (Event δ) where
  init s := s = ⟨c, x, false, p, 0⟩
  step s e s' :=
    match e with
    | .program b => s' = s.run b
    | .complete data x' => s.chip.Busy ∧ B.completes s.chip s.devices data x' ∧ s' = s.complete data x'

/-- What is true of every run of a safe program. -/
structure Orderly (Q : α → Chip → δ → Prop) (s : Bus δ α) : Prop where
  /-- Every byte that was sent was taken. -/
  lost : s.lost = 0
  /-- A program that waits will go on: the flag is set, or the controller will interrupt. -/
  waiting : ∀ next, s.program = .wait next → s.flag = true ∨ s.chip.Busy ∧ s.chip.irqEnabled = true
  /-- The flag is set for a program that waits, by the command that it waits for. -/
  flag : s.flag = true → ∃ next, s.program = .wait next ∧ ¬s.chip.Busy
  /-- The controller interrupts no program but one that waits. -/
  busy : s.chip.Busy → ∃ next, s.program = .wait next
  /-- At its end the program has done what it should. -/
  result : ∀ a, s.program = .ret a → Q a s.chip s.devices

/-- The invariant: the rest of the program is safe, now or once it has seen the flag. -/
def Inv (Q : α → Chip → δ → Prop) (s : Bus δ α) : Prop :=
  s.lost = 0 ∧ (s.flag = false ∧ s.program.Safe B Q s.chip s.devices ∨
    s.flag = true ∧ ¬s.chip.Busy ∧ ∃ next, s.program = .wait next ∧ next.Safe B Q s.chip s.devices)

variable {B} {Q : α → Chip → δ → Prop} {s s' : Bus δ α}

/-- A controller that has come to an end interrupts no more. -/
theorem not_busy_complete (c : Chip) (data : ℕ → BitVec 8) : ¬(c.complete data).Busy ∨ ¬c.Busy := by
  by_cases h : c.Busy
  · left
    unfold Chip.complete
    obtain h | ⟨cmd, h⟩ := h
    · rw [h]
      rintro (h' | ⟨_, h'⟩) <;> cases h'
    · rw [h]
      dsimp only
      split_ifs <;> rintro (h' | ⟨_, h'⟩) <;> cases h'
  · exact Or.inr h

/-- The step of a program. -/
theorem Inv.run (h : Inv B Q s) (b : BitVec 8) : Inv B Q (s.run b) := by
  obtain ⟨hlost, ⟨hflag, hsafe⟩ | ⟨hflag, hbusy, next, hprogram, hsafe⟩⟩ := h
  · unfold Bus.run
    obtain ⟨chip, devices, flag, program, lost⟩ := s
    dsimp only at hlost hflag hsafe ⊢
    cases program with
    | ret a => exact ⟨hlost, Or.inl ⟨hflag, hsafe⟩⟩
    | dor val next => exact ⟨hlost, Or.inl ⟨hflag, hsafe.2⟩⟩
    | ccr val next => exact ⟨hlost, Or.inl ⟨hflag, hsafe.2⟩⟩
    | send b next =>
      obtain ⟨⟨received, hphase⟩, hnext⟩ := hsafe
      simp only [hphase]
      exact ⟨hlost, Or.inl ⟨hflag, hnext⟩⟩
    | recv next =>
      obtain ⟨hidle, hnext⟩ | ⟨b', bs, hphase, hnext⟩ := hsafe
      · rw [Chip.Idle] at hidle
        simp only [hidle]
        exact ⟨hlost, Or.inl ⟨hflag, hnext b⟩⟩
      · simp only [hphase]
        exact ⟨hlost, Or.inl ⟨hflag, hnext⟩⟩
    | wait next =>
      simp only [hflag, Bool.false_eq_true, if_false]
      exact ⟨hlost, Or.inl ⟨rfl, hsafe⟩⟩
    | update f next => exact ⟨hlost, Or.inl ⟨hflag, hsafe.2⟩⟩
    | look next => exact ⟨hlost, Or.inl ⟨hflag, hsafe.2⟩⟩
  · unfold Bus.run
    rw [hprogram]
    simp only [hflag, if_true]
    exact ⟨hlost, Or.inl ⟨rfl, hsafe⟩⟩

/-- A safe program with a busy controller waits. -/
theorem exists_wait (hQ : ∀ a c x, Q a c x → ¬c.Busy) {p : Program δ α} {c : Chip} {x : δ}
    (h : p.Safe B Q c x) (hbusy : c.Busy) :
    ∃ next, p = .wait next ∧ c.irqEnabled = true ∧
      ∀ data x', B.completes c x data x' → next.Safe B Q (c.complete data) x' := by
  have hphase : ∀ received, c.phase ≠ .command received := by
    rintro received heq
    obtain h' | ⟨_, h'⟩ := hbusy <;> rw [heq] at h' <;> cases h'
  cases p with
  | ret a => exact absurd hbusy (hQ a c x h)
  | dor val next => exact absurd hbusy h.1
  | ccr val next => exact absurd hbusy h.1
  | send b next =>
    obtain ⟨received, heq⟩ := h.1
    exact absurd heq (hphase received)
  | recv next =>
    obtain ⟨hidle, -⟩ | ⟨b, bs, heq, -⟩ := h
    · exact absurd hidle (hphase [])
    · obtain h' | ⟨_, h'⟩ := hbusy <;> rw [heq] at h' <;> cases h'
  | wait next => exact ⟨next, rfl, h.2.1, h.2.2⟩
  | update f next => exact absurd hbusy h.1
  | look next => exact absurd hbusy h.1

/-- The end of a command. -/
theorem Inv.complete (hQ : ∀ a c x, Q a c x → ¬c.Busy) (h : Inv B Q s) (hbusy : s.chip.Busy)
    {data : ℕ → BitVec 8} {x' : δ} (hx : B.completes s.chip s.devices data x') :
    Inv B Q (s.complete data x') := by
  obtain ⟨hlost, ⟨hflag, hsafe⟩ | ⟨hflag, hidle, -⟩⟩ := h
  · obtain ⟨next, hprogram, hirq, hnext⟩ := exists_wait hQ hsafe hbusy
    refine ⟨hlost, Or.inr ⟨?_, ?_, next, hprogram, hnext data x' hx⟩⟩
    · change (s.flag || s.chip.irqEnabled) = true
      rw [hirq, Bool.or_true]
    · exact (not_busy_complete s.chip data).resolve_right (not_not.mpr hbusy)
  · exact absurd hbusy hidle

theorem inv_of_reachable (hQ : ∀ a c x, Q a c x → ¬c.Busy) {p : Program δ α} {c : Chip} {x : δ}
    (hsafe : p.Safe B Q c x) (h : (system B p c x).Reachable s) : Inv B Q s := by
  refine h.invariant ?_ fun s e s' hs hstep => ?_
  · rintro s rfl
    exact ⟨rfl, Or.inl ⟨rfl, hsafe⟩⟩
  · cases e with
    | program b =>
      rw [show s' = s.run b from hstep]
      exact hs.run b
    | complete data x' =>
      obtain ⟨hbusy, hx, rfl⟩ := hstep
      exact hs.complete hQ hbusy hx

/-- **Run rule**: a safe program is orderly in every interleaving with the controller. -/
theorem invariant_of_safe (hQ : ∀ a c x, Q a c x → ¬c.Busy) {p : Program δ α} {c : Chip} {x : δ}
    (hsafe : p.Safe B Q c x) (h : (system B p c x).Reachable s) : Orderly Q s := by
  obtain ⟨hlost, ⟨hflag, hsafe⟩ | ⟨hflag, hbusy, next, hprogram, hnext⟩⟩ := inv_of_reachable hQ hsafe h
  · refine ⟨hlost, fun next hprogram => Or.inr ?_, fun h => ?_, fun hbusy => ?_, fun a hprogram => ?_⟩
    · rw [hprogram] at hsafe
      exact ⟨hsafe.1, hsafe.2.1⟩
    · rw [hflag] at h
      cases h
    · obtain ⟨next, hprogram, -⟩ := exists_wait hQ hsafe hbusy
      exact ⟨next, hprogram⟩
    · rw [hprogram] at hsafe
      exact hsafe
  · refine ⟨hlost, fun _ _ => Or.inl hflag, fun _ => ⟨next, hprogram, hbusy⟩, fun h => absurd h hbusy,
      fun a hret => ?_⟩
    rw [hprogram] at hret
    cases hret

/-- The program has come to its end. -/
def Bus.Ended (s : Bus δ α) : Prop := ∃ a, s.program = .ret a

variable (B) in
/-- The system can go on to the end of the program. -/
def Ends (p : Program δ α) (c : Chip) (x : δ) (s : Bus δ α) : Prop :=
  ∃ s', ((system B p c x).startedIn s).Reachable s' ∧ s'.Ended

theorem Ends.of_run {p : Program δ α} {c : Chip} {x : δ} (b : BitVec 8) (h : Ends B p c x (s.run b)) :
    Ends B p c x s := by
  obtain ⟨t, ht, hend⟩ := h
  exact ⟨t, .of_step (show (system B p c x).step s (.program b) (s.run b) from rfl) ht, hend⟩

/-- A program whose invariant holds can be run to its end, by induction on what is left of it. -/
theorem Inv.ends (hQ : ∀ a c x, Q a c x → ¬c.Busy) (p : Program δ α) (c : Chip) (x : δ) {q : Program δ α}
    (hq : s.program = q) (h : Inv B Q s) : Ends B p c x s := by
  induction q generalizing s with
  | ret a => exact ⟨s, .init rfl, a, hq⟩
  | dor val next ih | ccr val next ih | update f next ih =>
    have hnext : (s.run 0).program = next := by
      unfold Bus.run
      rw [hq]
    exact .of_run 0 (ih hnext (h.run 0))
  | send b next ih =>
    have hnext : (s.run 0).program = next := by
      unfold Bus.run
      rw [hq]
      dsimp only
      split <;> rfl
    exact .of_run 0 (ih hnext (h.run 0))
  | recv next ih =>
    have hnext : ∃ b, (s.run 0).program = next b := by
      unfold Bus.run
      rw [hq]
      dsimp only
      split
      · exact ⟨_, rfl⟩
      · exact ⟨0, rfl⟩
    obtain ⟨b, hb⟩ := hnext
    exact .of_run 0 (ih b hb (h.run 0))
  | look next ih =>
    have hnext : (s.run 0).program = next s.devices := by
      unfold Bus.run
      rw [hq]
    exact .of_run 0 (ih _ hnext (h.run 0))
  | wait next ih =>
    have hflagged : ∀ t : Bus δ α, t.program = .wait next → t.flag = true → (t.run 0).program = next := by
      intro t ht hflag
      unfold Bus.run
      rw [ht]
      dsimp only
      rw [if_pos hflag]
    obtain ⟨hlost, ⟨hflag, hsafe⟩ | ⟨hflag, -⟩⟩ := id h
    · -- the controller comes to its end first
      rw [hq] at hsafe
      obtain ⟨data, x', hx⟩ := B.exists_completes s.chip s.devices hsafe.1
      have hinv := h.complete hQ hsafe.1 hx
      have hset : (s.complete data x').flag = true := by
        change (s.flag || s.chip.irqEnabled) = true
        rw [hsafe.2.1, Bool.or_true]
      have hstep : (system B p c x).step s (.complete data x') (s.complete data x') := ⟨hsafe.1, hx, rfl⟩
      obtain ⟨t, ht, hend⟩ := Ends.of_run 0 (ih (hflagged (s.complete data x') hq hset) (hinv.run 0))
      exact ⟨t, .of_step hstep ht, hend⟩
    · exact .of_run 0 (ih (hflagged s hq hflag) (h.run 0))

/-- **Progress**: from every state of a run of a safe program, the program can come to its end. -/
theorem ends_of_safe (hQ : ∀ a c x, Q a c x → ¬c.Busy) {p : Program δ α} {c : Chip} {x : δ}
    (hsafe : p.Safe B Q c x) (h : (system B p c x).Reachable s) : Ends B p c x s :=
  (inv_of_reachable hQ hsafe h).ends hQ p c x rfl

end FanOS.Fdc82077

import Mathlib.Data.Nat.Bitwise
import Mathlib.Data.Nat.Find
import Mathlib.Tactic.SplitIfs

/-!
# The 8259 interrupt controller

A controller has eight lines.  `irr` are the lines that ask for an interrupt, `isr` those that are being
served and `imr` those that are masked off; line 0 has the highest priority.  A line is passed on to the
processor if it is not masked and no line of its priority or a higher one is being served (`request`).  The
processor acknowledges it and reads its vector; the line is then being served until an end of interrupt is
written.

Initialization is a sequence of words, of which the first is told by its bit 4 and the others come in order
to the data port.  A second controller is attached to a line of the first one, as the third word says.
Rotating priorities, polling and the special mask mode are left out.
-/

namespace FanOS.Pic8259

/-! ### Lines -/

/-- The first line of a set. -/
def highest (v : BitVec 8) : Option ℕ := (List.range 8).find? fun i => v.getLsbD i

variable {v : BitVec 8} {i j : ℕ}

theorem highest_eq_some :
    highest v = some i ↔ v.getLsbD i = true ∧ i < 8 ∧ ∀ j < i, v.getLsbD j = false := by
  rw [highest, List.find?_range_eq_some]
  simp

/-- A line is added. -/
def withLine (v : BitVec 8) (i : ℕ) : BitVec 8 := v ||| BitVec.twoPow 8 i

/-- A line is taken away. -/
def withoutLine (v : BitVec 8) (i : ℕ) : BitVec 8 := v &&& ~~~BitVec.twoPow 8 i

@[simp] theorem getLsbD_withLine (hj : j < 8) :
    (withLine v i).getLsbD j = (v.getLsbD j || decide (j = i)) := by
  simp [withLine, hj, eq_comm]

@[simp] theorem getLsbD_withoutLine (hj : j < 8) :
    (withoutLine v i).getLsbD j = (v.getLsbD j && !decide (j = i)) := by
  simp [withoutLine, hj, eq_comm]

/-- A line that was added can be taken away. -/
theorem withoutLine_withLine_zero (i : ℕ) : withoutLine (withLine 0 i) i = 0 := by
  apply BitVec.eq_of_getLsbD_eq
  intro j hj
  rw [getLsbD_withoutLine hj, getLsbD_withLine hj]
  by_cases h : j = i <;> simp [h]

theorem highest_withLine_zero (hi : i < 8) : highest (withLine 0 i) = some i := by
  rw [highest_eq_some, getLsbD_withLine hi]
  refine ⟨by simp, hi, fun j hj => ?_⟩
  rw [getLsbD_withLine (hj.trans hi)]
  simp [hj.ne]

/-! ### A controller -/

/-- The word that the data port takes next. -/
inductive Phase
  | icw2 (single icw4 : Bool)
  | icw3 (icw4 : Bool)
  | icw4
  | ready
  deriving DecidableEq

structure Chip where
  phase : Phase
  irr : BitVec 8
  imr : BitVec 8
  isr : BitVec 8
  /-- The vector of line 0. -/
  base : BitVec 8
  /-- The third word of the initialization. -/
  cascade : BitVec 8
  /-- No end of interrupt is needed. -/
  autoEoi : Bool
  deriving DecidableEq

namespace Chip

variable (c : Chip)

/-- A byte is written to the command port. -/
def writeCommand (b : BitVec 8) : Chip :=
  if b.getLsbD 4 then
    { c with phase := .icw2 (b.getLsbD 1) (b.getLsbD 0), irr := 0, imr := 0, autoEoi := false }
  else if b.getLsbD 3 then c
  else if b.getLsbD 5 then
    -- end of interrupt: of the line that is named, or else of the highest one
    match if b.getLsbD 6 then some (b.setWidth 3).toNat else highest c.isr with
    | some i => { c with isr := withoutLine c.isr i }
    | none => c
  else c

/-- A byte is written to the data port. -/
def writeData (b : BitVec 8) : Chip :=
  match c.phase with
  | .ready => { c with imr := b }
  | .icw2 single icw4 =>
    { c with
      base := b &&& 0xF8
      phase := if !single then .icw3 icw4 else if icw4 then .icw4 else .ready }
  | .icw3 icw4 => { c with cascade := b, phase := if icw4 then .icw4 else .ready }
  | .icw4 => { c with autoEoi := b.getLsbD 1, phase := .ready }

/-- A device asks for an interrupt. -/
def raise (i : ℕ) : Chip := { c with irr := withLine c.irr i }

/-- The line that is passed on. -/
def request : Option ℕ :=
  (highest (c.irr &&& ~~~c.imr)).filter fun i => (List.range (i + 1)).all fun j => !c.isr.getLsbD j

/-- The processor takes the interrupt of a line. -/
def acknowledge (i : ℕ) : Chip :=
  { c with irr := withoutLine c.irr i, isr := if c.autoEoi then c.isr else withLine c.isr i }

variable {c}

/-- A line is passed on if it is the first that asks and is not masked, and none before it is served. -/
theorem request_eq_some : c.request = some i ↔ c.irr.getLsbD i = true ∧ c.imr.getLsbD i = false ∧ i < 8 ∧
    (∀ j < i, c.irr.getLsbD j = true → c.imr.getLsbD j = true) ∧ ∀ j ≤ i, c.isr.getLsbD j = false := by
  rw [request, Option.filter_eq_some_iff, highest_eq_some]
  have hbit : ∀ j < 8, (c.irr &&& ~~~c.imr).getLsbD j = (c.irr.getLsbD j && !c.imr.getLsbD j) := by
    intro j hj
    simp [hj]
  constructor
  · rintro ⟨⟨hi, hlt, hfirst⟩, hisr⟩
    rw [hbit i hlt, Bool.and_eq_true, Bool.not_eq_true'] at hi
    refine ⟨hi.1, hi.2, hlt, fun j hj hirr => ?_, fun j hj => ?_⟩
    · have h := hfirst j hj
      rw [hbit j (hj.trans hlt), hirr] at h
      simpa using h
    · simpa using List.all_eq_true.mp hisr j (List.mem_range.mpr (by omega))
  · rintro ⟨hirr, himr, hlt, hfirst, hisr⟩
    refine ⟨⟨by rw [hbit i hlt, hirr, himr]; rfl, hlt, fun j hj => ?_⟩, List.all_eq_true.mpr fun j hj => ?_⟩
    · rw [hbit j (hj.trans hlt)]
      cases hj' : c.irr.getLsbD j
      · rfl
      · rw [hfirst j hj hj']
        rfl
    · rw [hisr j (by have := List.mem_range.mp hj; omega)]
      rfl

/-- While nothing is being served, an unmasked line that asks is not held up. -/
theorem exists_request (hisr : c.isr = 0) (hirr : c.irr.getLsbD i = true) (himr : c.imr.getLsbD i = false) :
    ∃ j ≤ i, c.request = some j := by
  classical
  have hex : ∃ j, c.irr.getLsbD j = true ∧ c.imr.getLsbD j = false := ⟨i, hirr, himr⟩
  have hlt : i < 8 := by
    by_contra h
    rw [BitVec.getLsbD_of_ge _ _ (by omega)] at hirr
    cases hirr
  have hle : Nat.find hex ≤ i := Nat.find_min' hex ⟨hirr, himr⟩
  refine ⟨Nat.find hex, hle, request_eq_some.mpr ⟨(Nat.find_spec hex).1, (Nat.find_spec hex).2, by omega,
    fun j hj hj' => ?_, fun j _ => by rw [hisr]; simp⟩⟩
  by_contra hmask
  exact Nat.find_min hex hj ⟨hj', by simpa using hmask⟩

/-- What is masked is not passed on. -/
theorem request_of_masked (h : ∀ i < 8, c.imr.getLsbD i = true) : c.request = none := by
  rw [Option.eq_none_iff_forall_ne_some]
  intro i hi
  obtain ⟨-, himr, hlt, -⟩ := request_eq_some.mp hi
  rw [h i hlt] at himr
  cases himr

end Chip

/-! ### Two controllers -/

structure Pair where
  master : Chip
  slave : Chip
  deriving DecidableEq

namespace Pair

variable (p : Pair)

/-- The slave asks at its line of the master. -/
def masterInput : Chip :=
  if p.slave.request.isSome then { p.master with irr := p.master.irr ||| p.master.cascade } else p.master

/-- The line of the master that is passed on to the processor. -/
def request : Option ℕ := p.masterInput.request

/-- The processor asks for a vector.  When the line that had asked no longer does, it is told line 7. -/
def acknowledge : BitVec 8 × Pair :=
  match p.request with
  | none => (p.master.base + 7, p)
  | some i =>
    let master := p.master.acknowledge i
    if p.master.cascade.getLsbD i ∧ (p.slave.cascade.setWidth 3).toNat = i then
      match p.slave.request with
      | none => (p.slave.base + 7, { p with master := master })
      | some j => (p.slave.base + BitVec.ofNat 8 j, ⟨master, p.slave.acknowledge j⟩)
    else (p.master.base + BitVec.ofNat 8 i, { p with master := master })

/-- A device at one of the sixteen lines asks for an interrupt. -/
def raise (line : ℕ) : Pair :=
  if line < 8 then { p with master := p.master.raise line }
  else { p with slave := p.slave.raise (line - 8) }

/-- The line is masked off. -/
def masked (line : ℕ) : Bool :=
  if line < 8 then p.master.imr.getLsbD line else p.slave.imr.getLsbD (line - 8)

end Pair

end FanOS.Pic8259

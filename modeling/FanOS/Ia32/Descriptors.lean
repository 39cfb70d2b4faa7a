import Mathlib.Data.Nat.Bitwise

/-!
# Descriptors of the IA-32 processor

The processor reads an entry of a descriptor table as 64 bits.  A base, a limit or an offset stands there
in two or three fields that are not next to each other: `ofImage` puts them together.

Software cuts such a field out of a number with a shift and a mask (`setWidth_shift_and`).
-/

namespace FanOS.Ia32

/-! ### Fields of a number -/

section Fields

variable {w v : ℕ} {x mask : BitVec w}

/-- `v` bits are cut out with a mask that has `v` ones. -/
theorem setWidth_shift_and (hmask : mask.setWidth v = .allOnes v) (k : ℕ) :
    (x >>> k &&& mask).setWidth v = x.extractLsb' k v := by
  rw [BitVec.setWidth_and, hmask, BitVec.and_allOnes, BitVec.setWidth_ushiftRight_eq_extractLsb]

/-- The lowest field needs no shift. -/
theorem setWidth_and_mask (hmask : mask.setWidth v = .allOnes v) :
    (x &&& mask).setWidth v = x.extractLsb' 0 v := by
  rw [← setWidth_shift_and hmask 0, BitVec.ushiftRight_zero]

end Fields

/-! ### Entries of the descriptor tables -/

/-- A segment descriptor. -/
structure SegmentDescriptor where
  base : BitVec 32
  limit : BitVec 20
  /-- The bits 40 to 47: present, privilege level and type. -/
  access : BitVec 8
  /-- The bits 52 to 55: granularity, operation size. -/
  granularity : BitVec 4
  deriving DecidableEq

/-- What the processor reads in an entry of the global descriptor table. -/
def SegmentDescriptor.ofImage (d : BitVec 64) : SegmentDescriptor where
  base := d.extractLsb' 56 8 ++ d.extractLsb' 16 24
  limit := d.extractLsb' 48 4 ++ d.extractLsb' 0 16
  access := d.extractLsb' 40 8
  granularity := d.extractLsb' 52 4

/-- An interrupt or trap gate. -/
structure GateDescriptor where
  offset : BitVec 32
  selector : BitVec 16
  /-- The bits 40 to 47: present, privilege level and type. -/
  flags : BitVec 8
  deriving DecidableEq

/-- What the processor reads in an entry of the interrupt descriptor table. -/
def GateDescriptor.ofImage (d : BitVec 64) : GateDescriptor where
  offset := d.extractLsb' 48 16 ++ d.extractLsb' 0 16
  selector := d.extractLsb' 16 16
  flags := d.extractLsb' 40 8

/-! ### Privilege -/

/-- The present bit. -/
def SegmentDescriptor.present (d : SegmentDescriptor) : Bool := d.access.getLsbD 7

/-- The privilege level of a segment. -/
def SegmentDescriptor.dpl (d : SegmentDescriptor) : BitVec 2 := d.access.extractLsb' 5 2

/-- It is a segment of code, and not of data or of the system. -/
def SegmentDescriptor.code (d : SegmentDescriptor) : Bool := d.access.getLsbD 4 && d.access.getLsbD 3

/-- It is a segment of data that may be written. -/
def SegmentDescriptor.data (d : SegmentDescriptor) : Bool :=
  d.access.getLsbD 4 && !d.access.getLsbD 3 && d.access.getLsbD 1

/-- The segment is all of memory: it begins at 0, and its limit is the last of 2 ^ 20 pages. -/
def SegmentDescriptor.flat (d : SegmentDescriptor) : Prop :=
  d.base = 0 ∧ d.limit = .allOnes 20 ∧ d.granularity.getLsbD 3 = true

/-- The privilege level from which a program may use a gate with `int`. -/
def GateDescriptor.dpl (g : GateDescriptor) : BitVec 2 := g.flags.extractLsb' 5 2

/-- A program of privilege level `cpl` that executes `int` comes through the gate. -/
def GateDescriptor.Admits (g : GateDescriptor) (cpl : BitVec 2) : Prop :=
  g.flags.getLsbD 7 = true ∧ cpl ≤ g.dpl

instance (g : GateDescriptor) (cpl : BitVec 2) : Decidable (g.Admits cpl) :=
  inferInstanceAs (Decidable (_ ∧ _))

/-- It is a gate of 32 bits that clears the interrupt flag. -/
def GateDescriptor.interrupt (g : GateDescriptor) : Bool := g.flags.extractLsb' 0 5 == 0b01110

/-- It is a gate of 32 bits that does not. -/
def GateDescriptor.trap (g : GateDescriptor) : Bool := g.flags.extractLsb' 0 5 == 0b01111

/-- The entry that a selector names in the global descriptor table. -/
def selectorIndex (sel : BitVec 16) : ℕ := (sel >>> 3).toNat

/-- The privilege level that a selector asks for. -/
def selectorRpl (sel : BitVec 16) : BitVec 2 := sel.setWidth 2

end FanOS.Ia32

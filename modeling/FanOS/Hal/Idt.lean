import FanOS.Ia32.Descriptors
import Mathlib.Logic.Function.Basic

/-!
# The interrupt descriptor table (`idt.c`)

`idt_set_descriptor` cuts the address of a handler into two fields of an entry.  `GateDescriptor.ofImage` is
what the processor reads there.

The table is a map from vectors to entries, which goes on behind its last entry as memory does.
-/

namespace FanOS.Hal

open Ia32

/-- `IDT_SIZE`. -/
def idtSize : BitVec 32 := 256

/-- `idt_descriptor`. -/
structure IdtDescriptor where
  baseLow : BitVec 16
  selector : BitVec 16
  reserved : BitVec 8
  flags : BitVec 8
  baseHigh : BitVec 16
  deriving DecidableEq

/-- The entry as the number that its bytes are: the structure is packed, and the first field lies lowest. -/
def IdtDescriptor.image (d : IdtDescriptor) : BitVec 64 :=
  d.baseHigh ++ d.flags ++ d.reserved ++ d.selector ++ d.baseLow

/-- The entries from `idt` on. -/
abbrev Idt := ℕ → IdtDescriptor

/-- `idt_set_descriptor`. -/
def idtSetDescriptor (i irq : BitVec 32) (flags : BitVec 16) (idt : Idt) : Idt :=
  if i > idtSize ∨ irq = 0 then idt
  else
    Function.update idt i.toNat {
      baseLow := (irq &&& 0xFFFF).setWidth 16
      selector := 0x08
      reserved := 0
      flags := flags.setWidth 8
      baseHigh := (irq >>> 16 &&& 0xFFFF).setWidth 16 }

variable {i irq : BitVec 32} {flags : BitVec 16} {idt : Idt}

theorem idtSetDescriptor_self (hi : i ≤ idtSize) (hirq : irq ≠ 0) :
    idtSetDescriptor i irq flags idt i.toNat = {
      baseLow := (irq &&& 0xFFFF).setWidth 16
      selector := 0x08
      reserved := 0
      flags := flags.setWidth 8
      baseHigh := (irq >>> 16 &&& 0xFFFF).setWidth 16 } := by
  have hguard : ¬ (i > idtSize ∨ irq = 0) := not_or.mpr ⟨Nat.not_lt.mpr hi, hirq⟩
  rw [idtSetDescriptor, if_neg hguard, Function.update_self]

/-- Without a handler nothing is written. -/
theorem idtSetDescriptor_zero : idtSetDescriptor i 0 flags idt = idt :=
  if_pos (.inr rfl)

/-- The other entries stay as they were. -/
theorem idtSetDescriptor_of_ne {j : ℕ} (hj : j ≠ i.toNat) :
    idtSetDescriptor i irq flags idt j = idt j := by
  unfold idtSetDescriptor
  split
  · rfl
  · exact Function.update_of_ne hj _ _

/-- The image of an entry, field by field. -/
theorem ofImage_idtDescriptor (d : IdtDescriptor) :
    GateDescriptor.ofImage d.image = ⟨d.baseHigh ++ d.baseLow, d.selector, d.flags⟩ := by
  simp (disch := omega) only [GateDescriptor.ofImage, IdtDescriptor.image,
    BitVec.extractLsb'_append_eq_of_le, BitVec.extractLsb'_append_eq_of_add_le, Nat.reduceSub,
    BitVec.extractLsb'_eq_self]

/-- The gate that the processor reads is the one that was asked for. -/
theorem ofImage_idtSetDescriptor (hi : i ≤ idtSize) (hirq : irq ≠ 0) :
    GateDescriptor.ofImage (idtSetDescriptor i irq flags idt i.toNat).image =
      ⟨irq, 0x08, flags.setWidth 8⟩ := by
  have hhigh : (irq >>> 16 &&& 0xFFFF).setWidth 16 = irq.extractLsb' 16 16 := setWidth_shift_and rfl 16
  have hlow : (irq &&& 0xFFFF).setWidth 16 = irq.extractLsb' 0 16 := setWidth_and_mask rfl
  have hoffset : irq.extractLsb' 16 16 ++ irq.extractLsb' 0 16 = irq := BitVec.extractLsb'_append_extractLsb'
  rw [ofImage_idtDescriptor, idtSetDescriptor_self hi hirq]
  simp only [hhigh, hlow, hoffset]

end FanOS.Hal

import FanOS.Ia32.Descriptors
import Mathlib.Logic.Function.Basic

/-!
# The global descriptor table (`gdt.c`)

`gdt_set_descriptor` cuts a base and a limit into the fields of an entry.  `Segment` is what the processor
reads there: it puts the fields of the base together again, and those of the limit.  The same is said of the
64 bits of the entry by `ofImage_gdtSetDescriptor`.

The table is a map from indices to entries, which goes on behind its last entry as memory does.
-/

namespace FanOS.Hal

open Ia32

/-- `GDT_SIZE`. -/
def gdtSize : BitVec 32 := 6

def gdtDescAccess : BitVec 8 := 0x01
def gdtDescExecCode : BitVec 8 := 0x08
def gdtDescDpl : BitVec 8 := 0x60
def gdtDescMemory : BitVec 8 := 0x80

/-- `gdt_descriptor`. -/
structure GdtDescriptor where
  limit : BitVec 16
  baseLow : BitVec 16
  baseMid : BitVec 8
  flags : BitVec 8
  grand : BitVec 8
  baseHigh : BitVec 8
  deriving DecidableEq

/-- `sizeof(gdt_descriptor)`. -/
def sizeofGdtDescriptor : BitVec 32 := 8

/-- The entry as the number that its bytes are: the structure is packed, and the first field lies lowest. -/
def GdtDescriptor.image (d : GdtDescriptor) : BitVec 64 :=
  d.baseHigh ++ d.grand ++ d.flags ++ d.baseMid ++ d.baseLow ++ d.limit

/-- The entries from `gdt` on. -/
abbrev Gdt := ℕ → GdtDescriptor

/-- `gdt_set_descriptor`. -/
def gdtSetDescriptor (i : BitVec 32) (base limit : BitVec 64) (access grand : BitVec 8) (gdt : Gdt) : Gdt :=
  if i > gdtSize then gdt
  else
    Function.update gdt i.toNat {
      limit := (limit &&& 0xFFFF).setWidth 16
      baseLow := (base &&& 0xFFFF).setWidth 16
      baseMid := (base >>> 16 &&& 0xFF).setWidth 8
      flags := access
      grand := (limit >>> 16 &&& 0x0F).setWidth 8 ||| grand &&& 0xF0
      baseHigh := (base >>> 24 &&& 0xFF).setWidth 8 }

/-! ### What the processor reads -/

/-- A segment as its descriptor describes it. -/
structure Segment where
  base : BitVec 32
  /-- The last byte of the segment. -/
  limit : BitVec 32
  access : BitVec 8
  deriving DecidableEq

/-- The 20 bits of the limit. -/
def GdtDescriptor.limit20 (d : GdtDescriptor) : BitVec 20 := d.grand.setWidth 4 ++ d.limit

/-- The limit is in bytes, or in pages if the granularity bit is set. -/
def GdtDescriptor.segment (d : GdtDescriptor) : Segment where
  base := d.baseHigh ++ d.baseMid ++ d.baseLow
  limit := if d.grand.getLsbD 7 then d.limit20 ++ 0xFFF#12 else d.limit20.setWidth 32
  access := d.flags

variable {i : BitVec 32} {base limit : BitVec 64} {access grand : BitVec 8} {gdt : Gdt}

theorem gdtSetDescriptor_self (hi : i ≤ gdtSize) :
    gdtSetDescriptor i base limit access grand gdt i.toNat = {
      limit := (limit &&& 0xFFFF).setWidth 16
      baseLow := (base &&& 0xFFFF).setWidth 16
      baseMid := (base >>> 16 &&& 0xFF).setWidth 8
      flags := access
      grand := (limit >>> 16 &&& 0x0F).setWidth 8 ||| grand &&& 0xF0
      baseHigh := (base >>> 24 &&& 0xFF).setWidth 8 } := by
  rw [gdtSetDescriptor, if_neg (show ¬ i > gdtSize from Nat.not_lt.mpr hi), Function.update_self]

/-- The other entries stay as they were. -/
theorem gdtSetDescriptor_of_ne {j : ℕ} (hj : j ≠ i.toNat) :
    gdtSetDescriptor i base limit access grand gdt j = gdt j := by
  unfold gdtSetDescriptor
  split
  · rfl
  · exact Function.update_of_ne hj _ _

/-- The processor reads the base that was set, -/
theorem base_gdtSetDescriptor (hi : i ≤ gdtSize) :
    (gdtSetDescriptor i base limit access grand gdt i.toNat).segment.base = base.setWidth 32 := by
  have hhigh : (base >>> 24 &&& 0xFF).setWidth 8 = base.extractLsb' 24 8 := setWidth_shift_and rfl 24
  have hmid : (base >>> 16 &&& 0xFF).setWidth 8 = base.extractLsb' 16 8 := setWidth_shift_and rfl 16
  have hlow : (base &&& 0xFFFF).setWidth 16 = base.extractLsb' 0 16 := setWidth_and_mask rfl
  rw [gdtSetDescriptor_self hi, GdtDescriptor.segment]
  simp only [hhigh, hmid, hlow]
  rw [BitVec.extractLsb'_append_extractLsb'_eq_extractLsb' (show 24 = 16 + 8 from rfl),
    BitVec.extractLsb'_append_extractLsb'_eq_extractLsb' (show 16 = 0 + 16 from rfl),
    BitVec.setWidth_eq_extractLsb' (by omega)]

/-- and 20 bits of the limit. -/
theorem limit20_gdtSetDescriptor (hi : i ≤ gdtSize) :
    (gdtSetDescriptor i base limit access grand gdt i.toNat).limit20 = limit.setWidth 20 := by
  have hhigh : (limit >>> 16 &&& 0x0F).setWidth 4 = limit.extractLsb' 16 4 := setWidth_shift_and rfl 16
  have hlow : (limit &&& 0xFFFF).setWidth 16 = limit.extractLsb' 0 16 := setWidth_and_mask rfl
  have hgrand : ((limit >>> 16 &&& 0x0F).setWidth 8 ||| grand &&& 0xF0).setWidth 4 =
      (limit >>> 16 &&& 0x0F).setWidth 4 := by
    rw [BitVec.setWidth_or, BitVec.setWidth_setWidth_of_le _ (by omega), BitVec.setWidth_and (x := grand),
      show (0xF0 : BitVec 8).setWidth 4 = 0#4 from rfl, BitVec.and_zero, BitVec.or_zero]
  rw [gdtSetDescriptor_self hi, GdtDescriptor.limit20]
  simp only [hgrand, hhigh, hlow]
  rw [BitVec.extractLsb'_append_extractLsb'_eq_extractLsb' (show 16 = 0 + 16 from rfl),
    BitVec.setWidth_eq_extractLsb' (by omega)]

/-- The bits above those of the limit are the ones that were set. -/
theorem grand_gdtSetDescriptor (hi : i ≤ gdtSize) :
    (gdtSetDescriptor i base limit access grand gdt i.toNat).grand.extractLsb' 4 4 =
      grand.extractLsb' 4 4 := by
  have hlimit : ((limit >>> 16 &&& 0x0F).setWidth 8).extractLsb' 4 4 = 0#4 := by
    rw [BitVec.setWidth_and, BitVec.extractLsb'_and,
      show ((0x0F : BitVec 64).setWidth 8).extractLsb' 4 4 = 0#4 from rfl, BitVec.and_zero]
  rw [gdtSetDescriptor_self hi, BitVec.extractLsb'_or, hlimit, BitVec.zero_or, BitVec.extractLsb'_and,
    show (0xF0 : BitVec 8).extractLsb' 4 4 = .allOnes 4 from rfl, BitVec.and_allOnes]

/-- The granularity bit is one of them. -/
theorem granularity_gdtSetDescriptor (hi : i ≤ gdtSize) :
    (gdtSetDescriptor i base limit access grand gdt i.toNat).grand.getLsbD 7 = grand.getLsbD 7 := by
  have hbit : ((gdtSetDescriptor i base limit access grand gdt i.toNat).grand.extractLsb' 4 4).getLsbD 3 =
      (grand.extractLsb' 4 4).getLsbD 3 := by
    rw [grand_gdtSetDescriptor hi]
  simpa only [BitVec.getLsbD_extractLsb', Nat.reduceLT, decide_true, Bool.true_and, Nat.reduceAdd] using hbit

/-- The image of an entry, field by field. -/
theorem ofImage_gdtDescriptor (d : GdtDescriptor) :
    SegmentDescriptor.ofImage d.image = ⟨d.segment.base, d.limit20, d.flags, d.grand.extractLsb' 4 4⟩ := by
  -- the low part of the base lies across two fields of the structure
  have hbase : d.image.extractLsb' 16 24 = d.image.extractLsb' 32 8 ++ d.image.extractLsb' 16 16 :=
    show d.image.extractLsb' 16 (8 + 16) = _ from
      (BitVec.extractLsb'_append_extractLsb'_eq_extractLsb' rfl).symm
  have hassoc : d.baseHigh ++ (d.baseMid ++ d.baseLow) = d.baseHigh ++ d.baseMid ++ d.baseLow :=
    BitVec.append_assoc.symm
  have hlimit : d.grand.extractLsb' 0 4 = d.grand.setWidth 4 :=
    (BitVec.setWidth_eq_extractLsb' (by omega)).symm
  rw [SegmentDescriptor.ofImage, hbase]
  simp (disch := omega) only [GdtDescriptor.image, GdtDescriptor.segment, GdtDescriptor.limit20,
    BitVec.extractLsb'_append_eq_of_le, BitVec.extractLsb'_append_eq_of_add_le, Nat.reduceSub,
    BitVec.extractLsb'_eq_self, hlimit, hassoc]

/-- The descriptor that the processor reads is the one that was asked for. -/
theorem ofImage_gdtSetDescriptor (hi : i ≤ gdtSize) :
    SegmentDescriptor.ofImage (gdtSetDescriptor i base limit access grand gdt i.toNat).image =
      ⟨base.setWidth 32, limit.setWidth 20, access, grand.extractLsb' 4 4⟩ := by
  rw [ofImage_gdtDescriptor, base_gdtSetDescriptor hi, limit20_gdtSetDescriptor hi,
    grand_gdtSetDescriptor hi, gdtSetDescriptor_self hi]

/-- The user code segment of `gdt_init`: 4 GiB, in pages. -/
example : SegmentDescriptor.ofImage
    (gdtSetDescriptor 3 0 0xFFFFFFFF 0xFA 0xCF (fun _ => ⟨0, 0, 0, 0, 0, 0⟩) 3).image =
      ⟨0, 0xFFFFF, 0xFA, 0xC⟩ := by decide

end FanOS.Hal

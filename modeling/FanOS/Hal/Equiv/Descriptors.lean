import FanOS.Hal.Gdt
import FanOS.Hal.Idt
import FanOS.LastWrite.Basic

/-!
# The descriptor tables lose nothing

`gdt_set_descriptor` and `idt_set_descriptor` cut what they are given into fields, and the processor puts
the fields together again.  It reads exactly what was given (`descriptors_lossless`), and after any list of
calls it reads in each entry what the last call for that entry has set.

A call whose index lies behind the table may write there, since the guards let the size itself pass.  It
writes no entry of the table.
-/

namespace FanOS.Hal

open Ia32 LastWrite

variable {j : ℕ}

/-- The two tables. -/
structure DescriptorTables where
  gdt : Gdt
  idt : Idt

namespace DescriptorTables

/-- The segment that the processor reads in entry `j`. -/
def segment (t : DescriptorTables) (j : ℕ) : SegmentDescriptor := .ofImage (t.gdt j).image

/-- The gate that the processor reads in entry `j`. -/
def gate (t : DescriptorTables) (j : ℕ) : GateDescriptor := .ofImage (t.idt j).image

end DescriptorTables

/-- A call of `gdt_set_descriptor` or of `idt_set_descriptor`. -/
inductive DescriptorCall
  | segment (i : BitVec 32) (base limit : BitVec 64) (access grand : BitVec 8)
  | gate (i irq : BitVec 32) (flags : BitVec 16)

namespace DescriptorCall

def run (t : DescriptorTables) : DescriptorCall → DescriptorTables
  | segment i base limit access grand => { t with gdt := gdtSetDescriptor i base limit access grand t.gdt }
  | gate i irq flags => { t with idt := idtSetDescriptor i irq flags t.idt }

section

variable (t : DescriptorTables) (i irq : BitVec 32) (base limit : BitVec 64) (access grand : BitVec 8)
  (flags : BitVec 16)

@[simp] theorem gdt_run_segment :
    ((segment i base limit access grand).run t).gdt = gdtSetDescriptor i base limit access grand t.gdt := rfl
@[simp] theorem idt_run_gate : ((gate i irq flags).run t).idt = idtSetDescriptor i irq flags t.idt := rfl

end

/-- The segment that the call asks for in entry `j`. -/
def segmentAt (j : ℕ) : DescriptorCall → Option SegmentDescriptor
  | segment i base limit access grand =>
    if i.toNat = j then some ⟨base.setWidth 32, limit.setWidth 20, access, grand.extractLsb' 4 4⟩ else none
  | gate _ _ _ => none

/-- The gate that the call asks for in entry `j`. -/
def gateAt (j : ℕ) : DescriptorCall → Option GateDescriptor
  | segment _ _ _ _ _ => none
  | gate i irq flags => if i.toNat = j ∧ irq ≠ 0 then some ⟨irq, 0x08, flags.setWidth 8⟩ else none

/-! ### One call -/

theorem segment_run (hj : j < gdtSize.toNat) (t : DescriptorTables) (c : DescriptorCall) :
    (c.run t).segment j = (c.segmentAt j).getD (t.segment j) := by
  cases c with
  | gate i irq flags => rfl
  | segment i base limit access grand =>
    rw [DescriptorTables.segment, DescriptorTables.segment, gdt_run_segment, segmentAt]
    by_cases hij : i.toNat = j
    · subst hij
      have hi : i ≤ gdtSize := Nat.le_of_lt hj
      rw [if_pos rfl, Option.getD_some, ofImage_gdtSetDescriptor hi]
    · rw [if_neg hij, Option.getD_none, gdtSetDescriptor_of_ne (Ne.symm hij)]

theorem gate_run (hj : j < idtSize.toNat) (t : DescriptorTables) (c : DescriptorCall) :
    (c.run t).gate j = (c.gateAt j).getD (t.gate j) := by
  cases c with
  | segment i base limit access grand => rfl
  | gate i irq flags =>
    rw [DescriptorTables.gate, DescriptorTables.gate, idt_run_gate, gateAt]
    by_cases hij : i.toNat = j
    · subst hij
      have hi : i ≤ idtSize := Nat.le_of_lt hj
      by_cases hirq : irq = 0
      · rw [if_neg (fun h => h.2 hirq), Option.getD_none, hirq, idtSetDescriptor_zero]
      · rw [if_pos ⟨rfl, hirq⟩, Option.getD_some, ofImage_idtSetDescriptor hi hirq]
    · rw [if_neg (fun h => hij h.1), Option.getD_none, idtSetDescriptor_of_ne (Ne.symm hij)]

theorem gdt_run_of_none (t : DescriptorTables) (c : DescriptorCall) (hc : c.segmentAt j = none) :
    (c.run t).gdt j = t.gdt j := by
  cases c with
  | gate i irq flags => rfl
  | segment i base limit access grand =>
    have hij : i.toNat ≠ j := by simpa [segmentAt] using hc
    exact gdtSetDescriptor_of_ne hij.symm

theorem idt_run_of_none (t : DescriptorTables) (c : DescriptorCall) (hc : c.gateAt j = none) :
    (c.run t).idt j = t.idt j := by
  cases c with
  | segment i base limit access grand => rfl
  | gate i irq flags =>
    by_cases hij : i.toNat = j
    · have hirq : irq = 0 := by simpa [gateAt, hij] using hc
      rw [idt_run_gate, hirq, idtSetDescriptor_zero]
    · exact idtSetDescriptor_of_ne (Ne.symm hij)

end DescriptorCall

/-! ### Any list of calls -/

open DescriptorCall

/-- Each entry of the tables reads as the last call for it has set it, and is unchanged if there was none.  An
index equal to the size of a table is accepted and written to, behind the table; it is assumed that nothing of
the other table is there. -/
structure KeepsWrites (calls : List DescriptorCall) (t t' : DescriptorTables) : Prop where
  segment : ∀ j < gdtSize.toNat, t'.segment j = (lastWrite (segmentAt j) calls).getD (t.segment j)
  gate : ∀ j < idtSize.toNat, t'.gate j = (lastWrite (gateAt j) calls).getD (t.gate j)
  gdt_of_none : ∀ j, lastWrite (segmentAt j) calls = none → t'.gdt j = t.gdt j
  idt_of_none : ∀ j, lastWrite (gateAt j) calls = none → t'.idt j = t.idt j

theorem keepsWrites_foldl (calls : List DescriptorCall) (t : DescriptorTables) :
    KeepsWrites calls t (calls.foldl run t) where
  segment j hj := read_foldl (·.segment j) run (segment_run hj) calls t
  gate j hj := read_foldl (·.gate j) run (gate_run hj) calls t
  gdt_of_none j h := read_foldl_of_none (·.gdt j) run gdt_run_of_none h t
  idt_of_none j h := read_foldl_of_none (·.idt j) run idt_run_of_none h t

/-! ### The encoders lose nothing -/

/-- The arguments of the functions are wider than what an entry holds. -/
theorem segment_lossless {i base : BitVec 32} {limit : BitVec 20} {access : BitVec 8}
    {granularity low : BitVec 4} {gdt : Gdt} (hi : i < gdtSize) :
    SegmentDescriptor.ofImage (gdtSetDescriptor i (base.setWidth 64) (limit.setWidth 64) access
      (granularity ++ low) gdt i.toNat).image = ⟨base, limit, access, granularity⟩ := by
  rw [ofImage_gdtSetDescriptor (Nat.le_of_lt hi), BitVec.setWidth_setWidth_of_le _ (by omega),
    BitVec.setWidth_setWidth_of_le _ (by omega), BitVec.setWidth_eq, BitVec.setWidth_eq,
    BitVec.extractLsb'_append_eq_left]

theorem gate_lossless {i irq : BitVec 32} {flags : BitVec 8} {idt : Idt} (hi : i < idtSize)
    (hirq : irq ≠ 0) :
    GateDescriptor.ofImage (idtSetDescriptor i irq (flags.setWidth 16) idt i.toNat).image =
      ⟨irq, 0x08, flags⟩ := by
  rw [ofImage_idtSetDescriptor (Nat.le_of_lt hi) hirq, BitVec.setWidth_setWidth_of_le _ (by omega),
    BitVec.setWidth_eq]

/-- **The descriptor encoders lose nothing**: the processor reads back what was set, the other entries are
unchanged, and after any list of calls it reads in each entry what the last call for that entry has set. -/
theorem descriptors_lossless :
    (∀ (gdt : Gdt) (i base : BitVec 32) (limit : BitVec 20) (access : BitVec 8)
        (granularity low : BitVec 4), i < gdtSize →
      SegmentDescriptor.ofImage (gdtSetDescriptor i (base.setWidth 64) (limit.setWidth 64) access
          (granularity ++ low) gdt i.toNat).image = ⟨base, limit, access, granularity⟩ ∧
        ∀ j ≠ i.toNat, gdtSetDescriptor i (base.setWidth 64) (limit.setWidth 64) access
          (granularity ++ low) gdt j = gdt j) ∧
    (∀ (idt : Idt) (i irq : BitVec 32) (flags : BitVec 8), i < idtSize → irq ≠ 0 →
      GateDescriptor.ofImage (idtSetDescriptor i irq (flags.setWidth 16) idt i.toNat).image =
          ⟨irq, 0x08, flags⟩ ∧
        ∀ j ≠ i.toNat, idtSetDescriptor i irq (flags.setWidth 16) idt j = idt j) ∧
    ∀ (calls : List DescriptorCall) (t : DescriptorTables), KeepsWrites calls t (calls.foldl run t) := by
  refine ⟨?_, ?_, keepsWrites_foldl⟩
  · intro gdt i base limit access granularity low hi
    exact ⟨segment_lossless hi, fun j hj => gdtSetDescriptor_of_ne hj⟩
  · intro idt i irq flags hi hirq
    exact ⟨gate_lossless hi hirq, fun j hj => idtSetDescriptor_of_ne hj⟩

end FanOS.Hal

import FanOS.Hal.Tss

/-!
# Leaving user mode

The descriptor of the task state segment has the right base, but its limit is the address behind the
segment, cut to 20 bits, and not the number of its last byte.  The stack pointer is cut to 16 bits when it
is passed to `tss_set_stack`.  So both are right for few addresses only (`ringReady_iff`).
-/

namespace FanOS.Hal

variable {address esp : BitVec 32} {s : Tables}

/-- The processor finds the segment at `address`, and the stack of the kernel in it. -/
structure RingReady (address esp : BitVec 32) (s : Tables) : Prop where
  base : (s.gdt 5).segment.base = address
  limit : (s.gdt 5).segment.limit = sizeofTssEntry - 1
  ss0 : s.tss.ss0 = 0x10
  esp0 : s.tss.esp0 = esp

theorem gdt_kmainTss (address esp : BitVec 32) (s : Tables) :
    (kmainTss address esp s).gdt 5 = gdtSetDescriptor 5 (address.setWidth 64)
      ((address + sizeofTssEntry).setWidth 64)
      (gdtDescAccess ||| gdtDescExecCode ||| gdtDescMemory ||| gdtDescDpl) 0 s.gdt (5 : BitVec 32).toNat :=
  rfl

theorem base_kmainTss : ((kmainTss address esp s).gdt 5).segment.base = address := by
  rw [gdt_kmainTss, base_gdtSetDescriptor (by decide), BitVec.setWidth_setWidth_of_le _ (by omega),
    BitVec.setWidth_eq]

/-- The limit is the address behind the segment. -/
theorem toNat_limit_kmainTss :
    ((kmainTss address esp s).gdt 5).segment.limit.toNat = (address.toNat + 104) % 2 ^ 20 := by
  have hgrand : ((kmainTss address esp s).gdt 5).grand.getLsbD 7 = false := by
    rw [gdt_kmainTss, granularity_gdtSetDescriptor (by decide)]
    rfl
  rw [GdtDescriptor.segment, hgrand, if_neg Bool.false_ne_true, gdt_kmainTss,
    limit20_gdtSetDescriptor (by decide)]
  simp only [BitVec.toNat_setWidth, BitVec.toNat_add, show sizeofTssEntry.toNat = 104 from rfl]
  omega

theorem limit_kmainTss_iff :
    ((kmainTss address esp s).gdt 5).segment.limit = sizeofTssEntry - 1 ↔
      address.toNat % 2 ^ 20 = 2 ^ 20 - 1 := by
  have hlimit : ((kmainTss address esp s).gdt 5).segment.limit.toNat = _ := toNat_limit_kmainTss
  have hsize : (sizeofTssEntry - 1).toNat = 103 := rfl
  rw [BitVec.toNat_eq, hlimit, hsize]
  omega

theorem esp0_kmainTss_iff : (kmainTss address esp s).tss.esp0 = esp ↔ esp.toNat < 2 ^ 16 := by
  have hesp : (kmainTss address esp s).tss.esp0 = (esp.setWidth 16).setWidth 32 := rfl
  have hlt := esp.isLt
  rw [hesp, BitVec.toNat_eq, BitVec.toNat_setWidth, BitVec.toNat_setWidth]
  omega

/-- **The way into the kernel is set up** if and only if the segment begins with the last byte of a block of
1 MiB, and the stack pointer is below 64 KiB. -/
theorem ringReady_iff (address esp : BitVec 32) (s : Tables) :
    RingReady address esp (kmainTss address esp s) ↔
      address.toNat % 2 ^ 20 = 2 ^ 20 - 1 ∧ esp.toNat < 2 ^ 16 := by
  constructor
  · intro h
    exact ⟨limit_kmainTss_iff.mp h.limit, esp0_kmainTss_iff.mp h.esp0⟩
  · rintro ⟨haddress, hesp⟩
    exact ⟨base_kmainTss, limit_kmainTss_iff.mpr haddress, rfl, esp0_kmainTss_iff.mpr hesp⟩

/-- A segment behind the start of the kernel, and its stack below 576 KiB. -/
theorem not_ringReady : ¬ ∀ (address esp : BitVec 32) (s : Tables),
    RingReady address esp (kmainTss address esp s) := by
  intro hall
  have hready := hall 0x106000 0x90000 ⟨fun _ => ⟨0, 0, 0, 0, 0, 0⟩, {}, 0⟩
  exact absurd (esp0_kmainTss_iff.mp hready.esp0) (by decide)

end FanOS.Hal

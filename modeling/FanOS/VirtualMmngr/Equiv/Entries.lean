import FanOS.VirtualMmngr.Basic

/-!
# Entries of directories and tables

The facts about masks that the paging proofs need.  A virtual address is determined up to its page
offset by its two indices (`page_eq_of_index_eq`).  `pt_entry_set_frame` masks with `PTE_FRAME`,
which lacks bit 31, while the processor takes all of the bits 12 to 31: the frame that a mapping
yields is the new address or-ed with bit 31 of the old entry (`frame_ptEntryMap`).
-/

namespace FanOS

open Mem (PageAligned)

/-! ### Indices -/

theorem toNat_and_1023 (x : BitVec 32) : (x &&& 0x3FF).toNat = x.toNat % 1024 := by
  rw [BitVec.toNat_and]
  exact Nat.and_two_pow_sub_one_eq_mod x.toNat 10

theorem toNat_pageDirIndex (v : VirtualAddr) : (pageDirIndex v).toNat = v.toNat / 2 ^ 22 := by
  have := v.isLt
  rw [pageDirIndex, toNat_and_1023, BitVec.toNat_ushiftRight, Nat.shiftRight_eq_div_pow]
  omega

theorem toNat_pageTableIndex (v : VirtualAddr) :
    (pageTableIndex v).toNat = v.toNat / 4096 % 1024 := by
  rw [pageTableIndex, toNat_and_1023, BitVec.toNat_ushiftRight, Nat.shiftRight_eq_div_pow]

theorem pageDirIndex_lt (v : VirtualAddr) : (pageDirIndex v).toNat < 1024 := by
  have := v.isLt
  rw [toNat_pageDirIndex]
  omega

theorem pageTableIndex_lt (v : VirtualAddr) : (pageTableIndex v).toNat < 1024 := by
  rw [toNat_pageTableIndex]
  omega

/-- The directory index needs no mask. -/
theorem ushiftRight_eq_pageDirIndex (v : VirtualAddr) : v >>> 22 = pageDirIndex v := by
  apply BitVec.eq_of_toNat_eq
  rw [toNat_pageDirIndex, BitVec.toNat_ushiftRight, Nat.shiftRight_eq_div_pow]

/-- The number of the page of a virtual address. -/
def page (v : VirtualAddr) : ℕ := v.toNat / 4096

/-- The two indices determine the page. -/
theorem page_eq_of_index_eq {v w : VirtualAddr} (hd : pageDirIndex v = pageDirIndex w)
    (ht : pageTableIndex v = pageTableIndex w) : page v = page w := by
  have hd' := congrArg BitVec.toNat hd
  have ht' := congrArg BitVec.toNat ht
  rw [toNat_pageDirIndex, toNat_pageDirIndex] at hd'
  rw [toNat_pageTableIndex, toNat_pageTableIndex] at ht'
  unfold page
  omega

theorem pageDirIndex_eq_of_page_eq {v w : VirtualAddr} (h : page v = page w) :
    pageDirIndex v = pageDirIndex w := by
  apply BitVec.eq_of_toNat_eq
  rw [toNat_pageDirIndex, toNat_pageDirIndex]
  unfold page at h
  omega

theorem pageTableIndex_eq_of_page_eq {v w : VirtualAddr} (h : page v = page w) :
    pageTableIndex v = pageTableIndex w := by
  apply BitVec.eq_of_toNat_eq
  rw [toNat_pageTableIndex, toNat_pageTableIndex]
  unfold page at h
  omega

/-! ### Frames -/

/-- The offset of an address in its page. -/
theorem toNat_and_fff (v : BitVec 32) : (v &&& 0xFFF).toNat = v.toNat % 4096 := by
  rw [BitVec.toNat_and]
  exact Nat.and_two_pow_sub_one_eq_mod v.toNat 12

theorem pageAligned_iff {t : BitVec 32} : PageAligned t ↔ t &&& 0xFFF = 0 := by
  rw [PageAligned, ← toNat_and_fff]
  exact ⟨fun h => BitVec.eq_of_toNat_eq h, fun h => by rw [h]; rfl⟩

theorem pageAligned_pageGetPhysicalAddress (e : BitVec 32) :
    PageAligned (pageGetPhysicalAddress e) := by
  rw [pageAligned_iff, pageGetPhysicalAddress, BitVec.and_assoc]
  exact BitVec.and_zero

/-- The frame bits of an aligned address are all of it. -/
theorem and_not_fff {t : BitVec 32} (ht : PageAligned t) : t &&& ~~~0xFFF = t := by
  rw [pageAligned_iff] at ht
  have hsplit : t = (t &&& ~~~0xFFF) ||| (t &&& 0xFFF) := by
    rw [← BitVec.and_or_distrib_left]
    exact (BitVec.and_allOnes (x := t)).symm
  rw [ht] at hsplit
  exact (hsplit.trans BitVec.or_zero).symm

/-- The frame bits of an address are those of its page. -/
theorem toNat_and_not_fff (v : BitVec 32) : (v &&& ~~~0xFFF).toNat = 4096 * (v.toNat / 4096) := by
  have hshift : v &&& ~~~(0xFFF : BitVec 32) = (v >>> 12) <<< 12 := by
    apply BitVec.eq_of_getLsbD_eq
    intro k hk
    have hconst : ∀ k : Fin 32, (0xFFF : BitVec 32).getLsbD k = decide (k.val < 12) := by decide
    rw [BitVec.getLsbD_and, BitVec.getLsbD_not, hconst ⟨k, hk⟩, BitVec.getLsbD_shiftLeft,
      BitVec.getLsbD_ushiftRight]
    by_cases h12 : k < 12
    · simp [h12]
    · simp [hk, h12, show 12 + (k - 12) = k by omega]
  have := v.isLt
  rw [hshift, BitVec.toNat_shiftLeft, BitVec.toNat_ushiftRight, Nat.shiftRight_eq_div_pow,
    Nat.shiftLeft_eq, Nat.mod_eq_of_lt (by omega), Nat.mul_comm]

/-- The frame of an aligned address with flags is the address. -/
theorem pageGetPhysicalAddress_or {t f : BitVec 32} (ht : PageAligned t)
    (hf : f &&& ~~~0xFFF = 0) : pageGetPhysicalAddress (f ||| t) = t := by
  rw [pageGetPhysicalAddress, BitVec.and_or_distrib_right, hf, and_not_fff ht]
  exact BitVec.zero_or

/-- The flags of an aligned address with flags are the flags. -/
theorem or_and_fff {t f : BitVec 32} (ht : PageAligned t) (hf : f &&& 0xFFF = f) :
    (f ||| t) &&& 0xFFF = f := by
  rw [BitVec.and_or_distrib_right, pageAligned_iff.mp ht, hf]
  exact BitVec.or_zero

/-- What `vmmngr_map_page` makes of a page table entry. -/
def ptEntryMap (p e : BitVec 32) : BitVec 32 := ptEntrySetFrame (ptEntryAddAttrib e ptePresent) p

/-- What `vmmngr_unmap_page` makes of a page table entry. -/
def ptEntryUnmap (e : BitVec 32) : BitVec 32 := ptEntryDelAttrib (ptEntrySetFrame e 0) ptePresent

/-- What `vmmngr_map_page` makes of an empty directory entry. -/
theorem pdEntrySetFrame_new (t : PhysicalAddr) :
    pdEntrySetFrame (pdEntryAddAttrib (pdEntryAddAttrib 0 pdePresent) pdeWritable) t = 3 ||| t := rfl

theorem three_or_ne_zero (t : BitVec 32) : 3 ||| t ≠ 0 := by
  intro h
  have hbit := congrArg (·.getLsbD 0) h
  simp at hbit

/-- A mapped entry is present. -/
theorem getLsbD_zero_ptEntryMap (p e : BitVec 32) : (ptEntryMap p e).getLsbD 0 = true := by
  simp [ptEntryMap, ptEntrySetFrame, entrySetFrame, ptEntryAddAttrib, entryAddAttrib, ptePresent,
    pteFrame]

/-- An unmapped entry is not present. -/
theorem getLsbD_zero_ptEntryUnmap (e : BitVec 32) : (ptEntryUnmap e).getLsbD 0 = false := by
  simp [ptEntryUnmap, ptEntryDelAttrib, entryDelAttrib, ptePresent]

/-- **The frame of a mapped entry** keeps bit 31 of the old entry. -/
theorem frame_ptEntryMap {p : BitVec 32} (hp : PageAligned p) (e : BitVec 32) :
    ptEntryMap p e &&& ~~~0xFFF = (e &&& 0x80000000) ||| p := by
  have hmask : ~~~pteFrame &&& ~~~0xFFF = 0x80000000 := by decide
  have hone : ptePresent &&& 0x80000000 = 0 := by decide
  rw [ptEntryMap, ptEntrySetFrame, entrySetFrame, BitVec.and_or_distrib_right, and_not_fff hp,
    BitVec.and_assoc, hmask, ptEntryAddAttrib, entryAddAttrib, BitVec.and_or_distrib_right, hone]
  exact congrArg (· ||| p) BitVec.or_zero

/-- The mapped frame is the one asked for iff it has bit 31 or the old entry does not. -/
theorem frame_ptEntryMap_eq_iff {p : BitVec 32} (hp : PageAligned p) (e : BitVec 32) :
    ptEntryMap p e &&& ~~~0xFFF = p ↔ p.getLsbD 31 = true ∨ e.getLsbD 31 = false := by
  rw [frame_ptEntryMap hp]
  -- bit 31 of the old entry is all that is left of it
  have hbit : ∀ k, k < 32 → (e &&& 0x80000000).getLsbD k = (decide (k = 31) && e.getLsbD 31) := by
    intro k hk
    have hconst : (0x80000000 : BitVec 32).getLsbD k = decide (k = 31) := by
      have h : ∀ i : Fin 32, (0x80000000 : BitVec 32).getLsbD i = decide (i.val = 31) := by decide
      exact h ⟨k, hk⟩
    rw [BitVec.getLsbD_and, hconst, Bool.and_comm]
    by_cases h31 : k = 31 <;> simp [h31]
  constructor
  · intro h
    have h31 := congrArg (·.getLsbD 31) h
    simp only [BitVec.getLsbD_or, hbit 31 (by decide)] at h31
    cases hpe : p.getLsbD 31 <;> simp_all
  · intro h
    apply BitVec.eq_of_getLsbD_eq
    intro k hk
    rw [BitVec.getLsbD_or, hbit k hk]
    by_cases h31 : k = 31
    · subst h31
      rcases h with h | h <;> rw [h] <;> simp
    · simp [h31]

end FanOS

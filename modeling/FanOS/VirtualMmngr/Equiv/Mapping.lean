import FanOS.VirtualMmngr.Equiv.Paging

/-!
# What `vmmngr_map_page` and `vmmngr_unmap_page` do

Each call on a page either leaves the tables alone, because a page table could not be allocated,
or is an update of one page table entry (`vmmngrMapPage_cases`, `vmmngrUnmapPage_spec`).
-/

namespace FanOS.Vmmngr

open Mem (entry PageAligned)

variable {s s' : Vmmngr} {v w : VirtualAddr} {f : BitVec 32 → BitVec 32}

/-! ### Updates and the walk -/

/-- An update of one page leaves the walk of every other page as it was. -/
theorem Updates.walk_of_ne (hu : Updates s s' v f) (h : PagingInv s) (h' : PagingInv s')
    (hw : page w ≠ page v) : s'.walk w = s.walk w := by
  rw [h.walk_eq, h'.walk_eq, hu.pte w, if_neg hw]
  by_cases h0 : s.dirEntry (pageDirIndex w) = 0
  · -- no table, so no entry that could be present
    have hpte : s.pte w = 0 := by rw [Vmmngr.pte, if_pos h0]
    simp [hpte]
  · rw [hu.dirEntry _ (pageDirIndex_lt w) h0]

theorem Updates.pte_self (hu : Updates s s' v f) : s'.pte v = f (s.pte v) := by
  rw [hu.pte, if_pos rfl]

theorem Updates.trans {s'' : Vmmngr} {g : BitVec 32 → BitVec 32} (hu : Updates s s' v f)
    (hu' : Updates s' s'' v g) : Updates s s'' v fun e => g (f e) := by
  refine ⟨fun i hi h0 => ?_, fun w => ?_⟩
  · have h1 := hu.dirEntry i hi h0
    rw [← h1]
    exact hu'.dirEntry i hi (by rwa [h1])
  · rw [hu'.pte w, hu.pte_self]
    by_cases hw : page w = page v
    · rw [if_pos hw, if_pos hw]
    · rw [if_neg hw, if_neg hw, hu.pte w, if_neg hw]

/-! ### Mapping -/

theorem pdEntryIsPresent_eq_zero_iff (e : BitVec 32) :
    pdEntryIsPresent e = 0 ↔ e.getLsbD 0 = false := by
  constructor
  · intro h
    have hbit := congrArg (·.getLsbD 0) h
    simpa [pdEntryIsPresent, pdePresent, ptePresent] using hbit
  · intro h
    apply BitVec.eq_of_getLsbD_eq
    intro k hk
    by_cases hk0 : k = 0
    · subst hk0
      simpa [pdEntryIsPresent, pdePresent, ptePresent] using h
    · have hone : ∀ k : Fin 8, k.val ≠ 0 → (ptePresent).getLsbD k = false := by decide
      rw [pdEntryIsPresent, BitVec.getLsbD_setWidth, BitVec.getLsbD_and, pdePresent,
        hone ⟨k, hk⟩ hk0]
      simp

namespace PagingInv

theorem isPresent_eq_zero_iff (h : PagingInv s) :
    pdEntryIsPresent (s.dirEntry (pageDirIndex v)) = 0 ↔ s.dirEntry (pageDirIndex v) = 0 := by
  rw [pdEntryIsPresent_eq_zero_iff]
  constructor
  · intro hbit
    by_contra h0
    exact Bool.false_ne_true (hbit.symm.trans (h.installed _ (pageDirIndex_lt v) h0).present)
  · intro h0
    rw [h0]
    rfl

/-- With a table installed the end of `vmmngr_map_page` changes the entry of `v`. -/
theorem mapEntry_eq (h : PagingInv s) (h0 : s.dirEntry (pageDirIndex v) ≠ 0) (p : PhysicalAddr) :
    mapEntry s (entry s.curdir (pageDirIndex v)) p v = s.modifyPte v (ptEntryMap p) := by
  have hne := (h.installed _ (pageDirIndex_lt v) h0).ne_zero
  rw [mapEntry, ← dirEntry, vmmngrPtableGetEntry, if_pos hne, Mem.modify32_modify32_self]
  rfl

/-- What mapping a page does to the state: nothing but to the bitmap, for want of a page table, or
it changes the entry of `v`, in a table that is there or in one that is installed first. -/
theorem vmmngrMapPage_eq (h : PagingInv s) (p : PhysicalAddr) (v : VirtualAddr) :
    s.vmmngrMapPage p v =
      if s.dirEntry (pageDirIndex v) ≠ 0 then s.modifyPte v (ptEntryMap p)
      else if s.pmm.pmmngrAllocBlock.1 = 0 then { s with pmm := s.pmm.pmmngrAllocBlock.2 }
      else (s.install s.pmm.pmmngrAllocBlock.2 v s.pmm.pmmngrAllocBlock.1).modifyPte v
        (ptEntryMap p) := by
  have hptr : vmmngrPdirectoryGetEntry s.vmmngrGetDirectory v = entry s.curdir (pageDirIndex v) := by
    rw [vmmngrPdirectoryGetEntry, vmmngrGetDirectory, if_pos h.curdir_ne_zero]
  rw [vmmngrMapPage]
  simp only [hptr]
  rw [← dirEntry]
  by_cases h0 : s.dirEntry (pageDirIndex v) = 0
  · rw [if_pos (h.isPresent_eq_zero_iff.mpr h0), if_neg (not_not.mpr h0)]
    by_cases ht : s.pmm.pmmngrAllocBlock.1 = 0
    · rw [if_pos ht, if_pos ht]
    · -- the entry is then written as if the table had been there
      rw [if_neg ht, if_neg ht]
      obtain ⟨hal, hfree, hmarked⟩ := s.pmm.pmmngrAllocBlock_fresh ht
      have hinst := h.install hal ht hfree h0
        (fun x hx hm => s.pmm.marked_pmmngrAllocBlock_of_marked hx hm) hmarked
      have hmap := hinst.mapEntry_eq (h.dirEntry_install_ne_zero _ hal hfree h0) p
      rw [Vmmngr.install] at hmap
      simp only [Mem.modify32_modify32_self]
      rw [hmap, Vmmngr.install]
  · rw [if_neg (mt h.isPresent_eq_zero_iff.mp h0), if_pos h0, h.mapEntry_eq h0]

/-- **Mapping a page** fails for want of a page table, or updates the entry of `v`. -/
theorem vmmngrMapPage_cases (h : PagingInv s) (p : PhysicalAddr) (v : VirtualAddr) :
    (s.dirEntry (pageDirIndex v) = 0 ∧ s.pmm.pmmngrAllocBlock.1 = 0 ∧
      s.vmmngrMapPage p v = { s with pmm := s.pmm.pmmngrAllocBlock.2 }) ∨
    ((s.dirEntry (pageDirIndex v) ≠ 0 ∨ s.pmm.pmmngrAllocBlock.1 ≠ 0) ∧
      PagingInv (s.vmmngrMapPage p v) ∧ Updates s (s.vmmngrMapPage p v) v (ptEntryMap p)) := by
  rw [h.vmmngrMapPage_eq p v]
  by_cases h0 : s.dirEntry (pageDirIndex v) = 0
  · rw [if_neg (not_not.mpr h0)]
    by_cases ht : s.pmm.pmmngrAllocBlock.1 = 0
    · rw [if_pos ht]
      exact Or.inl ⟨h0, ht, rfl⟩
    · rw [if_neg ht]
      refine Or.inr ⟨Or.inr ht, ?_⟩
      -- the table is installed first, then its entry is written
      obtain ⟨hal, hfree, hmarked⟩ := s.pmm.pmmngrAllocBlock_fresh ht
      have hinst := h.install hal ht hfree h0
        (fun x hx hm => s.pmm.marked_pmmngrAllocBlock_of_marked hx hm) hmarked
      have hne := h.dirEntry_install_ne_zero s.pmm.pmmngrAllocBlock.2 hal hfree h0
      have hup : Updates s (s.install s.pmm.pmmngrAllocBlock.2 v s.pmm.pmmngrAllocBlock.1) v id := by
        refine ⟨fun i hi hi0 => ?_, fun w => ?_⟩
        · rw [h.dirEntry_install _ hal hfree h0 hi, if_neg]
          rintro rfl
          exact hi0 h0
        · rw [h.pte_install _ hal hfree h0 w]
          split_ifs with hw
          · rw [id, pte, pte, pageDirIndex_eq_of_page_eq hw, pageTableIndex_eq_of_page_eq hw]
          · rfl
      exact ⟨hinst.modifyPte hne _, hup.trans (hinst.updates_modifyPte hne _)⟩
  · rw [if_pos h0]
    exact Or.inr ⟨Or.inl h0, h.modifyPte h0 _, h.updates_modifyPte h0 _⟩

/-- A directory entry stays as it is, or is that of a new table. -/
theorem dirEntry_vmmngrMapPage (h : PagingInv s) (p : PhysicalAddr) (v : VirtualAddr) {i : BitVec 32}
    (hi : i.toNat < 1024) :
    (s.vmmngrMapPage p v).dirEntry i = s.dirEntry i ∨
      ∃ t, PageAligned t ∧ (s.vmmngrMapPage p v).dirEntry i = 3 ||| t := by
  rw [h.vmmngrMapPage_eq p v]
  by_cases h0 : s.dirEntry (pageDirIndex v) = 0
  · rw [if_neg (not_not.mpr h0)]
    by_cases ht : s.pmm.pmmngrAllocBlock.1 = 0
    · rw [if_pos ht]
      exact Or.inl rfl
    · rw [if_neg ht]
      obtain ⟨hal, hfree, hmarked⟩ := s.pmm.pmmngrAllocBlock_fresh ht
      have hinst := h.install hal ht hfree h0
        (fun x hx hm => s.pmm.marked_pmmngrAllocBlock_of_marked hx hm) hmarked
      rw [hinst.dirEntry_modifyPte (h.dirEntry_install_ne_zero _ hal hfree h0) _ hi,
        h.dirEntry_install _ hal hfree h0 hi]
      split_ifs
      · exact Or.inr ⟨_, hal, rfl⟩
      · exact Or.inl rfl
  · rw [if_pos h0, h.dirEntry_modifyPte h0 _ hi]
    exact Or.inl rfl

/-- With a table installed, mapping a page leaves the bitmap alone. -/
theorem pmm_vmmngrMapPage (h : PagingInv s) (h0 : s.dirEntry (pageDirIndex v) ≠ 0) (p : PhysicalAddr) :
    (s.vmmngrMapPage p v).pmm = s.pmm := by
  rw [h.vmmngrMapPage_eq p v, if_pos h0]
  rfl

/-- Mapping a page keeps the invariant. -/
theorem vmmngrMapPage (h : PagingInv s) (p : PhysicalAddr) (v : VirtualAddr) :
    PagingInv (s.vmmngrMapPage p v) := by
  rcases h.vmmngrMapPage_cases p v with ⟨-, -, heq⟩ | ⟨-, hinv, -⟩
  · rw [heq]
    exact h.of_marked_le fun x hx hm => s.pmm.marked_pmmngrAllocBlock_of_marked hx hm
  · exact hinv

/-! ### Unmapping -/

/-- The pointer that `vmmngr_get_page` returns. -/
theorem vmmngrGetPage_eq (h : PagingInv s) (v : VirtualAddr) :
    s.vmmngrGetPage v = if s.dirEntry (pageDirIndex v) = 0 then 0
      else entry (pageGetPhysicalAddress (s.dirEntry (pageDirIndex v))) (pageTableIndex v) := by
  rw [vmmngrGetPage, vmmngrPdirectoryGetEntry, vmmngrGetDirectory, if_pos h.curdir_ne_zero, ← dirEntry,
    vmmngrPtableGetEntry]
  by_cases h0 : s.dirEntry (pageDirIndex v) = 0
  · rw [if_pos h0, h0]
    rfl
  · rw [if_neg h0, if_pos (h.installed _ (pageDirIndex_lt v) h0).ne_zero]

theorem entry_ne_zero {t i : BitVec 32} (ht : PageAligned t) (ht0 : t ≠ 0) (hi : i.toNat < 1024) :
    entry t i ≠ 0 := by
  have h0 : t.toNat ≠ 0 := fun h => ht0 (BitVec.eq_of_toNat_eq h)
  unfold PageAligned at ht
  unfold entry
  bv_omega

/-- **Unmapping a page** updates its entry. -/
theorem vmmngrUnmapPage_spec (h : PagingInv s) (v : VirtualAddr) :
    PagingInv (s.vmmngrUnmapPage v) ∧ Updates s (s.vmmngrUnmapPage v) v ptEntryUnmap := by
  rw [vmmngrUnmapPage]
  simp only
  rw [h.vmmngrGetPage_eq v]
  by_cases h0 : s.dirEntry (pageDirIndex v) = 0
  · rw [if_pos h0, if_pos rfl]
    refine ⟨h, fun _ _ _ => rfl, fun w => ?_⟩
    have hz : s.pte v = 0 := by rw [pte, if_pos h0]
    split_ifs with hw
    · have hz' : s.pte w = 0 := by rw [pte, pageDirIndex_eq_of_page_eq hw, if_pos h0]
      rw [hz, hz']
      rfl
    · rfl
  · rw [if_neg h0, if_neg (entry_ne_zero (pageAligned_pageGetPhysicalAddress _)
      (h.installed _ (pageDirIndex_lt v) h0).ne_zero (pageTableIndex_lt v)),
      Mem.modify32_modify32_self]
    exact ⟨h.modifyPte h0 ptEntryUnmap, h.updates_modifyPte h0 ptEntryUnmap⟩

end PagingInv

end FanOS.Vmmngr

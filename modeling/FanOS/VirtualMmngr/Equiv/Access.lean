import FanOS.VirtualMmngr.Equiv.Calls

/-!
# What user mode may access

A page can be read and written from user mode if the entries of both levels are present, writable and
user-accessible.  `vmmngr_init` gives these flags to the first 4 MiB and `vmmngr_map_page` keeps those
that it finds, but a table that it has to allocate is entered into the directory without the flag for
user mode.  So a page of the first 4 MiB is accessible whatever has been mapped, and one between there
and 3 GiB is not (`AccessInv`).
-/

namespace FanOS.Vmmngr

open Mem (entry PageAligned)

variable {s : Vmmngr} {v : VirtualAddr} {e : BitVec 32}

/-! ### Flags -/

/-- Present, writable and user-accessible. -/
def Full (e : BitVec 32) : Prop := e &&& 7 = 7

/-- The page of `v` can be read and written from user mode. -/
def UserPage (s : Vmmngr) (v : VirtualAddr) : Prop :=
  ∃ t, s.walk v = some t ∧ Full t.pdeFlags ∧ Full t.pteFlags

theorem full_iff : Full e ↔ ∀ k < 3, e.getLsbD k = true := by
  have hseven : ∀ k : Fin 32, (7 : BitVec 32).getLsbD k = decide (k.val < 3) := by decide
  constructor
  · intro h k hk
    have hbit := congrArg (·.getLsbD k) h
    simp only [BitVec.getLsbD_and, hseven ⟨k, by omega⟩, hk, decide_true, Bool.and_true] at hbit
    exact hbit
  · intro h
    apply BitVec.eq_of_getLsbD_eq
    intro k hk
    rw [BitVec.getLsbD_and, hseven ⟨k, hk⟩]
    by_cases hk3 : k < 3
    · simp [hk3, h k hk3]
    · simp [hk3]

/-- Flags are not cleared by setting bits. -/
theorem Full.or (h : Full e) (a : BitVec 32) : Full (e ||| a) := by
  rw [full_iff] at h ⊢
  intro k hk
  rw [BitVec.getLsbD_or, h k hk, Bool.true_or]

/-- Mapping a page keeps the flags of its entry. -/
theorem Full.ptEntryMap (h : Full e) (p : PhysicalAddr) : Full (ptEntryMap p e) := by
  have hframe : ∀ k : Fin 3, (~~~pteFrame).getLsbD k = true := by decide
  have hmask : Full ((e ||| ptePresent) &&& ~~~pteFrame) := by
    rw [full_iff]
    intro k hk
    rw [BitVec.getLsbD_and, full_iff.mp (h.or ptePresent) k hk, hframe ⟨k, hk⟩, Bool.true_and]
  exact hmask.or p

theorem full_and_fff : Full (e &&& 0xFFF) ↔ Full e := by
  unfold Full
  rw [BitVec.and_assoc, show (0xFFF : BitVec 32) &&& 7 = 7 from rfl]

theorem full_seven : Full 7 := by
  unfold Full
  rfl

theorem Full.ne_zero (h : Full e) : e ≠ 0 := by
  rintro rfl
  exact absurd (full_iff.mp h 0 (by omega)) (by decide)

/-- The walk finds the flags of the two entries. -/
theorem PagingInv.userPage_iff (h : PagingInv s) :
    s.UserPage v ↔ Full (s.dirEntry (pageDirIndex v)) ∧ Full (s.pte v) := by
  unfold UserPage
  rw [h.walk_eq]
  constructor
  · rintro ⟨t, ht, hpde, hpte⟩
    split_ifs at ht with hbit
    obtain rfl := Option.some.inj ht
    exact ⟨full_and_fff.mp hpde, full_and_fff.mp hpte⟩
  · rintro ⟨hpde, hpte⟩
    rw [if_pos (full_iff.mp hpte 0 (by omega))]
    exact ⟨_, rfl, full_and_fff.mpr hpde, full_and_fff.mpr hpte⟩

/-- `vmmngr_alloc_page` returns the block that it has got. -/
theorem vmmngrAllocPage_fst (s : Vmmngr) (e : BitVec 32) :
    (s.vmmngrAllocPage e).1 = s.pmm.pmmngrAllocBlock.1 := by
  unfold vmmngrAllocPage
  dsimp only
  split_ifs with h0
  · exact h0.symm
  · rfl

/-- What `vmmngr_alloc_page` does to the managers. -/
theorem vmmngrAllocPage_snd_snd (s : Vmmngr) (e : BitVec 32) :
    (s.vmmngrAllocPage e).2.2 = { s with pmm := s.pmm.pmmngrAllocBlock.2 } := by
  unfold vmmngrAllocPage
  dsimp only
  split_ifs <;> rfl

theorem dirEntry_vmmngrAllocPage (s : Vmmngr) (e i : BitVec 32) :
    (s.vmmngrAllocPage e).2.2.dirEntry i = s.dirEntry i := by
  rw [vmmngrAllocPage_snd_snd]
  rfl

/-! ### The invariant -/

/-- The first 4 MiB have all flags, and the directory entries from there to 3 GiB are not
user-accessible. -/
structure AccessInv (s : Vmmngr) : Prop where
  paging : PagingInv s
  low : ∀ v : VirtualAddr, v.toNat < 0x400000 → Full (s.dirEntry (pageDirIndex v)) ∧ Full (s.pte v)
  high : ∀ v : VirtualAddr, 0x400000 ≤ v.toNat → v.toNat < 0xC0000000 →
    (s.dirEntry (pageDirIndex v)).getLsbD 2 = false

namespace AccessInv

theorem userPage (h : AccessInv s) (hv : v.toNat < 0x400000) : s.UserPage v :=
  h.paging.userPage_iff.mpr (h.low v hv)

theorem not_userPage (h : AccessInv s) (hlo : 0x400000 ≤ v.toNat) (hhi : v.toNat < 0xC0000000) :
    ¬ s.UserPage v := by
  intro huser
  have hbit := full_iff.mp (h.paging.userPage_iff.mp huser).1 2 (by omega)
  rw [h.high v hlo hhi] at hbit
  exact Bool.false_ne_true hbit

/-- Taking blocks from the physical memory manager changes no entry. -/
theorem of_marked_le (h : AccessInv s) {pmm : Pmmngr}
    (hle : ∀ x, x < 2 ^ 35 → s.pmm.marked x = true → pmm.marked x = true) :
    AccessInv { s with pmm := pmm } := ⟨h.paging.of_marked_le hle, h.low, h.high⟩

/-- An update that keeps flags. -/
theorem of_updates {s' : Vmmngr} {f : BitVec 32 → BitVec 32} (h : AccessInv s) (h' : PagingInv s')
    (hu : Updates s s' v f) (hf : ∀ e, Full e → Full (f e))
    (hdir : ∀ i : BitVec 32, i.toNat < 1024 →
      s'.dirEntry i = s.dirEntry i ∨ ∃ t, PageAligned t ∧ s'.dirEntry i = 3 ||| t) : AccessInv s' where
  paging := h'
  low w hw := by
    obtain ⟨hpde, hpte⟩ := h.low w hw
    rw [hu.dirEntry _ (pageDirIndex_lt w) hpde.ne_zero, hu.pte w]
    refine ⟨hpde, ?_⟩
    split_ifs with hpage
    · have hv : v.toNat < 0x400000 := by
        unfold page at hpage
        omega
      exact hf _ (h.low v hv).2
    · exact hpte
  high w hlo hhi := by
    rcases hdir _ (pageDirIndex_lt w) with heq | ⟨t, ht, heq⟩
    · rw [heq]
      exact h.high w hlo hhi
    · -- a new table is entered with the flags 3
      have hflags := or_and_fff (f := 3) ht (by decide)
      have hbit := congrArg (·.getLsbD 2) hflags
      simp only [BitVec.getLsbD_and] at hbit
      rw [heq]
      simpa using hbit

/-- Mapping a page keeps what is accessible. -/
theorem vmmngrMapPage (h : AccessInv s) (p : PhysicalAddr) (v : VirtualAddr) :
    AccessInv (s.vmmngrMapPage p v) := by
  rcases h.paging.vmmngrMapPage_cases p v with ⟨-, -, heq⟩ | ⟨-, hinv, hup⟩
  · rw [heq]
    exact h.of_marked_le fun x hx hm => s.pmm.marked_pmmngrAllocBlock_of_marked hx hm
  · exact h.of_updates hinv hup (fun _ he => he.ptEntryMap p) fun i hi =>
      h.paging.dirEntry_vmmngrMapPage p v hi

/-- So does taking a page. -/
theorem vmmngrAllocPage (h : AccessInv s) (e : BitVec 32) : AccessInv (s.vmmngrAllocPage e).2.2 := by
  rw [vmmngrAllocPage_snd_snd]
  exact h.of_marked_le fun x hx hm => s.pmm.marked_pmmngrAllocBlock_of_marked hx hm

/-- Setting a flag through the pointer of `vmmngr_get_page`, which may be null. -/
theorem addAttrib (h : AccessInv s) (v : VirtualAddr) (attrib : BitVec 32) :
    AccessInv { s with mem := s.mem.modify32 (s.vmmngrGetPage v) (ptEntryAddAttrib · attrib) } := by
  rw [h.paging.vmmngrGetPage_eq v]
  by_cases h0 : s.dirEntry (pageDirIndex v) = 0
  · rw [if_pos h0]
    have hdir := fun (i : BitVec 32) (hi : i.toNat < 1024) =>
      h.paging.dirEntry_modify32_zero (ptEntryAddAttrib · attrib) hi
    refine ⟨h.paging.of_dirEntry_eq hdir, fun w hw => ?_, fun w hlo hhi => ?_⟩
    · rw [hdir _ (pageDirIndex_lt w), h.paging.pte_modify32_zero]
      exact h.low w hw
    · rw [hdir _ (pageDirIndex_lt w)]
      exact h.high w hlo hhi
  · rw [if_neg h0]
    exact h.of_updates (h.paging.modifyPte h0 _) (h.paging.updates_modifyPte h0 _)
      (fun _ he => he.or attrib) fun i hi => Or.inl (h.paging.dirEntry_modifyPte h0 _ hi)

end AccessInv

/-- `vmmngr_init` sets the flags. -/
theorem accessInv_of_init (h : pagingSystem.init s) : AccessInv s := by
  have hinv := pagingInv_of_init h
  obtain ⟨s₀, -, h0, rfl, hp⟩ := h
  have hav := available_of_paging h0 hp
  refine ⟨hinv, fun v hv => ?_, fun v hlo hhi => ?_⟩
  · exact hinv.userPage_iff.mp ⟨_, walk_vmmngrInit hav hv, full_seven, full_seven⟩
  · have hidx := toNat_pageDirIndex v
    rw [dirEntry_vmmngrInit hav (pageDirIndex_lt v), if_neg, if_neg]
    · rfl
    · intro h0
      rw [h0] at hidx
      simp at hidx
      omega
    · intro h768
      rw [h768] at hidx
      simp at hidx
      omega

end FanOS.Vmmngr

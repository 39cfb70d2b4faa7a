import FanOS.PhysicalMmngr.Equiv.Alloc
import FanOS.VirtualMmngr.Equiv.Entries

/-!
# The paging invariant

`PagingInv` says where the directory and the tables are: in pairwise distinct blocks that are
marked in the bitmap, so that none of them is handed out again, with every directory entry either
zero or present.  Under it the state of a virtual address `v` is its directory entry and its page
table entry `pte v` (zero when there is no table), and the hardware walk reads just these two
(`walk_eq`).

`Updates s s' v f` says what the operations do: the page table entry of `v` goes through `f`, those
of all other pages stay, and so do the directory entries that are in use.  Writing to a table that
is there (`updates_modify`) and installing a new one (`updates_install`) are the two ways a call
changes the tables.
-/

namespace FanOS.Vmmngr

open Mem (entry PageAligned)

/-! ### Reading the tables -/

/-- Entry `i` of the directory. -/
def dirEntry (s : Vmmngr) (i : BitVec 32) : BitVec 32 := s.mem.load32 (entry s.curdir i)

/-- The page table entry of `v`; zero when no table is installed for it. -/
def pte (s : Vmmngr) (v : VirtualAddr) : BitVec 32 :=
  if s.dirEntry (pageDirIndex v) = 0 then 0
  else s.mem.load32 (entry (pageGetPhysicalAddress (s.dirEntry (pageDirIndex v))) (pageTableIndex v))

/-- Change the page table entry of `v` in place. -/
def modifyPte (s : Vmmngr) (v : VirtualAddr) (f : BitVec 32 → BitVec 32) : Vmmngr :=
  { s with
    mem := s.mem.modify32
      (entry (pageGetPhysicalAddress (s.dirEntry (pageDirIndex v))) (pageTableIndex v)) f }

/-- Clear the table at `t` and enter it for `v`. -/
def install (s : Vmmngr) (pmm : Pmmngr) (v : VirtualAddr) (t : PhysicalAddr) : Vmmngr :=
  { s with
    pmm := pmm
    mem := (s.mem.memset t 0 4096).modify32 (entry s.curdir (pageDirIndex v)) fun e =>
      pdEntrySetFrame (pdEntryAddAttrib (pdEntryAddAttrib e pdePresent) pdeWritable) t }

/-! ### The invariant -/

/-- The directory entry `e` points to a table in a marked block. -/
structure Installed (s : Vmmngr) (e : BitVec 32) : Prop where
  present : e.getLsbD 0 = true
  ne_zero : pageGetPhysicalAddress e ≠ 0
  ne_curdir : pageGetPhysicalAddress e ≠ s.curdir
  marked : s.pmm.marked ((pageGetPhysicalAddress e).toNat / 4096) = true

/-- Directory and tables are in distinct marked blocks. -/
structure PagingInv (s : Vmmngr) : Prop where
  cr3_eq : s.cr3 = s.curdir
  curdir_ne_zero : s.curdir ≠ 0
  aligned : PageAligned s.curdir
  marked : s.pmm.marked (s.curdir.toNat / 4096) = true
  installed : ∀ i : BitVec 32, i.toNat < 1024 → s.dirEntry i ≠ 0 → s.Installed (s.dirEntry i)
  distinct : ∀ i j : BitVec 32, i.toNat < 1024 → j.toNat < 1024 → i ≠ j →
    s.dirEntry i ≠ 0 → s.dirEntry j ≠ 0 →
      pageGetPhysicalAddress (s.dirEntry i) ≠ pageGetPhysicalAddress (s.dirEntry j)

/-- What a call does to the tables: `f` is applied to the page table entry of `v`. -/
structure Updates (s s' : Vmmngr) (v : VirtualAddr) (f : BitVec 32 → BitVec 32) : Prop where
  dirEntry : ∀ i : BitVec 32, i.toNat < 1024 → s.dirEntry i ≠ 0 → s'.dirEntry i = s.dirEntry i
  pte : ∀ w, s'.pte w = if page w = page v then f (s.pte v) else s.pte w

namespace PagingInv

variable {s : Vmmngr}

/-- The hardware walk reads the directory entry and the page table entry. -/
theorem walk_eq (h : PagingInv s) (v : VirtualAddr) :
    s.walk v = if (s.pte v).getLsbD 0 then
      some ⟨s.dirEntry (pageDirIndex v) &&& 0xFFF, s.pte v &&& 0xFFF, s.pte v &&& ~~~0xFFF⟩
      else none := by
  rw [walk, h.cr3_eq, and_not_fff h.aligned, ushiftRight_eq_pageDirIndex]
  simp only
  rw [← dirEntry, pte]
  by_cases h0 : s.dirEntry (pageDirIndex v) = 0
  · simp [h0]
  · rw [if_pos (h.installed _ (pageDirIndex_lt v) h0).present, if_neg h0]
    rfl

/-- The invariant survives changes to the bitmap that free nothing. -/
theorem of_marked_le (h : PagingInv s) {pmm : Pmmngr}
    (hle : ∀ x, x < 2 ^ 35 → s.pmm.marked x = true → pmm.marked x = true) :
    PagingInv { s with pmm := pmm } := by
  have hlt : ∀ t : BitVec 32, t.toNat / 4096 < 2 ^ 35 := fun t => by have := t.isLt; omega
  refine ⟨h.cr3_eq, h.curdir_ne_zero, h.aligned, hle _ (hlt _) h.marked, fun i hi h0 => ?_,
    h.distinct⟩
  have hinst := h.installed i hi h0
  exact ⟨hinst.present, hinst.ne_zero, hinst.ne_curdir, hle _ (hlt _) hinst.marked⟩

/-! ### Writing to a table -/

/-- The table of `v` is not the directory. -/
theorem table_ne_curdir (h : PagingInv s) {v : VirtualAddr} (h0 : s.dirEntry (pageDirIndex v) ≠ 0) :
    pageGetPhysicalAddress (s.dirEntry (pageDirIndex v)) ≠ s.curdir :=
  (h.installed _ (pageDirIndex_lt v) h0).ne_curdir

theorem dirEntry_modifyPte (h : PagingInv s) {v : VirtualAddr}
    (h0 : s.dirEntry (pageDirIndex v) ≠ 0) (f : BitVec 32 → BitVec 32) {i : BitVec 32}
    (hi : i.toNat < 1024) : (s.modifyPte v f).dirEntry i = s.dirEntry i := by
  rw [dirEntry, modifyPte, Mem.load32_modify32_entry _ _ (pageAligned_pageGetPhysicalAddress _)
    h.aligned (pageTableIndex_lt v) hi, if_neg fun hc => h.table_ne_curdir h0 hc.1, dirEntry]

/-- Changing one page table entry changes no other. -/
theorem pte_modifyPte (h : PagingInv s) {v : VirtualAddr} (h0 : s.dirEntry (pageDirIndex v) ≠ 0)
    (f : BitVec 32 → BitVec 32) (w : VirtualAddr) :
    (s.modifyPte v f).pte w = if page w = page v then f (s.pte v) else s.pte w := by
  have hdir := h.dirEntry_modifyPte h0 f (pageDirIndex_lt w)
  by_cases hw : s.dirEntry (pageDirIndex w) = 0
  · have hne : page w ≠ page v := fun hpage => h0 (by rwa [← pageDirIndex_eq_of_page_eq hpage])
    rw [if_neg hne, pte, pte, hdir, if_pos hw, if_pos hw]
  · rw [pte, hdir, if_neg hw, modifyPte, Mem.load32_modify32_entry _ _
      (pageAligned_pageGetPhysicalAddress _) (pageAligned_pageGetPhysicalAddress _)
      (pageTableIndex_lt v) (pageTableIndex_lt w)]
    by_cases hpage : page w = page v
    · have hdi : pageDirIndex v = pageDirIndex w := pageDirIndex_eq_of_page_eq hpage.symm
      have hti : pageTableIndex v = pageTableIndex w := pageTableIndex_eq_of_page_eq hpage.symm
      rw [if_pos hpage, if_pos ⟨by rw [hdi], hti⟩, pte, if_neg h0, hdi, hti]
    · rw [if_neg hpage, pte, if_neg hw, if_neg]
      rintro ⟨htable, hti⟩
      -- the same table would mean the same directory index
      by_cases hdi : pageDirIndex v = pageDirIndex w
      · exact hpage (page_eq_of_index_eq hdi hti).symm
      · exact h.distinct _ _ (pageDirIndex_lt v) (pageDirIndex_lt w) hdi h0 hw htable

/-- The invariant is about the directory, not about what is in the tables. -/
theorem of_dirEntry_eq (h : PagingInv s) {m : Mem}
    (hdir : ∀ i : BitVec 32, i.toNat < 1024 → ({ s with mem := m } : Vmmngr).dirEntry i = s.dirEntry i) :
    PagingInv { s with mem := m } := by
  refine ⟨h.cr3_eq, h.curdir_ne_zero, h.aligned, h.marked, fun i hi hne => ?_,
    fun i j hi hj hij hni hnj => ?_⟩
  · rw [hdir i hi] at hne ⊢
    exact ⟨(h.installed i hi hne).present, (h.installed i hi hne).ne_zero,
      (h.installed i hi hne).ne_curdir, (h.installed i hi hne).marked⟩
  · rw [hdir i hi] at hni ⊢
    rw [hdir j hj] at hnj ⊢
    exact h.distinct i j hi hj hij hni hnj

theorem modifyPte (h : PagingInv s) {v : VirtualAddr} (h0 : s.dirEntry (pageDirIndex v) ≠ 0)
    (f : BitVec 32 → BitVec 32) : PagingInv (s.modifyPte v f) :=
  h.of_dirEntry_eq fun _ hi => h.dirEntry_modifyPte h0 f hi

theorem updates_modifyPte (h : PagingInv s) {v : VirtualAddr}
    (h0 : s.dirEntry (pageDirIndex v) ≠ 0) (f : BitVec 32 → BitVec 32) :
    Updates s (s.modifyPte v f) v f :=
  ⟨fun _ hi _ => h.dirEntry_modifyPte h0 f hi, h.pte_modifyPte h0 f⟩

/-! ### Writing through a null pointer -/

/-- Address 0 is not in the directory or a table. -/
theorem load32_modify32_zero (m : Mem) (f : BitVec 32 → BitVec 32) {t i : BitVec 32}
    (ht : PageAligned t) (h0 : t ≠ 0) (hi : i.toNat < 1024) :
    (m.modify32 0 f).load32 (entry t i) = m.load32 (entry t i) := by
  rw [show (0 : BitVec 32) = entry 0 0 from rfl,
    Mem.load32_modify32_entry m f (by decide) ht (by decide) hi, if_neg fun hc => h0 hc.1.symm]

theorem dirEntry_modify32_zero (h : PagingInv s) (f : BitVec 32 → BitVec 32) {i : BitVec 32}
    (hi : i.toNat < 1024) :
    ({ s with mem := s.mem.modify32 0 f } : Vmmngr).dirEntry i = s.dirEntry i :=
  load32_modify32_zero s.mem f h.aligned h.curdir_ne_zero hi

theorem pte_modify32_zero (h : PagingInv s) (f : BitVec 32 → BitVec 32) (v : VirtualAddr) :
    ({ s with mem := s.mem.modify32 0 f } : Vmmngr).pte v = s.pte v := by
  rw [pte, pte, h.dirEntry_modify32_zero f (pageDirIndex_lt v)]
  split_ifs with h0
  · rfl
  · exact load32_modify32_zero s.mem f (pageAligned_pageGetPhysicalAddress _)
      (h.installed _ (pageDirIndex_lt v) h0).ne_zero (pageTableIndex_lt v)

/-! ### Installing a table -/

section Install

variable {v : VirtualAddr} {t : PhysicalAddr}

/-- A block that was free is not that of the directory or of a table. -/
theorem ne_of_free (h : PagingInv s) (hfree : s.pmm.marked (t.toNat / 4096) = false) :
    t ≠ s.curdir ∧ ∀ i : BitVec 32, i.toNat < 1024 → s.dirEntry i ≠ 0 →
      t ≠ pageGetPhysicalAddress (s.dirEntry i) := by
  refine ⟨?_, fun i hi hne => ?_⟩
  · rintro rfl
    exact Bool.false_ne_true (hfree.symm.trans h.marked)
  · rintro rfl
    exact Bool.false_ne_true (hfree.symm.trans (h.installed i hi hne).marked)

theorem dirEntry_install (h : PagingInv s) (pmm : Pmmngr) (ht : PageAligned t)
    (hfree : s.pmm.marked (t.toNat / 4096) = false) (h0 : s.dirEntry (pageDirIndex v) = 0)
    {i : BitVec 32} (hi : i.toNat < 1024) :
    (s.install pmm v t).dirEntry i = if pageDirIndex v = i then 3 ||| t else s.dirEntry i := by
  have hclear : (s.mem.memset t 0 4096).load32 (entry s.curdir i) = s.dirEntry i := by
    rw [Mem.load32_memset_entry _ ht h.aligned hi, if_neg (h.ne_of_free hfree).1, dirEntry]
  rw [dirEntry, install, Mem.load32_modify32_entry _ _ h.aligned h.aligned (pageDirIndex_lt v) hi]
  simp only [true_and]
  by_cases hvi : pageDirIndex v = i
  · rw [if_pos hvi, if_pos hvi, hclear, ← hvi, h0, pdEntrySetFrame_new]
  · rw [if_neg hvi, if_neg hvi, hclear]

theorem dirEntry_install_ne_zero (h : PagingInv s) (pmm : Pmmngr) (ht : PageAligned t)
    (hfree : s.pmm.marked (t.toNat / 4096) = false) (h0 : s.dirEntry (pageDirIndex v) = 0) :
    (s.install pmm v t).dirEntry (pageDirIndex v) ≠ 0 := by
  rw [h.dirEntry_install pmm ht hfree h0 (pageDirIndex_lt v), if_pos rfl]
  exact three_or_ne_zero t

/-- A newly installed table is empty, and the others are as they were. -/
theorem pte_install (h : PagingInv s) (pmm : Pmmngr) (ht : PageAligned t)
    (hfree : s.pmm.marked (t.toNat / 4096) = false) (h0 : s.dirEntry (pageDirIndex v) = 0)
    (w : VirtualAddr) : (s.install pmm v t).pte w = s.pte w := by
  have hdir := h.dirEntry_install pmm (v := v) ht hfree h0 (pageDirIndex_lt w)
  rw [pte, pte, hdir]
  by_cases hvw : pageDirIndex v = pageDirIndex w
  · -- a page of the new table: its entry was absent before and is clear now
    have hw0 := h0
    rw [hvw] at hw0
    rw [if_pos hvw, if_neg (three_or_ne_zero t), if_pos hw0,
      pageGetPhysicalAddress_or ht (by decide), install,
      Mem.load32_modify32_entry _ _ h.aligned ht (pageDirIndex_lt v) (pageTableIndex_lt w),
      if_neg fun hc => (h.ne_of_free hfree).1 hc.1.symm,
      Mem.load32_memset_entry _ ht ht (pageTableIndex_lt w), if_pos rfl]
  · rw [if_neg hvw]
    by_cases hw : s.dirEntry (pageDirIndex w) = 0
    · rw [if_pos hw, if_pos hw]
    · -- another table, which the fresh block is not
      have hal := pageAligned_pageGetPhysicalAddress (s.dirEntry (pageDirIndex w))
      rw [if_neg hw, if_neg hw, install,
        Mem.load32_modify32_entry _ _ h.aligned hal (pageDirIndex_lt v) (pageTableIndex_lt w),
        if_neg fun hc => h.table_ne_curdir hw hc.1.symm,
        Mem.load32_memset_entry _ ht hal (pageTableIndex_lt w),
        if_neg ((h.ne_of_free hfree).2 _ (pageDirIndex_lt w) hw)]

/-- Installing a table keeps the invariant. -/
theorem install (h : PagingInv s) {pmm : Pmmngr} (ht : PageAligned t) (ht0 : t ≠ 0)
    (hfree : s.pmm.marked (t.toNat / 4096) = false) (h0 : s.dirEntry (pageDirIndex v) = 0)
    (hle : ∀ x, x < 2 ^ 35 → s.pmm.marked x = true → pmm.marked x = true)
    (hmarked : pmm.marked (t.toNat / 4096) = true) : PagingInv (s.install pmm v t) := by
  have hdir := fun i hi => h.dirEntry_install pmm (v := v) (i := i) ht hfree h0 hi
  have hle' := h.of_marked_le hle
  have hnew : pageGetPhysicalAddress (3 ||| t) = t := pageGetPhysicalAddress_or ht (by decide)
  -- the new table was free, and the directory and the other tables were not
  obtain ⟨hne, hother⟩ := h.ne_of_free hfree
  refine ⟨h.cr3_eq, h.curdir_ne_zero, h.aligned, hle'.marked, fun i hi hni => ?_,
    fun i j hi hj hij hni hnj => ?_⟩
  · rw [hdir i hi] at hni ⊢
    by_cases hvi : pageDirIndex v = i
    · rw [if_pos hvi]
      exact ⟨by simp, by rwa [hnew], by rwa [hnew], by rwa [hnew]⟩
    · rw [if_neg hvi] at hni ⊢
      have hinst := hle'.installed i hi hni
      exact ⟨hinst.present, hinst.ne_zero, hinst.ne_curdir, hinst.marked⟩
  · rw [hdir i hi] at hni ⊢
    rw [hdir j hj] at hnj ⊢
    by_cases hvi : pageDirIndex v = i
    · have hvj : pageDirIndex v ≠ j := fun hvj => hij (hvi.symm.trans hvj)
      rw [if_neg hvj] at hnj ⊢
      rw [if_pos hvi, hnew]
      exact hother j hj hnj
    · rw [if_neg hvi] at hni ⊢
      by_cases hvj : pageDirIndex v = j
      · rw [if_pos hvj, hnew]
        exact (hother i hi hni).symm
      · rw [if_neg hvj] at hnj ⊢
        exact h.distinct i j hi hj hij hni hnj

end Install

end PagingInv

end FanOS.Vmmngr

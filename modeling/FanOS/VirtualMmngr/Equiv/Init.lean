import FanOS.VirtualMmngr.Equiv.Mapping

/-!
# What `vmmngr_init` sets up

`vmmngr_init` is successful when its three allocations are, that is, when it gets as far as
enabling paging.  It then establishes the paging invariant (`pagingInv_vmmngrInit`) and maps the
first 4 MiB to themselves (`walk_vmmngrInit`).
-/

namespace FanOS.Vmmngr

open Mem (entry PageAligned)

variable {s : Vmmngr} {v : VirtualAddr}

/-! ### Filling a table -/

theorem toNat_pageTableIndex_add (h : (pageTableIndex v).toNat + 1 < 1024) :
    (pageTableIndex (v + pageSize)).toNat = (pageTableIndex v).toNat + 1 := by
  have hsize : pageSize.toNat = 4096 := rfl
  rw [toNat_pageTableIndex] at h ⊢
  rw [toNat_pageTableIndex, BitVec.toNat_add, hsize]
  omega

/-- The filled entries of a table, and everything else. -/
theorem load32_fillTable {table pg u : BitVec 32} (ht : PageAligned table) (hu : PageAligned u)
    {n : ℕ} {frame : PhysicalAddr} {virt : VirtualAddr} {m : Mem}
    (hn : (pageTableIndex virt).toNat + n ≤ 1024) {j : BitVec 32} (hj : j.toNat < 1024) :
    (fillTable table pg n frame virt m).load32 (entry u j) =
      if table = u ∧ (pageTableIndex virt).toNat ≤ j.toNat ∧
          j.toNat < (pageTableIndex virt).toNat + n then
        ptEntrySetFrame pg (frame + 4096 * (j - pageTableIndex virt))
      else m.load32 (entry u j) := by
  induction n generalizing frame virt m with
  | zero => rw [fillTable, if_neg (by omega)]
  | succ n ih =>
    rw [fillTable]
    -- the last round is apart: the index after it may be that of the next table
    rcases Nat.eq_zero_or_pos n with rfl | hpos
    · rw [fillTable, Mem.load32_store32_entry _ _ ht hu (pageTableIndex_lt virt) hj]
      have hiff : pageTableIndex virt = j ↔ (pageTableIndex virt).toNat ≤ j.toNat ∧
          j.toNat < (pageTableIndex virt).toNat + (0 + 1) := by
        rw [← BitVec.toNat_inj]
        omega
      simp only [← hiff]
      split_ifs with hc
      · rw [hc.2, BitVec.sub_self, BitVec.mul_zero, BitVec.add_zero]
      · rfl
    · have hidx := toNat_pageTableIndex_add (v := virt) (by omega)
      rw [ih (by omega), Mem.load32_store32_entry _ _ ht hu (pageTableIndex_lt virt) hj, hidx]
      by_cases hin : table = u ∧ (pageTableIndex virt).toNat + 1 ≤ j.toNat ∧
          j.toNat < (pageTableIndex virt).toNat + 1 + n
      · have hsucc : pageTableIndex (virt + pageSize) = pageTableIndex virt + 1 :=
          BitVec.eq_of_toNat_eq (by rw [hidx, BitVec.toNat_add]; simp; omega)
        have hframe : frame + pageSize + 4096 * (j - (pageTableIndex virt + 1)) =
            frame + 4096 * (j - pageTableIndex virt) := by
          rw [show pageSize = 4096 from rfl]
          generalize pageTableIndex virt = i
          bv_omega
        rw [if_pos hin, if_pos ⟨hin.1, by omega, by omega⟩, hsucc, hframe]
      · rw [if_neg hin]
        by_cases hfirst : table = u ∧ pageTableIndex virt = j
        · rw [if_pos hfirst, if_pos ⟨hfirst.1, by rw [hfirst.2], by rw [hfirst.2]; omega⟩, hfirst.2,
            BitVec.sub_self, BitVec.mul_zero, BitVec.add_zero]
        · rw [if_neg hfirst, if_neg]
          rintro ⟨h1, h2, h3⟩
          refine hfirst ⟨h1, BitVec.eq_of_toNat_eq ?_⟩
          by_contra hne
          exact hin ⟨h1, by omega, by omega⟩

/-! ### The three allocations -/

/-- The allocation of the default page table. -/
def defaultTable (s : Vmmngr) : PhysicalAddr × Pmmngr := s.pmm.pmmngrAllocBlock

/-- The allocation of the kernel's page table. -/
def kernelTable (s : Vmmngr) : PhysicalAddr × Pmmngr := s.defaultTable.2.pmmngrAllocBlock

/-- The allocation of the directory. -/
def directory (s : Vmmngr) : PhysicalAddr × Pmmngr := s.kernelTable.2.pmmngrAllocBlocks 3

/-- The three allocations of `vmmngr_init` succeed. -/
def InitAvailable (s : Vmmngr) : Prop :=
  s.defaultTable.1 ≠ 0 ∧ s.kernelTable.1 ≠ 0 ∧ s.directory.1 ≠ 0

/-- The memory that a successful `vmmngr_init` leaves. -/
def initMem (s : Vmmngr) : Mem :=
  initEntry (entry s.directory.1 (pageDirIndex 0xC0000000)) s.kernelTable.1
    (initEntry (entry s.directory.1 (pageDirIndex 0)) s.defaultTable.1
      ((initTables s.defaultTable.1 s.kernelTable.1 s.mem).memset s.directory.1 0 4096))

theorem vmmngrInit_of_available (h : s.InitAvailable) :
    s.vmmngrInit = ⟨s.directory.2, s.initMem, s.directory.1, s.directory.1, true⟩ := by
  obtain ⟨h1, h2, h3⟩ := h
  unfold defaultTable at h1
  unfold kernelTable defaultTable at h2
  unfold directory kernelTable defaultTable at h3
  rw [vmmngrInit]
  simp only [if_neg h1, if_neg h2, if_neg h3, vmmngrPdirectoryGetEntry, if_pos h3,
    vmmngrSwitchPdirectory, vmmngrEnablePaging]
  rfl

/-- `vmmngr_init` enables paging only when it is successful. -/
theorem available_of_paging (h0 : s.paging = false) (h : s.vmmngrInit.paging = true) :
    s.InitAvailable := by
  by_contra hna
  have hkeep : s.vmmngrInit.paging = s.paging := by
    rw [vmmngrInit]
    simp only
    split_ifs with h1 h2 h3
    · rfl
    · rfl
    · rfl
    · exact absurd ⟨h1, h2, h3⟩ hna
  rw [hkeep, h0] at h
  exact Bool.false_ne_true h

/-! ### The memory after a successful call -/

theorem initEntry_eq (e t : PhysicalAddr) (m : Mem) :
    initEntry e t m = m.modify32 e fun x => pdEntrySetFrame
      (pdEntryAddAttrib (pdEntryAddAttrib (pdEntryAddAttrib x pdePresent) pdeWritable) pdeUser) t := by
  rw [initEntry]
  simp only [Mem.modify32_modify32_self]

/-- What `vmmngr_init` makes of an empty directory entry. -/
theorem pdEntrySetFrame_init (t : PhysicalAddr) :
    pdEntrySetFrame (pdEntryAddAttrib (pdEntryAddAttrib (pdEntryAddAttrib 0 pdePresent) pdeWritable)
      pdeUser) t = 7 ||| t := rfl

theorem seven_or_ne_zero (t : BitVec 32) : 7 ||| t ≠ 0 := by
  intro h
  have hbit := congrArg (·.getLsbD 0) h
  simp at hbit

/-- The blocks of directory and tables: aligned, distinct and marked. -/
structure FreshTables (s : Vmmngr) : Prop where
  default_aligned : PageAligned s.defaultTable.1
  kernel_aligned : PageAligned s.kernelTable.1
  dir_aligned : PageAligned s.directory.1
  default_ne_kernel : s.defaultTable.1 ≠ s.kernelTable.1
  default_ne_dir : s.defaultTable.1 ≠ s.directory.1
  kernel_ne_dir : s.kernelTable.1 ≠ s.directory.1
  default_marked : s.directory.2.marked (s.defaultTable.1.toNat / 4096) = true
  kernel_marked : s.directory.2.marked (s.kernelTable.1.toNat / 4096) = true
  dir_marked : s.directory.2.marked (s.directory.1.toNat / 4096) = true

theorem freshTables_of_available (h : s.InitAvailable) : s.FreshTables := by
  obtain ⟨hda, hdf, hdm⟩ := s.pmm.pmmngrAllocBlock_fresh h.1
  obtain ⟨hka, hkf, hkm⟩ := s.defaultTable.2.pmmngrAllocBlock_fresh h.2.1
  obtain ⟨hra, hrf, hrm⟩ := s.kernelTable.2.pmmngrAllocBlocks_fresh (n := 3) (by decide) h.2.2
  have hlt : ∀ t : BitVec 32, t.toNat / 4096 < 2 ^ 35 := fun t => by have := t.isLt; omega
  -- what is marked after one allocation stays marked after the next
  have hdm' := s.defaultTable.2.marked_pmmngrAllocBlock_of_marked (hlt _) hdm
  have hdm'' := s.kernelTable.2.marked_pmmngrAllocBlocks_of_marked (n := 3) (by decide) (hlt _) hdm'
  have hkm' := s.kernelTable.2.marked_pmmngrAllocBlocks_of_marked (n := 3) (by decide) (hlt _) hkm
  have hne : ∀ {p : Pmmngr} {t u : BitVec 32}, p.marked (t.toNat / 4096) = true →
      p.marked (u.toNat / 4096) = false → t ≠ u := by
    rintro p t u ht hu rfl
    exact Bool.false_ne_true (hu.symm.trans ht)
  exact ⟨hda, hka, hra, hne hdm hkf, hne hdm' hrf, hne hkm hrf, hdm'', hkm', hrm⟩

/-- The directory after a successful `vmmngr_init`. -/
theorem load32_initMem_directory (h : s.FreshTables) {i : BitVec 32} (hi : i.toNat < 1024) :
    s.initMem.load32 (entry s.directory.1 i) =
      if i = 768 then 7 ||| s.kernelTable.1
      else if i = 0 then 7 ||| s.defaultTable.1 else 0 := by
  have hclear : ((initTables s.defaultTable.1 s.kernelTable.1 s.mem).memset s.directory.1 0
      4096).load32 (entry s.directory.1 i) = 0 := by
    rw [Mem.load32_memset_entry _ h.dir_aligned h.dir_aligned hi, if_pos rfl]
  have hk : pageDirIndex 0xC0000000 = 768 := by decide
  have hd : pageDirIndex 0 = 0 := by decide
  rw [initMem, initEntry_eq, initEntry_eq, hk, hd,
    Mem.load32_modify32_entry _ _ h.dir_aligned h.dir_aligned (by decide) hi,
    Mem.load32_modify32_entry _ _ h.dir_aligned h.dir_aligned (by decide) hi, hclear]
  simp only [true_and]
  by_cases h1 : i = 768
  · subst h1
    rw [if_pos rfl, if_neg (by decide), if_pos rfl, pdEntrySetFrame_init]
  · rw [if_neg (Ne.symm h1), if_neg h1]
    by_cases h2 : i = 0
    · rw [if_pos h2.symm, if_pos h2, pdEntrySetFrame_init]
    · rw [if_neg (Ne.symm h2), if_neg h2]

/-- The default page table after a successful `vmmngr_init`. -/
theorem load32_initMem_default (h : s.FreshTables) {j : BitVec 32} (hj : j.toNat < 1024) :
    s.initMem.load32 (entry s.defaultTable.1 j) = 7 ||| (4096 * j) := by
  have hk : (pageTableIndex 0xC0000000).toNat = 0 := by decide
  have hd : pageTableIndex 0x00000000 = 0 := by decide
  have hlt : ∀ v, (pageDirIndex v).toNat < 1024 := pageDirIndex_lt
  rw [initMem, initEntry_eq, initEntry_eq,
    Mem.load32_modify32_entry _ _ h.dir_aligned h.default_aligned (hlt _) hj,
    if_neg fun hc => h.default_ne_dir hc.1.symm,
    Mem.load32_modify32_entry _ _ h.dir_aligned h.default_aligned (hlt _) hj,
    if_neg fun hc => h.default_ne_dir hc.1.symm,
    Mem.load32_memset_entry _ h.dir_aligned h.default_aligned hj,
    if_neg h.default_ne_dir.symm, initTables,
    load32_fillTable h.kernel_aligned h.default_aligned (by rw [hk]; decide) hj,
    if_neg fun hc => h.default_ne_kernel hc.1.symm,
    load32_fillTable h.default_aligned h.default_aligned (by rw [hd]; decide) hj,
    if_pos ⟨rfl, by rw [hd]; exact Nat.zero_le _, by rw [hd]; exact hj⟩, hd]
  show (defaultPage &&& ~~~pteFrame) ||| (0 + 4096 * (j - 0)) = 7 ||| (4096 * j)
  rw [show defaultPage &&& ~~~pteFrame = 7 from by decide]
  simp

theorem dirEntry_vmmngrInit (h : s.InitAvailable) {i : BitVec 32} (hi : i.toNat < 1024) :
    s.vmmngrInit.dirEntry i =
      if i = 768 then 7 ||| s.kernelTable.1
      else if i = 0 then 7 ||| s.defaultTable.1 else 0 := by
  rw [vmmngrInit_of_available h]
  exact load32_initMem_directory (freshTables_of_available h) hi

/-- **A successful `vmmngr_init` establishes the paging invariant.** -/
theorem pagingInv_vmmngrInit (h : s.InitAvailable) : PagingInv s.vmmngrInit := by
  have hf := freshTables_of_available h
  have hdir := fun (i : BitVec 32) (hi : i.toNat < 1024) => dirEntry_vmmngrInit h hi
  have hk : pageGetPhysicalAddress (7 ||| s.kernelTable.1) = s.kernelTable.1 :=
    pageGetPhysicalAddress_or hf.kernel_aligned (by decide)
  have hd : pageGetPhysicalAddress (7 ||| s.defaultTable.1) = s.defaultTable.1 :=
    pageGetPhysicalAddress_or hf.default_aligned (by decide)
  refine ⟨?_, ?_, ?_, ?_, fun i hi hne => ?_, fun i j hi hj hij hni hnj => ?_⟩
  · rw [vmmngrInit_of_available h]
  · rw [vmmngrInit_of_available h]
    exact h.2.2
  · rw [vmmngrInit_of_available h]
    exact hf.dir_aligned
  · rw [vmmngrInit_of_available h]
    exact hf.dir_marked
  · -- only the entries 0 and 768 are installed
    rw [hdir i hi] at hne ⊢
    rw [vmmngrInit_of_available h]
    split_ifs at hne ⊢ with h1 h2
    · exact ⟨by simp, by rw [hk]; exact h.2.1, by rw [hk]; exact hf.kernel_ne_dir,
        by rw [hk]; exact hf.kernel_marked⟩
    · exact ⟨by simp, by rw [hd]; exact h.1, by rw [hd]; exact hf.default_ne_dir,
        by rw [hd]; exact hf.default_marked⟩
    · exact absurd rfl hne
  · rw [hdir i hi] at hni ⊢
    rw [hdir j hj] at hnj ⊢
    split_ifs at hni hnj ⊢ with h1 h2 h3 h4 h5 h6
    · exact absurd (h1.trans h2.symm) hij
    · rw [hk, hd]
      exact hf.default_ne_kernel.symm
    · exact absurd rfl hnj
    · rw [hk, hd]
      exact hf.default_ne_kernel
    · exact absurd (h4.trans h6.symm) hij
    · exact absurd rfl hnj
    · exact absurd rfl hni
    · exact absurd rfl hni
    · exact absurd rfl hni

/-- The walk of a page with a table that `vmmngr_init` has made. -/
theorem PagingInv.walk_of_pte (h : PagingInv s) {t p f : BitVec 32} (ht : PageAligned t)
    (hp : PageAligned p) (hf : f &&& 0xFFF = f) (hbit : f.getLsbD 0 = true)
    (hdir : s.dirEntry (pageDirIndex v) = 7 ||| t) (hpte : s.pte v = f ||| p) :
    s.walk v = some ⟨7, f, p⟩ := by
  have hclear : f &&& ~~~0xFFF = 0 := by
    rw [← hf, BitVec.and_assoc]
    exact BitVec.and_zero
  have hframe : (f ||| p) &&& ~~~0xFFF = p := pageGetPhysicalAddress_or hp hclear
  have hpresent : (f ||| p).getLsbD 0 = true := by rw [BitVec.getLsbD_or, hbit, Bool.true_or]
  rw [h.walk_eq, hpte, hdir, if_pos hpresent, or_and_fff ht (by decide), or_and_fff hp hf, hframe]

/-- **The first 4 MiB are mapped to themselves** by a successful `vmmngr_init`. -/
theorem walk_vmmngrInit (h : s.InitAvailable) (hv : v.toNat < 0x400000) :
    s.vmmngrInit.walk v = some ⟨7, 7, v &&& ~~~0xFFF⟩ := by
  have hf := freshTables_of_available h
  have hidx : pageDirIndex v = 0 := by
    apply BitVec.eq_of_toNat_eq
    rw [toNat_pageDirIndex]
    show v.toNat / 2 ^ 22 = 0
    omega
  have hdir : s.vmmngrInit.dirEntry (pageDirIndex v) = 7 ||| s.defaultTable.1 := by
    rw [dirEntry_vmmngrInit h (pageDirIndex_lt v), hidx, if_neg (by decide), if_pos rfl]
  have hpage : 4096 * pageTableIndex v = v &&& ~~~0xFFF := by
    apply BitVec.eq_of_toNat_eq
    rw [toNat_and_not_fff, BitVec.toNat_mul, toNat_pageTableIndex, show (4096 : BitVec 32).toNat = 4096
      from rfl]
    omega
  have hpte : s.vmmngrInit.pte v = 7 ||| (v &&& ~~~0xFFF) := by
    rw [pte, hdir, if_neg (seven_or_ne_zero _),
      pageGetPhysicalAddress_or hf.default_aligned (by decide), vmmngrInit_of_available h]
    show s.initMem.load32 _ = _
    rw [load32_initMem_default hf (pageTableIndex_lt v), hpage]
  exact (pagingInv_vmmngrInit h).walk_of_pte hf.default_aligned (pageAligned_pageGetPhysicalAddress v)
    (by decide) (by decide) hdir hpte

end FanOS.Vmmngr

import FanOS.VirtualMmngr.Equiv.Calls

/-!
# Addresses

`vmmngr_init` maps the first 4 MiB to themselves and 4 MiB from 3 GiB on to the kernel, and nothing
else (`addressSpace_vmmngrInit`).

`vmmngr_virt_to_phys` does in software what the processor does with these tables.  It finds the right
frame, but it adds the offset to a pointer to words and so four times: it agrees with the processor
only on addresses of whole pages (`virtToPhys_eq_iff`).
-/

namespace FanOS.Vmmngr

open Mem (entry PageAligned)

variable {s : Vmmngr} {v : VirtualAddr}

/-! ### What the processor makes of a translation -/

namespace Translation

/-- The physical address of `v`. -/
def address (t : Translation) (v : VirtualAddr) : PhysicalAddr := t.frame + (v &&& 0xFFF)

/-- Both entries allow writing. -/
def Writable (t : Translation) : Prop := t.pdeFlags.getLsbD 1 = true ∧ t.pteFlags.getLsbD 1 = true

/-- Both entries allow access from user mode. -/
def User (t : Translation) : Prop := t.pdeFlags.getLsbD 2 = true ∧ t.pteFlags.getLsbD 2 = true

end Translation

/-- A frame and an offset make an address again. -/
theorem frame_add_offset (v : BitVec 32) : (v &&& ~~~0xFFF) + (v &&& 0xFFF) = v := by
  have := v.isLt
  apply BitVec.eq_of_toNat_eq
  rw [BitVec.toNat_add, toNat_and_not_fff, toNat_and_fff]
  omega

/-! ### The kernel's table -/

/-- The kernel's page table after a successful `vmmngr_init`. -/
theorem load32_initMem_kernel (h : s.FreshTables) {j : BitVec 32} (hj : j.toNat < 1024) :
    s.initMem.load32 (entry s.kernelTable.1 j) = 5 ||| (0x100000 + 4096 * j) := by
  have hk : pageTableIndex 0xC0000000 = 0 := by decide
  have hlt : ∀ v, (pageDirIndex v).toNat < 1024 := pageDirIndex_lt
  -- the writes behind that of the kernel's table, from the last to the first, are to the directory
  rw [initMem, initEntry_eq, initEntry_eq,
    Mem.load32_modify32_entry _ _ h.dir_aligned h.kernel_aligned (hlt _) hj,
    if_neg fun hc => h.kernel_ne_dir hc.1.symm,
    Mem.load32_modify32_entry _ _ h.dir_aligned h.kernel_aligned (hlt _) hj,
    if_neg fun hc => h.kernel_ne_dir hc.1.symm,
    Mem.load32_memset_entry _ h.dir_aligned h.kernel_aligned hj,
    if_neg h.kernel_ne_dir.symm, initTables,
    load32_fillTable h.kernel_aligned h.kernel_aligned (by rw [hk]; decide) hj,
    if_pos ⟨rfl, by rw [hk]; exact Nat.zero_le _, by rw [hk]; exact hj⟩, hk]
  show (kernelPage &&& ~~~pteFrame) ||| (0x100000 + 4096 * (j - 0)) = 5 ||| (0x100000 + 4096 * j)
  rw [show kernelPage &&& ~~~pteFrame = 5 from by decide]
  simp

/-- The page table entries of the 4 MiB from 3 GiB on. -/
theorem walk_vmmngrInit_kernel (h : s.InitAvailable) {x : BitVec 32} (hx : x.toNat < 0x400000) :
    s.vmmngrInit.walk (0xC0000000 + x) = some ⟨7, 5, (0x100000 + x) &&& ~~~0xFFF⟩ := by
  have hf := freshTables_of_available h
  have hv : (0xC0000000 + x).toNat = 0xC0000000 + x.toNat := by
    rw [BitVec.toNat_add]
    exact Nat.mod_eq_of_lt (by show 0xC0000000 + x.toNat < 2 ^ 32; omega)
  have hidx : pageDirIndex (0xC0000000 + x) = 768 := by
    apply BitVec.eq_of_toNat_eq
    rw [toNat_pageDirIndex, hv]
    show (0xC0000000 + x.toNat) / 2 ^ 22 = 768
    omega
  have hdir : s.vmmngrInit.dirEntry (pageDirIndex (0xC0000000 + x)) = 7 ||| s.kernelTable.1 := by
    rw [dirEntry_vmmngrInit h (pageDirIndex_lt _), hidx, if_pos rfl]
  -- 3 GiB is a multiple of 4 MiB, so the index in the table is that of `x`
  have hpage : 0x100000 + 4096 * pageTableIndex (0xC0000000 + x) = (0x100000 + x) &&& ~~~0xFFF := by
    apply BitVec.eq_of_toNat_eq
    rw [toNat_and_not_fff, BitVec.toNat_add, BitVec.toNat_mul, BitVec.toNat_add, toNat_pageTableIndex, hv,
      show (4096 : BitVec 32).toNat = 4096 from rfl, show (0x100000 : BitVec 32).toNat = 0x100000 from rfl]
    omega
  have hpte : s.vmmngrInit.pte (0xC0000000 + x) = 5 ||| ((0x100000 + x) &&& ~~~0xFFF) := by
    rw [pte, hdir, if_neg (seven_or_ne_zero _),
      pageGetPhysicalAddress_or hf.kernel_aligned (by decide), vmmngrInit_of_available h]
    show s.initMem.load32 _ = _
    rw [load32_initMem_kernel hf (pageTableIndex_lt _), hpage]
  exact (pagingInv_vmmngrInit h).walk_of_pte hf.kernel_aligned (pageAligned_pageGetPhysicalAddress _)
    (by decide) (by decide) hdir hpte

/-- No other page is present. -/
theorem walk_vmmngrInit_of_ne (h : s.InitAvailable) (hd : pageDirIndex v ≠ 0)
    (hk : pageDirIndex v ≠ 768) : s.vmmngrInit.walk v = none := by
  have hdir : s.vmmngrInit.dirEntry (pageDirIndex v) = 0 := by
    rw [dirEntry_vmmngrInit h (pageDirIndex_lt v), if_neg hk, if_neg hd]
  have hpte : s.vmmngrInit.pte v = 0 := by rw [pte, if_pos hdir]
  rw [(pagingInv_vmmngrInit h).walk_eq, hpte]
  rfl

/-- **The address space that `vmmngr_init` makes**: the first 4 MiB are mapped to themselves and may
be written, the 4 MiB from 3 GiB on are mapped to 1 MiB and may not, both for user mode, and no other
address is mapped. -/
theorem addressSpace_vmmngrInit (s : Vmmngr) (h : s.InitAvailable) :
    (∀ v : VirtualAddr, v.toNat < 0x400000 →
      ∃ t, s.vmmngrInit.walk v = some t ∧ t.address v = v ∧ t.Writable ∧ t.User) ∧
    (∀ x : BitVec 32, x.toNat < 0x400000 →
      ∃ t, s.vmmngrInit.walk (0xC0000000 + x) = some t ∧ t.address (0xC0000000 + x) = 0x100000 + x ∧
        t.User ∧ ¬ t.Writable) ∧
    ∀ v : VirtualAddr, 0x400000 ≤ v.toNat → 0x400000 ≤ (v - 0xC0000000).toNat →
      s.vmmngrInit.walk v = none := by
  have h7 : (7 : BitVec 32).getLsbD 1 = true ∧ (7 : BitVec 32).getLsbD 2 = true := by decide
  have h5 : (5 : BitVec 32).getLsbD 1 = false ∧ (5 : BitVec 32).getLsbD 2 = true := by decide
  refine ⟨fun v hv => ?_, fun x hx => ?_, fun v hv hv' => ?_⟩
  · exact ⟨_, walk_vmmngrInit h hv, frame_add_offset v, ⟨h7.1, h7.1⟩, h7.2, h7.2⟩
  · have hoffset : (0xC0000000 + x) &&& 0xFFF = (0x100000 + x) &&& 0xFFF := by
      apply BitVec.eq_of_toNat_eq
      rw [toNat_and_fff, toNat_and_fff, BitVec.toNat_add, BitVec.toNat_add,
        show (0xC0000000 : BitVec 32).toNat = 0xC0000000 from rfl,
        show (0x100000 : BitVec 32).toNat = 0x100000 from rfl]
      omega
    refine ⟨_, walk_vmmngrInit_kernel h hx, ?_, ⟨h7.2, h5.2⟩, fun hw => ?_⟩
    · rw [Translation.address, hoffset]
      exact frame_add_offset _
    · exact Bool.false_ne_true (h5.1.symm.trans hw.2)
  · have hlt := v.isLt
    have hindex := toNat_pageDirIndex v
    have hsub : (v - 0xC0000000).toNat = (2 ^ 32 - 0xC0000000 + v.toNat) % 2 ^ 32 := BitVec.toNat_sub _ _
    -- directory entries 0 and 768 are the only ones
    refine walk_vmmngrInit_of_ne h (fun h0 => ?_) fun h768 => ?_
    · rw [h0] at hindex
      change 0 = _ at hindex
      omega
    · rw [h768] at hindex
      change 768 = _ at hindex
      omega

/-- The machine of 64 blocks. -/
theorem addressSpace_vmmngrInit_smallMachine :
    (∃ t, smallMachine.vmmngrInit.walk 0xB8000 = some t ∧ t.address 0xB8000 = 0xB8000 ∧ t.Writable ∧
      t.User) ∧ smallMachine.vmmngrInit.walk 0x400000 = none := by
  obtain ⟨hlow, -, hother⟩ := addressSpace_vmmngrInit smallMachine available_smallMachine
  exact ⟨hlow 0xB8000 (by decide), hother 0x400000 (by decide) (by decide)⟩

/-! ### Translation in software -/

/-- What `vmmngr_virt_to_phys` returns for an address that is mapped. -/
theorem PagingInv.vmmngrVirtToPhys_eq (h : PagingInv s) {t : Translation} (ht : s.walk v = some t) :
    s.vmmngrVirtToPhys v = t.frame + 4 * (v &&& 0xFFF) := by
  rw [h.walk_eq] at ht
  by_cases h0 : s.dirEntry (pageDirIndex v) = 0
  · rw [pte, if_pos h0] at ht
    exact absurd ht (by simp)
  -- the software reads the entry that the processor reads
  have hload : s.mem.load32 (s.vmmngrGetPage v) = s.pte v := by
    rw [h.vmmngrGetPage_eq, if_neg h0, pte, if_neg h0]
  have hframe : t.frame = pageGetPhysicalAddress (s.pte v) := by
    split_ifs at ht
    rw [← Option.some.inj ht]
    rfl
  rw [vmmngrVirtToPhys, hload, hframe]

/-- Four times an offset is the offset only if it is zero. -/
theorem four_mul_offset_eq_iff (v : BitVec 32) : 4 * (v &&& 0xFFF) = v &&& 0xFFF ↔ v &&& 0xFFF = 0 := by
  have hlt : (v &&& 0xFFF).toNat < 4096 := by
    rw [toNat_and_fff]
    omega
  constructor
  · intro h
    have heq := congrArg BitVec.toNat h
    rw [BitVec.toNat_mul, show (4 : BitVec 32).toNat = 4 from rfl] at heq
    apply BitVec.eq_of_toNat_eq
    show (v &&& 0xFFF).toNat = 0
    omega
  · intro h
    rw [h]
    rfl

/-- **Translation in software** agrees with the processor, in every state reached from a successful
`vmmngr_init` and for every address that is mapped, if and only if the address is that of a whole
page. -/
theorem virtToPhys_eq_iff (s : Vmmngr) (h : pagingSystem.Reachable s) (v : VirtualAddr)
    (t : Translation) (ht : s.walk v = some t) :
    s.vmmngrVirtToPhys v = t.address v ↔ v &&& 0xFFF = 0 := by
  rw [(pagingInv_of_reachable h).vmmngrVirtToPhys_eq ht, Translation.address, BitVec.add_right_inj,
    four_mul_offset_eq_iff]

/-- The address of the text screen. -/
theorem virtToPhys_eq_iff_screen : smallMachine.vmmngrInit.vmmngrVirtToPhys 0xB8000 = 0xB8000 := by
  have hwalk := walk_vmmngrInit available_smallMachine (v := 0xB8000) (by decide)
  exact ((virtToPhys_eq_iff _ (.init init_smallMachine) 0xB8000 _ hwalk).mpr (by decide)).trans
    (frame_add_offset _)

/-- Address 1 is translated to 4. -/
theorem not_virtToPhys_eq_one : ¬ ∀ (s : Vmmngr), pagingSystem.Reachable s → ∀ (v : VirtualAddr)
    (t : Translation), s.walk v = some t → s.vmmngrVirtToPhys v = t.address v := by
  intro h
  have hwalk := walk_vmmngrInit available_smallMachine (v := 1) (by decide)
  have heq := h _ (.init init_smallMachine) 1 _ hwalk
  rw [(pagingInv_of_init init_smallMachine).vmmngrVirtToPhys_eq hwalk] at heq
  exact absurd heq (by decide)

end FanOS.Vmmngr

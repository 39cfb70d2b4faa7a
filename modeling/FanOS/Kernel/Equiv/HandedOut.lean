import FanOS.Kernel.Equiv.Reservations
import FanOS.PhysicalMmngr.Equiv.Order

/-!
# The memory that is handed out

After `kmain` has set up the memory manager, calls of `pmmngr_alloc_block` hand out the available blocks
that are not deinitialized, in order.  The stack is among them: the second stage of the loader sets it up
below `0x90000`, `kmain` and user programs go on with it, and nothing reserves it.
-/

namespace FanOS.Kernel

open Pmmngr

variable {mem : Mem} {entries : List SMAPEntry} {hne : entries ≠ []} {kernelSize : BitVec 32} {b : ℕ}

/-- The block below `0x90000`, in which the stack begins. -/
def stackBlock : ℕ := 0x8F

theorem marked_kmainMemory_of_not_deinitialized (hb : b < 2 ^ 35)
    (h : ¬Deinitialized (blockCount entries hne) kernelSize b) :
    (kmainMemory mem entries hne kernelSize).marked b = (kmainImport mem entries hne).marked b := by
  have hlen : (kmainImport mem entries hne).maxBlocks / blocksPerByte =
      BitVec.ofNat 32 (blockCount entries hne / 8) := by
    apply BitVec.eq_of_toNat_eq
    have := blockCount_lt entries hne
    rw [BitVec.toNat_udiv, maxBlocks_kmainImport, BitVec.toNat_ofNat, Nat.mod_eq_of_lt (by omega)]
    rfl
  obtain ⟨hlow, hrest⟩ := not_or.mp h
  obtain ⟨hmap, hkernel⟩ := not_or.mp hrest
  rw [kmainMemory, kmainReserve]
  simp only [pmmngrGetBlockCount, maxBlocks_pmmngrDeinitRegion, hlen]
  rw [marked_pmmngrDeinitRegion _ _ _ hb, marked_pmmngrDeinitRegion _ _ _ hb,
    marked_pmmngrDeinitRegion _ _ _ hb, if_neg hkernel, if_neg hmap, if_neg hlow]

/-- A block that is searched is free if it is available and was not deinitialized. -/
theorem marked_kmainMemory_eq_false_iff (hb0 : b ≠ 0) (hb : b < 32 * (blockCount entries hne / 32)) :
    (kmainMemory mem entries hne kernelSize).marked b = false ↔
      Available entries b ∧ ¬Deinitialized (blockCount entries hne) kernelSize b := by
  have hlt := blockCount_lt entries hne
  by_cases hdeinit : Deinitialized (blockCount entries hne) kernelSize b
  · rw [marked_kmainMemory_of_deinitialized hdeinit]
    exact iff_of_false (by decide) fun h => h.2 hdeinit
  · rw [marked_kmainMemory_of_not_deinitialized (by omega) hdeinit, marked_kmainImport (by omega),
      if_neg fun h => hb0 h.1]
    by_cases hav : Available entries b
    · rw [if_pos hav]
      exact iff_of_true rfl ⟨hav, hdeinit⟩
    · rw [if_neg hav, if_pos (by omega)]
      exact iff_of_false (by decide) fun h => hav h.1

/-- None of the three regions reaches the stack, however long the bitmap and the kernel are. -/
theorem not_deinitialized_stackBlock (entries : List SMAPEntry) (hne : entries ≠ [])
    (kernelSize : BitVec 32) : ¬Deinitialized (blockCount entries hne) kernelSize stackBlock := by
  have hlt := blockCount_lt entries hne
  rintro (h | h | h) <;> rw [mem_regionBlocks] at h
  · have h2 : 0x8F < 1 + 21 := h.2
    omega
  · have hmap : 0x8F < 48 + (BitVec.ofNat 32 (blockCount entries hne / 8)).toNat / 4096 := h.2
    rw [BitVec.toNat_ofNat, Nat.mod_eq_of_lt (by omega)] at hmap
    omega
  · have hkernel : 256 ≤ 0x8F := h.1
    omega

/-- **Memory after the boot**: a block is handed out by `pmmngr_alloc_block` at some time if and only if it
is searched, the memory map has it as available, it is none of the blocks that the three calls deinitialize,
and the counter does not stop the calls before it.  The block of the stack is never deinitialized, so that it
is handed out wherever it is available. -/
theorem handed_out_iff (mem : Mem) (entries : List SMAPEntry) (hne : entries ≠ []) (kernelSize : BitVec 32) :
    (∀ b, b ≠ 0 → b < 2 ^ 20 → ((kmainMemory mem entries hne kernelSize).HandsOut b ↔
      b < 32 * (blockCount entries hne / 32) ∧ Available entries b ∧
        ¬Deinitialized (blockCount entries hne) kernelSize b ∧
        ((kmainMemory mem entries hne kernelSize).freeBelow b).card + 1 <
          (kmainMemory mem entries hne kernelSize).pmmngrGetFreeBlockCount.toNat)) ∧
      ¬Deinitialized (blockCount entries hne) kernelSize stackBlock := by
  refine ⟨fun b hb0 hb => ?_, not_deinitialized_stackBlock entries hne kernelSize⟩
  have hready : (kmainMemory mem entries hne kernelSize).HandsOut b ↔ _ :=
    ⟨ready_of_handsOut hb0 hb, handsOut_of_ready hb⟩
  rw [hready, Ready, mapWords_kmainMemory]
  refine and_congr_right fun hwords => ?_
  rw [marked_kmainMemory_eq_false_iff hb0 hwords, and_assoc]

/-- The memory map of a machine with 2 MiB. -/
def twoMegabytes : List SMAPEntry := [⟨0, 0xA0000, 1⟩, ⟨0x100000, 0x100001, 1⟩]

/-- There the block of the stack is handed out. -/
theorem handed_out_iff_stack :
    (kmainMemory (fun _ => 0) twoMegabytes (by decide) 8).HandsOut stackBlock := by
  obtain ⟨hiff, hstack⟩ := handed_out_iff (fun _ => 0) twoMegabytes (by decide) 8
  have hfree : (kmainMemory (fun _ => 0) twoMegabytes (by decide) 8).pmmngrGetFreeBlockCount = 394 := by
    decide +kernel
  have hcard : ((kmainMemory (fun _ => 0) twoMegabytes (by decide) 8).freeBelow stackBlock).card ≤ 143 := by
    calc _ ≤ (Finset.range stackBlock).card := Finset.card_filter_le _ _
      _ = 143 := Finset.card_range _
  apply (hiff stackBlock (by decide) (by decide)).mpr
  refine ⟨by decide, by decide, hstack, ?_⟩
  rw [hfree]
  change _ < 394
  omega

end FanOS.Kernel

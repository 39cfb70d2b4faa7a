import FanOS.PhysicalMmngr.Basic
import Mathlib.Order.Interval.Finset.Nat

/-!
# What the manager does to the bitmap

`mmap_set` and `mmap_unset` change one bit (`marked_mmapSet`, `marked_mmapUnset`), so every loop
over consecutive blocks changes the bits of one interval (`marked_forBlocks`).  From this each
operation gets one equation for the bitmap (`marked_pmmngrInit`, `marked_pmmngrInitRegion`,
`marked_pmmngrDeinitRegion`, `marked_pmmngrFreeBlocks`) and one for the counter.

Bits are numbered up to `2 ^ 35`: the bitmap, and the rest of memory behind it.
-/

namespace FanOS.Pmmngr

/-! ### One bit -/

/-- The word that `mmap_set` and `mmap_unset` address. -/
theorem memoryMap_add_eq_word (s : Pmmngr) (bit : BitVec 32) :
    s.memoryMap + 4 * (bit / 32) = Mem.word s.memoryMap (bit.toNat / 32) := by
  unfold Mem.word
  congr 1

theorem shift_mod_eq (bit : BitVec 32) : 1#32 <<< (bit % 32) = 1#32 <<< (bit.toNat % 32) := by
  simp [BitVec.toNat_umod]

theorem marked_mmapSet (s : Pmmngr) (bit : BitVec 32) {b : ℕ} (hb : b < 2 ^ 35) :
    (s.mmapSet bit).marked b = if b = bit.toNat then true else s.marked b := by
  have hn : bit.toNat < 2 ^ 35 := lt_trans bit.isLt (by decide)
  unfold mmapSet marked
  simp only
  rw [memoryMap_add_eq_word, shift_mod_eq, Mem.bit_store32_or _ _ hn hb]
  by_cases h : b = bit.toNat <;> simp [h]

theorem marked_mmapUnset (s : Pmmngr) (bit : BitVec 32) {b : ℕ} (hb : b < 2 ^ 35) :
    (s.mmapUnset bit).marked b = if b = bit.toNat then false else s.marked b := by
  have hn : bit.toNat < 2 ^ 35 := lt_trans bit.isLt (by decide)
  unfold mmapUnset marked
  simp only
  rw [memoryMap_add_eq_word, shift_mod_eq, Mem.bit_store32_and _ _ hn hb]
  by_cases h : b = bit.toNat <;> simp [h]

@[simp] theorem maxBlocks_mmapSet (s : Pmmngr) (bit : BitVec 32) :
    (s.mmapSet bit).maxBlocks = s.maxBlocks := rfl
@[simp] theorem usedBlocks_mmapSet (s : Pmmngr) (bit : BitVec 32) :
    (s.mmapSet bit).usedBlocks = s.usedBlocks := rfl
@[simp] theorem maxBlocks_mmapUnset (s : Pmmngr) (bit : BitVec 32) :
    (s.mmapUnset bit).maxBlocks = s.maxBlocks := rfl
@[simp] theorem usedBlocks_mmapUnset (s : Pmmngr) (bit : BitVec 32) :
    (s.mmapUnset bit).usedBlocks = s.usedBlocks := rfl

/-- `max_blocks` is below `2 ^ 20`: it is a 32-bit size divided by the block size. -/
theorem maxBlocks_lt (s : Pmmngr) : s.maxBlocks.toNat < 2 ^ 20 := by
  have h := s.memorySize.isLt
  rw [s.maxBlocks_eq, BitVec.toNat_udiv]
  show s.memorySize.toNat / 4096 < 2 ^ 20
  omega

/-! ### Consecutive blocks -/

/-- What a body leaves alone, a loop over blocks leaves alone. -/
theorem forBlocks_eq_of_eq {β : Type*} (g : Pmmngr → β) {f : Pmmngr → BitVec 32 → Pmmngr}
    (hf : ∀ s block, g (f s block) = g s) (n : ℕ) (block : BitVec 32) (s : Pmmngr) :
    g (forBlocks f n block s) = g s := by
  induction n generalizing block s with
  | zero => rfl
  | succ n ih => rw [forBlocks, ih, hf]

/-- A loop whose body gives its block's bit the value `v`, and no other bit, gives the bits of an
interval the value `v`. -/
theorem marked_forBlocks {f : Pmmngr → BitVec 32 → Pmmngr} (v : Bool)
    (hf : ∀ (s : Pmmngr) (block : BitVec 32) (b : ℕ), b < 2 ^ 35 →
      (f s block).marked b = if b = block.toNat then v else s.marked b)
    (n : ℕ) (block : BitVec 32) (s : Pmmngr) (hn : block.toNat + n ≤ 2 ^ 32) {b : ℕ}
    (hb : b < 2 ^ 35) :
    (forBlocks f n block s).marked b =
      if block.toNat ≤ b ∧ b < block.toNat + n then v else s.marked b := by
  induction n generalizing block s with
  | zero => rw [forBlocks, if_neg (by omega)]
  | succ n ih =>
    rw [forBlocks]
    -- behind the last block of all, `block + 1` wraps and the induction hypothesis says nothing
    rcases Nat.eq_zero_or_pos n with rfl | hpos
    · rw [forBlocks, hf _ _ _ hb]
      by_cases h : b = block.toNat
      · rw [if_pos h, if_pos (by omega)]
      · rw [if_neg h, if_neg (by omega)]
    · have hsucc : (block + 1).toNat = block.toNat + 1 := by bv_omega
      rw [ih (block + 1) (f s block) (by omega), hsucc, hf _ _ _ hb]
      by_cases h : b = block.toNat
      · rw [if_neg (by omega), if_pos h, if_pos (by omega)]
      · rw [if_neg h]
        by_cases h2 : block.toNat ≤ b ∧ b < block.toNat + (n + 1)
        · rw [if_pos h2, if_pos (by omega)]
        · rw [if_neg h2, if_neg (by omega)]

/-! ### The operations -/

@[simp] theorem toNat_blockSize : blockSize.toNat = 4096 := rfl

@[simp] theorem toNat_div_blockSize (x : BitVec 32) : (x / blockSize).toNat = x.toNat / 4096 := by
  rw [BitVec.toNat_udiv, toNat_blockSize]

/-- A size in blocks. -/
theorem div_blockSize_eq (size : BitVec 32) :
    size / blockSize = BitVec.ofNat 32 (size.toNat / 4096) := by
  apply BitVec.eq_of_toNat_eq
  rw [toNat_div_blockSize, BitVec.toNat_ofNat, Nat.mod_eq_of_lt (by omega)]

/-- The blocks that a region call visits. -/
def regionBlocks (base : PhysicalAddr) (size : BitVec 32) : Finset ℕ :=
  Finset.Ico (base.toNat / 4096) (base.toNat / 4096 + size.toNat / 4096)

theorem mem_regionBlocks {base : PhysicalAddr} {size : BitVec 32} {b : ℕ} :
    b ∈ regionBlocks base size ↔
      base.toNat / 4096 ≤ b ∧ b < base.toNat / 4096 + size.toNat / 4096 := Finset.mem_Ico

@[simp] theorem card_regionBlocks (base : PhysicalAddr) (size : BitVec 32) :
    (regionBlocks base size).card = size.toNat / 4096 := by
  rw [regionBlocks, Nat.card_Ico]
  omega

@[simp] theorem maxBlocks_pmmngrInit (mem : Mem) (a : PhysicalAddr) (size : BitVec 32) :
    (pmmngrInit mem a size).maxBlocks = size / blockSize := rfl
@[simp] theorem usedBlocks_pmmngrInit (mem : Mem) (a : PhysicalAddr) (size : BitVec 32) :
    (pmmngrInit mem a size).usedBlocks = size / blockSize := rfl

/-- `pmmngr_init` marks the blocks whose bits lie in whole bytes of the bitmap, and leaves the
other bits of memory as they were. -/
theorem marked_pmmngrInit (mem : Mem) (a : PhysicalAddr) (size : BitVec 32) {b : ℕ}
    (hb : b < 2 ^ 35) :
    (pmmngrInit mem a size).marked b =
      if b < 8 * ((size / blockSize).toNat / 8) then true else mem.bit a b := by
  have hlen : (size / blockSize / blocksPerByte).toNat = (size / blockSize).toNat / 8 := by
    rw [BitVec.toNat_udiv]; rfl
  show (mem.memset a 0xFF (size / blockSize / blocksPerByte).toNat).bit a b = _
  have hsize := (size / blockSize).isLt
  rw [hlen, Mem.bit_memset _ _ _ (by omega) hb, show (0xFF : BitVec 8) = BitVec.allOnes 8 from rfl,
    BitVec.getLsbD_allOnes, decide_eq_true (by omega)]

@[simp] theorem maxBlocks_pmmngrInitRegion (s : Pmmngr) (base : PhysicalAddr) (size : BitVec 32) :
    (s.pmmngrInitRegion base size).maxBlocks = s.maxBlocks :=
  forBlocks_eq_of_eq (f := initBlock) Pmmngr.maxBlocks (fun _ _ => rfl) _ _ _

@[simp] theorem maxBlocks_pmmngrDeinitRegion (s : Pmmngr) (base : PhysicalAddr)
    (size : BitVec 32) : (s.pmmngrDeinitRegion base size).maxBlocks = s.maxBlocks :=
  forBlocks_eq_of_eq (f := deinitBlock) Pmmngr.maxBlocks (fun _ _ => rfl) _ _ _

@[simp] theorem maxBlocks_pmmngrFreeBlocks (s : Pmmngr) (a : PhysicalAddr) (n : BitVec 32) :
    (s.pmmngrFreeBlocks a n).maxBlocks = s.maxBlocks :=
  forBlocks_eq_of_eq (f := mmapUnset) Pmmngr.maxBlocks (fun _ _ => rfl) _ _ _

/-- A region never reaches past block `2 ^ 21`. -/
theorem regionBlocks_le (base : PhysicalAddr) (size : BitVec 32) :
    base.toNat / 4096 + size.toNat / 4096 ≤ 2 ^ 21 := by
  have h1 := base.isLt
  have h2 := size.isLt
  omega

/-- `pmmngr_init_region` frees its blocks, except block 0, which it marks. -/
theorem marked_pmmngrInitRegion (s : Pmmngr) (base : PhysicalAddr) (size : BitVec 32) {b : ℕ}
    (hb : b < 2 ^ 35) :
    (s.pmmngrInitRegion base size).marked b =
      if b = 0 then true else if b ∈ regionBlocks base size then false else s.marked b := by
  have hle := regionBlocks_le base size
  rw [pmmngrInitRegion, marked_mmapSet _ _ hb]
  simp only [mem_regionBlocks]
  rw [marked_forBlocks (f := initBlock) false (fun s block b hb => marked_mmapUnset s block hb)
    _ _ _ (by simp only [toNat_div_blockSize]; omega) hb]
  simp

/-- `pmmngr_deinit_region` marks its blocks. -/
theorem marked_pmmngrDeinitRegion (s : Pmmngr) (base : PhysicalAddr) (size : BitVec 32) {b : ℕ}
    (hb : b < 2 ^ 35) :
    (s.pmmngrDeinitRegion base size).marked b =
      if b ∈ regionBlocks base size then true else s.marked b := by
  have hle := regionBlocks_le base size
  rw [pmmngrDeinitRegion]
  simp only [mem_regionBlocks]
  rw [marked_forBlocks (f := deinitBlock) true (fun s block b hb => marked_mmapSet s block hb)
    _ _ _ (by simp only [toNat_div_blockSize]; omega) hb]
  simp

/-- A loop whose body adds `d` to the counter adds `d` once per block. -/
theorem usedBlocks_forBlocks {f : Pmmngr → BitVec 32 → Pmmngr} (d : BitVec 32)
    (hf : ∀ s block, (f s block).usedBlocks = s.usedBlocks + d) (n : ℕ) (block : BitVec 32)
    (s : Pmmngr) :
    (forBlocks f n block s).usedBlocks = s.usedBlocks + BitVec.ofNat 32 n * d := by
  induction n generalizing block s with
  | zero => simp [forBlocks]
  | succ n ih =>
    rw [forBlocks, ih, hf, BitVec.ofNat_add, BitVec.add_mul, BitVec.add_assoc,
      BitVec.add_comm d]
    simp

theorem usedBlocks_pmmngrInitRegion (s : Pmmngr) (base : PhysicalAddr) (size : BitVec 32) :
    (s.pmmngrInitRegion base size).usedBlocks = s.usedBlocks - size / blockSize := by
  rw [pmmngrInitRegion, usedBlocks_mmapSet, usedBlocks_forBlocks (-1)]
  · rw [BitVec.ofNat_toNat, BitVec.setWidth_eq, BitVec.mul_neg, BitVec.sub_eq_add_neg]
    simp only [BitVec.mul_one, BitVec.ofNat_eq_ofNat]
  · intro s block
    rw [initBlock, BitVec.sub_eq_add_neg]

theorem usedBlocks_pmmngrDeinitRegion (s : Pmmngr) (base : PhysicalAddr) (size : BitVec 32) :
    (s.pmmngrDeinitRegion base size).usedBlocks = s.usedBlocks + size / blockSize := by
  rw [pmmngrDeinitRegion, usedBlocks_forBlocks 1]
  · rw [BitVec.ofNat_toNat, BitVec.setWidth_eq]
    simp only [BitVec.mul_one, BitVec.ofNat_eq_ofNat]
  · intro s block
    rfl

theorem usedBlocks_pmmngrFreeBlocks (s : Pmmngr) (a : PhysicalAddr) (n : BitVec 32) :
    (s.pmmngrFreeBlocks a n).usedBlocks = s.usedBlocks - n := by
  show (forBlocks mmapUnset n.toNat (a / blockSize) s).usedBlocks - n = _
  rw [forBlocks_eq_of_eq Pmmngr.usedBlocks usedBlocks_mmapUnset]

/-- `pmmngr_free_blocks` frees the blocks of its run. -/
theorem marked_pmmngrFreeBlocks (s : Pmmngr) (a : PhysicalAddr) (n : BitVec 32)
    (hn : a.toNat / 4096 + n.toNat ≤ 2 ^ 32) {b : ℕ} (hb : b < 2 ^ 35) :
    (s.pmmngrFreeBlocks a n).marked b =
      if a.toNat / 4096 ≤ b ∧ b < a.toNat / 4096 + n.toNat then false else s.marked b := by
  have h := marked_forBlocks false (fun s block b hb => marked_mmapUnset s block hb) n.toNat
    (a / blockSize) s (by rw [toNat_div_blockSize]; exact hn) hb
  rw [toNat_div_blockSize] at h
  exact h

end FanOS.Pmmngr

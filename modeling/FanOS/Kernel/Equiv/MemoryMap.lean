import FanOS.Kernel.Basic
import FanOS.PhysicalMmngr.Equiv.Bitmap

/-!
# When the import of the memory map is sound

After `kmain` has gone over the memory map, block `b` is free iff it lies in the block range that
some type-1 entry has after its base and size were cut to 32 bits and rounded down
(`availableBlocks`) and is not block 0, or its bit was not written at all (`marked_kmainImport`).

`ImportSound` is what the import should guarantee: free blocks lie inside a type-1 entry, and
memory behind the `max_blocks` bits of the bitmap is as it was.  `importSound_iff` says for which
tables it does, whatever memory held before.  Four things go wrong otherwise: an entry's range
ends past `max_blocks` (as it does whenever the last entry is available, because `total_memory` is
the last byte and not the number of bytes), a base is rounded down into a foreign block, a base
above 4 GiB lands on low memory, and the bits past the last whole byte of the bitmap are never
initialised.
-/

namespace FanOS.Kernel

open Pmmngr

/-! ### The bitmap after the import -/

/-- The block range of an entry as `pmmngr_init_region` sees it. -/
def SMAPEntry.blocks (e : SMAPEntry) : Finset ℕ :=
  regionBlocks (e.base.setWidth 32) (e.size.setWidth 32)

theorem SMAPEntry.mem_blocks {e : SMAPEntry} {b : ℕ} :
    b ∈ e.blocks ↔ e.base.toNat % 2 ^ 32 / 4096 ≤ b ∧
      b < e.base.toNat % 2 ^ 32 / 4096 + e.size.toNat % 2 ^ 32 / 4096 := by
  rw [SMAPEntry.blocks, mem_regionBlocks]
  simp only [BitVec.toNat_setWidth]

/-- The blocks that the import frees: the truncated ranges of the type-1 entries. -/
def Available (entries : List SMAPEntry) (b : ℕ) : Prop :=
  ∃ e ∈ entries, e.type = 1 ∧ b ∈ e.blocks

instance (entries : List SMAPEntry) (b : ℕ) : Decidable (Available entries b) :=
  inferInstanceAs (Decidable (∃ e ∈ entries, e.type = 1 ∧ b ∈ e.blocks))

/-- The table has an available entry. -/
def AnyAvailable (entries : List SMAPEntry) : Prop := ∃ e ∈ entries, e.type = 1

instance (entries : List SMAPEntry) : Decidable (AnyAvailable entries) :=
  inferInstanceAs (Decidable (∃ e ∈ entries, e.type = 1))

theorem maxBlocks_foldl_importEntry (entries : List SMAPEntry) (s : Pmmngr) :
    (entries.foldl importEntry s).maxBlocks = s.maxBlocks := by
  induction entries generalizing s with
  | nil => rfl
  | cons e entries ih =>
    rw [List.foldl_cons, ih, importEntry]
    split_ifs
    · exact maxBlocks_pmmngrInitRegion _ _ _
    · rfl

/-- The loop over the entries frees the available blocks and marks block 0. -/
theorem marked_foldl_importEntry (entries : List SMAPEntry) (s : Pmmngr) {b : ℕ}
    (hb : b < 2 ^ 35) :
    (entries.foldl importEntry s).marked b =
      if b = 0 ∧ AnyAvailable entries then true
      else if Available entries b then false else s.marked b := by
  induction entries generalizing s with
  | nil => simp [AnyAvailable, Available]
  | cons e entries ih =>
    rw [List.foldl_cons, ih, importEntry]
    by_cases ht : e.type = 1
    · have hany : AnyAvailable (e :: entries) := ⟨e, List.mem_cons_self, ht⟩
      have hav : Available (e :: entries) b ↔ b ∈ e.blocks ∨ Available entries b := by
        simp [Available, ht]
      rw [if_pos ht, marked_pmmngrInitRegion _ _ _ hb]
      simp only [hany, and_true, hav, SMAPEntry.blocks]
      -- every call marks block 0 again, also after an entry that frees it
      by_cases h0 : b = 0
      · by_cases h1 : AnyAvailable entries
        · simp [h0, h1]
        · have h2 : ¬ Available entries b := fun ⟨e, he, ht, _⟩ => h1 ⟨e, he, ht⟩
          rw [h0] at h2
          simp [h0, h1, h2]
      · simp only [h0, false_and, if_false]
        by_cases h2 : Available entries b <;> simp [h2]
    · have hany : AnyAvailable (e :: entries) ↔ AnyAvailable entries := by
        simp only [AnyAvailable, List.exists_mem_cons_iff, ht, false_or]
      have hav : Available (e :: entries) b ↔ Available entries b := by
        simp only [Available, List.exists_mem_cons_iff, ht, false_and, false_or]
      rw [if_neg ht]
      simp only [hany, hav]

section Import

variable {mem : Mem} {entries : List SMAPEntry} {hne : entries ≠ []}

/-- The number of blocks that `kmain` derives from the table. -/
def blockCount (entries : List SMAPEntry) (hne : entries ≠ []) : ℕ :=
  (totalMemory entries hne).toNat / 4096

theorem maxBlocks_kmainImport :
    (kmainImport mem entries hne).maxBlocks.toNat = blockCount entries hne := by
  rw [kmainImport, maxBlocks_foldl_importEntry, maxBlocks_pmmngrInit, toNat_div_blockSize,
    blockCount]

theorem blockCount_lt (entries : List SMAPEntry) (hne : entries ≠ []) :
    blockCount entries hne < 2 ^ 20 := by
  have h := (kmainImport (fun _ => 0) entries hne).maxBlocks_lt
  rwa [maxBlocks_kmainImport] at h

/-- The bitmap after the import. -/
theorem marked_kmainImport {b : ℕ} (hb : b < 2 ^ 35) :
    (kmainImport mem entries hne).marked b =
      if b = 0 ∧ AnyAvailable entries then true
      else if Available entries b then false
      else if b < 8 * (blockCount entries hne / 8) then true else mem.bit memmapAddress b := by
  rw [kmainImport, marked_foldl_importEntry _ _ hb, marked_pmmngrInit _ _ _ hb,
    toNat_div_blockSize, blockCount]

end Import

/-! ### Soundness -/

/-- The entry reports byte `x`. -/
def SMAPEntry.Covers (e : SMAPEntry) (x : ℕ) : Prop :=
  e.base.toNat ≤ x ∧ x < e.base.toNat + e.size.toNat

/-- All of block `b` lies in the entry. -/
def SMAPEntry.Contains (e : SMAPEntry) (b : ℕ) : Prop :=
  e.base.toNat ≤ 4096 * b ∧ 4096 * (b + 1) ≤ e.base.toNat + e.size.toNat

/-- The block lies entirely inside one available entry. -/
def InsideAvailable (entries : List SMAPEntry) (b : ℕ) : Prop :=
  ∃ e ∈ entries, e.type = 1 ∧ e.Contains b

/-- The table is sorted by base and its entries do not overlap. -/
def Sorted (entries : List SMAPEntry) : Prop :=
  entries.Pairwise fun e f => e.base.toNat ≤ f.base.toNat ∧ ∀ x, e.Covers x → ¬ f.Covers x

/-- Free blocks lie inside an available entry, and no bit behind the bitmap has changed. -/
def ImportSound (mem : Mem) (entries : List SMAPEntry) (hne : entries ≠ []) : Prop :=
  (∀ b, b < (kmainImport mem entries hne).maxBlocks.toNat →
    (kmainImport mem entries hne).marked b = false → InsideAvailable entries b) ∧
  (∀ b, (kmainImport mem entries hne).maxBlocks.toNat ≤ b → b < 2 ^ 35 →
    (kmainImport mem entries hne).marked b = mem.bit memmapAddress b)

/-- The condition on the table. -/
structure ImportCond (entries : List SMAPEntry) (hne : entries ≠ []) : Prop where
  /-- The truncated range of an available entry ends at or below `max_blocks`. -/
  range_le : ∀ e ∈ entries, e.type = 1 → ∀ b ∈ e.blocks, b < blockCount entries hne
  /-- If an entry is available, block 0 exists (its bit gets marked). -/
  zero_lt : AnyAvailable entries → 0 < blockCount entries hne
  /-- Below 4 GiB, the base of an available entry of at least one block is aligned, or lies in
  block 0. -/
  aligned : ∀ e ∈ entries, e.type = 1 → e.base.toNat < 2 ^ 32 → 4096 ≤ e.size.toNat % 2 ^ 32 →
    4096 ∣ e.base.toNat ∨ e.base.toNat < 4096
  /-- From 4 GiB on, every block that the truncated entry lands on lies inside an available
  entry, block 0 excepted. -/
  high : ∀ e ∈ entries, e.type = 1 → 2 ^ 32 ≤ e.base.toNat → ∀ b ∈ e.blocks, b ≠ 0 →
    InsideAvailable entries b
  /-- The blocks past the last whole byte of the bitmap lie inside an available entry, block 0
  excepted if it gets marked. -/
  tail : ∀ b, 8 * (blockCount entries hne / 8) ≤ b → b < blockCount entries hne →
    (b = 0 ∧ AnyAvailable entries) ∨ InsideAvailable entries b

/-- Two entries of a sorted table that report the same byte are the same. -/
theorem Sorted.eq_of_covers {entries : List SMAPEntry} (h : Sorted entries) {e f : SMAPEntry}
    (he : e ∈ entries) (hf : f ∈ entries) {x : ℕ} (hex : e.Covers x) (hfx : f.Covers x) : e = f := by
  obtain ⟨i, hi, rfl⟩ := List.mem_iff_getElem.mp he
  obtain ⟨j, hj, rfl⟩ := List.mem_iff_getElem.mp hf
  have hp := List.pairwise_iff_getElem.mp h
  rcases Nat.lt_trichotomy i j with hij | rfl | hij
  · exact absurd hfx ((hp i j hi hj hij).2 x hex)
  · rfl
  · exact absurd hex ((hp j i hj hi hij).2 x hfx)

section Iff

variable {entries : List SMAPEntry} {hne : entries ≠ []}

/-- Under the condition, every block the import frees (other than block 0) is inside an available
entry. -/
theorem ImportCond.inside (h : ImportCond entries hne) {b : ℕ} (hb0 : b ≠ 0)
    (hb : Available entries b) : InsideAvailable entries b := by
  obtain ⟨e, he, ht, hbe⟩ := hb
  rcases Nat.lt_or_ge e.base.toNat (2 ^ 32) with hlow | hhigh
  · have hmem := SMAPEntry.mem_blocks.mp hbe
    rw [Nat.mod_eq_of_lt hlow] at hmem
    have hsize : e.size.toNat % 2 ^ 32 ≤ e.size.toNat := Nat.mod_le _ _
    rcases h.aligned e he ht hlow (by omega) with hal | hzero
    · exact ⟨e, he, ht, by omega, by omega⟩
    · exact ⟨e, he, ht, by omega, by omega⟩
  · exact h.high e he ht hhigh b hbe hb0

/-- The condition is enough, whatever memory held. -/
theorem ImportCond.sound (h : ImportCond entries hne) (mem : Mem) : ImportSound mem entries hne := by
  have hlt := blockCount_lt entries hne
  constructor
  · intro b hb hfree
    rw [maxBlocks_kmainImport] at hb
    rw [marked_kmainImport (by omega)] at hfree
    split_ifs at hfree with h1 h2 h3
    · by_cases hb0 : b = 0
      · -- block 0 is marked again whenever something was freed
        obtain ⟨e, he, ht, -⟩ := h2
        exact absurd ⟨hb0, e, he, ht⟩ h1
      · exact h.inside hb0 h2
    · rcases h.tail b (by omega) hb with h4 | h4
      · exact absurd h4 h1
      · exact h4
  · intro b hb hb35
    rw [maxBlocks_kmainImport] at hb
    have h1 : ¬ (b = 0 ∧ AnyAvailable entries) := by
      rintro ⟨rfl, hany⟩
      have := h.zero_lt hany
      omega
    have h2 : ¬ Available entries b := by
      rintro ⟨e, he, ht, hbe⟩
      have := h.range_le e he ht b hbe
      omega
    rw [marked_kmainImport hb35, if_neg h1, if_neg h2, if_neg (by omega)]

/-- A block number that occurs in an entry's range is small. -/
theorem SMAPEntry.lt_of_mem_blocks {e : SMAPEntry} {b : ℕ} (hb : b ∈ e.blocks) : b < 2 ^ 35 := by
  have := SMAPEntry.mem_blocks.mp hb
  omega

/-- **The import is sound for a sorted table, whatever memory held before, iff the table meets
`ImportCond`.** -/
theorem importSound_iff (entries : List SMAPEntry) (hne : entries ≠ []) (hsorted : Sorted entries) :
    (∀ mem, ImportSound mem entries hne) ↔ ImportCond entries hne := by
  refine ⟨fun h => ?_, fun h mem => h.sound mem⟩
  have hlt := blockCount_lt entries hne
  -- a block that the import frees, other than block 0, lies inside an available entry
  have hfreed : ∀ b, b ≠ 0 → b < blockCount entries hne → Available entries b →
      InsideAvailable entries b := by
    intro b hb0 hb hav
    refine (h fun _ => 0).1 b (by rw [maxBlocks_kmainImport]; exact hb) ?_
    rw [marked_kmainImport (by omega), if_neg (fun hc => hb0 hc.1), if_pos hav]
  have hzero : AnyAvailable entries → 0 < blockCount entries hne := by
    intro hany
    by_contra hz
    -- in a memory of zeros, marking block 0 changes the bit behind an empty bitmap
    have := (h fun _ => 0).2 0 (by rw [maxBlocks_kmainImport]; omega) (by norm_num)
    rw [marked_kmainImport (by norm_num), if_pos ⟨rfl, hany⟩] at this
    exact absurd this (by decide)
  have hrange : ∀ e ∈ entries, e.type = 1 → ∀ b ∈ e.blocks, b < blockCount entries hne := by
    intro e he ht b hb
    have hpos := hzero ⟨e, he, ht⟩
    by_contra hge
    -- in a memory of ones, freeing a block behind the bitmap changes its bit
    have := (h fun _ => BitVec.allOnes 8).2 b (by rw [maxBlocks_kmainImport]; omega)
      (SMAPEntry.lt_of_mem_blocks hb)
    rw [marked_kmainImport (SMAPEntry.lt_of_mem_blocks hb), if_neg (by omega),
      if_pos ⟨e, he, ht, hb⟩, Mem.bit, BitVec.getLsbD_allOnes,
      decide_eq_true (Nat.mod_lt _ (by norm_num))] at this
    exact absurd this (by decide)
  refine ⟨hrange, hzero, fun e he ht hlow hsize => ?_, fun e he ht _ b hb hb0 =>
    hfreed b hb0 (hrange e he ht b hb) ⟨e, he, ht, hb⟩, fun b h1 h2 => ?_⟩
  · by_contra hcon
    rw [not_or] at hcon
    have hmem : e.base.toNat / 4096 ∈ e.blocks := by
      rw [SMAPEntry.mem_blocks, Nat.mod_eq_of_lt hlow]
      omega
    obtain ⟨f, hf, hft, hin1, hin2⟩ := hfreed _ (by omega) (hrange e he ht _ hmem)
      ⟨e, he, ht, hmem⟩
    -- the first block of `e` lies inside `f`, so `f` reports the base of `e` and is `e`
    have hcov : e.Covers e.base.toNat :=
      ⟨le_rfl, by have := Nat.mod_le e.size.toNat (2 ^ 32); omega⟩
    obtain rfl : e = f := hsorted.eq_of_covers he hf hcov ⟨by omega, by omega⟩
    omega
  · by_cases h0 : b = 0 ∧ AnyAvailable entries
    · exact Or.inl h0
    · refine Or.inr ((h fun _ => 0).1 b (by rw [maxBlocks_kmainImport]; exact h2) ?_)
      rw [marked_kmainImport (by omega), if_neg h0, if_neg (show ¬ b < 8 * _ by omega)]
      split_ifs
      · rfl
      · simp [Mem.bit]

end Iff

/-- A table that meets the condition: 32 available blocks followed by 32 reserved ones. -/
theorem importSound_iff_two_entries :
    ImportSound (fun _ => 0) [⟨0, 0x20000, 1⟩, ⟨0x20000, 0x20001, 2⟩] (by simp) := by
  have hsorted : Sorted [⟨0, 0x20000, 1⟩, ⟨0x20000, 0x20001, 2⟩] := by
    refine List.pairwise_pair.mpr ⟨by decide, fun x h1 h2 => ?_⟩
    have h3 : x < 0x20000 := h1.2
    have h4 : 0x20000 ≤ x := h2.1
    omega
  have hcount : blockCount [⟨0, 0x20000, 1⟩, ⟨0x20000, 0x20001, 2⟩] (by simp) = 64 := by decide
  refine (importSound_iff _ _ hsorted).mpr ⟨?_, ?_, ?_, ?_, ?_⟩ _
  · rw [hcount]
    decide
  · rw [hcount]
    exact fun _ => by norm_num
  · decide
  · simp
  · rw [hcount]
    omega

/-- A machine with one available entry of 33 blocks: `kmain` counts 32 blocks, and the import
clears bit 32, behind the bitmap. -/
theorem not_importSound :
    Sorted [⟨0, 0x21000, 1⟩] ∧
      ¬ ImportSound (fun _ => 0xFF) [⟨0, 0x21000, 1⟩] (by simp) := by
  refine ⟨List.pairwise_singleton _ _, fun h => ?_⟩
  have hbit := h.2 32 (by decide) (by decide)
  rw [marked_kmainImport (by decide), if_neg (by omega), if_pos (by decide)] at hbit
  exact absurd hbit (by decide)

end FanOS.Kernel

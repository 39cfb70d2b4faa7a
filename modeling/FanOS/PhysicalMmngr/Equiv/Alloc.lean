import FanOS.PhysicalMmngr.Equiv.Search

/-!
# What `pmmngr_alloc_blocks` does

An allocation either fails and changes nothing, or grants the first run that the search accepts
(`Grant`): it returns the run's address, marks the run's blocks and adds their number to the
counter.  `pmmngrAllocBlocks_cases` is the inversion every later proof starts from.
-/

namespace FanOS.Pmmngr

/-- `pmmngr_alloc_blocks(n)` grants the run of `n` blocks from block `b`. -/
structure Grant (s : Pmmngr) (n : BitVec 32) (b : ℕ) : Prop where
  pos : 0 < n.toNat
  lt_free : n < s.pmmngrGetFreeBlockCount
  first : s.FirstAccepted b n.toNat
  address : (s.pmmngrAllocBlocks n).1 = BitVec.ofNat 32 (4096 * b)
  usedBlocks : (s.pmmngrAllocBlocks n).2.usedBlocks = s.usedBlocks + n
  marked : ∀ x, x < 2 ^ 35 → (s.pmmngrAllocBlocks n).2.marked x =
    if b ≤ x ∧ x < b + n.toNat then true else s.marked x

/-- The first run that passes the test is granted, if there are more free blocks than asked for. -/
theorem grant_of_firstAccepted {s : Pmmngr} {n : BitVec 32} {b : ℕ} (hz : n ≠ 0)
    (hn : n.toNat ≤ 2 ^ 31) (hfree : ¬ s.pmmngrGetFreeBlockCount ≤ n)
    (hb : s.FirstAccepted b n.toNat) : s.Grant n b := by
  have hres : s.mmapFirstFreeBlocks n = BitVec.ofNat 32 b := by
    rcases s.mmapFirstFreeBlocks_spec hz (by omega) with ⟨b', hb', hres⟩ | ⟨hnone, -⟩
    · rw [hres, hb'.unique hb]
    · exact absurd hb.2.1 (hnone b hb.1)
  have hlt : b < 2 ^ 20 := lt_trans hb.1 s.mapWords_lt
  -- a block number is not mistaken for the error value
  have hne : BitVec.ofNat 32 b ≠ -1 := by bv_omega
  have hbn : (BitVec.ofNat 32 b).toNat = b := by
    rw [BitVec.toNat_ofNat]
    exact Nat.mod_eq_of_lt (by omega)
  have halloc : s.pmmngrAllocBlocks n =
      (BitVec.ofNat 32 b * blockSize,
        { forBlocks mmapSet n.toNat (BitVec.ofNat 32 b) s with
          usedBlocks := (forBlocks mmapSet n.toNat (BitVec.ofNat 32 b) s).usedBlocks + n }) := by
    rw [pmmngrAllocBlocks, if_neg hfree, hres]
    simp only
    rw [if_neg hne]
  refine ⟨?_, BitVec.not_le.mp hfree, hb, ?_, ?_, ?_⟩
  · exact Nat.pos_of_ne_zero fun h => hz (BitVec.eq_of_toNat_eq h)
  · rw [halloc]
    apply BitVec.eq_of_toNat_eq
    rw [BitVec.toNat_mul, hbn, toNat_blockSize, BitVec.toNat_ofNat, Nat.mul_comm]
  · rw [halloc]
    show (forBlocks mmapSet n.toNat (BitVec.ofNat 32 b) s).usedBlocks + n = _
    rw [forBlocks_eq_of_eq Pmmngr.usedBlocks usedBlocks_mmapSet]
  · intro x hx
    rw [halloc]
    have h := marked_forBlocks true (fun s block b hb => marked_mmapSet s block hb) n.toNat
      (BitVec.ofNat 32 b) s (by rw [hbn]; omega) hx
    rw [hbn] at h
    exact h

/-- An allocation fails and changes nothing, or it grants a run. -/
theorem pmmngrAllocBlocks_cases_of_le (s : Pmmngr) {n : BitVec 32} (hn : n.toNat ≤ 2 ^ 31) :
    s.pmmngrAllocBlocks n = (0, s) ∨ ∃ b, s.Grant n b := by
  by_cases hfree : s.pmmngrGetFreeBlockCount ≤ n
  · exact Or.inl (by rw [pmmngrAllocBlocks, if_pos hfree])
  by_cases hz : n = 0
  · -- the search itself refuses an empty request
    apply Or.inl
    rw [pmmngrAllocBlocks, if_neg hfree, mmapFirstFreeBlocks, if_pos hz]
    simp
  rcases s.mmapFirstFreeBlocks_spec hz (by omega) with ⟨b, hb, -⟩ | ⟨-, hres⟩
  · exact Or.inr ⟨b, grant_of_firstAccepted hz hn hfree hb⟩
  · apply Or.inl
    rw [pmmngrAllocBlocks, if_neg hfree, hres]
    simp

@[simp] theorem maxBlocks_pmmngrAllocBlocks (s : Pmmngr) (n : BitVec 32) :
    (s.pmmngrAllocBlocks n).2.maxBlocks = s.maxBlocks := by
  rw [pmmngrAllocBlocks]
  split_ifs
  · rfl
  · simp only
    split_ifs
    · rfl
    · exact forBlocks_eq_of_eq Pmmngr.maxBlocks maxBlocks_mmapSet _ _ _

/-- An allocation frees nothing. -/
theorem marked_pmmngrAllocBlocks_of_marked (s : Pmmngr) {n : BitVec 32} (hn : n.toNat ≤ 2 ^ 31)
    {x : ℕ} (hx : x < 2 ^ 35) (h : s.marked x = true) :
    (s.pmmngrAllocBlocks n).2.marked x = true := by
  rcases s.pmmngrAllocBlocks_cases_of_le hn with hfail | ⟨b, hg⟩
  · rw [hfail, h]
  · rw [hg.marked x hx, h, ite_self]

/-- When the counter is in range the request of a granted run is below `2 ^ 20`. -/
theorem lt_of_lt_free {s : Pmmngr} {n : BitVec 32} (hused : s.usedBlocks.toNat ≤ s.maxBlocks.toNat)
    (h : n < s.pmmngrGetFreeBlockCount) : s.usedBlocks.toNat + n.toNat < s.maxBlocks.toNat := by
  rw [BitVec.lt_def, pmmngrGetFreeBlockCount,
    BitVec.toNat_sub_of_le (BitVec.le_def.mpr hused)] at h
  omega

/-- The same without a bound on the request, for a counter in range. -/
theorem pmmngrAllocBlocks_cases {s : Pmmngr} (n : BitVec 32)
    (hused : s.usedBlocks.toNat ≤ s.maxBlocks.toNat) :
    s.pmmngrAllocBlocks n = (0, s) ∨ ∃ b, s.Grant n b := by
  by_cases hfree : s.pmmngrGetFreeBlockCount ≤ n
  · exact Or.inl (by rw [pmmngrAllocBlocks, if_pos hfree])
  · have h1 := lt_of_lt_free hused (BitVec.not_le.mp hfree)
    have h2 := s.maxBlocks_lt
    exact s.pmmngrAllocBlocks_cases_of_le (by omega)

namespace Grant

variable {s : Pmmngr} {n : BitVec 32} {b : ℕ}

theorem start_lt (h : s.Grant n b) : b < 2 ^ 20 := lt_trans h.first.1 s.mapWords_lt

/-- The address determines the run's first block. -/
theorem address_div (h : s.Grant n b) : (s.pmmngrAllocBlocks n).1.toNat / 4096 = b := by
  have := h.start_lt
  rw [h.address, BitVec.toNat_ofNat, Nat.mod_eq_of_lt (by omega)]
  omega

/-- A granted run has address 0 only if it starts at block 0. -/
theorem address_eq_zero_iff (h : s.Grant n b) : (s.pmmngrAllocBlocks n).1 = 0 ↔ b = 0 := by
  have := h.start_lt
  constructor
  · intro h0
    have := h.address_div
    rw [h0] at this
    simpa using this.symm
  · rintro rfl
    exact h.address

/-- The first block of a granted run was free. -/
theorem marked_start (h : s.Grant n b) : s.marked b = false :=
  h.first.2.1.marked_eq_false le_rfl (by have := h.pos; omega) h.first.1

end Grant

/-- The first block of a run that is handed out was free and is not any more. -/
theorem pmmngrAllocBlocks_fresh (s : Pmmngr) {n : BitVec 32} (hn : n.toNat ≤ 2 ^ 31)
    (h : (s.pmmngrAllocBlocks n).1 ≠ 0) :
    (s.pmmngrAllocBlocks n).1.toNat % 4096 = 0 ∧
    s.marked ((s.pmmngrAllocBlocks n).1.toNat / 4096) = false ∧
    (s.pmmngrAllocBlocks n).2.marked ((s.pmmngrAllocBlocks n).1.toNat / 4096) = true := by
  rcases s.pmmngrAllocBlocks_cases_of_le hn with hfail | ⟨b, hg⟩
  · rw [hfail] at h
    exact absurd rfl h
  · have hlt := hg.start_lt
    have hpos := hg.pos
    refine ⟨?_, ?_, ?_⟩
    · rw [hg.address, BitVec.toNat_ofNat]
      omega
    · rw [hg.address_div, hg.marked_start]
    · rw [hg.address_div, hg.marked b (by omega), if_pos (by omega)]

theorem pmmngrAllocBlock_fresh (s : Pmmngr) (h : s.pmmngrAllocBlock.1 ≠ 0) :
    s.pmmngrAllocBlock.1.toNat % 4096 = 0 ∧
    s.marked (s.pmmngrAllocBlock.1.toNat / 4096) = false ∧
    s.pmmngrAllocBlock.2.marked (s.pmmngrAllocBlock.1.toNat / 4096) = true :=
  s.pmmngrAllocBlocks_fresh (by decide) h

theorem marked_pmmngrAllocBlock_of_marked (s : Pmmngr) {x : ℕ} (hx : x < 2 ^ 35)
    (h : s.marked x = true) : s.pmmngrAllocBlock.2.marked x = true :=
  s.marked_pmmngrAllocBlocks_of_marked (by decide) hx h

/-! ### Memory that is taken in order -/

/-- Of `m` blocks, in whole words of the bitmap, those below `k` are used and all others free. -/
structure FreeFrom (s : Pmmngr) (m k : ℕ) : Prop where
  blocks : s.maxBlocks.toNat = m
  whole : m % 32 = 0
  used : s.usedBlocks.toNat = k
  marked : ∀ x < m, s.marked x = decide (x < k)

/-- An allocation takes the first free blocks, if there are enough. -/
theorem FreeFrom.pmmngrAllocBlocks {s : Pmmngr} {m k : ℕ} (h : s.FreeFrom m k) {n : BitVec 32}
    (hz : n ≠ 0) (hlt : k + n.toNat < m) :
    (s.pmmngrAllocBlocks n).1 = BitVec.ofNat 32 (4096 * k) ∧
      (s.pmmngrAllocBlocks n).2.FreeFrom m (k + n.toNat) := by
  have hmax := s.maxBlocks_lt
  have hwords : 32 * s.mapWords = m := by
    have hblocks := h.blocks
    have hwhole := h.whole
    unfold mapWords
    omega
  have hblocks := h.blocks
  -- neither the counter nor the search refuses the request
  have hfree : ¬ s.pmmngrGetFreeBlockCount ≤ n := by
    have hcount : s.pmmngrGetFreeBlockCount.toNat = m - k := by
      rw [pmmngrGetFreeBlockCount, BitVec.toNat_sub_of_le, h.used, hblocks]
      rw [BitVec.le_def, h.used]
      omega
    rw [BitVec.le_def, hcount]
    omega
  have hfirst : s.FirstAccepted k n.toNat := by
    refine ⟨by omega, (accepts_iff_of_le (by omega)).mpr fun x h1 h2 => ?_, fun t ht hacc => ?_⟩
    · rw [h.marked x (by omega), decide_eq_false (by omega)]
    · have hpos : n.toNat ≠ 0 := fun h0 => hz (BitVec.eq_of_toNat_eq h0)
      have hclear := hacc.marked_eq_false (x := t) le_rfl (by omega) (by omega)
      rw [h.marked t (by omega), decide_eq_true ht] at hclear
      exact Bool.false_ne_true hclear.symm
  have hg := grant_of_firstAccepted hz (by omega) hfree hfirst
  refine ⟨hg.address, ?_, h.whole, ?_, fun x hx => ?_⟩
  · rw [maxBlocks_pmmngrAllocBlocks, hblocks]
  · rw [hg.usedBlocks, BitVec.toNat_add, h.used, Nat.mod_eq_of_lt (by omega)]
  · rw [hg.marked x (by omega), h.marked x hx]
    by_cases hxk : x < k
    · rw [if_neg (by omega), decide_eq_true hxk, decide_eq_true (by omega)]
    · by_cases hxn : x < k + n.toNat
      · rw [if_pos (by omega), decide_eq_true hxn]
      · rw [if_neg (by omega), decide_eq_false hxk, decide_eq_false hxn]

end FanOS.Pmmngr

import FanOS.PhysicalMmngr.Equiv.Alloc
import Mathlib.Data.Finset.Card
import Mathlib.Order.Interval.Finset.Nat

/-!
# The order in which blocks are handed out

Calls of `pmmngr_alloc_block` hand out the free blocks one after the other, from the lowest one up, until the
counter says that one is left.  So a block is handed out at some time exactly when it is free and there are
not too many free blocks below it, and then by the call that follows those for the blocks below
(`handsOut_iff`).
-/

namespace FanOS.Pmmngr

variable {s : Pmmngr} {b b₀ k : ℕ}

/-- The state after some calls of `pmmngr_alloc_block`. -/
def allocated (s : Pmmngr) : ℕ → Pmmngr
  | 0 => s
  | k + 1 => (s.pmmngrAllocBlock.2).allocated k

/-- A call returns the block. -/
def HandsOut (s : Pmmngr) (b : ℕ) : Prop :=
  ∃ k, (s.allocated k).pmmngrAllocBlock.1 = BitVec.ofNat 32 (4096 * b)

/-- The free blocks below a block. -/
def freeBelow (s : Pmmngr) (b : ℕ) : Finset ℕ := {x ∈ Finset.range b | s.marked x = false}

/-! ### One call -/

/-- With a free block, and more than one by the counter, a block is granted. -/
theorem exists_grant (hb : b < 32 * s.mapWords) (hfree : s.marked b = false)
    (hcount : 1 < s.pmmngrGetFreeBlockCount.toNat) : ∃ b₀ ≤ b, s.Grant 1 b₀ := by
  have haccepts : s.Accepts b 1 := by
    refine (accepts_iff_of_le (by omega)).mpr fun x h1 h2 => ?_
    rwa [show x = b by omega]
  obtain ⟨b₀, hb₀, -⟩ | ⟨hnone, -⟩ := s.mmapFirstFreeBlocks_spec (n := 1) (by decide) (by decide)
  · refine ⟨b₀, ?_, grant_of_firstAccepted (by decide) (by decide) ?_ hb₀⟩
    · by_contra hlt
      exact hb₀.2.2 b (by omega) haccepts
    · rw [BitVec.not_le, BitVec.lt_def]
      exact hcount
  · exact absurd haccepts (hnone b hb)

/-- The block that is granted is the lowest free one. -/
theorem Grant.freeBelow_eq_empty (h : s.Grant 1 b₀) : s.freeBelow b₀ = ∅ := by
  refine Finset.filter_eq_empty_iff.mpr fun x hx hfree => ?_
  have hlt := Finset.mem_range.mp hx
  refine h.first.2.2 x hlt ((accepts_iff_of_le ?_).mpr fun y h1 h2 => ?_)
  · have := h.first.1
    change x + 1 ≤ _
    omega
  · rwa [show y = x by change y < x + 1 at h2; omega]

/-- What the call leaves of another block. -/
theorem Grant.marked_of_ne (h : s.Grant 1 b₀) (hb : b < 2 ^ 20) (hne : b ≠ b₀) :
    (s.pmmngrAllocBlock.2).marked b = s.marked b := by
  have hmarked := h.marked b (by omega)
  rw [if_neg (by change ¬(b₀ ≤ b ∧ b < b₀ + 1); omega)] at hmarked
  exact hmarked

theorem Grant.marked_self (h : s.Grant 1 b₀) : (s.pmmngrAllocBlock.2).marked b₀ = true := by
  have hlt := h.start_lt
  have hmarked := h.marked b₀ (by omega)
  rw [if_pos (by change b₀ ≤ b₀ ∧ b₀ < b₀ + 1; omega)] at hmarked
  exact hmarked

/-- The blocks that are free after the call are above it. -/
theorem Grant.lt_of_free (h : s.Grant 1 b₀) (hb : b < 2 ^ 20)
    (hfree : (s.pmmngrAllocBlock.2).marked b = false) : b₀ < b := by
  have hne : b ≠ b₀ := fun heq => by
    rw [heq, h.marked_self] at hfree
    cases hfree
  rw [h.marked_of_ne hb hne] at hfree
  by_contra hle
  have hmem : b ∈ s.freeBelow b₀ := Finset.mem_filter.mpr ⟨Finset.mem_range.mpr (by omega), hfree⟩
  rw [h.freeBelow_eq_empty] at hmem
  cases hmem

/-- One free block less is below those behind it. -/
theorem Grant.card_freeBelow (h : s.Grant 1 b₀) (hb : b < 2 ^ 20) (hlt : b₀ < b) :
    (s.freeBelow b).card = ((s.pmmngrAllocBlock.2).freeBelow b).card + 1 := by
  have hinsert : s.freeBelow b = insert b₀ ((s.pmmngrAllocBlock.2).freeBelow b) := by
    ext x
    rw [freeBelow, freeBelow, Finset.mem_insert, Finset.mem_filter, Finset.mem_filter, Finset.mem_range]
    by_cases hx : x = b₀
    · rw [hx, h.marked_start]
      simp [hlt]
    · constructor
      · rintro ⟨hxb, hfree⟩
        exact Or.inr ⟨hxb, by rw [h.marked_of_ne (by omega) hx, hfree]⟩
      · rintro (heq | ⟨hxb, hfree⟩)
        · exact absurd heq hx
        · exact ⟨hxb, by rw [← h.marked_of_ne (by omega) hx, hfree]⟩
  rw [hinsert, Finset.card_insert_of_notMem]
  rw [freeBelow, Finset.mem_filter, h.marked_self]
  simp

/-- One free block less is counted. -/
theorem Grant.freeBlockCount (h : s.Grant 1 b₀) :
    s.pmmngrGetFreeBlockCount.toNat = (s.pmmngrAllocBlock.2).pmmngrGetFreeBlockCount.toNat + 1 := by
  have hlt : (1 : BitVec 32).toNat < s.pmmngrGetFreeBlockCount.toNat := h.lt_free
  have hused : (s.pmmngrAllocBlock.2).usedBlocks = s.usedBlocks + 1 := h.usedBlocks
  have hmax : (s.pmmngrAllocBlock.2).maxBlocks = s.maxBlocks := maxBlocks_pmmngrAllocBlocks s 1
  unfold pmmngrGetFreeBlockCount at *
  rw [hused, hmax]
  bv_omega

/-! ### All calls -/

/-- What is left of the memory for the calls after the first. -/
theorem mapWords_pmmngrAllocBlock (s : Pmmngr) : (s.pmmngrAllocBlock.2).mapWords = s.mapWords := by
  rw [mapWords, mapWords, pmmngrAllocBlock, maxBlocks_pmmngrAllocBlocks]

/-- The block can be handed out: it is free in the words that are searched, and the counter does not stop the
calls before it. -/
def Ready (s : Pmmngr) (b : ℕ) : Prop :=
  b < 32 * s.mapWords ∧ s.marked b = false ∧ (s.freeBelow b).card + 1 < s.pmmngrGetFreeBlockCount.toNat

instance (s : Pmmngr) (b : ℕ) : Decidable (s.Ready b) := inferInstanceAs (Decidable (_ ∧ _))

/-- What is ready after a call was ready before. -/
theorem Grant.ready (h : s.Grant 1 b₀) (hb : b < 2 ^ 20) (hready : (s.pmmngrAllocBlock.2).Ready b) :
    s.Ready b := by
  obtain ⟨hwords, hfree, hcount⟩ := hready
  have hlt := h.lt_of_free hb hfree
  rw [h.marked_of_ne hb (by omega)] at hfree
  rw [mapWords_pmmngrAllocBlock] at hwords
  refine ⟨hwords, hfree, ?_⟩
  rw [h.card_freeBelow hb hlt, h.freeBlockCount]
  omega

theorem ready_of_handsOut (hb0 : b ≠ 0) (hb : b < 2 ^ 20) (h : s.HandsOut b) : s.Ready b := by
  obtain ⟨k, hk⟩ := h
  induction k generalizing s with
  | zero =>
    change s.pmmngrAllocBlock.1 = _ at hk
    obtain hfail | ⟨b₀, hg⟩ := s.pmmngrAllocBlocks_cases_of_le (n := 1) (by decide)
    · rw [pmmngrAllocBlock, hfail] at hk
      bv_omega
    · have hlt := hg.start_lt
      obtain rfl : b₀ = b := by
        have haddr : BitVec.ofNat 32 (4096 * b₀) = BitVec.ofNat 32 (4096 * b) := hg.address.symm.trans hk
        bv_omega
      refine ⟨hg.first.1, hg.marked_start, ?_⟩
      rw [hg.freeBelow_eq_empty]
      exact hg.lt_free
  | succ k ih =>
    change ((s.pmmngrAllocBlock.2).allocated k).pmmngrAllocBlock.1 = _ at hk
    obtain hfail | ⟨b₀, hg⟩ := s.pmmngrAllocBlocks_cases_of_le (n := 1) (by decide)
    · have hsame : s.pmmngrAllocBlock.2 = s := congrArg Prod.snd hfail
      rw [hsame] at hk
      exact ih hk
    · exact hg.ready hb (ih hk)

/-- A call that is refused leaves those after it nothing else to return. -/
theorem allocated_of_refused (hsame : s.pmmngrAllocBlock.2 = s) (k : ℕ) : s.allocated k = s := by
  induction k with
  | zero => rfl
  | succ k ih => rw [allocated, hsame, ih]

/-- The calls before the one that returns the block have returned the free blocks below it. -/
theorem eq_card_freeBelow (hb0 : b ≠ 0) (hb : b < 2 ^ 20)
    (hk : (s.allocated k).pmmngrAllocBlock.1 = BitVec.ofNat 32 (4096 * b)) : k = (s.freeBelow b).card := by
  induction k generalizing s with
  | zero =>
    change s.pmmngrAllocBlock.1 = _ at hk
    obtain hfail | ⟨b₀, hg⟩ := s.pmmngrAllocBlocks_cases_of_le (n := 1) (by decide)
    · rw [pmmngrAllocBlock, hfail] at hk
      bv_omega
    · have hlt := hg.start_lt
      obtain rfl : b₀ = b := by
        have haddr : BitVec.ofNat 32 (4096 * b₀) = BitVec.ofNat 32 (4096 * b) := hg.address.symm.trans hk
        bv_omega
      rw [hg.freeBelow_eq_empty, Finset.card_empty]
  | succ k ih =>
    obtain hfail | ⟨b₀, hg⟩ := s.pmmngrAllocBlocks_cases_of_le (n := 1) (by decide)
    · have hsame : s.pmmngrAllocBlock.2 = s := congrArg Prod.snd hfail
      rw [allocated_of_refused hsame, pmmngrAllocBlock, hfail] at hk
      bv_omega
    · have hready : (s.pmmngrAllocBlock.2).Ready b := ready_of_handsOut hb0 hb ⟨k, hk⟩
      rw [hg.card_freeBelow hb (hg.lt_of_free hb hready.2.1), ← ih hk]

theorem handsOut_of_ready (hb : b < 2 ^ 20) (h : s.Ready b) : s.HandsOut b := by
  obtain ⟨hwords, hfree, hcount⟩ := h
  -- on the number of free blocks below
  induction hn : (s.freeBelow b).card generalizing s with
  | zero =>
    obtain ⟨b₀, hle, hg⟩ := exists_grant hwords hfree (by omega)
    obtain rfl : b₀ = b := by
      by_contra hne
      have hmem : b₀ ∈ s.freeBelow b :=
        Finset.mem_filter.mpr ⟨Finset.mem_range.mpr (by omega), hg.marked_start⟩
      rw [Finset.card_eq_zero.mp hn] at hmem
      cases hmem
    exact ⟨0, hg.address⟩
  | succ n ih =>
    obtain ⟨b₀, hle, hg⟩ := exists_grant hwords hfree (by omega)
    have hlt : b₀ < b := by
      by_contra hge
      obtain rfl : b₀ = b := by omega
      rw [hg.freeBelow_eq_empty] at hn
      cases hn
    have hcard := hg.card_freeBelow hb hlt
    have hcount' := hg.freeBlockCount
    obtain ⟨k, hk⟩ := ih (by rwa [mapWords_pmmngrAllocBlock]) (by rw [hg.marked_of_ne hb (by omega), hfree])
      (by omega) (by omega)
    exact ⟨k + 1, hk⟩

/-- **Blocks are handed out in order**: a call of `pmmngr_alloc_block` returns the block at some time if and
only if it is ready now, and before that as many calls return as there are free blocks below it. -/
theorem handsOut_iff (s : Pmmngr) (b : ℕ) (hb0 : b ≠ 0) (hb : b < 2 ^ 20) :
    (s.HandsOut b ↔ s.Ready b) ∧
      ∀ k, (s.allocated k).pmmngrAllocBlock.1 = BitVec.ofNat 32 (4096 * b) → k = (s.freeBelow b).card :=
  ⟨⟨ready_of_handsOut hb0 hb, handsOut_of_ready hb⟩, fun _ => eq_card_freeBelow hb0 hb⟩

/-- Of three free blocks the second is handed out, by the second call; the last one is not. -/
theorem handsOut_iff_three_free :
    let s := (pmmngrInit (fun _ => 0) 0x30000 0x20000).pmmngrInitRegion 0x1000 0x3000
    (s.allocated 1).pmmngrAllocBlock.1 = 0x2000 ∧ ¬s.HandsOut 3 := by
  intro s
  constructor
  · obtain ⟨hiff, horder⟩ := handsOut_iff s 2 (by decide) (by decide)
    obtain ⟨k, hk⟩ := hiff.mpr (by decide +kernel)
    have hone : (s.freeBelow 2).card = 1 := by decide +kernel
    rwa [horder k hk, hone] at hk
  · rw [(handsOut_iff s 3 (by decide) (by decide)).1]
    decide +kernel

end FanOS.Pmmngr

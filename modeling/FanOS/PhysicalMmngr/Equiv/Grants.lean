import FanOS.PhysicalMmngr.Equiv.Counter
import Mathlib.Order.Bounds.Basic

/-!
# Which run is granted

`freeRuns` are the starts of the free runs in whole words of the bitmap.  The search misses none of
them (`mmapFirstFreeBlocks_firstFit`): it returns the first, or an earlier start whose run goes past
the words.

Such a run is the one case in which a grant can go wrong.  The blocks past the words have not been
tested, and they may be in use or not exist at all.  `grantsFree_iff` says when this happens.
-/

namespace FanOS.Pmmngr

variable {s : Pmmngr} {n : BitVec 32}

/-! ### The search is first-fit -/

/-- The starts of the free runs of `n` blocks that lie in whole words of the bitmap. -/
def freeRuns (s : Pmmngr) (n : ℕ) : Set ℕ :=
  {t | t + n ≤ 32 * s.mapWords ∧ ∀ x, t ≤ x → x < t + n → s.marked x = false}

theorem accepts_of_mem_freeRuns {t n : ℕ} (h : t ∈ s.freeRuns n) : s.Accepts t n :=
  (accepts_iff_of_le h.1).mpr h.2

theorem FirstAccepted.mem_lowerBounds {b n : ℕ} (h : s.FirstAccepted b n) :
    b ∈ lowerBounds (s.freeRuns n) := by
  intro t ht
  by_contra hlt
  exact h.2.2 t (Nat.lt_of_not_le hlt) (accepts_of_mem_freeRuns ht)

/-- A run inside the words that the search settles at is free. -/
theorem FirstAccepted.mem_freeRuns {b n : ℕ} (h : s.FirstAccepted b n)
    (hle : b + n ≤ 32 * s.mapWords) : b ∈ s.freeRuns n :=
  ⟨hle, (accepts_iff_of_le hle).mp h.2.1⟩

/-- **The search is complete and first-fit**: when there are free runs in the words, it returns a free
block that is not behind the first of them, and the first itself if the run from that block is in the
words; it returns `-1` only when there are none. -/
theorem mmapFirstFreeBlocks_firstFit (s : Pmmngr) (n : BitVec 32) (hn : 1 ≤ n.toNat)
    (hle : n.toNat ≤ s.maxBlocks.toNat) :
    ((s.freeRuns n.toNat).Nonempty → ∃ b < 32 * s.mapWords,
      s.mmapFirstFreeBlocks n = BitVec.ofNat 32 b ∧ s.marked b = false ∧
        b ∈ lowerBounds (s.freeRuns n.toNat) ∧
        (b + n.toNat ≤ 32 * s.mapWords → IsLeast (s.freeRuns n.toNat) b)) ∧
      (s.mmapFirstFreeBlocks n = -1 → s.freeRuns n.toNat = ∅) := by
  have hmax := s.maxBlocks_lt
  have hwords := s.mapWords_lt
  have hz : n ≠ 0 := by
    rintro rfl
    exact absurd hn (by decide)
  rcases s.mmapFirstFreeBlocks_spec hz (by omega) with ⟨b, hb, hres⟩ | ⟨hnone, hres⟩
  · have hne : BitVec.ofNat 32 b ≠ -1 := by
      have := hb.1
      bv_omega
    refine ⟨fun _ => ⟨b, hb.1, hres, ?_, hb.mem_lowerBounds, fun hrun => ?_⟩, fun hminus => ?_⟩
    · exact hb.2.1.marked_eq_false le_rfl (by omega) hb.1
    · exact ⟨hb.mem_freeRuns hrun, hb.mem_lowerBounds⟩
    · exact absurd (hres.symm.trans hminus) hne
  · have hempty : s.freeRuns n.toNat = ∅ := by
      rw [Set.eq_empty_iff_forall_notMem]
      intro t ht
      have := ht.1
      exact hnone t (by omega) (accepts_of_mem_freeRuns ht)
    refine ⟨fun hne => ?_, fun _ => hempty⟩
    rw [hempty] at hne
    exact absurd hne Set.not_nonempty_empty

/-- A machine of 64 blocks, of which the blocks 32, 40 and 63 are free. -/
def scatteredMachine : Pmmngr :=
  setUp (fun _ => 0) 0x30000 0x40000 [.init 0x20000 0x1000, .init 0x28000 0x1000, .init 0x3F000 0x1000]

/-- A search for one block finds the first. -/
theorem mmapFirstFreeBlocks_firstFit_one_block :
    ((scatteredMachine.freeRuns 1).Nonempty ∧ scatteredMachine.mmapFirstFreeBlocks 1 = 32) ∧
      ∃ b, scatteredMachine.mmapFirstFreeBlocks 1 = BitVec.ofNat 32 b ∧
        b ∈ lowerBounds (scatteredMachine.freeRuns 1) := by
  have hfree : scatteredMachine.marked 32 = false := by decide +kernel
  have hne : (scatteredMachine.freeRuns 1).Nonempty := by
    refine ⟨32, by decide +kernel, fun x h1 h2 => ?_⟩
    obtain rfl : x = 32 := by omega
    exact hfree
  refine ⟨⟨hne, by decide +kernel⟩, ?_⟩
  obtain ⟨b, -, hres, -, hb, -⟩ :=
    (mmapFirstFreeBlocks_firstFit scatteredMachine 1 (by decide) (by decide +kernel)).1 hne
  exact ⟨b, hres, hb⟩

/-! ### Runs that were free -/

/-- A run that `pmmngr_alloc_blocks(n)` returns consists of blocks that there are and that were
free. -/
def GrantsFree (s : Pmmngr) (n : BitVec 32) : Prop :=
  (s.pmmngrAllocBlocks n).1 ≠ 0 →
    (s.pmmngrAllocBlocks n).1.toNat / 4096 + n.toNat ≤ s.maxBlocks.toNat ∧
      ∀ x, (s.pmmngrAllocBlocks n).1.toNat / 4096 ≤ x →
        x < (s.pmmngrAllocBlocks n).1.toNat / 4096 + n.toNat → s.marked x = false

/-- Every start but block 0 that passes the test of the search for `n` blocks, and from which the run
goes past the words, is behind another start that passes, or the blocks past the words are there and
free. -/
def OverhangFree (s : Pmmngr) (n : ℕ) : Prop :=
  ∀ start, 0 < start → start < 32 * s.mapWords → s.Accepts start n → 32 * s.mapWords < start + n →
    (∃ t < start, s.Accepts t n) ∨
      (start + n ≤ s.maxBlocks.toNat ∧
        ∀ x, 32 * s.mapWords ≤ x → x < start + n → s.marked x = false)

theorem Grant.grantsFree_iff_free {b : ℕ} (hg : s.Grant n b) :
    s.GrantsFree n ↔ b = 0 ∨ (b + n.toNat ≤ s.maxBlocks.toNat ∧
      ∀ x, b ≤ x → x < b + n.toNat → s.marked x = false) := by
  unfold GrantsFree
  rw [hg.address_div, Ne, hg.address_eq_zero_iff]
  exact Decidable.imp_iff_not_or.trans (by rw [not_not])

/-- The condition is about the run that is granted. -/
theorem Grant.overhangFree_iff {b : ℕ} (hg : s.Grant n b) :
    s.OverhangFree n.toNat ↔ b = 0 ∨ (b + n.toNat ≤ s.maxBlocks.toNat ∧
      ∀ x, b ≤ x → x < b + n.toNat → s.marked x = false) := by
  have hle := s.mapWords_le
  obtain ⟨hb, hacc, hfirst⟩ := hg.first
  constructor
  · intro h
    rcases Nat.eq_zero_or_pos b with hzero | hpos
    · exact Or.inl hzero
    right
    -- blocks inside the words have been tested; the condition is about the others
    rcases Nat.lt_or_ge (32 * s.mapWords) (b + n.toNat) with hover | hin
    · rcases h b hpos hb hacc hover with ⟨t, ht, hacc'⟩ | ⟨hmax, hfree⟩
      · exact absurd hacc' (hfirst t ht)
      · refine ⟨hmax, fun x h1 h2 => ?_⟩
        rcases Nat.lt_or_ge x (32 * s.mapWords) with hx | hx
        · exact hacc.marked_eq_false h1 h2 hx
        · exact hfree x hx h2
    · exact ⟨by omega, fun x h1 h2 => hacc.marked_eq_false h1 h2 (by omega)⟩
  · intro h start hpos hstart hacc' hover
    rcases Nat.lt_trichotomy b start with hlt | rfl | hgt
    · exact Or.inl ⟨b, hlt, hacc⟩
    · rcases h with rfl | ⟨hmax, hfree⟩
      · exact absurd hpos (Nat.lt_irrefl 0)
      · exact Or.inr ⟨hmax, fun x h1 h2 => hfree x (by omega) h2⟩
    · exact absurd hacc' (hfirst start hgt)

/-- **When a granted run was free**: if and only if the counter refuses the request, or no run is
granted for blocks that the search has not tested. -/
theorem grantsFree_iff (s : Pmmngr) (hused : s.usedBlocks.toNat ≤ s.maxBlocks.toNat) (n : BitVec 32)
    (hn : 1 ≤ n.toNat) :
    s.GrantsFree n ↔ s.pmmngrGetFreeBlockCount ≤ n ∨ s.OverhangFree n.toNat := by
  by_cases hfree : s.pmmngrGetFreeBlockCount ≤ n
  · have hfail : s.pmmngrAllocBlocks n = (0, s) := by rw [pmmngrAllocBlocks, if_pos hfree]
    refine iff_of_true (fun h => ?_) (Or.inl hfree)
    rw [hfail] at h
    exact absurd rfl h
  rw [or_iff_right hfree]
  -- past the counter the request is smaller than the machine, so the search gives a verdict
  have hlt := lt_of_lt_free hused (BitVec.not_le.mp hfree)
  have hmax := s.maxBlocks_lt
  have hz : n ≠ 0 := by
    rintro rfl
    exact absurd hn (by decide)
  rcases s.mmapFirstFreeBlocks_spec hz (by omega) with ⟨b, hb, -⟩ | ⟨hnone, hres⟩
  · have hg := grant_of_firstAccepted hz (by omega) hfree hb
    exact hg.grantsFree_iff_free.trans hg.overhangFree_iff.symm
  · -- the search fails
    have hfail : s.pmmngrAllocBlocks n = (0, s) := by
      rw [pmmngrAllocBlocks, if_neg hfree, hres]
      simp
    refine iff_of_true (fun h => ?_) fun start _ hstart hacc => absurd hacc (hnone start hstart)
    rw [hfail] at h
    exact absurd rfl h

/-- A request for one block is granted a free one. -/
theorem grantsFree_iff_one_block : scatteredMachine.GrantsFree 1 ∧
    (scatteredMachine.pmmngrAllocBlocks 1).1 = 0x20000 := by
  have hused : scatteredMachine.usedBlocks.toNat ≤ scatteredMachine.maxBlocks.toNat := by
    decide +kernel
  refine ⟨(grantsFree_iff scatteredMachine hused 1 (by decide)).mpr (Or.inr ?_), by decide +kernel⟩
  intro start _ hstart _ hover
  have hone : (1 : BitVec 32).toNat = 1 := rfl
  omega

/-- A request for two blocks is granted block 63 and one that does not exist: for the second one, the
search has tested block 32. -/
theorem not_grantsFree_two_blocks :
    scatteredMachine.usedBlocks.toNat ≤ scatteredMachine.maxBlocks.toNat ∧
      ¬ scatteredMachine.GrantsFree 2 := by
  refine ⟨by decide +kernel, fun h => ?_⟩
  -- the run starts at block 63, the last one
  have hgrant : (scatteredMachine.pmmngrAllocBlocks 2).1 = 0x3F000 := by decide +kernel
  have hmax : scatteredMachine.maxBlocks = 64 := by decide +kernel
  unfold GrantsFree at h
  rw [hgrant, hmax] at h
  exact absurd (h (by decide)).1 (by decide)

end FanOS.Pmmngr

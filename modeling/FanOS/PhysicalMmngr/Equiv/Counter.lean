import FanOS.PhysicalMmngr.Equiv.Ownership

/-!
# When the block counter tells the truth

`used_blocks` is meant to be the number of set bits among the `max_blocks` bits of the bitmap.
Bits and counter are updated separately, and they drift apart in three places:

* `pmmngr_init` counts all `max_blocks` blocks as used but sets whole bytes only, so the bits past
  the last whole byte keep the value memory had before;
* `pmmngr_init_region` counts block 0 as freed when it lies in the region, and then marks it again
  without counting it;
* `pmmngr_alloc_blocks` counts a run that spills past the bitmap's whole words as if all of its
  blocks had been free, although the search has not looked at those.

`CounterCond` excludes the second, and the third in calls that get as far as the search
(`SearchSound`); a call that is refused by the counter does nothing.  With that and with the tail
bits set before `pmmngr_init`, the counter equals the number of marked blocks in every reachable
state (`usedBlocks_eq_card_markedBlocks`).
-/

namespace FanOS.Pmmngr

/-! ### Runs that spill past the whole words -/

/-- Every start that the search would accept for `n` blocks, and whose run reaches past the
bitmap's whole words, comes behind another one that it would accept, or is really free up to its end. -/
def SearchSound (s : Pmmngr) (n : ℕ) : Prop :=
  ∀ start, start < 32 * s.mapWords → s.Accepts start n → 32 * s.mapWords < start + n →
    (∃ t < start, s.Accepts t n) ∨
    (start + n ≤ s.maxBlocks.toNat ∧
      ∀ x, 32 * s.mapWords ≤ x → x < start + n → s.marked x = false)

theorem mapWords_le (s : Pmmngr) : 32 * s.mapWords ≤ s.maxBlocks.toNat := by
  unfold mapWords
  omega

/-- Under `SearchSound` a granted run lies below `max_blocks` and was free. -/
theorem Grant.free_of_searchSound {s : Pmmngr} {n : BitVec 32} {b : ℕ} (hg : s.Grant n b)
    (h : s.SearchSound n.toNat) :
    b + n.toNat ≤ s.maxBlocks.toNat ∧
      ∀ x, b ≤ x → x < b + n.toNat → s.marked x = false := by
  have hle := s.mapWords_le
  have hin : ∀ x, b ≤ x → x < b + n.toNat → x < 32 * s.mapWords → s.marked x = false :=
    fun x h1 h2 h3 => hg.first.2.1.marked_eq_false h1 h2 h3
  by_cases hend : b + n.toNat ≤ 32 * s.mapWords
  · exact ⟨by omega, fun x h1 h2 => hin x h1 h2 (by omega)⟩
  · rcases h b hg.first.1 hg.first.2.1 (by omega) with ⟨t, ht, hacc⟩ | ⟨hmax, hfree⟩
    · -- the search would have ended at the other one
      exact absurd hacc (hg.first.2.2 t ht)
    · refine ⟨hmax, fun x h1 h2 => ?_⟩
      rcases Nat.lt_or_ge x (32 * s.mapWords) with hx | hx
      · exact hin x h1 h2 hx
      · exact hfree x hx h2

/-! ### Marked blocks -/

/-- The blocks below `max_blocks` that are marked in the bitmap. -/
def markedBlocks (s : Pmmngr) : Finset ℕ :=
  (Finset.range s.maxBlocks.toNat).filter fun b => s.marked b = true

theorem mem_markedBlocks {s : Pmmngr} {b : ℕ} :
    b ∈ s.markedBlocks ↔ b < s.maxBlocks.toNat ∧ s.marked b = true := by
  rw [markedBlocks, Finset.mem_filter, Finset.mem_range]

theorem card_markedBlocks_le (s : Pmmngr) : s.markedBlocks.card ≤ s.maxBlocks.toNat := by
  calc s.markedBlocks.card ≤ (Finset.range s.maxBlocks.toNat).card := Finset.card_filter_le _ _
    _ = s.maxBlocks.toNat := Finset.card_range _

/-- The marked blocks after a change that marks `r` (and nothing else below `max_blocks`). -/
theorem markedBlocks_eq_union {s s' : Pmmngr} {r : Finset ℕ}
    (hmax : s'.maxBlocks = s.maxBlocks) (hr : ∀ b ∈ r, b < s.maxBlocks.toNat)
    (h : ∀ b, b < s.maxBlocks.toNat → s'.marked b = if b ∈ r then true else s.marked b) :
    s'.markedBlocks = s.markedBlocks ∪ r := by
  ext b
  rw [Finset.mem_union, mem_markedBlocks, mem_markedBlocks, hmax]
  constructor
  · rintro ⟨hlt, hb⟩
    rw [h b hlt] at hb
    by_cases hbr : b ∈ r
    · exact Or.inr hbr
    · rw [if_neg hbr] at hb
      exact Or.inl ⟨hlt, hb⟩
  · rintro (⟨hlt, hb⟩ | hbr)
    · exact ⟨hlt, by rw [h b hlt, hb, ite_self]⟩
    · exact ⟨hr b hbr, by rw [h b (hr b hbr), if_pos hbr]⟩

/-- The marked blocks after a change that frees `r` (and nothing else below `max_blocks`). -/
theorem markedBlocks_eq_sdiff {s s' : Pmmngr} {r : Finset ℕ}
    (hmax : s'.maxBlocks = s.maxBlocks)
    (h : ∀ b, b < s.maxBlocks.toNat → s'.marked b = if b ∈ r then false else s.marked b) :
    s'.markedBlocks = s.markedBlocks \ r := by
  ext b
  rw [Finset.mem_sdiff, mem_markedBlocks, mem_markedBlocks, hmax]
  constructor
  · rintro ⟨hlt, hb⟩
    rw [h b hlt] at hb
    by_cases hbr : b ∈ r
    · rw [if_pos hbr] at hb
      exact absurd hb (by decide)
    · rw [if_neg hbr] at hb
      exact ⟨⟨hlt, hb⟩, hbr⟩
  · rintro ⟨⟨hlt, hb⟩, hbr⟩
    exact ⟨hlt, by rw [h b hlt, if_neg hbr, hb]⟩

/-- Marking blocks that were free adds them to the count. -/
theorem card_markedBlocks_of_mark {s s' : Pmmngr} {r : Finset ℕ}
    (hmax : s'.maxBlocks = s.maxBlocks)
    (hr : ∀ b ∈ r, b < s.maxBlocks.toNat ∧ s.marked b = false)
    (h : ∀ b, b < s.maxBlocks.toNat → s'.marked b = if b ∈ r then true else s.marked b) :
    s'.markedBlocks.card = s.markedBlocks.card + r.card := by
  have hdisj : Disjoint s.markedBlocks r := by
    rw [Finset.disjoint_right]
    intro b hb hbm
    exact Bool.false_ne_true ((hr b hb).2.symm.trans (mem_markedBlocks.mp hbm).2)
  rw [markedBlocks_eq_union hmax (fun b hb => (hr b hb).1) h, Finset.card_union_of_disjoint hdisj]

/-- Freeing blocks that were marked takes them out of the count. -/
theorem card_markedBlocks_of_unmark {s s' : Pmmngr} {r : Finset ℕ}
    (hmax : s'.maxBlocks = s.maxBlocks) (hr : r ⊆ s.markedBlocks)
    (h : ∀ b, b < s.maxBlocks.toNat → s'.marked b = if b ∈ r then false else s.marked b) :
    s'.markedBlocks.card = s.markedBlocks.card - r.card := by
  rw [markedBlocks_eq_sdiff hmax h, Finset.card_sdiff_of_subset hr]

/-! ### The system -/

/-- The calls that change bitmap or counter after `pmmngr_init`. -/
inductive Call
  | region (c : RegionCall)
  | block (c : BlockCall)

/-- The manager, its outstanding runs, and the ranges given to `pmmngr_init_region` so far. -/
structure Counted where
  pmm : Pmmngr
  runs : List (PhysicalAddr × BitVec 32)
  inits : List (Finset ℕ)

/-- Region calls free new ranges of existing blocks, or reserve blocks that are free; allocations
and frees are as in `ownershipStep`. -/
def counterStep (o : Counted) : Call → Counted → Prop
  | .region (.init base size), o' =>
    (∀ b ∈ regionBlocks base size, b < o.pmm.maxBlocks.toNat) ∧
    (∀ r ∈ o.inits, Disjoint (regionBlocks base size) r) ∧
    o' = ⟨o.pmm.pmmngrInitRegion base size, o.runs, regionBlocks base size :: o.inits⟩
  | .region (.deinit base size), o' =>
    (∀ b ∈ regionBlocks base size, b < o.pmm.maxBlocks.toNat ∧ o.pmm.marked b = false) ∧
    o' = ⟨o.pmm.pmmngrDeinitRegion base size, o.runs, o.inits⟩
  | .block c, o' => ownershipStep (o.pmm, o.runs) c (o'.pmm, o'.runs) ∧ o'.inits = o.inits

/-- The runs of the manager from `pmmngr_init` on. -/
def counterSystem (mem : Mem) (addr : PhysicalAddr) (size : BitVec 32) : System Counted Call where
  init o := o = ⟨pmmngrInit mem addr size, [], []⟩
  step := counterStep

/-- The condition on a call: no region with block 0 is freed, and no allocation is granted blocks
that the search has not tested and that are not free. -/
def CounterCond (o : Counted) : Call → Prop
  | .region (.init base size) => 0 ∉ regionBlocks base size
  | .region (.deinit _ _) => True
  | .block (.alloc n) => o.pmm.pmmngrGetFreeBlockCount ≤ n ∨ o.pmm.SearchSound n.toNat
  | .block (.free _ _) => True

/-- Memory already had the bits set that `pmmngr_init` does not write. -/
def TailSet (mem : Mem) (addr : PhysicalAddr) (size : BitVec 32) : Prop :=
  ∀ b, 8 * (size.toNat / 4096 / 8) ≤ b → b < size.toNat / 4096 → mem.bit addr b = true

/-! ### The invariant -/

/-- The counter is the number of marked blocks, all blocks outside the freed ranges are marked,
and the outstanding runs are disjoint, marked, and inside the freed ranges. -/
structure CounterInv (o : Counted) : Prop where
  count : o.pmm.usedBlocks.toNat = o.pmm.markedBlocks.card
  free_mem : ∀ b, b < o.pmm.maxBlocks.toNat → o.pmm.marked b = false → b ∈ Ledger.owned o.inits
  zero_notMem : 0 ∉ Ledger.owned o.inits
  runs_mem : ∀ r ∈ o.runs, ∀ b ∈ runBlocks r, b < o.pmm.maxBlocks.toNat ∧
    b ∈ Ledger.owned o.inits
  disjoint : (o.runs.map runBlocks).Pairwise Disjoint
  marked : ∀ r ∈ o.runs, ∀ b ∈ runBlocks r, o.pmm.marked b = true

namespace CounterInv

variable {o : Counted}

theorem used_le (h : CounterInv o) : o.pmm.usedBlocks.toNat ≤ o.pmm.maxBlocks.toNat := by
  rw [h.count]
  exact o.pmm.card_markedBlocks_le

/-- Block 0 is marked if it exists. -/
theorem marked_zero (h : CounterInv o) (hmax : 0 < o.pmm.maxBlocks.toNat) :
    o.pmm.marked 0 = true := by
  by_contra hm
  exact h.zero_notMem (h.free_mem 0 hmax (by simpa using hm))

/-- Freeing a new range without block 0. -/
theorem of_initRegion (h : CounterInv o) {base : PhysicalAddr} {size : BitVec 32}
    (hlt : ∀ b ∈ regionBlocks base size, b < o.pmm.maxBlocks.toNat)
    (hdisj : ∀ r ∈ o.inits, Disjoint (regionBlocks base size) r)
    (h0 : 0 ∉ regionBlocks base size) :
    CounterInv ⟨o.pmm.pmmngrInitRegion base size, o.runs, regionBlocks base size :: o.inits⟩ := by
  have hmaxlt := o.pmm.maxBlocks_lt
  have hnew : Disjoint (regionBlocks base size) (Ledger.owned o.inits) := by
    rw [Finset.disjoint_left]
    intro x hx hxo
    obtain ⟨r, hr, hxr⟩ := Ledger.mem_owned.mp hxo
    exact Finset.disjoint_left.mp (hdisj r hr) hx hxr
  have hmarked : ∀ b, b < o.pmm.maxBlocks.toNat → (o.pmm.pmmngrInitRegion base size).marked b =
      if b ∈ regionBlocks base size then false else o.pmm.marked b := by
    intro b hb
    rw [marked_pmmngrInitRegion _ _ _ (by omega)]
    by_cases hb0 : b = 0
    · rw [if_pos hb0, hb0, if_neg h0, h.marked_zero (by omega)]
    · rw [if_neg hb0]
  -- a range that was not freed before is all marked
  have hsub : regionBlocks base size ⊆ o.pmm.markedBlocks := by
    intro b hb
    refine mem_markedBlocks.mpr ⟨hlt b hb, ?_⟩
    by_contra hm
    exact Finset.disjoint_left.mp hnew hb (h.free_mem b (hlt b hb) (by simpa using hm))
  refine ⟨?_, fun b hb hm => ?_, ?_, fun r hr b hb => ?_, h.disjoint, fun r hr b hb => ?_⟩
  · have hcard : (regionBlocks base size).card ≤ o.pmm.usedBlocks.toNat := by
      rw [h.count]
      exact Finset.card_le_card hsub
    simp only [card_regionBlocks] at hcard
    simp only
    rw [card_markedBlocks_of_unmark (maxBlocks_pmmngrInitRegion _ _ _) hsub hmarked,
      ← h.count, card_regionBlocks, usedBlocks_pmmngrInitRegion,
      BitVec.toNat_sub_of_le (BitVec.le_def.mpr (by rw [toNat_div_blockSize]; exact hcard)),
      toNat_div_blockSize]
  · simp only [maxBlocks_pmmngrInitRegion] at hb
    rw [hmarked b hb] at hm
    rw [Ledger.owned_cons, Finset.mem_union]
    by_cases hbr : b ∈ regionBlocks base size
    · exact Or.inl hbr
    · rw [if_neg hbr] at hm
      exact Or.inr (h.free_mem b hb hm)
  · rw [Ledger.owned_cons, Finset.mem_union]
    exact not_or.mpr ⟨h0, h.zero_notMem⟩
  · obtain ⟨h1, h2⟩ := h.runs_mem r hr b hb
    exact ⟨by simpa using h1, by rw [Ledger.owned_cons]; exact Finset.mem_union_right _ h2⟩
  · obtain ⟨h1, h2⟩ := h.runs_mem r hr b hb
    rw [hmarked b h1, if_neg (Finset.disjoint_right.mp hnew h2), h.marked r hr b hb]

/-- Reserving blocks that are free. -/
theorem of_deinitRegion (h : CounterInv o) {base : PhysicalAddr} {size : BitVec 32}
    (hfree : ∀ b ∈ regionBlocks base size, b < o.pmm.maxBlocks.toNat ∧ o.pmm.marked b = false) :
    CounterInv ⟨o.pmm.pmmngrDeinitRegion base size, o.runs, o.inits⟩ := by
  have hmaxlt := o.pmm.maxBlocks_lt
  have hmarked : ∀ b, b < o.pmm.maxBlocks.toNat → (o.pmm.pmmngrDeinitRegion base size).marked b =
      if b ∈ regionBlocks base size then true else o.pmm.marked b :=
    fun b hb => marked_pmmngrDeinitRegion _ _ _ (by omega)
  have hcard := card_markedBlocks_of_mark (maxBlocks_pmmngrDeinitRegion _ _ _) hfree hmarked
  rw [← h.count, card_regionBlocks] at hcard
  refine ⟨?_, fun b hb hm => ?_, h.zero_notMem, fun r hr b hb => ?_, h.disjoint,
    fun r hr b hb => ?_⟩
  · -- the counter does not wrap, since there are no more than `max_blocks` marked blocks
    have hle := (o.pmm.pmmngrDeinitRegion base size).card_markedBlocks_le
    simp only
    rw [hcard, maxBlocks_pmmngrDeinitRegion] at hle
    rw [hcard, usedBlocks_pmmngrDeinitRegion,
      BitVec.toNat_add_of_lt (by rw [toNat_div_blockSize]; omega), toNat_div_blockSize]
  · simp only [maxBlocks_pmmngrDeinitRegion] at hb
    rw [hmarked b hb] at hm
    by_cases hbr : b ∈ regionBlocks base size
    · rw [if_pos hbr] at hm
      exact absurd hm (by decide)
    · rw [if_neg hbr] at hm
      exact h.free_mem b hb hm
  · simpa using h.runs_mem r hr b hb
  · rw [hmarked b (h.runs_mem r hr b hb).1, h.marked r hr b hb, ite_self]

/-- Granting a run of free blocks. -/
theorem of_grant (h : CounterInv o) {n : BitVec 32} {b : ℕ} (hg : o.pmm.Grant n b)
    (hsound : o.pmm.SearchSound n.toNat) :
    CounterInv ⟨(o.pmm.pmmngrAllocBlocks n).2, ((o.pmm.pmmngrAllocBlocks n).1, n) :: o.runs,
      o.inits⟩ := by
  have hmaxlt := o.pmm.maxBlocks_lt
  obtain ⟨hend, hfree⟩ := hg.free_of_searchSound hsound
  have hblocks : runBlocks ((o.pmm.pmmngrAllocBlocks n).1, n) = Finset.Ico b (b + n.toNat) := by
    rw [runBlocks, hg.address_div]
  have hmarked : ∀ x, x < o.pmm.maxBlocks.toNat → (o.pmm.pmmngrAllocBlocks n).2.marked x =
      if x ∈ Finset.Ico b (b + n.toNat) then true else o.pmm.marked x := by
    intro x hx
    simp only [Finset.mem_Ico]
    exact hg.marked x (by omega)
  have hico : ∀ x ∈ Finset.Ico b (b + n.toNat), x < o.pmm.maxBlocks.toNat ∧
      o.pmm.marked x = false := by
    intro x hx
    rw [Finset.mem_Ico] at hx
    exact ⟨by omega, hfree x hx.1 hx.2⟩
  have hcard := card_markedBlocks_of_mark (maxBlocks_pmmngrAllocBlocks _ _) hico hmarked
  refine ⟨?_, fun x hx hm => ?_, h.zero_notMem, fun r hr x hx => ?_, ?_, fun r hr x hx => ?_⟩
  · -- the request has passed the test of the free blocks, so the counter does not wrap
    have hlt := lt_of_lt_free h.used_le hg.lt_free
    simp only
    rw [hcard, ← h.count, Nat.card_Ico, hg.usedBlocks, BitVec.toNat_add_of_lt (by omega)]
    omega
  · simp only [maxBlocks_pmmngrAllocBlocks] at hx
    rw [hmarked x hx] at hm
    by_cases hxr : x ∈ Finset.Ico b (b + n.toNat)
    · rw [if_pos hxr] at hm
      exact absurd hm (by decide)
    · rw [if_neg hxr] at hm
      exact h.free_mem x hx hm
  · simp only [maxBlocks_pmmngrAllocBlocks]
    rcases List.mem_cons.mp hr with rfl | hr
    · rw [hblocks] at hx
      exact ⟨(hico x hx).1, h.free_mem x (hico x hx).1 (hico x hx).2⟩
    · exact h.runs_mem r hr x hx
  · rw [List.map_cons, List.pairwise_cons]
    refine ⟨fun t ht => ?_, h.disjoint⟩
    obtain ⟨r, hr, rfl⟩ := List.mem_map.mp ht
    rw [hblocks, Finset.disjoint_left]
    -- the new run was free, and outstanding runs are marked
    intro x hx hxr
    exact Bool.false_ne_true ((hico x hx).2.symm.trans (h.marked r hr x hxr))
  · rcases List.mem_cons.mp hr with rfl | hr
    · rw [hblocks] at hx
      rw [hmarked x (hico x hx).1, if_pos hx]
    · rw [hmarked x (h.runs_mem r hr x hx).1, h.marked r hr x hx, ite_self]

/-- Freeing an outstanding run. -/
theorem of_free (h : CounterInv o) {a : PhysicalAddr} {n : BitVec 32} (hr : (a, n) ∈ o.runs) :
    CounterInv ⟨o.pmm.pmmngrFreeBlocks a n, o.runs.erase (a, n), o.inits⟩ := by
  have hmaxlt := o.pmm.maxBlocks_lt
  have hsub : ∀ t ∈ o.runs.erase (a, n), t ∈ o.runs := fun t ht => List.mem_of_mem_erase ht
  have hblocks : runBlocks (a, n) ⊆ o.pmm.markedBlocks := fun b hb =>
    mem_markedBlocks.mpr ⟨(h.runs_mem _ hr b hb).1, h.marked _ hr b hb⟩
  have hcard : (runBlocks (a, n)).card = n.toNat := by
    rw [runBlocks, Nat.card_Ico, Nat.add_sub_cancel_left]
  -- so the counter does not go below zero
  have hn : n.toNat ≤ o.pmm.usedBlocks.toNat := by
    rw [h.count, ← hcard]
    exact Finset.card_le_card hblocks
  have hused := h.used_le
  have ha := a.isLt
  have hmarked : ∀ b, b < o.pmm.maxBlocks.toNat → (o.pmm.pmmngrFreeBlocks a n).marked b =
      if b ∈ runBlocks (a, n) then false else o.pmm.marked b := by
    intro b hb
    simp only [mem_runBlocks]
    exact marked_pmmngrFreeBlocks _ _ _ (by omega) (by omega)
  refine ⟨?_, fun b hb hm => ?_, h.zero_notMem, fun r hr' b hb => ?_,
    Ledger.pairwise_erase h.disjoint _, fun r hr' b hb => ?_⟩
  · simp only
    rw [card_markedBlocks_of_unmark (maxBlocks_pmmngrFreeBlocks _ _ _) hblocks hmarked,
      ← h.count, hcard, usedBlocks_pmmngrFreeBlocks,
      BitVec.toNat_sub_of_le (BitVec.le_def.mpr hn)]
  · simp only [maxBlocks_pmmngrFreeBlocks] at hb
    rw [hmarked b hb] at hm
    by_cases hbr : b ∈ runBlocks (a, n)
    · exact (h.runs_mem _ hr b hbr).2
    · rw [if_neg hbr] at hm
      exact h.free_mem b hb hm
  · simpa using h.runs_mem r (hsub r hr') b hb
  · have hnot : b ∉ runBlocks (a, n) := fun hba =>
      Finset.disjoint_left.mp (Ledger.disjoint_of_mem_erase h.disjoint hr hr') hba hb
    rw [hmarked b (h.runs_mem r (hsub r hr') b hb).1, if_neg hnot, h.marked r (hsub r hr') b hb]

/-- A call that meets the condition keeps the invariant. -/
theorem step (h : CounterInv o) {c : Call} {o' : Counted} (hc : CounterCond o c)
    (hs : counterStep o c o') : CounterInv o' := by
  cases c with
  | region c =>
    cases c with
    | init base size =>
      obtain ⟨hlt, hdisj, rfl⟩ := hs
      exact h.of_initRegion hlt hdisj hc
    | deinit base size =>
      obtain ⟨hfree, rfl⟩ := hs
      exact h.of_deinitRegion hfree
  | block c =>
    obtain ⟨pmm', runs', inits'⟩ := o'
    obtain ⟨hs, hi⟩ := hs
    simp only at hs hi
    subst hi
    cases c with
    | alloc n =>
      rw [ownershipStep] at hs
      simp only [Prod.mk.injEq] at hs
      obtain ⟨rfl, rfl⟩ := hs
      rcases pmmngrAllocBlocks_cases n h.used_le with hfail | ⟨b, hg⟩
      · simp only [hfail, if_true]
        exact h
      · -- block 0 is marked, so that the run does not start there
        have hb0 : b ≠ 0 := by
          rintro rfl
          have h2 := hg.first.1
          have h3 := o.pmm.mapWords_le
          exact Bool.false_ne_true (hg.marked_start.symm.trans (h.marked_zero (by omega)))
        rw [if_neg (mt hg.address_eq_zero_iff.mp hb0)]
        -- the counter has not refused the request
        have hsound : o.pmm.SearchSound n.toNat :=
          hc.resolve_left fun hle => absurd hg.lt_free (BitVec.not_lt.mpr hle)
        exact h.of_grant hg hsound
    | free a n =>
      obtain ⟨hr, hs⟩ := hs
      simp only [Prod.mk.injEq] at hs
      obtain ⟨rfl, rfl⟩ := hs
      exact h.of_free hr

end CounterInv

/-- After `pmmngr_init` every block is marked, if memory had the tail bits set. -/
theorem markedBlocks_pmmngrInit {mem : Mem} {addr : PhysicalAddr} {size : BitVec 32}
    (htail : TailSet mem addr size) :
    (pmmngrInit mem addr size).markedBlocks = Finset.range (size.toNat / 4096) := by
  ext b
  rw [mem_markedBlocks, maxBlocks_pmmngrInit, toNat_div_blockSize, Finset.mem_range]
  refine ⟨fun h => h.1, fun h => ⟨h, ?_⟩⟩
  have := size.isLt
  rw [marked_pmmngrInit _ _ _ (by omega), toNat_div_blockSize]
  by_cases hb : b < 8 * (size.toNat / 4096 / 8)
  · rw [if_pos hb]
  · rw [if_neg hb, htail b (by omega) h]

/-- **The counter tells the truth** on every run whose calls meet `CounterCond`, from memory with
the tail bits set: it is the number of marked blocks, and the free count is the number of clear
ones. -/
theorem usedBlocks_eq_card_markedBlocks (mem : Mem) (addr : PhysicalAddr) (size : BitVec 32)
    (htail : TailSet mem addr size) (o : Counted)
    (h : ((counterSystem mem addr size).restrict CounterCond).Reachable o) :
    o.pmm.pmmngrGetUsedBlockCount.toNat = o.pmm.markedBlocks.card ∧
    o.pmm.pmmngrGetFreeBlockCount.toNat =
      ((Finset.range o.pmm.maxBlocks.toNat).filter fun b => o.pmm.marked b = false).card := by
  have hinv : CounterInv o := by
    refine h.invariant ?_ fun s a s' hs hstep => hs.step hstep.1 hstep.2
    rintro _ rfl
    have hall := markedBlocks_pmmngrInit htail
    refine ⟨?_, fun b hb hm => ?_, by simp, by simp, by simp, by simp⟩
    · simp only
      rw [hall, Finset.card_range, usedBlocks_pmmngrInit, toNat_div_blockSize]
    · simp only [maxBlocks_pmmngrInit, toNat_div_blockSize] at hb
      have hset := (mem_markedBlocks.mp (hall ▸ Finset.mem_range.mpr hb)).2
      exact absurd (hm.symm.trans hset) Bool.false_ne_true
  refine ⟨hinv.count, ?_⟩
  have hsplit := Finset.card_filter_add_card_filter_not (s := Finset.range o.pmm.maxBlocks.toNat)
    (fun b => o.pmm.marked b = true)
  simp only [Bool.not_eq_true, Finset.card_range] at hsplit
  have hcount := hinv.count
  rw [markedBlocks] at hcount
  rw [pmmngrGetFreeBlockCount, BitVec.toNat_sub_of_le (BitVec.le_def.mpr hinv.used_le)]
  omega

/-- A single block is never found past the whole words. -/
theorem searchSound_one (s : Pmmngr) : s.SearchSound 1 := fun start hlt _ hpast => by omega

/-- An allocation that returns an address enters its run. -/
theorem counterStep_alloc {o : Counted} {n : BitVec 32} (h : (o.pmm.pmmngrAllocBlocks n).1 ≠ 0) :
    counterStep o (.block (.alloc n)) ⟨(o.pmm.pmmngrAllocBlocks n).2,
      ((o.pmm.pmmngrAllocBlocks n).1, n) :: o.runs, o.inits⟩ := by
  refine ⟨?_, rfl⟩
  rw [ownershipStep, if_neg h]

/-- A request that the counter refuses leaves everything as it is. -/
theorem counterStep_refused {o : Counted} {n : BitVec 32} (h : o.pmm.pmmngrGetFreeBlockCount ≤ n) :
    counterStep o (.block (.alloc n)) o := by
  have hfail : o.pmm.pmmngrAllocBlocks n = (0, o.pmm) := if_pos h
  refine ⟨?_, rfl⟩
  rw [ownershipStep, hfail, if_pos rfl]

/-- A run that meets the condition: 32 blocks, three of them freed, one allocated, and a request for
more than there are. -/
theorem usedBlocks_eq_card_markedBlocks_one_block :
    ∃ o : Counted, o.runs = [(0x1000, 1)] ∧
      o.pmm.pmmngrGetUsedBlockCount.toNat = o.pmm.markedBlocks.card ∧
      o.pmm.pmmngrGetFreeBlockCount.toNat =
        ((Finset.range o.pmm.maxBlocks.toNat).filter fun b => o.pmm.marked b = false).card := by
  have htail : TailSet (fun _ => 0) 0x30000 0x20000 := by
    intro b h1 h2
    have hsize : (0x20000 : BitVec 32).toNat = 0x20000 := rfl
    omega
  have haddr : (((pmmngrInit (fun _ => 0) 0x30000 0x20000).pmmngrInitRegion 0x1000
      0x3000).pmmngrAllocBlocks 1).1 = 0x1000 := by decide +kernel
  have hinit : ((counterSystem (fun _ => 0) 0x30000 0x20000).restrict CounterCond).Reachable
      ⟨pmmngrInit (fun _ => 0) 0x30000 0x20000, [], []⟩ := System.Reachable.init rfl
  have hboot : ((counterSystem (fun _ => 0) 0x30000 0x20000).restrict CounterCond).Reachable
      ⟨(pmmngrInit (fun _ => 0) 0x30000 0x20000).pmmngrInitRegion 0x1000 0x3000, [],
        [regionBlocks 0x1000 0x3000]⟩ := by
    refine hinit.step (a := Call.region (.init 0x1000 0x3000)) ⟨?_, by decide, by simp, rfl⟩
    show 0 ∉ regionBlocks 0x1000 0x3000
    decide
  obtain ⟨boot, hb⟩ : ∃ boot, boot =
      (pmmngrInit (fun _ => 0) 0x30000 0x20000).pmmngrInitRegion 0x1000 0x3000 := ⟨_, rfl⟩
  rw [← hb] at haddr hboot
  have hne : (boot.pmmngrAllocBlocks 1).1 ≠ 0 := by
    rw [haddr]
    decide
  have hfew : (boot.pmmngrAllocBlocks 1).2.pmmngrGetFreeBlockCount ≤ 64 := by
    rw [hb]
    decide +kernel
  have halloc := hboot.step (a := Call.block (.alloc 1))
    ⟨Or.inr (searchSound_one boot), counterStep_alloc hne⟩
  have hreach := halloc.step (a := Call.block (.alloc 64)) ⟨Or.inl hfew, counterStep_refused hfew⟩
  have htruth := usedBlocks_eq_card_markedBlocks _ _ _ htail _ hreach
  exact ⟨_, congrArg (fun a => [(a, 1)]) haddr, htruth⟩

/-- Freeing a region that contains block 0, as the first entry of a memory map does, makes the
counter wrong: with 32 blocks it is 0, but block 0 is marked. -/
theorem usedBlocks_ne_card_markedBlocks :
    ∃ o : Counted, (counterSystem (fun _ => 0) 0x30000 0x20000).Reachable o ∧
      o.pmm.pmmngrGetUsedBlockCount.toNat ≠ o.pmm.markedBlocks.card := by
  have hreach := System.Reachable.step (a := Call.region (.init 0 0x20000))
    (System.Reachable.init (S := counterSystem (fun _ => 0) 0x30000 0x20000) rfl)
    ⟨by decide, by simp, rfl⟩
  exact ⟨_, hreach, by decide +kernel⟩

end FanOS.Pmmngr

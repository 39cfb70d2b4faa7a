import FanOS.Ledger.Basic
import FanOS.PhysicalMmngr.Equiv.Alloc
import FanOS.Transition.Basic

/-!
# Exclusive ownership of physical blocks

The manager is set up by `pmmngr_init` and a list of region calls, and then serves allocations
and frees.  `ownershipSystem` runs it beside the list of outstanding runs, the `(address, n)`
pairs that were returned and not freed since; a free takes one of them.

`OwnershipInv` is the invariant: the outstanding runs are pairwise disjoint, their blocks are
marked, none contains block 0, and the counter bounds their total length.  The one delicate step
is a grant (`disjoint_of_grant`).  Inside the bitmap's whole words a granted block was free, so
no outstanding run has it.  Past the words nothing has been tested; but a run that gets there
starts inside the words and therefore contains their last block, so at most one such run can be
outstanding.
-/

namespace FanOS.Pmmngr

/-! ### Region calls -/

/-- A call that sets a region up: `pmmngr_init_region` or `pmmngr_deinit_region`. -/
inductive RegionCall
  | init (base : PhysicalAddr) (size : BitVec 32)
  | deinit (base : PhysicalAddr) (size : BitVec 32)

namespace RegionCall

/-- Make the call. -/
def run (s : Pmmngr) : RegionCall → Pmmngr
  | init base size => s.pmmngrInitRegion base size
  | deinit base size => s.pmmngrDeinitRegion base size

/-- The blocks a call frees, if it is an `init`. -/
def initBlocks? : RegionCall → Option (Finset ℕ)
  | init base size => some (regionBlocks base size)
  | deinit _ _ => none

/-- The blocks a call reserves, if it is a `deinit`. -/
def deinitBlocks? : RegionCall → Option (Finset ℕ)
  | init _ _ => none
  | deinit base size => some (regionBlocks base size)

end RegionCall

/-- The ranges freed by the calls, in order. -/
def inits (calls : List RegionCall) : List (Finset ℕ) := calls.filterMap RegionCall.initBlocks?

/-- The ranges reserved by the calls, in order. -/
def deinits (calls : List RegionCall) : List (Finset ℕ) := calls.filterMap RegionCall.deinitBlocks?

/-- The calls free pairwise disjoint ranges of existing blocks and reserve pairwise disjoint
ranges inside them. -/
structure DisjointRegions (maxBlocks : ℕ) (calls : List RegionCall) : Prop where
  inits_disjoint : (inits calls).Pairwise Disjoint
  inits_lt : ∀ r ∈ inits calls, ∀ b ∈ r, b < maxBlocks
  deinits_disjoint : (deinits calls).Pairwise Disjoint
  deinits_inside : ∀ r ∈ deinits calls, r ⊆ Ledger.owned (inits calls)

/-- `pmmngr_init` followed by the region calls. -/
def setUp (mem : Mem) (addr : PhysicalAddr) (size : BitVec 32) (calls : List RegionCall) : Pmmngr :=
  calls.foldl RegionCall.run (pmmngrInit mem addr size)

theorem maxBlocks_foldl_run (calls : List RegionCall) (s : Pmmngr) :
    (calls.foldl RegionCall.run s).maxBlocks = s.maxBlocks := by
  induction calls generalizing s with
  | nil => rfl
  | cons c calls ih =>
    rw [List.foldl_cons, ih]
    cases c with
    | init base size => exact maxBlocks_pmmngrInitRegion s base size
    | deinit base size => exact maxBlocks_pmmngrDeinitRegion s base size

/-- The counter goes down by the freed blocks and up by the reserved ones. -/
theorem usedBlocks_foldl_run (calls : List RegionCall) (s : Pmmngr) :
    (calls.foldl RegionCall.run s).usedBlocks =
      s.usedBlocks - BitVec.ofNat 32 ((inits calls).map Finset.card).sum +
        BitVec.ofNat 32 ((deinits calls).map Finset.card).sum := by
  induction calls generalizing s with
  | nil => simp [inits, deinits]
  | cons c calls ih =>
    rw [List.foldl_cons, ih]
    cases c with
    | init base size =>
      simp only [RegionCall.run, usedBlocks_pmmngrInitRegion, div_blockSize_eq, inits, deinits,
        List.filterMap_cons, RegionCall.initBlocks?, RegionCall.deinitBlocks?, List.map_cons,
        List.sum_cons, card_regionBlocks]
      bv_omega
    | deinit base size =>
      simp only [RegionCall.run, usedBlocks_pmmngrDeinitRegion, div_blockSize_eq, inits, deinits,
        List.filterMap_cons, RegionCall.initBlocks?, RegionCall.deinitBlocks?, List.map_cons,
        List.sum_cons, card_regionBlocks]
      bv_omega

/-- No region call frees block 0. -/
theorem marked_zero_foldl_run (calls : List RegionCall) {s : Pmmngr} (h : s.marked 0 = true) :
    (calls.foldl RegionCall.run s).marked 0 = true := by
  induction calls generalizing s with
  | nil => exact h
  | cons c calls ih =>
    apply ih
    cases c with
    | init base size =>
      rw [RegionCall.run, marked_pmmngrInitRegion _ _ _ (by norm_num), if_pos rfl]
    | deinit base size =>
      rw [RegionCall.run, marked_pmmngrDeinitRegion _ _ _ (by norm_num), h, ite_self]

section SetUp

variable {mem : Mem} {addr : PhysicalAddr} {size : BitVec 32} {calls : List RegionCall}

theorem maxBlocks_setUp : (setUp mem addr size calls).maxBlocks = size / blockSize :=
  maxBlocks_foldl_run calls _

/-- After set-up the counter does not exceed the number of blocks. -/
theorem usedBlocks_setUp_le (h : DisjointRegions (size.toNat / 4096) calls) :
    (setUp mem addr size calls).usedBlocks.toNat ≤ (setUp mem addr size calls).maxBlocks.toNat := by
  have hdi : ((deinits calls).map Finset.card).sum ≤ ((inits calls).map Finset.card).sum := by
    rw [← Ledger.card_owned h.inits_disjoint]
    exact Ledger.sum_card_le h.deinits_disjoint h.deinits_inside
  have him : ((inits calls).map Finset.card).sum ≤ size.toNat / 4096 := by
    rw [← Finset.card_range (size.toNat / 4096)]
    exact Ledger.sum_card_le h.inits_disjoint fun r hr b hb =>
      Finset.mem_range.mpr (h.inits_lt r hr b hb)
  have hmax : (size / blockSize).toNat = size.toNat / 4096 := toNat_div_blockSize size
  rw [maxBlocks_setUp, setUp, usedBlocks_foldl_run, usedBlocks_pmmngrInit]
  bv_omega

/-- After set-up block 0 is marked, if there is anything to search at all. -/
theorem marked_zero_setUp (h : 0 < (setUp mem addr size calls).mapWords) :
    (setUp mem addr size calls).marked 0 = true := by
  rw [mapWords, maxBlocks_setUp] at h
  apply marked_zero_foldl_run calls
  rw [marked_pmmngrInit _ _ _ (by norm_num), if_pos (by omega)]

end SetUp

/-! ### Runs of allocations and frees -/

/-- The blocks of an outstanding run. -/
def runBlocks (r : PhysicalAddr × BitVec 32) : Finset ℕ :=
  Finset.Ico (r.1.toNat / 4096) (r.1.toNat / 4096 + r.2.toNat)

theorem mem_runBlocks {r : PhysicalAddr × BitVec 32} {b : ℕ} :
    b ∈ runBlocks r ↔ r.1.toNat / 4096 ≤ b ∧ b < r.1.toNat / 4096 + r.2.toNat := Finset.mem_Ico

/-- The calls made after set-up. -/
inductive BlockCall
  | alloc (n : BitVec 32)
  | free (a : PhysicalAddr) (n : BitVec 32)

/-- The manager beside its outstanding runs. -/
abbrev Owned := Pmmngr × List (PhysicalAddr × BitVec 32)

/-- What a call does to the manager and to the outstanding runs: an allocation that returns an
address enters its run, and a free takes an outstanding run. -/
def ownershipStep (o : Owned) : BlockCall → Owned → Prop
  | .alloc n, o' =>
    o' = ((o.1.pmmngrAllocBlocks n).2,
      if (o.1.pmmngrAllocBlocks n).1 = 0 then o.2 else ((o.1.pmmngrAllocBlocks n).1, n) :: o.2)
  | .free a n, o' => (a, n) ∈ o.2 ∧ o' = (o.1.pmmngrFreeBlocks a n, o.2.erase (a, n))

/-- The runs of the manager from the state `s`, with nothing outstanding. -/
def ownershipSystem (s : Pmmngr) : System Owned BlockCall where
  init o := o = (s, [])
  step := ownershipStep

theorem maxBlocks_ownershipStep {o o' : Owned} {c : BlockCall} (h : ownershipStep o c o') :
    o'.1.maxBlocks = o.1.maxBlocks := by
  cases c with
  | alloc n =>
    rw [h]
    exact maxBlocks_pmmngrAllocBlocks _ _
  | free a n =>
    rw [h.2]
    exact maxBlocks_pmmngrFreeBlocks _ _ _

/-- The invariant of the manager and its outstanding runs. -/
structure OwnershipInv (o : Owned) : Prop where
  /-- The outstanding blocks are counted. -/
  sum_le : (o.2.map fun r => r.2.toNat).sum ≤ o.1.usedBlocks.toNat
  used_le : o.1.usedBlocks.toNat ≤ o.1.maxBlocks.toNat
  /-- Block 0 is never free where the search looks. -/
  zero : 0 < o.1.mapWords → o.1.marked 0 = true
  /-- Runs start inside the bitmap's whole words. -/
  start_lt : ∀ r ∈ o.2, r.1.toNat / 4096 < 32 * o.1.mapWords
  zero_notMem : ∀ r ∈ o.2, 0 ∉ runBlocks r
  disjoint : (o.2.map runBlocks).Pairwise Disjoint
  marked : ∀ r ∈ o.2, ∀ b ∈ runBlocks r, o.1.marked b = true

namespace OwnershipInv

variable {o : Owned}

/-- Outstanding runs are short. -/
theorem length_lt (h : OwnershipInv o) {r : PhysicalAddr × BitVec 32} (hr : r ∈ o.2) :
    r.2.toNat < 2 ^ 20 := by
  have h1 := Ledger.sum_erase_add (fun r : PhysicalAddr × BitVec 32 => r.2.toNat) hr
  have h2 := h.sum_le
  have h3 := h.used_le
  have h4 := o.1.maxBlocks_lt
  omega

/-- Outstanding blocks lie in the addressable part of the bitmap. -/
theorem mem_lt (h : OwnershipInv o) {r : PhysicalAddr × BitVec 32} (hr : r ∈ o.2) {b : ℕ}
    (hb : b ∈ runBlocks r) : b < 2 ^ 21 := by
  have h1 := h.length_lt hr
  have h2 := h.start_lt r hr
  have h3 := o.1.mapWords_lt
  rw [mem_runBlocks] at hb
  omega

/-- **A granted run meets no outstanding run.** -/
theorem disjoint_of_grant (h : OwnershipInv o) {n : BitVec 32} {b : ℕ} (hg : o.1.Grant n b)
    {r : PhysicalAddr × BitVec 32} (hr : r ∈ o.2) :
    Disjoint (Finset.Ico b (b + n.toNat)) (runBlocks r) := by
  rw [Finset.disjoint_left]
  intro x hx hxr
  rw [Finset.mem_Ico] at hx
  -- the block of the two runs that lies inside the whole words
  obtain ⟨y, hy1, hy2, hy3⟩ : ∃ y, y < 32 * o.1.mapWords ∧ (b ≤ y ∧ y < b + n.toNat) ∧
      y ∈ runBlocks r := by
    by_cases hin : x < 32 * o.1.mapWords
    · exact ⟨x, hin, hx, hxr⟩
    · have h1 := hg.first.1
      have h2 := h.start_lt r hr
      rw [mem_runBlocks] at hxr
      refine ⟨32 * o.1.mapWords - 1, by omega, by omega, ?_⟩
      rw [mem_runBlocks]
      omega
  have hfree := hg.first.2.1.marked_eq_false hy2.1 hy2.2 hy1
  exact Bool.false_ne_true (hfree.symm.trans (h.marked r hr y hy3))

/-- The run granted after set-up does not start at block 0. -/
theorem start_ne_zero (h : OwnershipInv o) {n : BitVec 32} {b : ℕ} (hg : o.1.Grant n b) :
    b ≠ 0 := by
  rintro rfl
  have h1 := hg.first.1
  exact Bool.false_ne_true (hg.marked_start.symm.trans (h.zero (by omega)))

/-- A grant keeps the invariant. -/
theorem of_grant (h : OwnershipInv o) {n : BitVec 32} {b : ℕ} (hg : o.1.Grant n b) :
    OwnershipInv ((o.1.pmmngrAllocBlocks n).2, ((o.1.pmmngrAllocBlocks n).1, n) :: o.2) := by
  have hb0 := h.start_ne_zero hg
  have hblocks : runBlocks ((o.1.pmmngrAllocBlocks n).1, n) = Finset.Ico b (b + n.toNat) := by
    rw [runBlocks, hg.address_div]
  have hwords : (o.1.pmmngrAllocBlocks n).2.mapWords = o.1.mapWords := by
    rw [mapWords, maxBlocks_pmmngrAllocBlocks, mapWords]
  have hlt := lt_of_lt_free h.used_le hg.lt_free
  have hmax := o.1.maxBlocks_lt
  have hbounds : b < 2 ^ 20 := hg.start_lt
  refine ⟨?_, ?_, fun hw => ?_, ?_, ?_, ?_, ?_⟩
  · rw [List.map_cons, List.sum_cons]
    simp only [hg.usedBlocks]
    rw [BitVec.toNat_add_of_lt (by omega)]
    have := h.sum_le
    omega
  · simp only [hg.usedBlocks, maxBlocks_pmmngrAllocBlocks]
    rw [BitVec.toNat_add_of_lt (by omega)]
    omega
  · -- block 0 is not part of the run
    simp only [hwords] at hw
    rw [hg.marked 0 (by norm_num), h.zero hw, ite_self]
  · intro r hr
    rw [hwords]
    rcases List.mem_cons.mp hr with rfl | hr
    · rw [hg.address_div]
      exact hg.first.1
    · exact h.start_lt r hr
  · intro r hr
    rcases List.mem_cons.mp hr with rfl | hr
    · rw [hblocks, Finset.mem_Ico]
      omega
    · exact h.zero_notMem r hr
  · rw [List.map_cons, List.pairwise_cons]
    refine ⟨fun t ht => ?_, h.disjoint⟩
    obtain ⟨r, hr, rfl⟩ := List.mem_map.mp ht
    rw [hblocks]
    exact h.disjoint_of_grant hg hr
  · intro r hr x hx
    rcases List.mem_cons.mp hr with rfl | hr
    · rw [hblocks, Finset.mem_Ico] at hx
      rw [hg.marked x (by omega), if_pos hx]
    · have := h.mem_lt hr hx
      rw [hg.marked x (by omega), h.marked r hr x hx, ite_self]

/-- A matching free keeps the invariant. -/
theorem of_free (h : OwnershipInv o) {a : PhysicalAddr} {n : BitVec 32} (hr : (a, n) ∈ o.2) :
    OwnershipInv (o.1.pmmngrFreeBlocks a n, o.2.erase (a, n)) := by
  have hsub : ∀ t ∈ o.2.erase (a, n), t ∈ o.2 := fun t ht => List.mem_of_mem_erase ht
  have hsum := Ledger.sum_erase_add (fun r : PhysicalAddr × BitVec 32 => r.2.toNat) hr
  have hle := h.sum_le
  have hlen := h.length_lt hr
  have hstart := h.start_lt _ hr
  have hwlt := o.1.mapWords_lt
  have hfree : ∀ x, x < 2 ^ 35 → (o.1.pmmngrFreeBlocks a n).marked x =
      if x ∈ runBlocks (a, n) then false else o.1.marked x := by
    intro x hx
    simp only [mem_runBlocks]
    exact marked_pmmngrFreeBlocks _ _ _ (by simp only at hstart hlen; omega) hx
  have hused : (o.1.usedBlocks - n).toNat = o.1.usedBlocks.toNat - n.toNat :=
    BitVec.toNat_sub_of_le (BitVec.le_def.mpr (by simp only at hsum; omega))
  refine ⟨?_, ?_, fun hw => ?_, ?_, ?_, ?_, ?_⟩
  · simp only [usedBlocks_pmmngrFreeBlocks, hused]
    simp only at hsum
    omega
  · simp only [usedBlocks_pmmngrFreeBlocks, hused, maxBlocks_pmmngrFreeBlocks]
    have := h.used_le
    omega
  · simp only [mapWords, maxBlocks_pmmngrFreeBlocks] at hw
    rw [hfree 0 (by norm_num), if_neg (h.zero_notMem _ hr), h.zero hw]
  · intro r hr'
    simp only [mapWords, maxBlocks_pmmngrFreeBlocks]
    exact h.start_lt r (hsub r hr')
  · exact fun r hr' => h.zero_notMem r (hsub r hr')
  · exact Ledger.pairwise_erase h.disjoint _
  · -- the freed blocks belong to no other run
    intro r hr' x hx
    have hnot : x ∉ runBlocks (a, n) := fun hxa =>
      Finset.disjoint_left.mp (Ledger.disjoint_of_mem_erase h.disjoint hr hr') hxa hx
    have := h.mem_lt (hsub r hr') hx
    rw [hfree x (by omega), if_neg hnot, h.marked r (hsub r hr') x hx]

/-- Every call keeps the invariant. -/
theorem step (h : OwnershipInv o) {c : BlockCall} {o' : Owned} (hs : ownershipStep o c o') :
    OwnershipInv o' := by
  cases c with
  | alloc n =>
    rw [ownershipStep] at hs
    subst hs
    rcases pmmngrAllocBlocks_cases n h.used_le with hfail | ⟨b, hg⟩
    · simp only [hfail, if_true]
      exact h
    · rw [if_neg (mt hg.address_eq_zero_iff.mp (h.start_ne_zero hg))]
      exact h.of_grant hg
  | free a n =>
    obtain ⟨hr, rfl⟩ := hs
    exact h.of_free hr

end OwnershipInv

/-- The invariant holds in every state of every run. -/
theorem ownershipInv_of_reachable {mem : Mem} {addr : PhysicalAddr} {size : BitVec 32}
    {calls : List RegionCall} (hcalls : DisjointRegions (size.toNat / 4096) calls) {o : Owned}
    (h : (ownershipSystem (setUp mem addr size calls)).Reachable o) : OwnershipInv o := by
  refine h.invariant ?_ fun s a s' hs hstep => hs.step hstep
  rintro _ rfl
  refine ⟨by simp, usedBlocks_setUp_le hcalls, marked_zero_setUp, ?_, ?_, by simp, ?_⟩
  all_goals exact fun r hr => absurd hr (by simp)

/-- **Exclusive ownership.**  In every state of every run the outstanding runs are pairwise
disjoint, their blocks are marked and none contains block 0; an allocation that the counter and
the search admit returns a non-null address, and one that returns null has changed nothing. -/
theorem outstanding_runs_exclusive (mem : Mem) (addr : PhysicalAddr) (size : BitVec 32)
    (calls : List RegionCall) (hcalls : DisjointRegions (size.toNat / 4096) calls) (o : Owned)
    (h : (ownershipSystem (setUp mem addr size calls)).Reachable o) :
    (o.2.map runBlocks).Pairwise Disjoint ∧
    (∀ r ∈ o.2, ∀ b ∈ runBlocks r, o.1.marked b = true) ∧
    (∀ r ∈ o.2, 0 ∉ runBlocks r) ∧
    (∀ n, n < o.1.pmmngrGetFreeBlockCount → o.1.mmapFirstFreeBlocks n ≠ -1 →
      (o.1.pmmngrAllocBlocks n).1 ≠ 0) ∧
    (∀ n, (o.1.pmmngrAllocBlocks n).1 = 0 → (o.1.pmmngrAllocBlocks n).2 = o.1) := by
  have hinv := ownershipInv_of_reachable hcalls h
  refine ⟨hinv.disjoint, hinv.marked, hinv.zero_notMem, fun n hlt hfound h0 => ?_, fun n h0 => ?_⟩
  · rcases pmmngrAllocBlocks_cases n hinv.used_le with hfail | ⟨b, hg⟩
    · -- the code takes neither of its two early returns
      rw [pmmngrAllocBlocks, if_neg (BitVec.not_le.mpr hlt), if_neg hfound] at hfail
      have hcount := congrArg (fun p => p.2.usedBlocks) hfail
      simp only [forBlocks_eq_of_eq Pmmngr.usedBlocks usedBlocks_mmapSet] at hcount
      have hn : n = 0 := by bv_omega
      rw [mmapFirstFreeBlocks, if_pos hn] at hfound
      exact hfound rfl
    · exact hinv.start_ne_zero hg (hg.address_eq_zero_iff.mp h0)
  · rcases pmmngrAllocBlocks_cases n hinv.used_le with hfail | ⟨b, hg⟩
    · rw [hfail]
    · exact absurd (hg.address_eq_zero_iff.mp h0) (hinv.start_ne_zero hg)

/-- A run of the manager over 64 blocks, with blocks 1 to 4 freed and block 2 reserved again: two blocks are
allocated, the first of them is given back and allocated once more. -/
theorem outstanding_runs_exclusive_two_blocks :
    ∃ o : Owned, o.2 = [(0x1000, 1), (0x3000, 1)] ∧
      (o.2.map runBlocks).Pairwise Disjoint ∧
      (∀ r ∈ o.2, ∀ b ∈ runBlocks r, o.1.marked b = true) ∧
      (∀ r ∈ o.2, 0 ∉ runBlocks r) ∧
      (∀ n, n < o.1.pmmngrGetFreeBlockCount → o.1.mmapFirstFreeBlocks n ≠ -1 →
        (o.1.pmmngrAllocBlocks n).1 ≠ 0) ∧
      (∀ n, (o.1.pmmngrAllocBlocks n).1 = 0 → (o.1.pmmngrAllocBlocks n).2 = o.1) := by
  have hcalls : DisjointRegions ((0x40000 : BitVec 32).toNat / 4096)
      [.init 0x1000 0x4000, .deinit 0x2000 0x1000] := by
    refine ⟨by decide, by decide, by decide, by decide⟩
  have hinit : (ownershipSystem (setUp (fun _ => 0) 0x30000 0x40000
      [.init 0x1000 0x4000, .deinit 0x2000 0x1000])).Reachable (_, []) := System.Reachable.init rfl
  have htwo := (hinit.step (a := BlockCall.alloc 1) rfl).step (a := BlockCall.alloc 1) rfl
  have hback := htwo.step (a := BlockCall.free 0x1000 1) ⟨by decide +kernel, rfl⟩
  have hreach := hback.step (a := BlockCall.alloc 1) rfl
  exact ⟨_, by decide +kernel, outstanding_runs_exclusive _ _ _ _ hcalls _ hreach⟩

end FanOS.Pmmngr

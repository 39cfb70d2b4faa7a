import FanOS.Malloc.Equiv.UserPages
import Mathlib.Order.Bounds.Basic

/-!
# Growing the heap

When no block can serve a request, the last one grows: `malloc_next_block` counts the pages that make
room for the request and another header, takes them one by one, maps each behind the end of the heap,
and splits the block.  `mallocNextBlock_growth` puts together what the loops do: the count is the least
one, no sum or difference on the way wraps, the entries of the pages behind the old end hold the pages
that were taken, and the blocks tile the heap again.

All this presumes a first block that is not empty.  A size of zero in the first header is the sign of a
heap that has not been set up, and `malloc_next_block` then sets it up.
-/

namespace FanOS.Malloc

open Tiling (Block span)
open Vmmngr (PagingInv Updates)

variable {h : Malloc} {fresh : Mem} {b : Block} {pre : List Block} {vm : Vmmngr} {k t : ℕ}

/-! ### Pages behind the heap -/

/-- Take a page and map it at `virt`. -/
def takePage (vm : Vmmngr) (virt : VirtualAddr) : Vmmngr :=
  (vm.vmmngrAllocPage 0).2.2.vmmngrMapPage (vm.vmmngrAllocPage 0).1 virt

/-- The managers after that is done for `k` pages from `virt` on. -/
def takenVm : ℕ → VirtualAddr → Vmmngr → Vmmngr
  | 0, _, vm => vm
  | k + 1, virt, vm => takenVm k (virt + pageSize) (takePage vm virt)

/-- The pages that are taken. -/
def takenPages : ℕ → VirtualAddr → Vmmngr → List PhysicalAddr
  | 0, _, _ => []
  | k + 1, virt, vm => (vm.vmmngrAllocPage 0).1 :: takenPages k (virt + pageSize) (takePage vm virt)

/-- Every page is supplied, and so is every page table. -/
def GrowthSupplied : ℕ → VirtualAddr → Vmmngr → Prop
  | 0, _, _ => True
  | k + 1, virt, vm => (vm.vmmngrAllocPage 0).1 ≠ 0 ∧ (vm.vmmngrAllocPage 0).2.2.TableAvailable virt ∧
      GrowthSupplied k (virt + pageSize) (takePage vm virt)

theorem GrowthSupplied.pagesAvailable {virt : VirtualAddr} (hs : GrowthSupplied k virt vm) :
    PagesAvailable k virt vm := by
  induction k generalizing virt vm with
  | zero => trivial
  | succ k ih => exact ⟨hs.1, ih hs.2.2⟩

@[simp] theorem length_takenPages (k : ℕ) (virt : VirtualAddr) (vm : Vmmngr) :
    (takenPages k virt vm).length = k := by
  induction k generalizing virt vm with
  | zero => rfl
  | succ k ih => rw [takenPages, List.length_cons, ih]

/-- The loop that adds pages takes them. -/
theorem vm_growLoop {virt : VirtualAddr} (fresh : Mem) (cur : VirtualAddr)
    (hs : GrowthSupplied k virt h.vm) : (growLoop fresh cur k virt h).vm = takenVm k virt h.vm := by
  induction k generalizing h virt with
  | zero => rfl
  | succ k ih =>
    have hstep : (h.growPage fresh cur virt).vm = takePage h.vm virt := by
      rw [growPage, if_pos hs.1]
      rfl
    rw [growLoop, takenVm, ih (by rw [hstep]; exact hs.2.2), hstep]

/-! ### Their entries -/

/-- Taking a page changes its entry. -/
theorem updates_takePage {virt : VirtualAddr} (hinv : PagingInv vm)
    (ht : (vm.vmmngrAllocPage 0).2.2.TableAvailable virt) :
    PagingInv (takePage vm virt) ∧
      Updates vm (takePage vm virt) virt (ptEntryMap (vm.vmmngrAllocPage 0).1) := by
  have hvm := vm.vmmngrAllocPage_snd_snd 0
  have hinv' : PagingInv (vm.vmmngrAllocPage 0).2.2 := by
    rw [hvm]
    exact hinv.of_marked_le fun _ hx hm => vm.pmm.marked_pmmngrAllocBlock_of_marked hx hm
  rcases hinv'.vmmngrMapPage_cases (vm.vmmngrAllocPage 0).1 virt with ⟨h0, h1, -⟩ | ⟨-, hmap, hup⟩
  · exact absurd ht (not_or.mpr ⟨not_not.mpr h0, not_not.mpr h1⟩)
  · refine ⟨hmap, ?_⟩
    rw [hvm] at hup
    rw [takePage, hvm]
    exact ⟨hup.dirEntry, hup.pte⟩

theorem page_ofNat (ht : t < 2 ^ 20) : page (BitVec.ofNat 32 (4096 * t)) = t := by
  rw [page, BitVec.toNat_ofNat, Nat.mod_eq_of_lt (by omega), Nat.mul_div_cancel_left _ (by decide)]

theorem ofNat_add_pageSize (t : ℕ) :
    BitVec.ofNat 32 (4096 * t) + pageSize = BitVec.ofNat 32 (4096 * (t + 1)) := by
  rw [show pageSize = BitVec.ofNat 32 4096 from rfl, ← BitVec.ofNat_add]
  congr 1

/-- Taking pages keeps the entries of those before them. -/
theorem pte_takenVm_of_lt (hinv : PagingInv vm)
    (hs : GrowthSupplied k (BitVec.ofNat 32 (4096 * t)) vm) (hlt : t + k ≤ 2 ^ 20) :
    PagingInv (takenVm k (BitVec.ofNat 32 (4096 * t)) vm) ∧
      ∀ w, page w < t → (takenVm k (BitVec.ofNat 32 (4096 * t)) vm).pte w = vm.pte w := by
  -- each page taken updates an entry behind those before `t`, and keeps the invariant for the next one
  induction k generalizing vm t with
  | zero => exact ⟨hinv, fun _ _ => rfl⟩
  | succ k ih =>
    obtain ⟨-, htable, hs⟩ := hs
    obtain ⟨hinv', hup⟩ := updates_takePage hinv htable
    rw [ofNat_add_pageSize] at hs
    obtain ⟨hinv'', hpte⟩ := ih hinv' hs (by omega)
    rw [takenVm, ofNat_add_pageSize]
    refine ⟨hinv'', fun w hw => ?_⟩
    rw [hpte w (by omega), hup.pte, if_neg (by rw [page_ofNat (by omega)]; omega)]

/-- **The entry of each page** is that of the page taken for it. -/
theorem pte_takenVm (hinv : PagingInv vm) (hs : GrowthSupplied k (BitVec.ofNat 32 (4096 * t)) vm)
    (hlt : t + k ≤ 2 ^ 20) {i : ℕ} {p : PhysicalAddr}
    (hp : (takenPages k (BitVec.ofNat 32 (4096 * t)) vm)[i]? = some p) :
    (takenVm k (BitVec.ofNat 32 (4096 * t)) vm).pte (BitVec.ofNat 32 (4096 * (t + i))) =
      ptEntryMap p (vm.pte (BitVec.ofNat 32 (4096 * (t + i)))) := by
  induction k generalizing vm t i with
  | zero => simp [takenPages] at hp
  | succ k ih =>
    obtain ⟨-, htable, hs⟩ := hs
    obtain ⟨hinv', hup⟩ := updates_takePage hinv htable
    rw [ofNat_add_pageSize] at hs
    rw [takenPages, ofNat_add_pageSize] at hp
    rw [takenVm, ofNat_add_pageSize]
    cases i with
    | zero =>
      -- the pages that follow leave it alone
      obtain rfl : (vm.vmmngrAllocPage 0).1 = p := by simpa using hp
      have hkeep := (pte_takenVm_of_lt hinv' hs (by omega)).2 (BitVec.ofNat 32 (4096 * t))
        (by rw [page_ofNat (by omega)]; omega)
      exact hkeep.trans hup.pte_self
    | succ i =>
      have hlen : i < k := by
        have hlen := (List.getElem?_eq_some_iff.mp hp).1
        rw [List.length_cons, length_takenPages] at hlen
        omega
      rw [List.getElem?_cons_succ] at hp
      -- the first page is another one, so its entry is read as before
      have hrest := ih hinv' hs (by omega) hp
      rw [show t + 1 + i = t + (i + 1) by omega] at hrest
      rw [hrest, hup.pte, if_neg (by rw [page_ofNat (by omega), page_ofNat (by omega)]; omega)]

/-- Pages that are taken are aligned. -/
theorem pageAligned_of_mem_takenPages {virt : VirtualAddr} (hs : GrowthSupplied k virt vm)
    {p : PhysicalAddr} (hp : p ∈ takenPages k virt vm) : Mem.PageAligned p := by
  induction k generalizing virt vm with
  | zero => exact absurd hp List.not_mem_nil
  | succ k ih =>
    rcases List.mem_cons.mp hp with rfl | hp
    · have hne := hs.1
      rw [Vmmngr.vmmngrAllocPage_fst] at hne ⊢
      exact (vm.pmm.pmmngrAllocBlock_fresh hne).1
    · exact ih hs.2.2 hp

/-! ### The count -/

/-- The counts of pages that make room for `n` bytes and a header in a block of `s` bytes. -/
def roomyCounts (s n : ℕ) : Set ℕ := {j | 1 ≤ j ∧ n + 12 ≤ s + 4096 * j}

/-- The count that the loop arrives at is the least one. -/
theorem isLeast_pagesToGrow {s n : ℕ} (hless : s < n) : IsLeast (roomyCounts s n) (pagesToGrow s n) := by
  constructor
  · refine ⟨one_le_pagesToGrow hless, ?_⟩
    unfold pagesToGrow
    omega
  · rintro j ⟨-, hj⟩
    unfold pagesToGrow
    omega

/-- No sum and no difference wraps when a block of `s` bytes with its header at `p`, the last one of a
heap of `pages` pages, grows by `k` pages and is split after `n` bytes. -/
structure NoWrap (pages p s n k : ℕ) : Prop where
  /-- `size + sizeof(malloc_block_t)`. -/
  request : n + 12 < 2 ^ 32
  /-- `cur->size + page_count * PAGE_SIZE`, and `cur->size += PAGE_SIZE`. -/
  count : ∀ j ≤ k, s + 4096 * j < 2 ^ 32
  /-- `malloc_virt_addr + total_malloc_pages * PAGE_SIZE`, and `virt += PAGE_SIZE`. -/
  virt : ∀ j ≤ k, 4096 * (pages + j) < 2 ^ 32
  /-- `node->size - size - sizeof(malloc_block_t)`. -/
  rest : n + 12 ≤ s + 4096 * k
  /-- `node + size + sizeof(malloc_block_t)`: the second header is in the heap. -/
  header : p + n + 12 + 12 ≤ 4096 * (pages + k)

/-! ### The request -/

/-- **Growing the heap**: `malloc_next_block` for a request of `n` bytes that only a larger last block
can serve returns that block with `n` bytes, after adding the least number of pages that makes room. -/
theorem mallocNextBlock_growth (h : Malloc) (fresh : Mem) (n : BitVec 32) (pre : List Block) (b : Block)
    (k : ℕ) (ht : Tiled h (pre ++ [b])) (hpos : HeadPos (pre ++ [b]))
    (hserve : ∀ c ∈ pre, ¬ (n.toNat ≤ c.size ∧ c.free = true)) (hless : b.size < n.toNat)
    (hk : IsLeast (roomyCounts b.size n.toNat) k)
    (hend : 4096 * (h.totalMallocPages.toNat + k) < 2 ^ 32)
    (hs : GrowthSupplied k (BitVec.ofNat 32 (4096 * h.totalMallocPages.toNat)) h.vm) :
    ∃ h', h.mallocNextBlock fresh n = some (BitVec.ofNat 32 (span 12 pre + 12), h') ∧
      Tiled h' (pre ++ [⟨n.toNat, false⟩, ⟨b.size + 4096 * k - (n.toNat + 12), true⟩]) ∧
      h'.totalMallocPages.toNat = h.totalMallocPages.toNat + k ∧
      NoWrap h.totalMallocPages.toNat (span 12 pre) b.size n.toNat k ∧
      (PagingInv h.vm → ∀ i p,
        (takenPages k (BitVec.ofNat 32 (4096 * h.totalMallocPages.toNat)) h.vm)[i]? = some p →
        ∃ t, h'.vm.walk (BitVec.ofNat 32 (4096 * (h.totalMallocPages.toNat + i))) = some t ∧
          t.frame = (h.vm.pte (BitVec.ofNat 32 (4096 * (h.totalMallocPages.toNat + i))) &&& 0x80000000)
            ||| p) := by
  obtain rfl : pagesToGrow b.size n.toNat = k := (isLeast_pagesToGrow hless).unique hk
  have hgrow : h.GrowthAvailable b.size n.toNat := ⟨by omega, hs.pagesAvailable⟩
  -- the search runs to the last block
  have hstops : Stops n.toNat pre b [] := by
    refine ⟨fun c hc => ?_, Or.inl rfl⟩
    have hc := hserve c hc
    rwa [not_and_or, Nat.not_le, Bool.not_eq_true] at hc
  have hspan := ht.span_eq
  rw [Tiling.span_append, Tiling.span_cons, Tiling.span_nil] at hspan
  have hroom : n.toNat + 12 ≤ b.size + 4096 * pagesToGrow b.size n.toNat := hk.1.2
  have hnext := ht.mallocNextBlock_grow hpos n.isLt hstops hless hgrow fresh
  obtain ⟨-, htiled⟩ := ht.grow hless hgrow fresh
  rw [BitVec.ofNat_toNat, BitVec.setWidth_eq] at hnext htiled
  rw [Nat.sub_sub] at htiled
  refine ⟨_, hnext, htiled, ?_, ⟨by omega, fun j hj => by omega, fun j hj => by omega, hroom, by omega⟩,
    fun hinv i p hp => ?_⟩
  · -- the tiles of both heaps give the number of pages
    have hspan' := htiled.span_eq
    simp only [Tiling.span_append, Tiling.span_cons, Tiling.span_nil] at hspan'
    simp only
    omega
  · -- the managers are left as the loop leaves them
    have hcount : (BitVec.ofNat 32 (pagesToGrow b.size n.toNat)).toNat = pagesToGrow b.size n.toNat := by
      rw [BitVec.toNat_ofNat, Nat.mod_eq_of_lt (by omega)]
    simp only [hcount, windowEnd_eq, vm_growLoop fresh _ hs]
    have hpte := pte_takenVm hinv hs (by omega) hp
    have halign := pageAligned_of_mem_takenPages hs (List.mem_of_getElem? hp)
    rw [(pte_takenVm_of_lt hinv hs (by omega)).1.walk_eq, hpte, if_pos (getLsbD_zero_ptEntryMap p _)]
    exact ⟨_, rfl, frame_ptEntryMap halign _⟩

/-! ### Two heaps of one page -/

/-- A heap of one page on the small machine. -/
def smallHeap (mem : Mem) : Malloc := ⟨Vmmngr.smallMachine.vmmngrInit, mem, 0, 0, 1, true⟩

theorem vm_smallHeap (mem : Mem) : (smallHeap mem).vm = Vmmngr.smallMachine.vmmngrInit := by
  rw [smallHeap]

/-- There is another page for it. -/
theorem growthSupplied_smallHeap (mem : Mem) : GrowthSupplied 1 0x1000 (smallHeap mem).vm := by
  have hne : Vmmngr.smallMachine.directory.2.pmmngrAllocBlock.1 ≠ 0 := by decide +kernel
  have hdir : Vmmngr.smallMachine.vmmngrInit.dirEntry (pageDirIndex 0x1000) ≠ 0 := by
    rw [show pageDirIndex 0x1000 = pageDirIndex 0 from by decide]
    exact Vmmngr.dirEntry_smallMachine_ne_zero
  refine ⟨?_, Or.inl ?_, trivial⟩
  · rw [Vmmngr.vmmngrAllocPage_fst, vm_smallHeap,
      Vmmngr.vmmngrInit_of_available Vmmngr.available_smallMachine]
    simpa only using hne
  · rw [Vmmngr.dirEntry_vmmngrAllocPage, vm_smallHeap]
    exact hdir

/-- A first block of 4084 bytes grows by one page for a request of 5000. -/
theorem mallocNextBlock_growth_one_page : ∃ h',
    (smallHeap (setHeader (fun _ => 0) 0 4084 true 0)).mallocNextBlock (fun _ => 0) 5000 =
      some (12, h') ∧ Tiled h' [⟨5000, false⟩, ⟨3168, true⟩] := by
  have ht : Tiled (smallHeap (setHeader (fun _ => 0) 0 4084 true 0)) ([] ++ [⟨4084, true⟩]) :=
    ⟨rfl, by simp, chain_singleton.mpr (header_setHeader _ ⟨4084, true⟩ 0 (by decide)), rfl, by decide⟩
  have hk : IsLeast (roomyCounts 4084 5000) 1 := isLeast_pagesToGrow (by decide)
  obtain ⟨h', hnext, htiled, -⟩ := mallocNextBlock_growth _ (fun _ => 0) 5000 [] ⟨4084, true⟩ 1 ht
    (by simp [HeadPos]) (by simp) (by decide) hk (by decide) (growthSupplied_smallHeap _)
  exact ⟨h', hnext, htiled⟩

/-- An empty first block, followed by one of 4072 bytes. -/
def emptyFirst : Mem := setHeader (setHeader (fun _ => 0) 0 0 false 12) 12 4072 true 0

theorem tiled_emptyFirst : Tiled (smallHeap emptyFirst) ([⟨0, false⟩] ++ [⟨4072, true⟩]) := by
  refine ⟨rfl, by simp, (chain_append (by simp)).mpr ⟨?_, ?_⟩, rfl, by decide⟩
  · have hfirst := header_setHeader (a := 0) (fun _ => 0) ⟨0, false⟩ 12 (by decide)
    exact chain_singleton.mpr (hfirst.congr (agreeOn_setHeader (a := 12) _ _ _ _ (by decide) (by decide)
      (Or.inr (by decide))))
  · exact chain_singleton.mpr (header_setHeader (a := 12) _ ⟨4072, true⟩ 0 (by decide))

/-- Such a heap is set up again: a request of 5000 bytes is given its first block, not the last one. -/
theorem not_mallocNextBlock_growth :
    ¬ ∀ (h : Malloc) (fresh : Mem) (n : BitVec 32) (pre : List Block) (b : Block) (k : ℕ),
      Tiled h (pre ++ [b]) → 1 ≤ n.toNat → n.toNat < 2 ^ 31 →
      (∀ c ∈ pre, ¬ (n.toNat ≤ c.size ∧ c.free = true)) → b.size < n.toNat →
      IsLeast (roomyCounts b.size n.toNat) k → 4096 * (h.totalMallocPages.toNat + k) < 2 ^ 32 →
      GrowthSupplied k (BitVec.ofNat 32 (4096 * h.totalMallocPages.toNat)) h.vm →
      ∃ h', h.mallocNextBlock fresh n = some (BitVec.ofNat 32 (span 12 pre + 12), h') := by
  intro hall
  have hk : IsLeast (roomyCounts 4072 5000) 1 := isLeast_pagesToGrow (by decide)
  obtain ⟨h', hnext⟩ := hall _ (fun _ => 0) 5000 [⟨0, false⟩] ⟨4072, true⟩ 1 tiled_emptyFirst
    (by decide) (by decide) (by simp) (by decide) hk (by decide) (growthSupplied_smallHeap _)
  have hacc := Vmmngr.accessInv_of_init Vmmngr.init_smallMachine
  rw [← vm_smallHeap emptyFirst] at hacc
  -- the search starts in a heap that has just been set up, and ends at its first block
  obtain ⟨-, cur, hptr, hsearch⟩ := mallocNextBlock_eq_some (by decide) hacc hnext
  have hsize : nodeSize (smallHeap emptyFirst).mem (smallHeap emptyFirst).mallocListHead = 0 :=
    tiled_emptyFirst.chain_zero.1.size
  rw [searched, if_pos hsize, searchLoop_mallocInit, Option.some.injEq] at hsearch
  rw [← hsearch] at hptr
  exact absurd hptr (by decide)

end FanOS.Malloc

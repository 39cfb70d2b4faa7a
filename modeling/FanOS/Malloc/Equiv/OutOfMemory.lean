import FanOS.Malloc.Equiv.Growth
import FanOS.Malloc.Equiv.Live
import FanOS.Malloc.Equiv.Termination

/-!
# Requests without pages

`malloc_init` does not look at what `pmmngr_alloc_blocks` returns, `vmmngr_map_page` has no result, and
`malloc_next_block` skips a page that it does not get but splits the block as if it had it.  So a request
for which pages are missing (`Unsupplied`) is never turned down (`out_of_memory_not_reported`): on a heap
that is set up for it the pointer is that of the first block, and otherwise the last block is given the
size that was asked for.
-/

namespace FanOS.Malloc

variable {h h' : Malloc} {fresh : Mem} {n : BitVec 32} {cur ptr : VirtualAddr} {k : ℕ}

/-! ### Pages that are missing -/

/-- There is a page table for each of the pages that the loop of `malloc_init` maps. -/
def InitTables (fresh : Mem) : ℕ → PhysicalAddr → VirtualAddr → Malloc → Prop
  | 0, _, _, _ => True
  | k + 1, phys, virt, h => h.vm.TableAvailable virt ∧
      InitTables fresh k (phys + pageSize) (virt + pageSize) (h.initPage fresh phys virt)

/-- `malloc_init(n)` is supplied with its pages and with the tables to map them. -/
def InitSupplied (h : Malloc) (fresh : Mem) (n : BitVec 32) : Prop :=
  initPageCount n = 0 ∨ ((h.vm.pmm.pmmngrAllocBlocks (initPageCount n)).1 ≠ 0 ∧
    InitTables fresh (initPageCount n).toNat (h.takePages n).mallocPhysAddr mallocVirtAddr
      (h.takePages n))

/-- The physical memory manager cannot supply all the pages that a request of `n` bytes needs. -/
inductive Unsupplied (h : Malloc) (fresh : Mem) (n : BitVec 32) : Prop
  /-- The pages of the first `malloc_init`. -/
  | first (hi : h.mallocIniited = false) (hs : ¬ h.InitSupplied fresh n)
  /-- Those of the `malloc_init` in `malloc_next_block`, for an empty first block. -/
  | again (h0 : nodeSize (h.ready fresh n).mem (h.ready fresh n).mallocListHead = 0)
    (hs : ¬ (h.ready fresh n).InitSupplied fresh n)
  /-- Those by which the block where the search stops has to grow. -/
  | growth (cur : VirtualAddr)
    (hcur : searchLoop ((h.ready fresh n).searched fresh n).mem n (2 ^ 32)
      ((h.ready fresh n).searched fresh n).mallocListHead = some cur)
    (hless : nodeSize ((h.ready fresh n).searched fresh n).mem cur < n)
    (hs : ¬ GrowthSupplied
      (pagesToGrow (nodeSize ((h.ready fresh n).searched fresh n).mem cur).toNat n.toNat)
      (BitVec.ofNat 32 (4096 * ((h.ready fresh n).searched fresh n).totalMallocPages.toNat))
      ((h.ready fresh n).searched fresh n).vm)

/-- No page is missing for a request of no bytes. -/
theorem Unsupplied.ne_zero (hu : Unsupplied h fresh n) : n ≠ 0 := by
  rintro rfl
  cases hu with
  | first _ hs => exact hs (Or.inl (by decide))
  | again _ hs => exact hs (Or.inl (by decide))
  | growth _ _ hless _ => exact absurd hless BitVec.not_lt_zero

/-! ### The report -/

/-- The blocks of a heap that is set up are as before, and so is everything that is mapped. -/
structure Untouched (h h' : Malloc) : Prop where
  head : h'.mallocListHead = h.mallocListHead
  blocks : h.mallocIniited = true → ∀ a, IsNode h a →
    nodeSize h'.mem a = nodeSize h.mem a ∧ nodeFree h'.mem a = nodeFree h.mem a ∧
      nodeNext h'.mem a = nodeNext h.mem a
  mappings : ∀ v t, h.vm.walk v = some t → h'.vm.walk v = some t

/-- The request is turned down: `syscall_malloc` returns null and leaves everything as it was. -/
def Reported (h : Malloc) (fresh : Mem) (n : BitVec 32) : Prop :=
  ∃ h', h.syscallMalloc fresh n = some (0, h') ∧ Untouched h h'

/-- The search ends at a block of the list. -/
theorem isNode_of_searchLoop {a : VirtualAddr} (ha : IsNode h a)
    (hs : searchLoop h.mem n k a = some cur) : IsNode h cur := by
  induction k generalizing a with
  | zero => exact absurd hs (by simp [searchLoop])
  | succ k ih =>
    rw [searchLoop] at hs
    split_ifs at hs with hgo
    · exact ih (.next ha hgo.1) hs
    · exact Option.some.inj hs ▸ ha

/-- What a `syscall_malloc` that returns has done. -/
theorem hands_of_syscallMalloc (hhead : h.mallocListHead = mallocVirtAddr) (hn : n ≠ 0)
    (heq : h.syscallMalloc fresh n = some (ptr, h')) :
    ∃ cur, ptr = cur + mallocBlockSize ∧ Hands ((h.ready fresh n).searched fresh n) n cur h' := by
  cases hnext : (h.ready fresh n).mallocNextBlock fresh n with
  | none =>
    rw [syscallMalloc_eq, hnext] at heq
    exact absurd heq (by simp)
  | some r =>
    obtain ⟨ptr', h₁⟩ := r
    obtain ⟨cur, rfl, hhands⟩ := hands_of_mallocNextBlock hn hnext
    have heq' := syscallMalloc_of_mallocNextBlock hnext
      (hhands.head.trans (mallocListHead_searched_ready hhead fresh n))
    obtain ⟨rfl, rfl⟩ := Prod.mk.inj (Option.some.inj (heq.symm.trans heq'))
    exact ⟨cur, rfl, hhands⟩

/-- A heap that is set up for the request hands out its first block. -/
theorem syscallMalloc_fresh (hhead : h.mallocListHead = mallocVirtAddr) (hn : n ≠ 0)
    (hfresh : ¬ (h.mallocIniited = true ∧ nodeSize h.mem h.mallocListHead ≠ 0))
    (heq : h.syscallMalloc fresh n = some (ptr, h')) : ptr = 12 := by
  obtain ⟨cur, rfl, hhands⟩ := hands_of_syscallMalloc hhead hn heq
  rcases searched_ready_cases h fresh n with ⟨-, g, hg⟩ | ⟨hi, h0, -⟩
  · have hs := hhands.search
    rw [hg, searchLoop_mallocInit] at hs
    rw [← Option.some.inj hs]
    rfl
  · exact absurd ⟨hi, h0⟩ hfresh

/-- **Missing pages are never reported**, whichever of them are missing. -/
theorem out_of_memory_not_reported (h : Malloc) (fresh : Mem) (n : BitVec 32)
    (hhead : h.mallocListHead = mallocVirtAddr) (hu : Unsupplied h fresh n) : ¬ Reported h fresh n := by
  rintro ⟨h', heq, hun⟩
  have hn := hu.ne_zero
  by_cases hold : h.mallocIniited = true ∧ nodeSize h.mem h.mallocListHead ≠ 0
  · obtain ⟨hi, h0⟩ := hold
    have hready : h.ready fresh n = h := ready_of_inited hi
    have hsearched : h.searched fresh n = h := by rw [searched, if_neg h0]
    cases hu with
    | first hi' _ => exact absurd (hi'.symm.trans hi) Bool.false_ne_true
    | again h0' _ =>
      rw [hready] at h0'
      exact h0 h0'
    | growth cur hcur hless _ =>
      obtain ⟨cur', -, hhands⟩ := hands_of_syscallMalloc hhead hn heq
      rw [hready, hsearched] at hcur hless hhands
      obtain rfl := Option.some.inj (hcur.symm.trans hhands.search)
      -- the block is given a size that it had not
      have hkept := (hun.blocks hi cur (isNode_of_searchLoop .head hcur)).1
      rw [hhands.size] at hkept
      rw [← hkept] at hless
      exact BitVec.lt_irrefl n hless
  · have hptr := syscallMalloc_fresh hhead hn hold heq
    exact absurd hptr (by decide)

/-! ### A first request that is too large -/

/-- The small machine has no run of 256 pages. -/
theorem unsupplied_smallMachine (fresh : Mem) :
    Unsupplied (newHeap Vmmngr.smallMachine.vmmngrInit).1 fresh 0x100000 := by
  refine .first rfl ?_
  rintro (hcount | ⟨hne, -⟩)
  · exact absurd hcount (by decide)
  · apply hne
    rw [newHeap, Vmmngr.vmmngrInit_of_available Vmmngr.available_smallMachine]
    decide +kernel

/-- A first request of 1 MiB there is not turned down. -/
theorem out_of_memory_not_reported_smallMachine :
    Unsupplied (newHeap Vmmngr.smallMachine.vmmngrInit).1 (fun _ => 0) 0x100000 ∧
      ¬ Reported (newHeap Vmmngr.smallMachine.vmmngrInit).1 (fun _ => 0) 0x100000 :=
  ⟨unsupplied_smallMachine _, out_of_memory_not_reported _ _ _ rfl (unsupplied_smallMachine _)⟩

/-- It returns the payload of a block in pages that were not allocated. -/
theorem not_out_of_memory_reported :
    ¬ ∀ (h : Malloc) (fresh : Mem) (n : BitVec 32), h.mallocListHead = mallocVirtAddr →
      Unsupplied h fresh n → Reported h fresh n := by
  intro hall
  obtain ⟨h', heq, -⟩ := hall _ (fun _ => 0) 0x100000 rfl (unsupplied_smallMachine _)
  have hptr := syscallMalloc_fresh rfl (by decide) (fun hc => Bool.false_ne_true hc.1) heq
  exact absurd hptr (by decide)

end FanOS.Malloc

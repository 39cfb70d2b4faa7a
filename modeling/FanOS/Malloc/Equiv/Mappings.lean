import FanOS.Malloc.Equiv.Calls

/-!
# The heap and the kernel's own mappings

The window of the heap starts at virtual address 0, inside the 4 MiB that `vmmngr_init` maps to
themselves.  Its first page is not used otherwise; its second one is that of the buffer for DMA
transfers, and the bitmap, the text frame buffer, the kernel image and the page tables follow.  So
the kernel's mappings stay as they are as long as the heap has one page (`kernel_mappings_kept`),
which means as long as every request is met from that page (`OnePageCond`).
-/

namespace FanOS.Malloc

open Tiling (Block span)
open Vmmngr (PagingInv Updates)

variable {h : Malloc} {fresh : Mem} {n : BitVec 32} {b : Block} {bs pre post : List Block}

/-! ### Addresses that the kernel relies on -/

/-- The address is one at which the kernel reaches fixed memory: the DMA buffer, the text frame
buffer, the bitmap, the kernel image, the directory or a table. -/
inductive KernelAddr (kernelSize : ℕ) (vm : Vmmngr) (v : VirtualAddr) : Prop
  | dmaBuffer (hv : page v = page 0x1000)
  | textBuffer (hv : page v = page 0xB8000)
  | bitmap (hlo : 0x30000 ≤ v.toNat) (hhi : v.toNat < 0x30000 + vm.pmm.maxBlocks.toNat / 8)
  | image (hlo : 0x100000 ≤ v.toNat) (hhi : v.toNat < 0x100000 + kernelSize * 512)
  | directory (hv : page v = page vm.curdir)
  | table (i : BitVec 32) (hi : i.toNat < 1024) (h0 : vm.dirEntry i ≠ 0)
    (hv : page v = page (pageGetPhysicalAddress (vm.dirEntry i)))

theorem page_ne_zero_of_aligned {t : BitVec 32} (ht : Mem.PageAligned t) (h0 : t ≠ 0) :
    page t ≠ 0 := by
  have hle := le_of_pageAligned ht h0
  unfold page
  omega

/-- None of these addresses is in page 0. -/
theorem KernelAddr.page_ne_zero {kernelSize : ℕ} {vm : Vmmngr} {v : VirtualAddr}
    (hv : KernelAddr kernelSize vm v) (hinv : PagingInv vm) : page v ≠ 0 := by
  cases hv with
  | dmaBuffer hv =>
    rw [hv]
    decide
  | textBuffer hv =>
    rw [hv]
    decide
  | bitmap hlo hhi =>
    unfold page
    omega
  | image hlo hhi =>
    unfold page
    omega
  | directory hv =>
    rw [hv]
    exact page_ne_zero_of_aligned hinv.aligned hinv.curdir_ne_zero
  | table i hi h0 hv =>
    rw [hv]
    exact page_ne_zero_of_aligned (pageAligned_pageGetPhysicalAddress _)
      (hinv.installed i hi h0).ne_zero

/-! ### Mapping pages of the window -/

/-- What `malloc_init` makes of a page table entry. -/
def ptEntryInit (phys e : BitVec 32) : BitVec 32 := ptEntryAddAttrib (ptEntryMap phys e) pteWritable

/-- Mapping a page for which there is a table updates its entry. -/
theorem updates_initPage (fresh : Mem) (phys : PhysicalAddr) (virt : VirtualAddr)
    (hinv : PagingInv h.vm) (h0 : h.vm.dirEntry (pageDirIndex virt) ≠ 0) :
    PagingInv (h.initPage fresh phys virt).vm ∧
      Updates h.vm (h.initPage fresh phys virt).vm virt (ptEntryInit phys) := by
  rcases hinv.vmmngrMapPage_cases phys virt with ⟨hzero, -, -⟩ | ⟨-, hinv', hup⟩
  · exact absurd hzero h0
  · have h0' : (h.vm.vmmngrMapPage phys virt).dirEntry (pageDirIndex virt) ≠ 0 := by
      rwa [hup.dirEntry _ (pageDirIndex_lt virt) h0]
    have hpage : (h.initPage fresh phys virt).vm =
        (h.vm.vmmngrMapPage phys virt).modifyPte virt (ptEntryAddAttrib · pteWritable) := by
      rw [initPage]
      simp only [mapPage]
      rw [hinv'.vmmngrGetPage_eq, if_neg h0']
      rfl
    rw [hpage]
    exact ⟨hinv'.modifyPte h0' _, hup.trans (hinv'.updates_modifyPte h0' _)⟩

/-- The first 4 MiB but for page 0 are mapped to themselves, and page 0 has a table. -/
structure MapInv (vm : Vmmngr) : Prop where
  paging : PagingInv vm
  table : vm.dirEntry (pageDirIndex 0) ≠ 0
  identity : ∀ v : VirtualAddr, page v ≠ 0 → v.toNat < 0x400000 →
    vm.walk v = some ⟨7, 7, v &&& ~~~0xFFF⟩

theorem pagingInv_takePages (hinv : PagingInv h.vm) (hn : (initPageCount n).toNat ≤ 2 ^ 31) :
    PagingInv (h.takePages n).vm :=
  hinv.of_marked_le fun _ hx hm => h.vm.pmm.marked_pmmngrAllocBlocks_of_marked hn hx hm

/-- Taking one page for the heap keeps the mappings. -/
theorem MapInv.mallocInit (hinv : MapInv h.vm) (hone : pagesFor n.toNat = 1) :
    MapInv (h.mallocInit fresh n).vm := by
  have hcount := (toNat_initPageCount n).trans hone
  have hpag := pagingInv_takePages (n := n) hinv.paging (by omega)
  have htable : (h.takePages n).vm.dirEntry (pageDirIndex mallocVirtAddr) ≠ 0 := hinv.table
  obtain ⟨hpag', hup⟩ := updates_initPage fresh (h.takePages n).mallocPhysAddr mallocVirtAddr
    hpag htable
  rw [vm_mallocInit, hcount, initPages, initPages]
  refine ⟨hpag', ?_, fun v hv hlt => ?_⟩
  · rw [← hup.dirEntry _ (pageDirIndex_lt _) htable] at htable
    exact htable
  · rw [hup.walk_of_ne hpag hpag' (by rw [show page mallocVirtAddr = 0 from rfl]; exact hv)]
    exact hinv.identity v hv hlt

/-! ### Steps -/

/-- The condition on a request: the first one takes one page at most and fits it, and the others, if they are
not zero, find a heap that has a page and fit the block at which their search stops, exactly or with room for
a second header. -/
def OnePageCond (s : HeapState) : HeapCall → Prop
  | .malloc n _ =>
    if s.1.mallocIniited then n ≠ 0 → s.1.totalMallocPages ≠ 0 ∧
      ∀ pre b post, Tiled s.1 (pre ++ b :: post) → Stops n.toNat pre b post →
        b.size = n.toNat ∨ n.toNat + 12 ≤ b.size
    else n.toNat ≤ 4072 ∨ n.toNat = 4084
  | .free _ => True

/-- A heap that has been set up with no page, by a first request for no bytes. -/
structure Pageless (h : Malloc) : Prop where
  inited : h.mallocIniited = true
  head : h.mallocListHead = mallocVirtAddr
  next : nodeNext h.mem h.mallocListHead = 0
  pages : h.totalMallocPages = 0

/-- A first request for no bytes leaves such a heap. -/
theorem syscallMalloc_zero_of_not_inited (hi : h.mallocIniited = false) :
    h.syscallMalloc fresh 0 = some (0, h.mallocInit fresh 0) ∧ Pageless (h.mallocInit fresh 0) := by
  have hhead : (h.mallocInit fresh 0).mallocListHead = mallocVirtAddr := rfl
  refine ⟨?_, rfl, hhead, Mem.load32_store32_self _ _ _, rfl⟩
  rw [syscallMalloc_eq, ready_of_not_inited hi, mallocNextBlock, if_pos rfl]
  simp only
  rw [mergeFreeBlocks_eq hhead]
  rfl

/-- There a further one does nothing, -/
theorem Pageless.syscallMalloc_zero (hp : Pageless h) : h.syscallMalloc fresh 0 = some (0, h) := by
  rw [syscallMalloc_eq, ready_of_inited hp.inited, mallocNextBlock, if_pos rfl]
  simp only
  rw [mergeFreeBlocks_eq hp.head]
  rfl

/-- and no pointer is freed. -/
theorem Pageless.syscallFree (hp : Pageless h) (ptr : VirtualAddr) : h.syscallFree ptr = some h := by
  rw [Malloc.syscallFree, mallocFree, show 2 ^ 32 = (2 ^ 32 - 1) + 1 from rfl, freeLoop,
    if_neg fun hne => hne hp.next]

/-- Taking no page keeps the mappings. -/
theorem MapInv.mallocInit_zero (hinv : MapInv h.vm) : MapInv (h.mallocInit fresh 0).vm :=
  ⟨pagingInv_takePages (n := 0) hinv.paging (by decide), hinv.table, hinv.identity⟩

/-- A request under the condition finds a block that is large enough. -/
theorem exists_fits_of_onePageCond {s : HeapState} (hinv : HeapInv s.1) (hpag : PagingInv s.1.vm)
    (hn : n ≠ 0) (hc : OnePageCond s (.malloc n fresh)) :
    ∃ pre b post, Tiled (s.1.ready fresh n) (pre ++ b :: post) ∧ HeadPos (pre ++ b :: post) ∧
      Stops n.toNat pre b post ∧ (s.1.ready fresh n).Fits n.toNat b ∧ n.toNat ≤ b.size := by
  have hn0 : 0 < n.toNat := by bv_omega
  -- no search ends at a block that is too small
  have hle : ∀ pre b post, Tiled (s.1.ready fresh n) (pre ++ b :: post) →
      Stops n.toNat pre b post → n.toNat ≤ b.size := by
    intro pre b post ht hs
    by_cases hi : s.1.mallocIniited = true
    · rw [OnePageCond, if_pos hi] at hc
      rw [ready_of_inited hi] at ht
      have := (hc hn).2 pre b post ht hs
      omega
    · rw [OnePageCond, if_neg hi] at hc
      rw [ready_of_not_inited (Bool.not_eq_true _ ▸ hi)] at ht
      have hone : pagesFor n.toNat = 1 := by
        unfold pagesFor
        omega
      have hu := ht.unique (tiled_mallocInit s.1 fresh hn0 (by omega))
      have hb : b ∈ pre ++ b :: post := by simp
      rw [hu, List.mem_singleton] at hb
      rw [hb, hone]
      simp only
      omega
  have hfit : FitCond s.1 n.toNat := by
    by_cases hi : s.1.mallocIniited = true
    · rw [OnePageCond, if_pos hi] at hc
      rw [FitCond, if_pos hi]
      intro pre b post ht hs
      have := (hc hn).2 pre b post ht hs
      exact ⟨by omega, fun hlt => by omega⟩
    · rw [OnePageCond, if_neg hi] at hc
      have hone : pagesFor (n.toNat + 12) = 1 := by
        unfold pagesFor
        omega
      rw [FitCond, if_neg hi, hone]
      exact ⟨hn0, belowKernel_one hpag, by omega⟩
  obtain ⟨pre, b, post, ht, hpos, hs, hf⟩ := exists_fits hinv hn0 hfit fun pre b post ht hs hlt => by
    have := hle pre b post ht hs
    omega
  exact ⟨pre, b, post, ht, hpos, hs, hf, hle pre b post ht hs⟩

/-- A request under the condition keeps the heap and the mappings. -/
theorem MapInv.malloc {s s' : HeapState} (hinv : HeapInv s.1 ∨ Pageless s.1) (hmap : MapInv s.1.vm)
    (hc : OnePageCond s (.malloc n fresh)) (hstep : heapStep s (.malloc n fresh) s') :
    (HeapInv s'.1 ∨ Pageless s'.1) ∧ MapInv s'.1.vm := by
  obtain ⟨ptr, heq, -⟩ := hstep
  by_cases hn : n = 0
  · subst hn
    cases hi : s.1.mallocIniited with
    | true =>
      have hsame : s.1.syscallMalloc fresh 0 = some (0, s.1) := by
        rcases hinv with hinv | hp
        · obtain ⟨bs, ht, -⟩ := hinv.of_inited hi
          exact syscallMalloc_zero ht hi
        · exact hp.syscallMalloc_zero
      obtain ⟨-, hs'⟩ := Prod.mk.inj (Option.some.inj (heq.symm.trans hsame))
      rw [hs']
      exact ⟨hinv, hmap⟩
    | false =>
      obtain ⟨hfirst, hp⟩ := syscallMalloc_zero_of_not_inited hi
      obtain ⟨-, hs'⟩ := Prod.mk.inj (Option.some.inj (heq.symm.trans hfirst))
      rw [hs']
      exact ⟨Or.inr hp, hmap.mallocInit_zero⟩
  · have hn0 : 0 < n.toNat := by bv_omega
    -- a heap without a page is not asked for bytes
    have hheap : HeapInv s.1 := by
      refine hinv.resolve_right fun hp => ?_
      rw [OnePageCond, if_pos hp.inited] at hc
      exact (hc hn).1 hp.pages
    obtain ⟨pre, b, post, ht, hpos, hs, hf, hle⟩ := exists_fits_of_onePageCond hheap hmap.paging
      hn hc
    -- a request that fits maps nothing after `malloc_init`
    obtain ⟨h', bs', heq', ht', hcarves, hi', hvm⟩ := syscallMalloc_spec ht hpos hn0 hs hf
    obtain ⟨-, rfl⟩ := Prod.mk.inj (Option.some.inj (heq.symm.trans heq'))
    refine ⟨Or.inl (heapInv_of_tiled hi' ht' (hcarves.headPos hn0 hpos)), ?_⟩
    rw [hvm hle]
    by_cases hi : s.1.mallocIniited = true
    · rwa [ready_of_inited hi]
    · rw [ready_of_not_inited (Bool.not_eq_true _ ▸ hi)]
      rw [OnePageCond, if_neg hi] at hc
      apply hmap.mallocInit
      unfold pagesFor
      omega

/-- So does a free. -/
theorem MapInv.free {s s' : HeapState} {ptr : VirtualAddr} (hinv : HeapInv s.1 ∨ Pageless s.1)
    (hmap : MapInv s.1.vm) (hstep : heapStep s (.free ptr) s') :
    (HeapInv s'.1 ∨ Pageless s'.1) ∧ MapInv s'.1.vm := by
  rcases hinv with hinv | hp
  · obtain ⟨hinv', hfields⟩ := hinv.free hstep.1
    refine ⟨Or.inl hinv', ?_⟩
    rw [hfields]
    exact hmap
  · obtain hs' := Option.some.inj ((hp.syscallFree ptr).symm.trans hstep.1)
    rw [← hs']
    exact ⟨Or.inr hp, hmap⟩

theorem mapInv_of_init {s : HeapState} (h : heapSystem.init s) : MapInv s.1.vm := by
  obtain ⟨s₀, -, h0, heq, hp⟩ := h.1
  have hav := Vmmngr.available_of_paging h0 (heq ▸ hp)
  refine ⟨Vmmngr.pagingInv_of_init h.1, ?_, fun v _ hv => ?_⟩
  · rw [heq, Vmmngr.dirEntry_vmmngrInit hav (pageDirIndex_lt _), if_neg (by decide),
      if_pos (by decide)]
    exact Vmmngr.seven_or_ne_zero _
  · rw [heq]
    exact Vmmngr.walk_vmmngrInit hav hv

/-- **The kernel's mappings are kept** in every state reached by requests that meet `OnePageCond`
and by frees: below 4 MiB each address at which the kernel reaches fixed memory is mapped to
itself, as `vmmngr_init` left it. -/
theorem kernel_mappings_kept (s : HeapState)
    (h : (heapSystem.restrict OnePageCond).Reachable s) (kernelSize : ℕ) (v : VirtualAddr)
    (hv : KernelAddr kernelSize s.1.vm v) (hlt : v.toNat < 0x400000) :
    s.1.vm.walk v = some ⟨7, 7, v &&& ~~~0xFFF⟩ := by
  have hinv : (HeapInv s.1 ∨ Pageless s.1) ∧ MapInv s.1.vm := by
    refine h.invariant (S := heapSystem.restrict OnePageCond)
      (I := fun s => (HeapInv s.1 ∨ Pageless s.1) ∧ MapInv s.1.vm)
      (fun s hs => ⟨Or.inl (heapInv_of_init hs), mapInv_of_init hs⟩) ?_
    rintro s c s' ⟨hinv, hmap⟩ ⟨hc, hstep⟩
    cases c with
    | malloc n fresh => exact hmap.malloc hinv hc hstep
    | free ptr => exact hmap.free hinv hstep
  exact hinv.2.identity v (hv.page_ne_zero hinv.2.paging) hlt

/-- The DMA buffer after a request of 100 bytes on the small machine. -/
theorem kernel_mappings_kept_one_request :
    ∃ s : HeapState, s.1.mallocIniited = true ∧ s.1.vm.walk 0x1000 = some ⟨7, 7, 0x1000⟩ := by
  have hinit : (heapSystem.restrict OnePageCond).Reachable
      (newHeap Vmmngr.smallMachine.vmmngrInit) := .init (init_newHeap Vmmngr.init_smallMachine)
  have hc : OnePageCond (newHeap Vmmngr.smallMachine.vmmngrInit) (.malloc 100 fun _ => 0) := by
    rw [OnePageCond, if_neg (by simp [newHeap])]
    decide
  have hstart := init_newHeap Vmmngr.init_smallMachine
  obtain ⟨pre, b, post, ht, hpos, hs, hf, -⟩ := exists_fits_of_onePageCond (heapInv_of_init hstart)
    (mapInv_of_init hstart).paging (by decide) hc
  obtain ⟨h', bs', heq, -, -, hi, -⟩ := syscallMalloc_spec ht hpos (by decide) hs hf
  have hstep : heapStep (newHeap Vmmngr.smallMachine.vmmngrInit) (.malloc 100 fun _ => 0) (h', _) :=
    ⟨_, heq, rfl⟩
  have hreach := System.Reachable.step hinit ⟨hc, hstep⟩
  exact ⟨_, hi, kernel_mappings_kept _ hreach 0 0x1000 (.dmaBuffer rfl) (by decide)⟩

/-- The frame of a page that `malloc_init` maps has the bits of the address it is mapped to. -/
theorem getLsbD_frame_ptEntryInit {p : BitVec 32} (hp : Mem.PageAligned p) (e : BitVec 32) {k : ℕ}
    (hk : p.getLsbD k = true) : (ptEntryInit p e &&& ~~~0xFFF).getLsbD k = true := by
  have hframe : ptEntryInit p e &&& ~~~0xFFF = ptEntryMap p e &&& ~~~0xFFF := by
    rw [ptEntryInit, ptEntryAddAttrib, entryAddAttrib, BitVec.and_or_distrib_right]
    exact BitVec.or_zero
  rw [hframe, frame_ptEntryMap hp, BitVec.getLsbD_or, hk, Bool.or_true]

theorem getLsbD_zero_ptEntryInit (p e : BitVec 32) : (ptEntryInit p e).getLsbD 0 = true := by
  rw [ptEntryInit, ptEntryAddAttrib, entryAddAttrib, BitVec.getLsbD_or, getLsbD_zero_ptEntryMap,
    Bool.true_or]

/-- Taking two pages maps the second one at `0x1000`. -/
theorem walk_second_page (fresh : Mem) (hinv : MapInv h.vm) (htwo : pagesFor n.toNat = 2) :
    ∃ e t, (h.mallocInit fresh n).vm.walk 0x1000 = some t ∧
      t.frame = ptEntryInit ((h.takePages n).mallocPhysAddr + pageSize) e &&& ~~~0xFFF := by
  have hcount := (toNat_initPageCount n).trans htwo
  have hpag := pagingInv_takePages (n := n) hinv.paging (by omega)
  have htable : (h.takePages n).vm.dirEntry (pageDirIndex mallocVirtAddr) ≠ 0 := hinv.table
  obtain ⟨hpag₁, hup₁⟩ := updates_initPage fresh (h.takePages n).mallocPhysAddr mallocVirtAddr
    hpag htable
  rw [← hup₁.dirEntry _ (pageDirIndex_lt _) htable] at htable
  obtain ⟨hpag₂, hup₂⟩ := updates_initPage fresh ((h.takePages n).mallocPhysAddr + pageSize)
    (mallocVirtAddr + pageSize) hpag₁ htable
  have hwalk := hpag₂.walk_eq (mallocVirtAddr + pageSize)
  rw [hup₂.pte_self, if_pos (getLsbD_zero_ptEntryInit _ _)] at hwalk
  rw [vm_mallocInit, hcount, initPages, initPages, initPages]
  exact ⟨_, _, hwalk, rfl⟩

/-- A first request of 5000 bytes takes two pages and maps the page of the DMA buffer elsewhere. -/
theorem not_kernel_mappings_kept :
    ∃ s : HeapState, heapSystem.Reachable s ∧ KernelAddr 0 s.1.vm 0x1000 ∧
      s.1.vm.walk 0x1000 ≠ some ⟨7, 7, 0x1000⟩ := by
  have hinit : heapSystem.Reachable (newHeap Vmmngr.smallMachine.vmmngrInit) :=
    .init (init_newHeap Vmmngr.init_smallMachine)
  have hmap := mapInv_of_init (init_newHeap Vmmngr.init_smallMachine)
  have hphys : ((newHeap Vmmngr.smallMachine.vmmngrInit).1.takePages 5000).mallocPhysAddr = 0x6000 := by
    rw [takePages, newHeap, Vmmngr.vmmngrInit_of_available Vmmngr.available_smallMachine]
    decide +kernel
  have ht : Tiled ((newHeap Vmmngr.smallMachine.vmmngrInit).1.ready (fun _ => 0) 5000)
      ([] ++ (⟨8180, true⟩ : Block) :: []) := by
    rw [ready_of_not_inited (by rw [newHeap])]
    exact tiled_mallocInit _ _ (by decide) (by decide)
  obtain ⟨h', bs', heq, -, -, -, hvm⟩ := syscallMalloc_spec ht (by simp [HeadPos]) (by decide)
    ⟨by simp, Or.inl rfl⟩ (Or.inr (Or.inl (by decide)))
  have hstep : heapStep (newHeap Vmmngr.smallMachine.vmmngrInit) (.malloc 5000 fun _ => 0) (h', _) :=
    ⟨_, heq, rfl⟩
  have hreach := System.Reachable.step (a := HeapCall.malloc 5000 fun _ => 0) hinit hstep
  refine ⟨_, hreach, .dmaBuffer rfl, fun hwalk => ?_⟩
  -- bit 13 of the frame is that of the second page, at `0x7000`
  obtain ⟨e, t, ht', hframe⟩ := walk_second_page (n := 5000) (fun _ => 0) hmap (by decide)
  rw [hphys] at hframe
  simp only at hwalk
  rw [hvm (by decide), ready_of_not_inited (by rw [newHeap]), ht', Option.some.injEq] at hwalk
  have hbit := getLsbD_frame_ptEntryInit (p := 0x6000 + pageSize) (by decide) e (k := 13) (by decide)
  rw [← hframe, hwalk] at hbit
  exact absurd hbit (by decide)

end FanOS.Malloc

import FanOS.Malloc.Equiv.Mappings
import FanOS.VirtualMmngr.Equiv.AddressSpace

/-!
# Requests that a block of the list can serve

`Linked m a l` says that the list from `a` on has its headers at the addresses `l`.  Nothing else is
assumed of them: the blocks need not tile the heap, and their headers may be anywhere.  On such a list
`malloc_next_block` finds the first free block that is large enough (`searchLoop_linked`), takes it as
it is or splits it, and maps no page.

What it writes are the header of that block and, when it splits, the twelve bytes behind the bytes asked
for.  `malloc_split` does not check that these belong to the block, so they may be part of a page table
that lies behind the heap.  `HeadersApart` excludes that, and then the request leaves the memory of the
managers alone (`mallocNextBlock_firstFit`).
-/

namespace FanOS.Malloc

variable {m : Mem} {a cur node : VirtualAddr} {n : BitVec 32} {l : List VirtualAddr} {h : Malloc}

/-! ### Lists of headers -/

/-- The headers of the list from `a` on are at the addresses `l`. -/
inductive Linked (m : Mem) : VirtualAddr → List VirtualAddr → Prop
  | last {a : VirtualAddr} (h : nodeNext m a = 0) : Linked m a [a]
  | next {a : VirtualAddr} {l : List VirtualAddr} (h : nodeNext m a ≠ 0)
    (hl : Linked m (nodeNext m a) l) : Linked m a (a :: l)

namespace Linked

theorem unique {l' : List VirtualAddr} (hl : Linked m a l) (hl' : Linked m a l') : l = l' := by
  induction hl generalizing l' with
  | last h =>
    cases hl' with
    | last _ => rfl
    | next h' _ => exact absurd h h'
  | next h _ ih =>
    cases hl' with
    | last h' => exact absurd h' h
    | next _ hl' => rw [ih hl']

/-- The list from one of its blocks on. -/
theorem of_append {pre post : List VirtualAddr} (hl : Linked m a (pre ++ cur :: post)) :
    Linked m cur (cur :: post) := by
  induction pre generalizing a with
  | nil =>
    cases hl with
    | last h => exact .last h
    | next h hl => exact .next h hl
  | cons b pre ih =>
    generalize hrest : b :: pre ++ cur :: post = l at hl
    cases hl with
    | last h => simp at hrest
    | next h hl =>
      obtain ⟨-, rfl⟩ := List.cons.inj hrest
      exact ih hl

/-- A list that ends does not come back to a block. -/
theorem nodup (hl : Linked m a l) : l.Nodup := by
  induction hl with
  | last h => exact List.nodup_singleton _
  | @next a l h hl ih =>
    refine List.nodup_cons.mpr ⟨fun hmem => ?_, ih⟩
    obtain ⟨pre, post, rfl⟩ := List.append_of_mem hmem
    -- the list from the second occurrence on would be as long as that from the first on
    have heq := (Linked.next h hl).unique hl.of_append
    have hlen := congrArg List.length heq
    simp at hlen
    omega

/-- So it has no more blocks than there are addresses. -/
theorem length_le (hl : Linked m a l) : l.length ≤ 2 ^ 32 := by
  have hnodup : (l.map BitVec.toNat).Nodup :=
    hl.nodup.map fun _ _ heq => BitVec.eq_of_toNat_eq heq
  have hsub : l.map BitVec.toNat ⊆ List.range (2 ^ 32) := by
    intro x hx
    obtain ⟨b, -, rfl⟩ := List.mem_map.mp hx
    exact List.mem_range.mpr b.isLt
  have hle := (List.subperm_of_subset hnodup hsub).length_le
  rwa [List.length_map, List.length_range] at hle

end Linked

/-! ### The search -/

/-- The block at `a` is free and has `n` bytes at least. -/
def serves (m : Mem) (n : BitVec 32) (a : VirtualAddr) : Bool :=
  nodeFree m a ≠ 0 ∧ n ≤ nodeSize m a

/-- **The search** ends at the first block that can serve the request, if there is one. -/
theorem searchLoop_linked (hl : Linked m a l) (hcur : l.find? (serves m n) = some cur) {k : ℕ}
    (hk : l.length ≤ k) : searchLoop m n k a = some cur := by
  induction hl generalizing k with
  | @last a h =>
    obtain ⟨k, rfl⟩ : ∃ k', k = k' + 1 := ⟨k - 1, by simp at hk; omega⟩
    obtain rfl : cur = a := by
      simpa using List.mem_of_find?_eq_some hcur
    -- the loop ends at the last block without a look at its size
    rw [searchLoop, if_neg fun hc => hc.1 h]
  | @next a l h hl ih =>
    rw [List.length_cons] at hk
    obtain ⟨k, rfl⟩ : ∃ k', k = k' + 1 := ⟨k - 1, by omega⟩
    rw [List.find?_cons] at hcur
    rw [searchLoop]
    by_cases hs : serves m n a = true
    · rw [hs] at hcur
      obtain rfl := Option.some.inj hcur
      obtain ⟨hfree, hsize⟩ := of_decide_eq_true hs
      rw [if_neg]
      rintro ⟨-, hless | hused⟩
      · exact absurd hsize (BitVec.not_le.mpr hless)
      · exact hfree hused
    · rw [Bool.not_eq_true] at hs
      rw [hs] at hcur
      rw [if_pos, ih hcur (by omega)]
      refine ⟨h, ?_⟩
      rw [serves, decide_eq_false_iff_not, not_and_or, ne_eq, not_not, BitVec.not_le] at hs
      exact hs.symm

/-! ### What is written -/

/-- A byte outside a header is not written with one of its fields. -/
theorem store32_header_apply {x c : BitVec 32} (hc : c.toNat ≤ 8) (hx : 12 ≤ (x - node).toNat)
    (v : BitVec 32) : m.store32 (node + c) v x = m x := by
  rw [Mem.store32_apply, if_neg (by bv_omega)]

theorem setSize_apply {x : BitVec 32} (hx : 12 ≤ (x - node).toNat) (v : BitVec 32) :
    setSize m node v x = m x := by
  rw [setSize, Mem.store32_apply, if_neg (by omega)]

theorem setFree_apply {x : BitVec 32} (hx : 12 ≤ (x - node).toNat) (f : Bool) :
    setFree m node f x = m x := store32_header_apply (by decide) hx _

theorem setNext_apply {x : BitVec 32} (hx : 12 ≤ (x - node).toNat) (v : BitVec 32) :
    setNext m node v x = m x := store32_header_apply (by decide) hx _

/-- `malloc_split` writes two headers. -/
theorem mallocSplit_apply {x : BitVec 32} (hx : 12 ≤ (x - node).toNat)
    (hnew : 12 ≤ (x - (node + n + mallocBlockSize)).toNat) : mallocSplit m node n x = m x := by
  rw [mallocSplit, setNext_apply hx, setFree_apply hx, setSize_apply hx, setNext_apply hnew,
    setFree_apply hnew, setSize_apply hnew]

/-- The block that is split is marked used, wherever the second header goes. -/
theorem nodeFree_mallocSplit (m : Mem) (node : VirtualAddr) (n : BitVec 32) :
    nodeFree (mallocSplit m node n) node = 0 := by
  have hapart : Mem.Apart (node + 4) (node + 8) := by
    unfold Mem.Apart
    constructor <;> bv_omega
  rw [mallocSplit, nodeFree, setNext, Mem.load32_store32_of_apart _ _ hapart]
  exact Mem.load32_store32_self _ _ _

/-! ### The memory of the managers -/

/-- Physical address `p` is in the directory, in a table or in the bitmap. -/
inductive ManagerByte (vm : Vmmngr) (p : PhysicalAddr) : Prop
  | directory (hp : page p = page vm.curdir)
  | table (i : BitVec 32) (hi : i.toNat < 1024) (h0 : vm.dirEntry i ≠ 0)
    (hp : page p = page (pageGetPhysicalAddress (vm.dirEntry i)))
  | bitmap (hp : 8 * (p - vm.pmm.memoryMap).toNat < vm.pmm.maxBlocks.toNat)

/-- At `v` the kernel reaches a byte of the directory, of a table or of the bitmap. -/
def ManagerAddr (h : Malloc) (v : VirtualAddr) : Prop :=
  ∃ t, h.vm.walk v = some t ∧ ManagerByte h.vm (t.address v)

/-- The managers are as before: their variables, and their memory where the kernel reaches it. -/
structure ManagersKept (h h' : Malloc) : Prop where
  vm : h'.vm = h.vm
  mem : ∀ v, h.ManagerAddr v → h'.mem v = h.mem v

/-- What is written is not in the memory of the managers: the flag of the block at `cur` if that has `n`
bytes, and else its header and the one behind `n` bytes of it. -/
def HeadersApart (h : Malloc) (n : BitVec 32) (cur : VirtualAddr) : Prop :=
  ∀ v, h.ManagerAddr v →
    if nodeSize h.mem cur = n then 4 ≤ (v - (cur + 4)).toNat
    else 12 ≤ (v - cur).toNat ∧ 12 ≤ (v - (cur + n + mallocBlockSize)).toNat

/-- A block that is not in the memory of the managers, and has `n` bytes or room for a header behind
them, is such a block. -/
theorem headersApart_of_room (hblock : ∀ v, h.ManagerAddr v →
      12 + (nodeSize h.mem cur).toNat ≤ (v - cur).toNat)
    (hroom : nodeSize h.mem cur = n ∨ n.toNat + 12 ≤ (nodeSize h.mem cur).toNat) :
    HeadersApart h n cur := by
  intro v hv
  have hout := hblock v hv
  split_ifs with heq
  · bv_omega
  · have hlarge := hroom.resolve_left heq
    refine ⟨by omega, ?_⟩
    rw [show mallocBlockSize = 12 from rfl]
    bv_omega

/-! ### The request -/

/-- **`malloc_next_block`** returns the payload of the first block that can serve the request, marks the
block used, adds no page and leaves the managers alone; unless it writes a header into their memory. -/
theorem mallocNextBlock_firstFit (h : Malloc) (fresh : Mem) (n : BitVec 32) (l : List VirtualAddr)
    (hl : Linked h.mem h.mallocListHead l) (hhead : nodeSize h.mem h.mallocListHead ≠ 0) (hn : n ≠ 0)
    (hserved : ∃ a ∈ l, serves h.mem n a = true) :
    ∃ cur h', l.find? (serves h.mem n) = some cur ∧
      h.mallocNextBlock fresh n = some (cur + mallocBlockSize, h') ∧ nodeFree h'.mem cur = 0 ∧
      h'.totalMallocPages = h.totalMallocPages ∧ h'.vm = h.vm ∧
      (HeadersApart h n cur → ManagersKept h h') := by
  obtain ⟨cur, hcur⟩ := Option.isSome_iff_exists.mp (List.find?_isSome.mpr hserved)
  have hserves : serves h.mem n cur = true := List.find?_some hcur
  have hle : n ≤ nodeSize h.mem cur := (of_decide_eq_true hserves).2
  refine ⟨cur, ?_⟩
  rw [mallocNextBlock, if_neg hn]
  simp only [if_neg hhead, searchLoop_linked hl hcur hl.length_le]
  by_cases heq : nodeSize h.mem cur = n
  · -- only the flag of the block is written
    rw [if_pos heq]
    refine ⟨_, hcur, rfl, nodeFree_setFree _ _ _, rfl, rfl, fun hap => ⟨rfl, fun v hv => ?_⟩⟩
    have hflag := hap v hv
    rw [if_pos heq] at hflag
    simp only
    rw [setFree, Mem.store32_apply, if_neg (by omega)]
  · have hlt : n < nodeSize h.mem cur := by bv_omega
    -- `malloc_split` writes both headers, whether or not there is room for the second
    rw [if_neg heq, if_pos hlt]
    refine ⟨_, hcur, rfl, nodeFree_mallocSplit _ _ _, rfl, rfl, fun hap => ⟨rfl, fun v hv => ?_⟩⟩
    have hheaders := hap v hv
    rw [if_neg heq] at hheaders
    exact mallocSplit_apply hheaders.1 hheaders.2

/-! ### A page table behind the heap -/

/-- The first page of the heap after `malloc_init`, and its table. -/
theorem pte_mallocInit (fresh : Mem) (hinv : MapInv h.vm) (hone : pagesFor n.toNat = 1) :
    (h.mallocInit fresh n).vm.dirEntry 0 = h.vm.dirEntry 0 ∧
      ∃ e, (h.mallocInit fresh n).vm.pte 0 = ptEntryInit (h.takePages n).mallocPhysAddr e := by
  have hcount := (toNat_initPageCount n).trans hone
  have hpag := pagingInv_takePages (n := n) hinv.paging (by omega)
  have htable : (h.takePages n).vm.dirEntry (pageDirIndex mallocVirtAddr) ≠ 0 := hinv.table
  obtain ⟨-, hup⟩ := updates_initPage fresh (h.takePages n).mallocPhysAddr mallocVirtAddr hpag htable
  rw [vm_mallocInit, hcount, initPages, initPages]
  have hzero : (h.takePages n).vm.dirEntry 0 ≠ 0 := hinv.table
  exact ⟨hup.dirEntry 0 (by decide) hzero, _, hup.pte_self⟩

/-- The small machine after `malloc_init(4080)`.  Behind the page of the heap, memory shows what it is
mapped to: itself. -/
def onePageHeap : Malloc :=
  let h := (newHeap Vmmngr.smallMachine.vmmngrInit).1.mallocInit (fun _ => 0) 4080
  { h with mem := fun x => if page x = 0 then h.mem x else h.vm.mem x }

theorem mapInv_smallHeap : MapInv (newHeap Vmmngr.smallMachine.vmmngrInit).1.vm :=
  mapInv_of_init (init_newHeap Vmmngr.init_smallMachine)

theorem vm_onePageHeap : onePageHeap.vm =
    ((newHeap Vmmngr.smallMachine.vmmngrInit).1.mallocInit (fun _ => 0) 4080).vm := rfl

theorem mem_onePageHeap {x : VirtualAddr} (hx : page x ≠ 0) :
    onePageHeap.mem x = onePageHeap.vm.mem x := by
  simp only [onePageHeap]
  rw [if_neg hx]

theorem mapInv_onePageHeap : MapInv onePageHeap.vm := by
  have hone : pagesFor (4080 : BitVec 32).toNat = 1 := by decide
  exact mapInv_smallHeap.mallocInit hone

/-- Its only block is free and has 4084 bytes. -/
theorem header_onePageHeap : Header onePageHeap.mem 0 ⟨4084, true⟩ 0 := by
  have ht := tiled_mallocInit (newHeap Vmmngr.smallMachine.vmmngrInit).1 (fun _ => 0) (n := 4080)
    (by decide) (by decide)
  refine Header.congr (chain_singleton.mp ht.chain_zero) fun x _ hx => ?_
  simp only [onePageHeap]
  rw [if_pos]
  rw [page, BitVec.toNat_ofNat]
  omega

theorem mallocListHead_onePageHeap : onePageHeap.mallocListHead = 0 := by
  have ht := tiled_mallocInit (newHeap Vmmngr.smallMachine.vmmngrInit).1 (fun _ => 0) (n := 4080)
    (by decide) (by decide)
  exact ht.head

/-- Behind it is the table of its page. -/
theorem dirEntry_onePageHeap : onePageHeap.vm.dirEntry 0 = 0x1007 := by
  have hdir := (pte_mallocInit (fun _ => 0) mapInv_smallHeap (n := 4080) (by decide)).1
  have htable : Vmmngr.smallMachine.defaultTable.1 = 0x1000 := by decide +kernel
  rw [vm_onePageHeap, hdir, newHeap,
    Vmmngr.dirEntry_vmmngrInit Vmmngr.available_smallMachine (by decide), if_neg (by decide),
    if_pos rfl, htable]
  decide

theorem managerAddr_onePageHeap : onePageHeap.ManagerAddr 0x1000 := by
  refine ⟨_, mapInv_onePageHeap.identity 0x1000 (by decide) (by decide), .table 0 (by decide) ?_ ?_⟩
  · rw [dirEntry_onePageHeap]
    decide
  · rw [dirEntry_onePageHeap]
    decide

/-- The page is writable. -/
theorem getLsbD_one_onePageHeap : (onePageHeap.mem 0x1000).getLsbD 1 = true := by
  obtain ⟨e, hpte⟩ := (pte_mallocInit (fun _ => 0) mapInv_smallHeap (n := 4080) (by decide)).2
  -- the entry of page 0 is the first word of the table, and bit 1 is in its first byte
  have hload : onePageHeap.vm.pte 0 = onePageHeap.vm.mem.load32 0x1000 := by
    rw [Vmmngr.pte, show pageDirIndex 0 = 0 from by decide, dirEntry_onePageHeap, if_neg (by decide)]
    rfl
  have hbit : (onePageHeap.vm.mem.load32 0x1000).getLsbD 1 = true := by
    rw [← hload, vm_onePageHeap, hpte]
    simp [ptEntryInit, ptEntryAddAttrib, entryAddAttrib, pteWritable]
  rw [Mem.getLsbD_load32 _ _ (by decide), show (0x1000 : BitVec 32) + BitVec.ofNat 32 (1 / 8) = 0x1000
    from by decide, show 1 % 8 = 1 from rfl] at hbit
  rw [mem_onePageHeap (by decide), hbit]

theorem serves_onePageHeap {n : BitVec 32} (hn : n ≤ 4084) : serves onePageHeap.mem n 0 = true := by
  refine decide_eq_true ⟨?_, ?_⟩
  · rw [show nodeFree onePageHeap.mem 0 = 1 from header_onePageHeap.free]
    decide
  · rwa [show nodeSize onePageHeap.mem 0 = 4084 from header_onePageHeap.size]

/-- The same heap in a page that is mapped to itself. -/
def lowHeap : Malloc := { onePageHeap with vm := Vmmngr.smallMachine.vmmngrInit }

theorem vm_lowHeap : lowHeap.vm = Vmmngr.smallMachine.vmmngrInit := by
  rw [lowHeap]

/-- None of its bytes belongs to the managers. -/
theorem le_of_managerAddr_lowHeap {v : VirtualAddr} (hv : lowHeap.ManagerAddr v) : 4096 ≤ v.toNat := by
  by_contra hlt
  have hinv : Vmmngr.PagingInv lowHeap.vm := by
    rw [vm_lowHeap]
    exact Vmmngr.pagingInv_vmmngrInit Vmmngr.available_smallMachine
  obtain ⟨t, ht, hbyte⟩ := hv
  have hwalk : lowHeap.vm.walk v = some ⟨7, 7, v &&& ~~~0xFFF⟩ := by
    rw [vm_lowHeap]
    exact Vmmngr.walk_vmmngrInit Vmmngr.available_smallMachine (by omega)
  obtain rfl := Option.some.inj (ht.symm.trans hwalk)
  rw [Vmmngr.Translation.address, Vmmngr.frame_add_offset] at hbyte
  have hpage : page v = 0 := by
    unfold page
    omega
  -- none of the managers' structures is in page 0
  cases hbyte with
  | directory hp =>
    exact page_ne_zero_of_aligned hinv.aligned hinv.curdir_ne_zero (hp.symm.trans hpage)
  | table i hi h0 hp =>
    exact page_ne_zero_of_aligned (pageAligned_pageGetPhysicalAddress _) (hinv.installed i hi h0).ne_zero
      (hp.symm.trans hpage)
  | bitmap hp =>
    have hmap : lowHeap.vm.pmm.memoryMap = 0x30000 := by
      rw [vm_lowHeap, Vmmngr.vmmngrInit_of_available Vmmngr.available_smallMachine]
      decide +kernel
    have hmax : lowHeap.vm.pmm.maxBlocks.toNat < 2 ^ 20 := lowHeap.vm.pmm.maxBlocks_lt
    rw [hmap] at hp
    bv_omega

/-- A request for 100 bytes there is given its only block. -/
theorem mallocNextBlock_firstFit_one_block : ∃ h', lowHeap.mallocNextBlock (fun _ => 0) 100 =
    some (12, h') ∧ nodeFree h'.mem 0 = 0 ∧ ManagersKept lowHeap h' := by
  have hsize : nodeSize lowHeap.mem 0 = 4084 := header_onePageHeap.size
  have hhead : lowHeap.mallocListHead = 0 := mallocListHead_onePageHeap
  have hl : Linked lowHeap.mem lowHeap.mallocListHead [0] := by
    rw [hhead]
    exact .last header_onePageHeap.next
  obtain ⟨cur, h', hcur, heq, hfree, -, -, hkept⟩ := mallocNextBlock_firstFit lowHeap (fun _ => 0) 100
    [0] hl (by rw [hhead, hsize]; decide) (by decide) ⟨0, by simp, serves_onePageHeap (by decide)⟩
  obtain rfl : cur = 0 := by simpa using List.mem_of_find?_eq_some hcur
  refine ⟨h', heq, hfree, hkept (headersApart_of_room (fun v hv => ?_) (Or.inr ?_))⟩
  · have hle := le_of_managerAddr_lowHeap hv
    rw [hsize, show v - 0 = v from BitVec.sub_zero v]
    exact hle
  · rw [hsize]
    decide

/-- A request for 4080 bytes splits it and writes the flag of the second header into that table. -/
theorem not_mallocNextBlock_firstFit :
    ¬ ∀ (h : Malloc) (fresh : Mem) (n : BitVec 32) (l : List VirtualAddr),
      Linked h.mem h.mallocListHead l → nodeSize h.mem h.mallocListHead ≠ 0 → n ≠ 0 →
      (∃ a ∈ l, serves h.mem n a = true) →
      ∃ cur h', l.find? (serves h.mem n) = some cur ∧
        h.mallocNextBlock fresh n = some (cur + mallocBlockSize, h') ∧ nodeFree h'.mem cur = 0 ∧
        h'.totalMallocPages = h.totalMallocPages ∧ ManagersKept h h' := by
  intro hall
  have hh := header_onePageHeap
  have hsize : nodeSize onePageHeap.mem 0 = 4084 := hh.size
  have hl : Linked onePageHeap.mem onePageHeap.mallocListHead [0] := by
    rw [mallocListHead_onePageHeap]
    exact .last hh.next
  have hsize' : nodeSize onePageHeap.mem onePageHeap.mallocListHead ≠ 0 := by
    rw [mallocListHead_onePageHeap, hsize]
    decide
  obtain ⟨cur, h', hcur, heq, -, -, hkept⟩ := hall onePageHeap (fun _ => 0) 4080 [0] hl hsize'
    (by decide) ⟨0, by simp, serves_onePageHeap (by decide)⟩
  rw [mallocNextBlock, if_neg (by decide)] at heq
  simp only [if_neg hsize', searchLoop_linked hl hcur hl.length_le] at heq
  obtain rfl : cur = 0 := by simpa using List.mem_of_find?_eq_some hcur
  rw [hsize, if_neg (by decide), if_pos (by decide), Option.some.injEq, Prod.mk.injEq] at heq
  -- the flag 1 at 4096 takes the place of an entry whose second bit is set
  have hbit := getLsbD_one_onePageHeap
  rw [← hkept.mem 0x1000 managerAddr_onePageHeap, ← heq.2] at hbit
  exact absurd hbit (by simp [mallocSplit, setNext, setFree, setSize, Mem.store32_apply, mallocBlockSize])

end FanOS.Malloc

import FanOS.Malloc.Equiv.Calls
import FanOS.VirtualMmngr.Equiv.Access

/-!
# The heap in user mode

A live allocation is of use to a program if every byte of it is on a page that user mode may read and
write (`UserAccessible`).  Pages of the first 4 MiB are such whether or not the heap has mapped them,
those from there to 3 GiB are not: their table is one that `vmmngr_map_page` has allocated, if there is
one at all.  So what matters is where allocations end, which depends on the block at which the search
stops (`StopsAt`, `AccessCond`).

All this is about the entries as the managers write them.  The heap writes headers too, and a request that
does not fit puts one where the tables may be; so `AccessCond` asks that requests fit (`FitCond`).
-/

namespace FanOS.Malloc

open Vmmngr (AccessInv)

variable {h h' : Malloc} {fresh : Mem} {n : BitVec 32} {ptr cur : VirtualAddr} {s s' : HeapState}

/-! ### The property -/

/-- Every byte of every live allocation can be accessed from user mode. -/
def UserAccessible (s : HeapState) : Prop :=
  ∀ r ∈ s.2, ∀ i < r.2.toNat, s.1.vm.UserPage (r.1 + BitVec.ofNat 32 i)

/-- The search for `n` bytes stops at the block with the header at `cur`.  A heap that is not set up,
or whose first block is empty, will be set up with a block at its start. -/
def StopsAt (h : Malloc) (n : BitVec 32) (cur : VirtualAddr) : Prop :=
  if h.mallocIniited = false ∨ nodeSize h.mem h.mallocListHead = 0 then cur = mallocVirtAddr
  else searchLoop h.mem n (2 ^ 32) h.mallocListHead = some cur

/-- The condition on a request for some bytes: a heap that is set up has a page, the request fits, and its
payload, from the block at which the search stops on, ends in the first 4 MiB.  A heap that is not set up has
no list to free from, so whatever memory has at its start must not be one. -/
def AccessCond (s : HeapState) : HeapCall → Prop
  | .malloc n _ => n ≠ 0 → (s.1.mallocIniited = true → s.1.totalMallocPages ≠ 0) ∧ FitCond s.1 n.toNat ∧
      ∀ cur, StopsAt s.1 n cur → cur.toNat + 12 + n.toNat ≤ 0x400000
  | .free _ => s.1.mallocIniited = true ∨ nodeNext s.1.mem s.1.mallocListHead = 0

theorem StopsAt.unique {cur' : VirtualAddr} (hc : StopsAt h n cur) (hc' : StopsAt h n cur') :
    cur = cur' := by
  unfold StopsAt at hc hc'
  split_ifs at hc hc'
  · exact hc.trans hc'.symm
  · exact Option.some.inj (hc.symm.trans hc')

theorem StopsAt.eq_of_not_inited (hc : StopsAt h n cur) (hi : h.mallocIniited = false) :
    cur = mallocVirtAddr := by
  rwa [StopsAt, if_pos (Or.inl hi)] at hc

/-! ### Mapping pages -/

theorem accessInv_initPage (hacc : AccessInv h.vm) (phys : PhysicalAddr) (virt : VirtualAddr) :
    AccessInv (h.initPage fresh phys virt).vm :=
  (hacc.vmmngrMapPage phys virt).addAttrib virt pteWritable

theorem accessInv_initPages (hacc : AccessInv h.vm) (k : ℕ) (phys : PhysicalAddr) (virt : VirtualAddr) :
    AccessInv (initPages fresh k phys virt h).vm := by
  induction k generalizing h phys virt with
  | zero => exact hacc
  | succ k ih => exact ih (accessInv_initPage hacc phys virt) _ _

theorem accessInv_mallocInit (hacc : AccessInv h.vm) (n : BitVec 32) :
    AccessInv (h.mallocInit fresh n).vm := by
  have hn : (initPageCount n).toNat ≤ 2 ^ 31 := by
    have := n.isLt
    rw [toNat_initPageCount]
    unfold pagesFor
    omega
  refine accessInv_initPages (h := h.takePages n) ?_ _ _ _
  exact hacc.of_marked_le fun _ hx hm => h.vm.pmm.marked_pmmngrAllocBlocks_of_marked hn hx hm

theorem accessInv_growPage (hacc : AccessInv h.vm) (cur virt : VirtualAddr) :
    AccessInv (h.growPage fresh cur virt).vm := by
  have halloc := hacc.vmmngrAllocPage 0
  unfold growPage
  dsimp only
  split_ifs
  · exact halloc.vmmngrMapPage _ virt
  · exact halloc

theorem accessInv_growLoop (hacc : AccessInv h.vm) (cur : VirtualAddr) (k : ℕ) (virt : VirtualAddr) :
    AccessInv (growLoop fresh cur k virt h).vm := by
  induction k generalizing h virt with
  | zero => exact hacc
  | succ k ih => exact ih (accessInv_growPage hacc cur virt) _

/-! ### Calls -/

/-- The heap that `malloc_next_block` searches. -/
def searched (h : Malloc) (fresh : Mem) (n : BitVec 32) : Malloc :=
  if nodeSize h.mem h.mallocListHead = 0 then h.mallocInit fresh n else h

theorem accessInv_searched (hacc : AccessInv h.vm) (fresh : Mem) (n : BitVec 32) :
    AccessInv (h.searched fresh n).vm := by
  unfold searched
  split_ifs
  · exact accessInv_mallocInit hacc n
  · exact hacc

/-- A heap that has just been set up has one block, where every search stops. -/
theorem searchLoop_mallocInit (h : Malloc) (fresh : Mem) (k n : BitVec 32) :
    searchLoop (h.mallocInit fresh k).mem n (2 ^ 32) (h.mallocInit fresh k).mallocListHead =
      some mallocVirtAddr := by
  have hhead : (h.mallocInit fresh k).mallocListHead = mallocVirtAddr := by
    unfold mallocInit
    exact (initPages_fields _ _ _ _ _).1
  have hnext : nodeNext (h.mallocInit fresh k).mem (h.mallocInit fresh k).mallocListHead = 0 :=
    Mem.load32_store32_self _ _ _
  rw [show 2 ^ 32 = (2 ^ 32 - 1) + 1 from rfl, searchLoop, if_neg fun hc => hc.1 hnext, hhead]

/-- What a `malloc_next_block` that returns has done. -/
theorem mallocNextBlock_eq_some (hn : n ≠ 0) (hacc : AccessInv h.vm)
    (heq : h.mallocNextBlock fresh n = some (ptr, h')) :
    AccessInv h'.vm ∧ ∃ cur, ptr = cur + mallocBlockSize ∧
      searchLoop (h.searched fresh n).mem n (2 ^ 32) (h.searched fresh n).mallocListHead =
        some cur := by
  have hacc' := accessInv_searched hacc fresh n
  rw [mallocNextBlock, if_neg hn, ← searched] at heq
  dsimp only at heq
  cases hs : searchLoop (h.searched fresh n).mem n (2 ^ 32) (h.searched fresh n).mallocListHead with
  | none =>
    rw [hs] at heq
    exact absurd heq (by simp)
  | some cur =>
    rw [hs] at heq
    dsimp only at heq
    -- an exact fit and a split leave the managers alone; growing maps pages
    split_ifs at heq with hexact hsplit
    · obtain ⟨rfl, rfl⟩ := Prod.mk.inj (Option.some.inj heq)
      exact ⟨hacc', cur, rfl, rfl⟩
    · obtain ⟨rfl, rfl⟩ := Prod.mk.inj (Option.some.inj heq)
      exact ⟨hacc', cur, rfl, rfl⟩
    · cases hc : pageCountLoop (nodeSize (h.searched fresh n).mem cur) n (2 ^ 32) 1 with
      | none =>
        rw [hc] at heq
        exact absurd heq (by simp)
      | some pageCount =>
        rw [hc] at heq
        obtain ⟨rfl, rfl⟩ := Prod.mk.inj (Option.some.inj heq)
        exact ⟨accessInv_growLoop hacc' _ _ _, cur, rfl, rfl⟩

theorem vm_mergeFreeBlocks (heq : h.mergeFreeBlocks = some h') : h'.vm = h.vm := by
  obtain ⟨mem, -, rfl⟩ := Option.map_eq_some_iff.mp heq
  rfl

/-- The block at which a request stops is the one that the state before tells. -/
theorem stopsAt_of_searched
    (hs : searchLoop ((h.ready fresh n).searched fresh n).mem n (2 ^ 32)
      ((h.ready fresh n).searched fresh n).mallocListHead = some cur) : StopsAt h n cur := by
  -- a heap that has just been set up has one block, and the search stops there
  unfold StopsAt
  cases hi : h.mallocIniited with
  | false =>
    rw [if_pos (Or.inl rfl)]
    rw [ready_of_not_inited hi, searched] at hs
    split_ifs at hs
    · rw [searchLoop_mallocInit] at hs
      exact (Option.some.inj hs).symm
    · rw [searchLoop_mallocInit] at hs
      exact (Option.some.inj hs).symm
  | true =>
    rw [ready_of_inited hi, searched] at hs
    split_ifs at hs with h0
    · rw [searchLoop_mallocInit] at hs
      rw [if_pos (Or.inr h0)]
      exact (Option.some.inj hs).symm
    · rw [if_neg]
      · exact hs
      · rintro (hfalse | hzero)
        · exact Bool.false_ne_true hfalse.symm
        · exact h0 hzero

/-- **What a `malloc` that returns has done**: it has kept what is accessible, and the pointer is null
for no bytes and else that of the block at which the search stops. -/
theorem syscallMalloc_eq_some (hacc : AccessInv h.vm)
    (heq : h.syscallMalloc fresh n = some (ptr, h')) :
    AccessInv h'.vm ∧
      (n = 0 ∧ ptr = 0 ∨ n ≠ 0 ∧ ∃ cur, StopsAt h n cur ∧ ptr = cur + mallocBlockSize) := by
  have hready : AccessInv (h.ready fresh n).vm := by
    unfold ready
    split_ifs
    · exact accessInv_mallocInit hacc n
    · exact hacc
  rw [syscallMalloc_eq] at heq
  cases hb : (h.ready fresh n).mallocNextBlock fresh n with
  | none =>
    rw [hb] at heq
    exact absurd heq (by simp)
  | some r =>
    obtain ⟨ptr', h''⟩ := r
    rw [hb] at heq
    obtain ⟨h₁, hmerge, hpair⟩ := Option.map_eq_some_iff.mp heq
    obtain ⟨rfl, rfl⟩ := Prod.mk.inj hpair
    rw [vm_mergeFreeBlocks hmerge]
    by_cases hn : n = 0
    · rw [mallocNextBlock, if_pos hn] at hb
      obtain ⟨rfl, rfl⟩ := Prod.mk.inj (Option.some.inj hb)
      exact ⟨hready, Or.inl ⟨hn, rfl⟩⟩
    · obtain ⟨hacc'', cur, rfl, hs⟩ := mallocNextBlock_eq_some hn hready hb
      exact ⟨hacc'', Or.inr ⟨hn, cur, stopsAt_of_searched hs, rfl⟩⟩

/-- A `free` that returns maps nothing. -/
theorem vm_freeLoop {k : ℕ} (heq : freeLoop h ptr k cur = some h') : h'.vm = h.vm := by
  induction k generalizing cur with
  | zero => exact absurd heq (by simp [freeLoop])
  | succ k ih =>
    rw [freeLoop] at heq
    split_ifs at heq
    · have hvm := vm_mergeFreeBlocks heq
      exact hvm
    · exact ih heq
    · rw [← Option.some.inj heq]

theorem vm_syscallFree (heq : h.syscallFree ptr = some h') : h'.vm = h.vm := by
  rw [syscallFree, mallocFree] at heq
  exact vm_freeLoop heq

/-! ### Runs -/

/-- What every call keeps. -/
theorem accessInv_step {c : HeapCall} (hacc : AccessInv s.1.vm) (hstep : heapStep s c s') :
    AccessInv s'.1.vm := by
  cases c with
  | malloc n fresh =>
    obtain ⟨ptr, heq, -⟩ := hstep
    exact (syscallMalloc_eq_some hacc heq).1
  | free ptr =>
    rw [vm_syscallFree hstep.1]
    exact hacc

/-- The live allocations end in the first 4 MiB. -/
def LiveLow (s : HeapState) : Prop := ∀ r ∈ s.2, r.1.toNat + r.2.toNat ≤ 0x400000

theorem toNat_add_mallocBlockSize (hlt : cur.toNat + 12 < 2 ^ 32) :
    (cur + mallocBlockSize).toNat = cur.toNat + 12 := by
  rw [BitVec.toNat_add, show mallocBlockSize.toNat = 12 from rfl, Nat.mod_eq_of_lt hlt]

theorem LiveLow.step {c : HeapCall} (hlow : LiveLow s) (hacc : AccessInv s.1.vm)
    (hc : AccessCond s c) (hstep : heapStep s c s') : LiveLow s' := by
  cases c with
  | malloc n fresh =>
    obtain ⟨ptr, heq, hlive⟩ := hstep
    unfold LiveLow
    rw [hlive]
    split_ifs with h0
    · exact hlow
    · rcases (syscallMalloc_eq_some hacc heq).2 with ⟨-, hptr⟩ | ⟨hn, cur, hstop, rfl⟩
      · exact absurd hptr h0
      · have hle := (hc hn).2.2 cur hstop
        intro r hr
        rcases List.mem_cons.mp hr with rfl | hr
        · rw [toNat_add_mallocBlockSize (by omega)]
          exact hle
        · exact hlow r hr
  | free ptr =>
    intro r hr
    rw [hstep.2] at hr
    exact hlow r (List.mem_of_mem_filter hr)

theorem LiveLow.userAccessible (hlow : LiveLow s) (hacc : AccessInv s.1.vm) : UserAccessible s := by
  intro r hr i hi
  have hle := hlow r hr
  apply hacc.userPage
  rw [BitVec.toNat_add, BitVec.toNat_ofNat]
  omega

/-- An allocation that ends behind the first 4 MiB is not accessible there. -/
theorem not_userAccessible (hacc : AccessInv s.1.vm) (hr : (ptr, n) ∈ s.2) (hn : n ≠ 0)
    (hptr : ptr.toNat < 0xC0000000) (hend : 0x400000 < ptr.toNat + n.toNat) : ¬ UserAccessible s := by
  intro huser
  -- the first byte that is not in the first 4 MiB
  have hi : 0x400000 - ptr.toNat < n.toNat := by
    have hpos : n.toNat ≠ 0 := fun h0 => hn (BitVec.eq_of_toNat_eq h0)
    omega
  have hbyte : s.1.vm.UserPage (ptr + BitVec.ofNat 32 (0x400000 - ptr.toNat)) := huser (ptr, n) hr _ hi
  have haddr : (ptr + BitVec.ofNat 32 (0x400000 - ptr.toNat)).toNat = max ptr.toNat 0x400000 := by
    rw [BitVec.toNat_add, BitVec.toNat_ofNat]
    omega
  exact hacc.not_userPage (by omega) (by omega) hbyte

/-- **The heap is accessible from user mode** in every state reached by calls that are supplied with pages
and meet the condition, and no longer after a request that ends behind the first 4 MiB, as long as blocks
are below 3 GiB. -/
theorem heap_user_accessible (s : HeapState)
    (h : (heapSystem.restrict fun s c => Supplied s c ∧ AccessCond s c).Reachable s) :
    UserAccessible s ∧
    ∀ n fresh s' cur, heapSystem.step s (.malloc n fresh) s' → n ≠ 0 → StopsAt s.1 n cur →
      cur.toNat + 12 < 0xC0000000 → 0x400000 < cur.toNat + 12 + n.toNat → ¬ UserAccessible s' := by
  have hinv : AccessInv s.1.vm ∧ LiveLow s := by
    refine h.invariant (S := heapSystem.restrict fun s c => Supplied s c ∧ AccessCond s c)
      (I := fun s => AccessInv s.1.vm ∧ LiveLow s) (fun s hinit => ?_) ?_
    · refine ⟨Vmmngr.accessInv_of_init hinit.1, fun r hr => ?_⟩
      rw [hinit.2.2.2.2] at hr
      exact absurd hr List.not_mem_nil
    · rintro s c s' ⟨hacc, hlow⟩ ⟨⟨-, hc⟩, hstep⟩
      exact ⟨accessInv_step hacc hstep, hlow.step hacc hc hstep⟩
  obtain ⟨hacc, hlow⟩ := hinv
  refine ⟨hlow.userAccessible hacc, fun n fresh s' cur hstep hn hstop hcur hend => ?_⟩
  have hacc' := accessInv_step (c := .malloc n fresh) hacc hstep
  obtain ⟨ptr, heq, hlive⟩ := hstep
  rcases (syscallMalloc_eq_some hacc heq).2 with ⟨h0, -⟩ | ⟨-, cur', hstop', rfl⟩
  · exact absurd h0 hn
  · -- the run that is handed out goes past the first 4 MiB
    obtain rfl := hstop.unique hstop'
    have hptr : (cur + mallocBlockSize).toNat = cur.toNat + 12 :=
      toNat_add_mallocBlockSize (by omega)
    rw [if_neg fun h0 => by rw [h0] at hptr; simp at hptr] at hlive
    have hr : (cur + mallocBlockSize, n) ∈ s'.2 := by
      rw [hlive]
      exact List.mem_cons_self
    exact not_userAccessible hacc' hr hn (by omega) (by omega)

/-- A request of 100 bytes on the small machine. -/
theorem heap_user_accessible_one_request : ∃ s : HeapState, s.2 = [(12, 100)] ∧ UserAccessible s := by
  have hsup : Supplied (newHeap Vmmngr.smallMachine.vmmngrInit) (.malloc 100 fun _ => 0) :=
    supplied_smallMachine (by decide) (by decide)
  have hfit : FitCond (newHeap Vmmngr.smallMachine.vmmngrInit).1 (BitVec.toNat 100#32) :=
    fitCond_newHeap Vmmngr.init_smallMachine (by decide) (by decide)
  have hc : AccessCond (newHeap Vmmngr.smallMachine.vmmngrInit) (.malloc 100 fun _ => 0) := by
    refine fun _ => ⟨fun hi => absurd hi (by decide), hfit, fun cur hstop => ?_⟩
    rw [hstop.eq_of_not_inited rfl]
    decide
  obtain ⟨s, hreach, hs, -⟩ := exists_reachable_smallMachine
    (P := fun s c => Supplied s c ∧ AccessCond s c) ⟨hsup, hc⟩
  exact ⟨s, hs, (heap_user_accessible s hreach).1⟩

/-! ### A heap of more than 4 MiB -/

/-- A machine of 2048 blocks with all but the first of them free, before `vmmngr_init`. -/
def largeMachine : Vmmngr :=
  ⟨Pmmngr.setUp (fun _ => 0) 0x30000 0x800000 [.init 0x1000 0x7FF000], fun _ => 0, 0, 0, false⟩

theorem pmm_largeMachine :
    largeMachine.pmm = (Pmmngr.pmmngrInit (fun _ => 0) 0x30000 0x800000).pmmngrInitRegion 0x1000 0x7FF000 :=
  rfl

theorem freeFrom_largeMachine : largeMachine.pmm.FreeFrom 2048 1 where
  blocks := by
    rw [pmm_largeMachine, Pmmngr.maxBlocks_pmmngrInitRegion, Pmmngr.maxBlocks_pmmngrInit]
    decide
  whole := rfl
  used := by
    rw [pmm_largeMachine, Pmmngr.usedBlocks_pmmngrInitRegion, Pmmngr.usedBlocks_pmmngrInit]
    decide
  marked x hx := by
    rw [pmm_largeMachine, Pmmngr.marked_pmmngrInitRegion _ _ _ (by omega)]
    by_cases h0 : x = 0
    · rw [if_pos h0, decide_eq_true (by omega)]
    · rw [if_neg h0, if_pos, decide_eq_false (by omega)]
      rw [Pmmngr.mem_regionBlocks, show (0x1000 : BitVec 32).toNat / 4096 = 1 from rfl,
        show (0x7FF000 : BitVec 32).toNat / 4096 = 2047 from rfl]
      omega

/-- The allocations of `vmmngr_init` take five blocks. -/
theorem freeFrom_vmmngrInit {vm : Vmmngr} {m k : ℕ} (hf : vm.pmm.FreeFrom m k) (hk : 0 < k)
    (hlt : k + 5 < m) (hm : m < 2 ^ 20) :
    vm.InitAvailable ∧ vm.vmmngrInit.pmm.FreeFrom m (k + 5) := by
  obtain ⟨h1, hf1⟩ := hf.pmmngrAllocBlocks (n := 1) (by decide) (by simp; omega)
  obtain ⟨h2, hf2⟩ := hf1.pmmngrAllocBlocks (n := 1) (by decide) (by simp; omega)
  obtain ⟨h3, hf3⟩ := hf2.pmmngrAllocBlocks (n := 3) (by decide) (by simp; omega)
  have hne : ∀ {x}, 0 < x → x < 2 ^ 20 → BitVec.ofNat 32 (4096 * x) ≠ 0 := fun h0 hx =>
    ofNat_ne_zero (by omega) (by omega)
  have hav : vm.InitAvailable := by
    refine ⟨?_, ?_, ?_⟩
    · exact h1.trans_ne (hne hk (by omega))
    · exact h2.trans_ne (hne (by simp) (by simp; omega))
    · exact h3.trans_ne (hne (by simp) (by simp; omega))
  rw [Vmmngr.vmmngrInit_of_available hav]
  exact ⟨hav, hf3⟩

theorem init_largeMachine : Vmmngr.pagingSystem.init largeMachine.vmmngrInit := by
  have hav := (freeFrom_vmmngrInit freeFrom_largeMachine (by omega) (by omega) (by omega)).1
  exact ⟨largeMachine, rfl, rfl, rfl, by rw [Vmmngr.vmmngrInit_of_available hav]⟩

/-- Mapping pages of the first 4 MiB takes no blocks. -/
theorem pmm_initPages (hacc : AccessInv h.vm) (fresh : Mem) (phys : PhysicalAddr) {t k : ℕ}
    (ht : t + k ≤ 1024) :
    (initPages fresh k phys (BitVec.ofNat 32 (4096 * t)) h).vm.pmm = h.vm.pmm := by
  induction k generalizing h phys t with
  | zero => rfl
  | succ k ih =>
    have hvirt : BitVec.ofNat 32 (4096 * t) + pageSize = BitVec.ofNat 32 (4096 * (t + 1)) := by
      rw [show pageSize = BitVec.ofNat 32 4096 from rfl, ← BitVec.ofNat_add]
      congr 1
    have htable : h.vm.dirEntry (pageDirIndex (BitVec.ofNat 32 (4096 * t))) ≠ 0 := by
      refine (hacc.low _ ?_).1.ne_zero
      rw [BitVec.toNat_ofNat]
      omega
    rw [initPages, hvirt, ih (accessInv_initPage hacc _ _) _ (by omega)]
    exact hacc.paging.pmm_vmmngrMapPage htable phys

/-- A first request for 4 MiB sets up one block, which is too small by the size of its header. -/
theorem tiled_ready_large (vm : Vmmngr) (fresh : Mem) :
    Tiled ((newHeap vm).1.ready fresh 0x400000) ([] ++ ⟨0x400000 - 12, true⟩ :: []) := by
  rw [ready_of_not_inited rfl]
  exact tiled_mallocInit _ fresh (by decide) (by decide)

section FourMiB

variable {vm : Vmmngr} {m k : ℕ} (hinit : Vmmngr.pagingSystem.init vm) (hf : vm.pmm.FreeFrom m k)
  (hk : 0 < k) (hlt : k + 1025 < m)
include hinit hf hk hlt

/-- A first request for 4 MiB takes 1024 pages. -/
theorem freeFrom_ready_large (hm : m < 2 ^ 20) (fresh : Mem) :
    (vm.pmm.pmmngrAllocBlocks (initPageCount 0x400000)).1 ≠ 0 ∧
      ((newHeap vm).1.ready fresh 0x400000).vm.pmm.FreeFrom m (k + 1024) := by
  have hcount : initPageCount 0x400000 = 1024 := by decide
  obtain ⟨haddr, hf'⟩ := hf.pmmngrAllocBlocks (n := 1024) (by decide) (by simp; omega)
  rw [hcount]
  refine ⟨haddr.trans_ne (ofNat_ne_zero (by omega) (by omega)), ?_⟩
  have hacc : AccessInv ((newHeap vm).1.takePages 0x400000).vm :=
    (Vmmngr.accessInv_of_init hinit).of_marked_le fun _ hx hmark =>
      vm.pmm.marked_pmmngrAllocBlocks_of_marked (by rw [hcount]; decide) hx hmark
  have hpmm := pmm_initPages hacc fresh ((newHeap vm).1.takePages 0x400000).mallocPhysAddr (t := 0)
    (k := 1024) (by omega)
  rw [show BitVec.ofNat 32 (4096 * 0) = mallocVirtAddr from rfl] at hpmm
  have htake : ((newHeap vm).1.takePages 0x400000).vm.pmm =
      (vm.pmm.pmmngrAllocBlocks (initPageCount 0x400000)).2 := rfl
  rw [hcount] at htake
  rw [ready_of_not_inited rfl, vm_mallocInit, hcount, show (1024 : BitVec 32).toNat = 1024 from rfl,
    hpmm, htake]
  exact hf'

/-- There is a block for the page that it grows by. -/
theorem pagesAvailable_large (hm : m < 2 ^ 20) (fresh : Mem) (virt : VirtualAddr) :
    PagesAvailable 1 virt ((newHeap vm).1.ready fresh 0x400000).vm := by
  obtain ⟨-, hf'⟩ := freeFrom_ready_large hinit hf hk hlt hm fresh
  obtain ⟨haddr, -⟩ := hf'.pmmngrAllocBlocks (n := 1) (by decide) (by simp; omega)
  have hne : ((newHeap vm).1.ready fresh 0x400000).vm.pmm.pmmngrAllocBlock.1 ≠ 0 :=
    haddr.trans_ne (ofNat_ne_zero (by omega) (by omega))
  refine ⟨?_, trivial⟩
  rw [Vmmngr.vmmngrAllocPage_fst]
  exact hne

/-- The pages for a first request for 4 MiB are available. -/
theorem supplied_large (hm : m < 2 ^ 20) (fresh : Mem) : Supplied (newHeap vm) (.malloc 0x400000 fresh) := by
  refine ⟨fun _ => (freeFrom_ready_large hinit hf hk hlt hm fresh).1, fun pre b post ht _ _ => ?_⟩
  have hb : b ∈ pre ++ b :: post := by simp
  rw [ht.unique (tiled_ready_large vm fresh), List.nil_append, List.mem_singleton] at hb
  rw [hb]
  exact pagesAvailable_large hinit hf hk hlt hm fresh _

/-- The request returns the payload of that block. -/
theorem exists_syscallMalloc_large (hm : m < 2 ^ 20) (fresh : Mem) :
    ∃ h', (newHeap vm).1.syscallMalloc fresh 0x400000 = some (12, h') := by
  have ht := tiled_ready_large vm fresh
  have htotal : ((newHeap vm).1.ready fresh 0x400000).totalMallocPages.toNat = 1024 := by
    have hspan := ht.span_eq
    rw [List.nil_append, Tiling.span_cons, Tiling.span_nil] at hspan
    simp only at hspan
    omega
  have hfits : ((newHeap vm).1.ready fresh 0x400000).Fits (BitVec.toNat 0x400000#32)
      ⟨0x400000 - 12, true⟩ := by
    refine Or.inr (Or.inr ⟨by decide, ?_, ?_⟩)
    · rw [htotal]
      decide
    · exact pagesAvailable_large hinit hf hk hlt hm fresh _
  obtain ⟨h', bs', heq, -⟩ := syscallMalloc_spec ht (by simp [HeadPos]) (by decide)
    ⟨by simp, Or.inl rfl⟩ hfits
  exact ⟨h', heq⟩

end FourMiB

/-- A first request for 4 MiB ends on a page whose table has been allocated for it. -/
theorem not_heap_user_accessible :
    ∃ s : HeapState, (heapSystem.restrict Supplied).Reachable s ∧ ¬ UserAccessible s := by
  obtain ⟨-, hf⟩ := freeFrom_vmmngrInit freeFrom_largeMachine (by omega) (by omega) (by omega)
  have hstart := init_newHeap init_largeMachine
  have hsup := supplied_large init_largeMachine hf (by omega) (by omega) (by omega) fun _ => 0
  obtain ⟨h', heq⟩ := exists_syscallMalloc_large init_largeMachine hf (by omega) (by omega) (by omega)
    fun _ => 0
  have hstep : heapStep (newHeap largeMachine.vmmngrInit) (.malloc 0x400000 fun _ => 0)
      (h', [(12, 0x400000)]) := ⟨12, heq, rfl⟩
  refine ⟨_, System.Reachable.step (.init hstart) ⟨hsup, hstep⟩, ?_⟩
  have hacc := accessInv_step (Vmmngr.accessInv_of_init hstart.1) hstep
  exact not_userAccessible hacc (List.mem_singleton.mpr rfl) (by decide) (by decide) (by decide)

end FanOS.Malloc

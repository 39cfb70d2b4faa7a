import FanOS.Kernel.Basic
import FanOS.Malloc.Equiv.Heap
import FanOS.Transition.Basic
import FanOS.VirtualMmngr.Equiv.Calls

/-!
# Sequences of malloc and free calls

`heapSystem` starts after a successful `vmmngr_init` with a heap that is not set up, and takes
`syscall_malloc` and `syscall_free` calls.  Beside the heap runs the list of live allocations.

`FitCond` is the condition under which a request can be met: the block that the search stops at has
exactly the size asked for, or room for a second header, or is too small and the heap can grow.
`malloc_split` gets the remaining case wrong, sizes from 1 to 11 bytes above the request.  The heap
can grow up to the memory through which the kernel manages it (`BelowKernel`): a page mapped over
that would make the managers read the heap instead of their own tables.  Under the condition a call
returns and leaves the heap tiled (`syscallMalloc_spec`), and so every state is (`heap_tiled`).
-/

namespace FanOS.Malloc

open Tiling (Block span)

variable {h : Malloc} {fresh : Mem} {n : BitVec 32} {b : Block} {bs pre post : List Block}

/-! ### The system -/

/-- A system call of the heap.  The pages that a `malloc` maps show `fresh`. -/
inductive HeapCall
  | malloc (n : BitVec 32) (fresh : Mem)
  | free (ptr : VirtualAddr)

/-- The heap beside the live allocations: pointers with the sizes asked for. -/
abbrev HeapState := Malloc × List (VirtualAddr × BitVec 32)

/-- What a call does to the heap and to the live allocations. -/
def heapStep (s : HeapState) : HeapCall → HeapState → Prop
  | .malloc n fresh, s' => ∃ ptr, s.1.syscallMalloc fresh n = some (ptr, s'.1) ∧
      s'.2 = if ptr = 0 then s.2 else (ptr, n) :: s.2
  | .free ptr, s' => s.1.syscallFree ptr = some s'.1 ∧ s'.2 = s.2.filter fun r => r.1 ≠ ptr

/-- Heap calls after a successful `vmmngr_init`. -/
def heapSystem : System HeapState HeapCall where
  init s := Vmmngr.pagingSystem.init s.1.vm ∧ s.1.mallocListHead = 0 ∧ s.1.mallocIniited = false ∧
    s.1.totalMallocPages = 0 ∧ s.2 = []
  step := heapStep

/-! ### One call -/

/-- The heap when `syscall_malloc` calls `malloc_next_block`. -/
def ready (h : Malloc) (fresh : Mem) (n : BitVec 32) : Malloc :=
  if h.isMallocInited = false then h.mallocInit fresh n else h

theorem ready_of_inited (hi : h.mallocIniited = true) : h.ready fresh n = h := by
  rw [ready, isMallocInited, if_neg (by simp [hi])]

theorem ready_of_not_inited (hi : h.mallocIniited = false) :
    h.ready fresh n = h.mallocInit fresh n := by
  rw [ready, isMallocInited, if_pos hi]

theorem mallocIniited_ready (h : Malloc) (fresh : Mem) (n : BitVec 32) :
    (h.ready fresh n).mallocIniited = true := by
  cases hi : h.mallocIniited with
  | true => rw [ready_of_inited hi, hi]
  | false =>
    rw [ready_of_not_inited hi]
    rfl

theorem syscallMalloc_eq (h : Malloc) (fresh : Mem) (n : BitVec 32) :
    h.syscallMalloc fresh n =
      match (h.ready fresh n).mallocNextBlock fresh n with
      | none => none
      | some (ptr, h) => h.mergeFreeBlocks.map fun h => (ptr, h) := rfl

/-- **`syscall_malloc`** of a request that fits returns the payload of the block at which the search
stops, and leaves the heap tiled. -/
theorem syscallMalloc_spec (ht : Tiled (h.ready fresh n) (pre ++ b :: post))
    (hpos : HeadPos (pre ++ b :: post)) (hn : 0 < n.toNat) (hs : Stops n.toNat pre b post)
    (hf : (h.ready fresh n).Fits n.toNat b) :
    ∃ h' bs', h.syscallMalloc fresh n = some (BitVec.ofNat 32 (span 12 pre + 12), h') ∧
      Tiled h' bs' ∧ Carves n.toNat pre b post bs' ∧ h'.mallocIniited = true ∧
      (n.toNat ≤ b.size → h'.vm = (h.ready fresh n).vm) := by
  obtain ⟨h', bs', hnext, htiled, hcarves, hinit, hvm⟩ :=
    mallocNextBlock_spec ht hpos hn n.isLt hs hf fresh
  rw [BitVec.ofNat_toNat, BitVec.setWidth_eq] at hnext
  refine ⟨h', bs', ?_, htiled, hcarves, hinit.trans (mallocIniited_ready h fresh n), hvm⟩
  rw [syscallMalloc_eq, hnext]
  simp only
  rw [mergeFreeBlocks_eq htiled.head]
  rfl

/-- A request for which there is room in the block takes the first part of it. -/
theorem syscallMalloc_of_room (ht : Tiled (h.ready fresh n) (pre ++ b :: post))
    (hpos : HeadPos (pre ++ b :: post)) (hn : 0 < n.toNat) (hs : Stops n.toNat pre b post)
    (hroom : n.toNat + 12 ≤ b.size) :
    ∃ h', h.syscallMalloc fresh n = some (BitVec.ofNat 32 (span 12 pre + 12), h') ∧
      h'.mallocIniited = true ∧
      Tiled h' (pre ++ ⟨n.toNat, false⟩ :: ⟨b.size - n.toNat - 12, true⟩ :: post) := by
  obtain ⟨h', bs', heq, ht', hcarves, hi, -⟩ := syscallMalloc_spec ht hpos hn hs (Or.inr (Or.inl hroom))
  refine ⟨h', heq, hi, ?_⟩
  cases hcarves with
  | exact h => omega
  | split h => exact ht'
  | grow h _ s => omega

/-- `syscall_malloc(0)` on a heap that is set up returns null and changes nothing. -/
theorem syscallMalloc_zero (ht : Tiled h bs) (hi : h.mallocIniited = true) :
    h.syscallMalloc fresh 0 = some (0, h) := by
  rw [syscallMalloc_eq, ready_of_inited hi, mallocNextBlock, if_pos rfl]
  simp only
  rw [mergeFreeBlocks_eq ht.head]
  rfl

/-- A block may be replaced by any other, unless it is the first one. -/
theorem HeadPos.replace {c : Block} {rest : List Block} (hpos : HeadPos (pre ++ b :: post))
    (hc : pre = [] → 0 < c.size) : HeadPos (pre ++ c :: rest) := by
  cases pre with
  | nil =>
    intro d hd
    obtain rfl : d = c := by simpa using hd.symm
    exact hc rfl
  | cons d pre => exact hpos

/-- The first block is not empty after a free. -/
theorem HeadPos.setFree (hpos : HeadPos (pre ++ b :: post)) :
    HeadPos (pre ++ ⟨b.size, true⟩ :: post) :=
  hpos.replace fun hpre => hpos b (by rw [hpre]; rfl)

/-- The first block is not empty after an allocation either. -/
theorem Carves.headPos {n : ℕ} {bs' : List Block} (hc : Carves n pre b post bs') (hn : 0 < n)
    (hpos : HeadPos (pre ++ b :: post)) : HeadPos bs' := by
  cases hc with
  | exact h => exact hpos.replace fun _ => hn
  | split h => exact hpos.replace fun _ => hn
  | grow h hpost s => exact hpos.replace fun _ => hn

/-- A `malloc_free` that returns changes nothing but memory. -/
theorem freeLoop_fields {h' : Malloc} (hh : h.mallocListHead = mallocVirtAddr) {ptr : VirtualAddr}
    {k : ℕ} {cur : VirtualAddr} (hf : freeLoop h ptr k cur = some h') :
    h' = { h with mem := h'.mem } := by
  induction k generalizing cur with
  | zero => exact absurd hf (by simp [freeLoop])
  | succ k ih =>
    rw [freeLoop] at hf
    split_ifs at hf with h1 h2
    · have hm := mergeFreeBlocks_eq (h := { h with mem := setFree h.mem cur true }) hh
      rw [hm, Option.some.injEq] at hf
      rw [← hf]
    · exact ih hf
    · rw [Option.some.injEq] at hf
      rw [← hf]

/-! ### The conditions -/

/-- The request is not zero and below `2 ^ 31`. -/
def HeapCall.Moderate : HeapCall → Prop
  | .malloc n _ => 0 < n.toNat ∧ n.toNat < 2 ^ 31
  | .free _ => True

/-- The physical pages that the call needs are available. -/
def Supplied (s : HeapState) : HeapCall → Prop
  | .malloc n fresh =>
    (s.1.mallocIniited = false → (s.1.vm.pmm.pmmngrAllocBlocks (initPageCount n)).1 ≠ 0) ∧
    ∀ pre b post, Tiled (s.1.ready fresh n) (pre ++ b :: post) → Stops n.toNat pre b post →
      b.size < n.toNat → PagesAvailable (pagesToGrow b.size n.toNat)
        (BitVec.ofNat 32 (4096 * (s.1.ready fresh n).totalMallocPages.toNat)) (s.1.ready fresh n).vm
  | .free _ => True

/-- A heap of so many pages ends below the bitmap, the directory and the tables.  The bitmap is where `kmain`
puts it. -/
structure BelowKernel (vm : Vmmngr) (pages : ℕ) : Prop where
  bitmap : 4096 * pages ≤ Kernel.memmapAddress.toNat
  directory : 4096 * pages ≤ vm.curdir.toNat
  table : ∀ i : BitVec 32, i.toNat < 1024 → vm.dirEntry i ≠ 0 →
    4096 * pages ≤ (pageGetPhysicalAddress (vm.dirEntry i)).toNat

theorem BelowKernel.lt {vm : Vmmngr} {pages : ℕ} (hb : BelowKernel vm pages) : pages < 2 ^ 20 := by
  have := hb.bitmap
  rw [show Kernel.memmapAddress.toNat = 0x30000 from rfl] at this
  omega

theorem le_of_pageAligned {t : BitVec 32} (ht : Mem.PageAligned t) (h0 : t ≠ 0) : 4096 ≤ t.toNat := by
  have hne : t.toNat ≠ 0 := fun h => h0 (BitVec.eq_of_toNat_eq h)
  unfold Mem.PageAligned at ht
  omega

/-- Neither directory nor table is in page 0. -/
theorem belowKernel_one {vm : Vmmngr} (hinv : Vmmngr.PagingInv vm) : BelowKernel vm 1 where
  bitmap := by decide
  directory := le_of_pageAligned hinv.aligned hinv.curdir_ne_zero
  table i hi h0 :=
    le_of_pageAligned (pageAligned_pageGetPhysicalAddress _) (hinv.installed i hi h0).ne_zero

/-- The block where the search for `n` bytes stops has the size `n`, room for a second header, or
is too small; and the heap stays below the kernel's tables.  A heap that is not set up will have one
block of `4096 * pagesFor n - 12` bytes, and one more page if `n` is larger than that. -/
def FitCond (h : Malloc) (n : ℕ) : Prop :=
  if h.mallocIniited then
    ∀ pre b post, Tiled h (pre ++ b :: post) → Stops n pre b post →
      (b.size ≤ n ∨ n + 12 ≤ b.size) ∧
      (b.size < n → BelowKernel h.vm (h.totalMallocPages.toNat + pagesToGrow b.size n))
  else 0 < n ∧ BelowKernel h.vm (pagesFor (n + 12)) ∧ ¬ (4072 < n % 4096 ∧ n % 4096 < 4084)

/-! ### The invariant -/

/-- The heap is not set up yet, or it is tiled and its first block is not empty. -/
def HeapInv (h : Malloc) : Prop :=
  if h.mallocIniited then ∃ bs, Tiled h bs ∧ HeadPos bs else h.mallocListHead = mallocVirtAddr

theorem HeapInv.of_inited (hinv : HeapInv h) (hi : h.mallocIniited = true) :
    ∃ bs, Tiled h bs ∧ HeadPos bs := by
  rwa [HeapInv, if_pos hi] at hinv

theorem heapInv_of_tiled (hi : h.mallocIniited = true) (ht : Tiled h bs) (hpos : HeadPos bs) :
    HeapInv h := by
  rw [HeapInv, if_pos hi]
  exact ⟨bs, ht, hpos⟩

/-- What a search on a fresh heap comes upon. -/
theorem fits_fresh {k : ℕ} (hk : 0 < k) (hslack : ¬ (4072 < k % 4096 ∧ k % 4096 < 4084)) :
    4096 * pagesFor k - 12 = k ∨ k + 12 ≤ 4096 * pagesFor k - 12 ∨
      (4096 * pagesFor k - 12 < k ∧
        pagesFor k + pagesToGrow (4096 * pagesFor k - 12) k = pagesFor (k + 12)) := by
  unfold pagesFor pagesToGrow
  omega

/-- **Under the condition a request fits**: there is a block at which the search stops. -/
theorem exists_fits (hinv : HeapInv h) (hn : 0 < n.toNat) (hc : FitCond h n.toNat)
    (hav : ∀ pre b post, Tiled (h.ready fresh n) (pre ++ b :: post) → Stops n.toNat pre b post →
      b.size < n.toNat → PagesAvailable (pagesToGrow b.size n.toNat)
        (BitVec.ofNat 32 (4096 * (h.ready fresh n).totalMallocPages.toNat)) (h.ready fresh n).vm) :
    ∃ pre b post, Tiled (h.ready fresh n) (pre ++ b :: post) ∧ HeadPos (pre ++ b :: post) ∧
      Stops n.toNat pre b post ∧ (h.ready fresh n).Fits n.toNat b := by
  cases hi : h.mallocIniited with
  | true =>
    obtain ⟨bs, ht, hpos⟩ := hinv.of_inited hi
    obtain ⟨pre, b, post, rfl, hs⟩ := exists_stops n.toNat ht.ne_nil
    rw [FitCond, if_pos hi] at hc
    obtain ⟨hsize, hgrow⟩ := hc pre b post ht hs
    rw [ready_of_inited hi] at hav ⊢
    refine ⟨pre, b, post, ht, hpos, hs, ?_⟩
    -- the three ways in which `malloc_next_block` goes on from the block
    rcases Nat.lt_trichotomy b.size n.toNat with hlt | heq | hgt
    · exact Or.inr (Or.inr ⟨hlt, (hgrow hlt).lt, hav pre b post ht hs hlt⟩)
    · exact Or.inl heq
    · exact Or.inr (Or.inl (by omega))
  | false =>
    rw [FitCond, if_neg (by simp [hi])] at hc
    obtain ⟨-, hbelow, hslack⟩ := hc
    have hlt := hbelow.lt
    have hpages : pagesFor n.toNat ≤ pagesFor (n.toNat + 12) := by
      unfold pagesFor
      omega
    rw [ready_of_not_inited hi] at hav ⊢
    -- the heap is set up with one free block, where the search stops
    have ht := tiled_mallocInit h fresh hn (by omega)
    have hs : Stops n.toNat [] ⟨4096 * pagesFor n.toNat - 12, true⟩ [] := ⟨by simp, Or.inl rfl⟩
    refine ⟨[], ⟨4096 * pagesFor n.toNat - 12, true⟩, [], ht, ?_, hs, ?_⟩
    · intro c hc
      obtain rfl : c = ⟨4096 * pagesFor n.toNat - 12, true⟩ := by simpa using hc.symm
      unfold pagesFor
      simp only
      omega
    · rcases fits_fresh hn hslack with heq | hroom | ⟨hsmall, hsum⟩
      · exact Or.inl heq
      · exact Or.inr (Or.inl hroom)
      · refine Or.inr (Or.inr ⟨hsmall, ?_, hav [] _ [] ht hs hsmall⟩)
        have hsp := ht.span_eq
        simp only [Tiling.span_cons, Tiling.span_nil] at hsp ⊢
        omega

/-! ### Steps -/

/-- The call is a free, or a request that fits. -/
def HeapCall.Fitting (s : HeapState) : HeapCall → Prop
  | .malloc n _ => FitCond s.1 n.toNat
  | .free _ => True

/-- A request that fits returns, and leaves a heap that is set up and tiled. -/
theorem HeapInv.malloc {s : HeapState} (hinv : HeapInv s.1) (hn : 0 < n.toNat)
    (hs : Supplied s (.malloc n fresh)) (hc : FitCond s.1 n.toNat) :
    ∃ ptr h', s.1.syscallMalloc fresh n = some (ptr, h') ∧ h'.mallocIniited = true ∧ HeapInv h' := by
  obtain ⟨pre, b, post, ht, hpos, hstops, hf⟩ := exists_fits hinv hn hc hs.2
  obtain ⟨h', bs', heq, ht', hcarves, hi, -⟩ := syscallMalloc_spec ht hpos hn hstops hf
  exact ⟨_, h', heq, hi, heapInv_of_tiled hi ht' (hcarves.headPos hn hpos)⟩

/-- A free on a tiled heap returns; it keeps the invariant and everything but memory. -/
theorem HeapInv.free_of_tiled (hi : h.mallocIniited = true) (ht : Tiled h bs) (hpos : HeadPos bs)
    (ptr : VirtualAddr) :
    ∃ m, h.syscallFree ptr = some { h with mem := m } ∧ HeapInv { h with mem := m } := by
  rcases mallocFree_cases ht ptr with heq | ⟨pre, b, post, rfl, -, heq, ht'⟩
  · exact ⟨h.mem, heq, heapInv_of_tiled hi ht hpos⟩
  · exact ⟨_, heq, heapInv_of_tiled hi ht' hpos.setFree⟩

/-- A free that returns keeps the invariant and everything but memory. -/
theorem HeapInv.free (hinv : HeapInv h) {ptr : VirtualAddr} {h' : Malloc}
    (hf : h.syscallFree ptr = some h') : HeapInv h' ∧ h' = { h with mem := h'.mem } := by
  by_cases hi : h.mallocIniited = true
  · obtain ⟨bs, ht, hpos⟩ := hinv.of_inited hi
    obtain ⟨m, heq, hinv'⟩ := HeapInv.free_of_tiled hi ht hpos ptr
    obtain rfl := Option.some.inj (heq.symm.trans hf)
    exact ⟨hinv', rfl⟩
  · have hhead : h.mallocListHead = mallocVirtAddr := by rwa [HeapInv, if_neg hi] at hinv
    have heq := freeLoop_fields hhead hf
    refine ⟨?_, heq⟩
    rw [heq, HeapInv, if_neg hi]
    exact hhead

theorem heapInv_of_init {s : HeapState} (h : heapSystem.init s) : HeapInv s.1 := by
  rw [HeapInv, if_neg (by simp [h.2.2.1])]
  exact h.2.1

/-! ### Tiling -/

/-- **The heap is tiled** in every state reached by requests between 1 and `2 ^ 31 - 1` that are
supplied with pages and fit; and every further such call returns, as does every free on a heap that
is set up. -/
theorem heap_tiled (s : HeapState)
    (h : (heapSystem.restrict fun s c => c.Moderate ∧ Supplied s c ∧ c.Fitting s).Reachable s) :
    (s.1.mallocIniited = true → ∃ bs, Tiled s.1 bs) ∧
    (∀ n fresh, (HeapCall.malloc n fresh).Moderate → Supplied s (.malloc n fresh) →
      FitCond s.1 n.toNat → ∃ s', heapSystem.step s (.malloc n fresh) s') ∧
    (∀ ptr, s.1.mallocIniited = true → ∃ s', heapSystem.step s (.free ptr) s') := by
  have hinv : HeapInv s.1 := by
    refine h.invariant (I := fun s => HeapInv s.1) (fun s => heapInv_of_init) ?_
    rintro s c s' hs ⟨⟨hm, hsup, hfit⟩, hstep⟩
    cases c with
    | malloc n fresh =>
      obtain ⟨ptr, h', heq, -, hinv'⟩ := hs.malloc hm.1 hsup hfit
      -- a call has one result, so the state reached is the one of the specification
      obtain ⟨ptr', heq', -⟩ := hstep
      rwa [(Prod.mk.inj (Option.some.inj (heq'.symm.trans heq))).2]
    | free ptr => exact (hs.free hstep.1).1
  refine ⟨fun hi => ?_, fun n fresh hm hsup hfit => ?_, fun ptr hi => ?_⟩
  · obtain ⟨bs, ht, -⟩ := hinv.of_inited hi
    exact ⟨bs, ht⟩
  · obtain ⟨ptr, h', heq, -, -⟩ := hinv.malloc hm.1 hsup hfit
    exact ⟨(h', if ptr = 0 then s.2 else (ptr, n) :: s.2), ptr, heq, rfl⟩
  · obtain ⟨bs, ht, hpos⟩ := hinv.of_inited hi
    obtain ⟨m, heq, -⟩ := HeapInv.free_of_tiled hi ht hpos ptr
    exact ⟨({ s.1 with mem := m }, s.2.filter fun r => r.1 ≠ ptr), heq, rfl⟩

/-- A first request that does not make the heap grow needs its initial pages only. -/
theorem supplied_first {s : HeapState} (hi : s.1.mallocIniited = false) (hn : 0 < n.toNat)
    (hpages : pagesFor n.toNat < 2 ^ 20) (hle : n.toNat ≤ 4096 * pagesFor n.toNat - 12)
    (hav : (s.1.vm.pmm.pmmngrAllocBlocks (initPageCount n)).1 ≠ 0) :
    Supplied s (.malloc n fresh) := by
  refine ⟨fun _ => hav, fun pre b post ht _ hlt => ?_⟩
  rw [ready_of_not_inited hi] at ht
  have hu := ht.unique (tiled_mallocInit s.1 fresh hn hpages)
  have hb : b ∈ pre ++ b :: post := by simp
  rw [hu, List.mem_singleton] at hb
  rw [hb] at hlt
  simp only at hlt
  omega

/-- A request that does not make the heap grow needs no pages. -/
theorem supplied_of_le {s : HeapState} (hi : s.1.mallocIniited = true) (ht : Tiled s.1 (pre ++ b :: post))
    (hs : Stops n.toNat pre b post) (hle : n.toNat ≤ b.size) : Supplied s (.malloc n fresh) := by
  refine ⟨fun hfalse => absurd hi (by simp [hfalse]), fun pre' b' post' ht' hs' hlt => ?_⟩
  rw [ready_of_inited hi] at ht'
  obtain ⟨-, rfl⟩ := hs.unique hs' (ht.unique ht')
  omega

/-- A heap before the first call, in a memory of zeros. -/
def newHeap (vm : Vmmngr) : HeapState := (⟨vm, fun _ => 0, 0, 0, 0, false⟩, [])

theorem init_newHeap {vm : Vmmngr} (h : Vmmngr.pagingSystem.init vm) : heapSystem.init (newHeap vm) :=
  ⟨h, rfl, rfl, rfl, rfl⟩

/-- A first request of at most 4072 bytes fits. -/
theorem fitCond_newHeap {vm : Vmmngr} (h : Vmmngr.pagingSystem.init vm) {n : ℕ} (hn : 0 < n)
    (hle : n ≤ 4072) : FitCond (newHeap vm).1 n := by
  have hone : pagesFor (n + 12) = 1 := by
    unfold pagesFor
    omega
  rw [FitCond, if_neg (by simp [newHeap]), hone]
  exact ⟨hn, belowKernel_one (Vmmngr.pagingInv_of_init h), by omega⟩

/-- On the small machine there is a page for the heap. -/
theorem supplied_smallMachine {n : BitVec 32} (hn : 0 < n.toNat) (hle : n.toNat ≤ 4084) :
    Supplied (newHeap Vmmngr.smallMachine.vmmngrInit) (.malloc n fresh) := by
  have hpages : pagesFor n.toNat = 1 := by
    unfold pagesFor
    omega
  have hcount : initPageCount n = 1 := BitVec.eq_of_toNat_eq ((toNat_initPageCount n).trans hpages)
  apply supplied_first rfl hn (by omega) (by omega)
  rw [hcount, newHeap, Vmmngr.vmmngrInit_of_available Vmmngr.available_smallMachine]
  decide +kernel

/-- A first request there of at most 4072 bytes splits the page. -/
theorem syscallMalloc_smallMachine {n : BitVec 32} (fresh : Mem) (hn : 0 < n.toNat)
    (hle : n.toNat ≤ 4072) :
    ∃ h', (newHeap Vmmngr.smallMachine.vmmngrInit).1.syscallMalloc fresh n = some (12, h') ∧
      h'.mallocIniited = true ∧ Tiled h' [⟨n.toNat, false⟩, ⟨4072 - n.toNat, true⟩] := by
  have hpages : pagesFor n.toNat = 1 := by
    unfold pagesFor
    omega
  have ht : Tiled ((newHeap Vmmngr.smallMachine.vmmngrInit).1.ready fresh n) ([] ++ ⟨4084, true⟩ :: []) := by
    have ht := tiled_mallocInit (newHeap Vmmngr.smallMachine.vmmngrInit).1 fresh hn (by omega)
    rwa [hpages, ← ready_of_not_inited (by rw [newHeap])] at ht
  obtain ⟨h', heq, hi, ht'⟩ := syscallMalloc_of_room ht (by simp [HeadPos]) hn ⟨by simp, Or.inl rfl⟩
    (by simp only; omega)
  refine ⟨h', heq, hi, ?_⟩
  rw [show 4072 - n.toNat = 4084 - n.toNat - 12 by omega]
  exact ht'

/-- A state after one request there, of 100 bytes. -/
theorem exists_reachable_smallMachine {P : HeapState → HeapCall → Prop}
    (hP : P (newHeap Vmmngr.smallMachine.vmmngrInit) (.malloc 100 fun _ => 0)) :
    ∃ s : HeapState, (heapSystem.restrict P).Reachable s ∧ s.2 = [(12, 100)] ∧
      s.1.mallocIniited = true ∧ Tiled s.1 [⟨100, false⟩, ⟨3972, true⟩] := by
  have hinit : (heapSystem.restrict P).Reachable (newHeap Vmmngr.smallMachine.vmmngrInit) :=
    .init (init_newHeap Vmmngr.init_smallMachine)
  obtain ⟨h', heq, hi, ht⟩ := syscallMalloc_smallMachine (n := 100) (fun _ => 0) (by decide) (by decide)
  have hstep : heapStep (newHeap Vmmngr.smallMachine.vmmngrInit) (.malloc 100 fun _ => 0)
      (h', [(12, 100)]) := ⟨12, heq, rfl⟩
  exact ⟨_, hinit.step ⟨hP, hstep⟩, rfl, hi, ht⟩

/-- One request of 100 bytes on the small machine. -/
theorem heap_tiled_one_request : ∃ s : HeapState, s.1.mallocIniited = true ∧ ∃ bs, Tiled s.1 bs := by
  have hm : (HeapCall.malloc 100 fun _ => 0).Moderate := ⟨by decide, by decide⟩
  have hsup : Supplied (newHeap Vmmngr.smallMachine.vmmngrInit) (.malloc 100 fun _ => 0) :=
    supplied_smallMachine (by decide) (by decide)
  have hfit : FitCond (newHeap Vmmngr.smallMachine.vmmngrInit).1 (BitVec.toNat 100#32) :=
    fitCond_newHeap Vmmngr.init_smallMachine (by decide) (by decide)
  obtain ⟨s, hreach, -, hi, -⟩ := exists_reachable_smallMachine
    (P := fun s c => c.Moderate ∧ Supplied s c ∧ c.Fitting s) ⟨hm, hsup, hfit⟩
  exact ⟨s, hi, (heap_tiled s hreach).1 hi⟩

/-- A first request of 4080 bytes puts the second header 4 bytes before the end of the heap. -/
theorem not_heap_tiled :
    ∃ s : HeapState, (heapSystem.restrict fun s c => c.Moderate ∧ Supplied s c).Reachable s ∧
      s.1.mallocIniited = true ∧ ¬ ∃ bs, Tiled s.1 bs := by
  have hinit : (heapSystem.restrict fun s c => c.Moderate ∧ Supplied s c).Reachable
      (newHeap Vmmngr.smallMachine.vmmngrInit) := .init (init_newHeap Vmmngr.init_smallMachine)
  have hsup : Supplied (newHeap Vmmngr.smallMachine.vmmngrInit) (.malloc 4080 fun _ => 0) :=
    supplied_smallMachine (by decide) (by decide)
  have hcall : ((newHeap Vmmngr.smallMachine.vmmngrInit).1.syscallMalloc (fun _ => 0) 4080).map
      (fun r => (nodeSize r.2.mem 0, nodeNext r.2.mem 0, r.2.totalMallocPages, r.2.mallocIniited)) =
      some (4080, 4092, 1, true) := by
    decide +kernel
  obtain ⟨⟨ptr, h'⟩, heq, hr⟩ := Option.map_eq_some_iff.mp hcall
  simp only [Prod.mk.injEq] at hr
  obtain ⟨hsize, hnext, htotal, hi⟩ := hr
  have hm : (HeapCall.malloc 4080 fun _ => 0).Moderate := ⟨by decide, by decide⟩
  have hstep : heapStep (newHeap Vmmngr.smallMachine.vmmngrInit) (.malloc 4080 fun _ => 0)
      (h', if ptr = 0 then [] else [(ptr, 4080)]) := ⟨ptr, heq, rfl⟩
  have hreach := System.Reachable.step hinit ⟨⟨hm, hsup⟩, hstep⟩
  refine ⟨_, hreach, hi, ?_⟩
  rintro ⟨bs, ht⟩
  have hsp := ht.span_eq
  have hlt := ht.span_lt
  have hc := ht.chain_zero
  -- the first block is followed by another, for which there are 4 bytes
  cases bs with
  | nil => exact ht.ne_nil rfl
  | cons b bs =>
    have h1 := congrArg BitVec.toNat (hc.1.size.symm.trans hsize)
    have hbs : bs ≠ [] := by
      rintro rfl
      have h2 := hc.1.next.symm.trans hnext
      rw [if_pos rfl] at h2
      exact absurd h2 (by decide)
    have h12 : 12 ≤ span 12 bs := by
      cases bs with
      | nil => exact absurd rfl hbs
      | cons c bs =>
        rw [Tiling.span_cons]
        omega
    rw [Tiling.span_cons] at hlt
    rw [BitVec.toNat_ofNat, show (4080 : BitVec 32).toNat = 4080 from rfl] at h1
    simp only [htotal] at hsp
    rw [show (1 : BitVec 32).toNat = 1 from rfl, Tiling.span_cons] at hsp
    omega

end FanOS.Malloc

import FanOS.VirtualMmngr.Basic

/-!
# The heap (`malloc.c`, `syscall.c`)

A singly linked list of blocks, each a header of 12 bytes (size, free flag, next) followed by its
payload, in a window of virtual memory that starts at `malloc_virt_addr` and grows by whole pages.
`malloc_next_block` takes the first free block that is large enough, or the last block, and splits
off the rest; `malloc_free` marks a block free; `merge_free_blocks` joins neighbours.

`mem` is memory as the kernel sees it at virtual addresses.  Mapping a page of the window makes it
show the contents of a frame; a call that maps pages is given these contents as `fresh`.  The bitmap
and the tables of the managers are apart from `mem`, as they are in the machine while the window
ends below them.  A loop
that follows pointers, or counts up a `uint32_t`, and has not ended after `2 ^ 32` rounds never
ends; such loops return `none` then.
-/

namespace FanOS

/-! ### Headers -/

/-- `sizeof(malloc_block_t)`. -/
def mallocBlockSize : BitVec 32 := 12

/-- `node->size`. -/
def nodeSize (m : Mem) (node : VirtualAddr) : BitVec 32 := m.load32 node
/-- `node->free`. -/
def nodeFree (m : Mem) (node : VirtualAddr) : BitVec 32 := m.load32 (node + 4)
/-- `node->next`. -/
def nodeNext (m : Mem) (node : VirtualAddr) : VirtualAddr := m.load32 (node + 8)

/-- `node->size = size`. -/
def setSize (m : Mem) (node : VirtualAddr) (size : BitVec 32) : Mem := m.store32 node size
/-- `node->free = free`. -/
def setFree (m : Mem) (node : VirtualAddr) (free : Bool) : Mem :=
  m.store32 (node + 4) (if free then 1 else 0)
/-- `node->next = next`. -/
def setNext (m : Mem) (node next : VirtualAddr) : Mem := m.store32 (node + 8) next

/-! ### State -/

/-- The static variables of `malloc.c`, the virtual memory manager and memory. -/
structure Malloc where
  vm : Vmmngr
  /-- Memory, at virtual addresses. -/
  mem : Mem
  mallocListHead : VirtualAddr
  mallocPhysAddr : PhysicalAddr
  totalMallocPages : BitVec 32
  mallocIniited : Bool

namespace Malloc

/-- `malloc_virt_addr`, which is never assigned. -/
def mallocVirtAddr : VirtualAddr := 0

/-- `is_malloc_inited`. -/
def isMallocInited (h : Malloc) : Bool := h.mallocIniited

/-- `vmmngr_map_page` on a page of the window, which then shows `fresh`. -/
def mapPage (h : Malloc) (fresh : Mem) (phys : PhysicalAddr) (virt : VirtualAddr) : Malloc :=
  { h with
    vm := h.vm.vmmngrMapPage phys virt
    mem := fun x => if x.toNat / 4096 = virt.toNat / 4096 then fresh x else h.mem x }

/-! ### Setting up -/

/-- The body of the loop of `malloc_init` over the pages. -/
def initPage (h : Malloc) (fresh : Mem) (phys : PhysicalAddr) (virt : VirtualAddr) : Malloc :=
  let h := h.mapPage fresh phys virt
  let page := h.vm.vmmngrGetPage virt
  { h with vm := { h.vm with mem := h.vm.mem.modify32 page (ptEntryAddAttrib · pteWritable) } }

/-- That loop, with `n` pages to go. -/
def initPages (fresh : Mem) : ℕ → PhysicalAddr → VirtualAddr → Malloc → Malloc
  | 0, _, _, h => h
  | n + 1, phys, virt, h =>
    initPages fresh n (phys + pageSize) (virt + pageSize) (h.initPage fresh phys virt)

/-- The number of pages that `malloc_init` takes. -/
def initPageCount (bytes : BitVec 32) : BitVec 32 :=
  if bytes % pageSize > 0 then bytes / pageSize + 1 else bytes / pageSize

/-- The beginning of `malloc_init`, up to the loop over the pages. -/
def takePages (h : Malloc) (bytes : BitVec 32) : Malloc :=
  let totalMallocPages := initPageCount bytes
  { h with
    vm := { h.vm with pmm := (h.vm.pmm.pmmngrAllocBlocks totalMallocPages).2 }
    totalMallocPages := totalMallocPages
    mallocPhysAddr := (h.vm.pmm.pmmngrAllocBlocks totalMallocPages).1
    mallocListHead := mallocVirtAddr }

/-- `malloc_init`. -/
def mallocInit (h : Malloc) (fresh : Mem) (bytes : BitVec 32) : Malloc :=
  let h := h.takePages bytes
  let h := initPages fresh h.totalMallocPages.toNat h.mallocPhysAddr mallocVirtAddr h
  let mem := setSize h.mem h.mallocListHead (h.totalMallocPages * pageSize - mallocBlockSize)
  let mem := setFree mem h.mallocListHead true
  let mem := setNext mem h.mallocListHead 0
  { h with mem := mem, mallocIniited := true }

/-! ### Allocation -/

/-- `malloc_split`. -/
def mallocSplit (m : Mem) (node : VirtualAddr) (size : BitVec 32) : Mem :=
  let newNode := node + size + mallocBlockSize
  let m := setSize m newNode (nodeSize m node - size - mallocBlockSize)
  let m := setFree m newNode true
  let m := setNext m newNode (nodeNext m node)
  let m := setSize m node size
  let m := setFree m node false
  setNext m node newNode

/-- The search of `malloc_next_block`:
`while (cur->next && (cur->size < size || cur->free == false)) cur = cur->next`. -/
def searchLoop (m : Mem) (size : BitVec 32) : ℕ → VirtualAddr → Option VirtualAddr
  | 0, _ => none
  | k + 1, cur =>
    if nodeNext m cur ≠ 0 ∧ (nodeSize m cur < size ∨ nodeFree m cur = 0) then
      searchLoop m size k (nodeNext m cur)
    else some cur

/-- `while (cur->size + page_count * PAGE_SIZE < size + sizeof(malloc_block_t)) page_count++`. -/
def pageCountLoop (curSize size : BitVec 32) : ℕ → BitVec 32 → Option (BitVec 32)
  | 0, _ => none
  | k + 1, pageCount =>
    if curSize + pageCount * pageSize < size + mallocBlockSize then
      pageCountLoop curSize size k (pageCount + 1)
    else some pageCount

/-- The body of the loop of `malloc_next_block` that adds pages to the block `cur`. -/
def growPage (h : Malloc) (fresh : Mem) (cur virt : VirtualAddr) : Malloc :=
  let phys := (h.vm.vmmngrAllocPage 0).1
  let h := { h with vm := (h.vm.vmmngrAllocPage 0).2.2 }
  if phys ≠ 0 then
    let h := h.mapPage fresh phys virt
    { h with
      mem := setSize h.mem cur (nodeSize h.mem cur + pageSize)
      totalMallocPages := h.totalMallocPages + 1 }
  else h

/-- That loop, with `n` pages to go. -/
def growLoop (fresh : Mem) (cur : VirtualAddr) : ℕ → VirtualAddr → Malloc → Malloc
  | 0, _, h => h
  | n + 1, virt, h => growLoop fresh cur n (virt + pageSize) (h.growPage fresh cur virt)

/-- `malloc_next_block`: the pointer to the payload (or null) and the new state. -/
def mallocNextBlock (h : Malloc) (fresh : Mem) (size : BitVec 32) :
    Option (VirtualAddr × Malloc) :=
  if size = 0 then some (0, h)
  else
    let h := if nodeSize h.mem h.mallocListHead = 0 then h.mallocInit fresh size else h
    match searchLoop h.mem size (2 ^ 32) h.mallocListHead with
    | none => none
    | some cur =>
      if nodeSize h.mem cur = size then
        some (cur + mallocBlockSize, { h with mem := setFree h.mem cur false })
      else if size < nodeSize h.mem cur then
        some (cur + mallocBlockSize, { h with mem := mallocSplit h.mem cur size })
      else
        match pageCountLoop (nodeSize h.mem cur) size (2 ^ 32) 1 with
        | none => none
        | some pageCount =>
          let virt := mallocVirtAddr + h.totalMallocPages * pageSize
          let h := growLoop fresh cur pageCount.toNat virt h
          some (cur + mallocBlockSize, { h with mem := mallocSplit h.mem cur size })

/-! ### Freeing -/

/-- The loop of `merge_free_blocks`. -/
def mergeLoop : ℕ → Mem → VirtualAddr → Option Mem
  | 0, _, _ => none
  | k + 1, m, cur =>
    if cur ≠ 0 ∧ nodeNext m cur ≠ 0 then
      let m :=
        if nodeFree m cur ≠ 0 ∧ nodeNext m cur ≠ 0 then
          let m := setSize m cur (nodeSize m cur + (nodeSize m (nodeNext m cur) + mallocBlockSize))
          setNext m cur (nodeNext m (nodeNext m cur))
        else m
      mergeLoop k m (nodeNext m cur)
    else some m

/-- `merge_free_blocks`. -/
def mergeFreeBlocks (h : Malloc) : Option Malloc :=
  (mergeLoop (2 ^ 32) h.mem h.mallocListHead).map fun mem => { h with mem := mem }

/-- The loop of `malloc_free`. -/
def freeLoop (h : Malloc) (ptr : VirtualAddr) : ℕ → VirtualAddr → Option Malloc
  | 0, _ => none
  | k + 1, cur =>
    if nodeNext h.mem cur ≠ 0 then
      if cur + mallocBlockSize = ptr then
        mergeFreeBlocks { h with mem := setFree h.mem cur true }
      else freeLoop h ptr k (nodeNext h.mem cur)
    else some h

/-- `malloc_free`. -/
def mallocFree (h : Malloc) (ptr : VirtualAddr) : Option Malloc :=
  freeLoop h ptr (2 ^ 32) h.mallocListHead

/-! ### System calls -/

/-- `syscall_malloc`: the pointer left in `EDX` and the new state. -/
def syscallMalloc (h : Malloc) (fresh : Mem) (bytes : BitVec 32) : Option (VirtualAddr × Malloc) :=
  let h := if h.isMallocInited = false then h.mallocInit fresh bytes else h
  match h.mallocNextBlock fresh bytes with
  | none => none
  | some (ptr, h) => h.mergeFreeBlocks.map fun h => (ptr, h)

/-- `syscall_free`. -/
def syscallFree (h : Malloc) (ptr : VirtualAddr) : Option Malloc := h.mallocFree ptr

end Malloc

end FanOS

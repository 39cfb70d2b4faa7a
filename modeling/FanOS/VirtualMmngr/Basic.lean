import FanOS.Memory.Tables
import FanOS.PhysicalMmngr.Basic

/-!
# The virtual memory manager (`virutal_mmngr.c`, `vmmngr_pte.c`, `vmmngr_pde.c`)

A page directory and page tables of 1024 entries each, kept in blocks that the physical memory
manager hands out.  `vmmngr_init` sets up the directory, a table that maps the first 4 MiB to
themselves and a table that maps 3 GiB to the kernel; `vmmngr_map_page` and `vmmngr_unmap_page`
change single entries, the first allocating a table when there is none.

Directory and tables are read and written at their physical addresses in `mem`; the bitmap of the
physical memory manager has a memory of its own.  A pointer into a table is its address.  `walk`
is not part of the code: it is what the processor makes of the tables.
-/

namespace FanOS

open Mem (entry)

/-- `virtual_addr`. -/
abbrev VirtualAddr := BitVec 32

/-! ### Entries -/

/-- `PAGE_SIZE`. -/
def pageSize : BitVec 32 := 4096

/-- `PAGES_PER_TABLE`. -/
def pagesPerTable : ℕ := 1024

/-- `PTE_PRESENT` and `PDE_PRESENT`. -/
def ptePresent : BitVec 32 := 1
/-- `PTE_WRITABLE` and `PDE_WRITABLE`. -/
def pteWritable : BitVec 32 := 2
/-- `PTE_USER` and `PDE_USER`. -/
def pteUser : BitVec 32 := 4
/-- `PTE_FRAME` and `PDE_FRAME`. -/
def pteFrame : BitVec 32 := 0x7FFFF000

@[inherit_doc ptePresent] def pdePresent : BitVec 32 := ptePresent
@[inherit_doc pteWritable] def pdeWritable : BitVec 32 := pteWritable
@[inherit_doc pteUser] def pdeUser : BitVec 32 := pteUser
@[inherit_doc pteFrame] def pdeFrame : BitVec 32 := pteFrame

/-- Set a flag in an entry. -/
def entryAddAttrib (e attrib : BitVec 32) : BitVec 32 := e ||| attrib

/-- Clear a flag in an entry. -/
def entryDelAttrib (e attrib : BitVec 32) : BitVec 32 := e &&& ~~~attrib

/-- Put a frame address into the bits of an entry that `mask` selects. -/
def entrySetFrame (mask e addr : BitVec 32) : BitVec 32 := (e &&& ~~~mask) ||| addr

/-- `pt_entry_add_attrib`. -/
def ptEntryAddAttrib := entryAddAttrib
/-- `pt_entry_del_attrib`. -/
def ptEntryDelAttrib := entryDelAttrib
/-- `pt_entry_set_frame`. -/
def ptEntrySetFrame := entrySetFrame pteFrame
/-- `pt_entry_pfn`. -/
def ptEntryPfn (e : BitVec 32) : PhysicalAddr := e &&& pteFrame

/-- `pd_entry_add_attrib`. -/
def pdEntryAddAttrib := entryAddAttrib
/-- `pd_entry_set_frame`. -/
def pdEntrySetFrame := entrySetFrame pdeFrame
/-- `pd_entry_is_present`. -/
def pdEntryIsPresent (e : BitVec 32) : BitVec 8 := (e &&& pdePresent).setWidth 8

/-- `PAGE_DIR_INDEX`. -/
def pageDirIndex (x : VirtualAddr) : BitVec 32 := (x >>> 22) &&& 0x3FF

/-- `PAGE_TABLE_INDEX`. -/
def pageTableIndex (x : VirtualAddr) : BitVec 32 := (x >>> 12) &&& 0x3FF

/-- `PAGE_GET_PHYSICAL_ADDRESS`, of the entry pointed to. -/
def pageGetPhysicalAddress (e : BitVec 32) : PhysicalAddr := e &&& ~~~0xFFF

/-! ### State -/

/-- The static variable of `virutal_mmngr.c`, the processor's control registers, and the memory of
the tables. -/
structure Vmmngr where
  pmm : Pmmngr
  /-- Physical memory, as far as directory and tables are concerned. -/
  mem : Mem
  /-- The pointer `curdir`. -/
  curdir : PhysicalAddr
  cr3 : PhysicalAddr
  /-- Bit 31 of `CR0`. -/
  paging : Bool

namespace Vmmngr

/-- `vmmngr_get_directory`. -/
def vmmngrGetDirectory (s : Vmmngr) : PhysicalAddr := s.curdir

/-- `vmmngr_ptable_get_entry`: a pointer to the entry, or null. -/
def vmmngrPtableGetEntry (table : PhysicalAddr) (addr : VirtualAddr) : PhysicalAddr :=
  if table ≠ 0 then entry table (pageTableIndex addr) else 0

/-- `vmmngr_pdirectory_get_entry`: a pointer to the entry, or null. -/
def vmmngrPdirectoryGetEntry (dir : PhysicalAddr) (addr : VirtualAddr) : PhysicalAddr :=
  if dir ≠ 0 then entry dir (pageDirIndex addr) else 0

/-- `vmmngr_get_page`: a pointer to the page table entry of `addr`, or null. -/
def vmmngrGetPage (s : Vmmngr) (addr : VirtualAddr) : PhysicalAddr :=
  let dir := s.vmmngrGetDirectory
  let e := vmmngrPdirectoryGetEntry dir addr
  let table := pageGetPhysicalAddress (s.mem.load32 e)
  vmmngrPtableGetEntry table addr

/-- `vmmngr_alloc_page` on the entry `e`: the frame (or null), the entry and the new state. -/
def vmmngrAllocPage (s : Vmmngr) (e : BitVec 32) : PhysicalAddr × BitVec 32 × Vmmngr :=
  let p := s.pmm.pmmngrAllocBlock.1
  let s := { s with pmm := s.pmm.pmmngrAllocBlock.2 }
  if p = 0 then (0, e, s)
  else (p, ptEntryAddAttrib (ptEntrySetFrame e p) ptePresent, s)

/-- `vmmngr_free_page` on the entry `e`: the entry and the new state. -/
def vmmngrFreePage (s : Vmmngr) (e : BitVec 32) : BitVec 32 × Vmmngr :=
  let p := ptEntryPfn e
  let s := if p ≠ 0 then { s with pmm := s.pmm.pmmngrFreeBlock p } else s
  (ptEntryDelAttrib e ptePresent, s)

/-- `vmmngr_virt_to_phys`.  The frame is a pointer to words of four bytes, and the offset is added to
the pointer. -/
def vmmngrVirtToPhys (s : Vmmngr) (addr : VirtualAddr) : PhysicalAddr :=
  let page := s.vmmngrGetPage addr
  let frame := pageGetPhysicalAddress (s.mem.load32 page)
  let offset := addr &&& 0xFFF
  frame + 4 * offset

/-- `vmmngr_switch_pdirectory`, less its return value. -/
def vmmngrSwitchPdirectory (s : Vmmngr) (dir : PhysicalAddr) : Vmmngr :=
  if dir = 0 then s else { s with curdir := dir, cr3 := dir }

/-- `vmmngr_enable_paging`. -/
def vmmngrEnablePaging (s : Vmmngr) : Vmmngr := { s with paging := true }

/-! ### Mapping -/

/-- The end of `vmmngr_map_page`, with `e` pointing to the directory entry of a present table. -/
def mapEntry (s : Vmmngr) (e : PhysicalAddr) (physAddr : PhysicalAddr) (virtAddr : VirtualAddr) :
    Vmmngr :=
  let table := pageGetPhysicalAddress (s.mem.load32 e)
  let page := vmmngrPtableGetEntry table virtAddr
  let mem := s.mem.modify32 page (ptEntryAddAttrib · ptePresent)
  { s with mem := mem.modify32 page (ptEntrySetFrame · physAddr) }

/-- `vmmngr_map_page`. -/
def vmmngrMapPage (s : Vmmngr) (physAddr : PhysicalAddr) (virtAddr : VirtualAddr) : Vmmngr :=
  let dir := s.vmmngrGetDirectory
  let e := vmmngrPdirectoryGetEntry dir virtAddr
  if pdEntryIsPresent (s.mem.load32 e) = 0 then
    let table := s.pmm.pmmngrAllocBlock.1
    let s := { s with pmm := s.pmm.pmmngrAllocBlock.2 }
    if table = 0 then s
    else
      let mem := s.mem.memset table 0 4096
      let entry := vmmngrPdirectoryGetEntry dir virtAddr
      let mem := mem.modify32 entry (pdEntryAddAttrib · pdePresent)
      let mem := mem.modify32 entry (pdEntryAddAttrib · pdeWritable)
      let mem := mem.modify32 entry (pdEntrySetFrame · table)
      mapEntry { s with mem := mem } e physAddr virtAddr
  else mapEntry s e physAddr virtAddr

/-- `vmmngr_unmap_page`. -/
def vmmngrUnmapPage (s : Vmmngr) (addr : VirtualAddr) : Vmmngr :=
  let page := s.vmmngrGetPage addr
  if page = 0 then s
  else
    let mem := s.mem.modify32 page (ptEntrySetFrame · 0)
    { s with mem := mem.modify32 page (ptEntryDelAttrib · ptePresent) }

/-! ### Setting up -/

/-- A loop of `vmmngr_init` over a table, with `n` rounds to go: each entry is `page` with its
frame set. -/
def fillTable (table page : BitVec 32) : ℕ → PhysicalAddr → VirtualAddr → Mem → Mem
  | 0, _, _, m => m
  | n + 1, frame, virt, m =>
    fillTable table page n (frame + pageSize) (virt + pageSize)
      (m.store32 (entry table (pageTableIndex virt)) (ptEntrySetFrame page frame))

/-- A page of the first 4 MiB, before its frame is set. -/
def defaultPage : BitVec 32 :=
  ptEntryAddAttrib (ptEntryAddAttrib (ptEntryAddAttrib 0 ptePresent) pteWritable) pteUser

/-- A page of the kernel's table, before its frame is set. -/
def kernelPage : BitVec 32 := ptEntryAddAttrib (ptEntryAddAttrib 0 ptePresent) pteUser

/-- `vmmngr_init` between the allocation of the tables and that of the directory. -/
def initTables (defaultPageTable kernelPageTable : PhysicalAddr) (m : Mem) : Mem :=
  let m := m.memset defaultPageTable 0 4096
  let m := m.memset kernelPageTable 0 4096
  let m := fillTable defaultPageTable defaultPage pagesPerTable 0x0 0x00000000 m
  fillTable kernelPageTable kernelPage pagesPerTable 0x100000 0xC0000000 m

/-- Enter a table into the directory entry pointed to, as `vmmngr_init` does it twice. -/
def initEntry (e : PhysicalAddr) (table : PhysicalAddr) (m : Mem) : Mem :=
  let m := m.modify32 e (pdEntryAddAttrib · pdePresent)
  let m := m.modify32 e (pdEntryAddAttrib · pdeWritable)
  let m := m.modify32 e (pdEntryAddAttrib · pdeUser)
  m.modify32 e (pdEntrySetFrame · table)

/-- `vmmngr_init`. -/
def vmmngrInit (s : Vmmngr) : Vmmngr :=
  let defaultPageTable := s.pmm.pmmngrAllocBlock.1
  let s := { s with pmm := s.pmm.pmmngrAllocBlock.2 }
  if defaultPageTable = 0 then s
  else
    let kernelPageTable := s.pmm.pmmngrAllocBlock.1
    let s := { s with pmm := s.pmm.pmmngrAllocBlock.2 }
    if kernelPageTable = 0 then s
    else
      let s := { s with mem := initTables defaultPageTable kernelPageTable s.mem }
      let dir := (s.pmm.pmmngrAllocBlocks 3).1
      let s := { s with pmm := (s.pmm.pmmngrAllocBlocks 3).2 }
      if dir = 0 then s
      else
        let mem := s.mem.memset dir 0 4096
        let mem := initEntry (vmmngrPdirectoryGetEntry dir 0x00000000) defaultPageTable mem
        let mem := initEntry (vmmngrPdirectoryGetEntry dir 0xC0000000) kernelPageTable mem
        (({ s with mem := mem } : Vmmngr).vmmngrSwitchPdirectory dir).vmmngrEnablePaging

/-! ### The hardware walk -/

/-- What the processor finds for a page that is present: the flags of both levels and the frame. -/
structure Translation where
  pdeFlags : BitVec 32
  pteFlags : BitVec 32
  frame : PhysicalAddr
  deriving DecidableEq

/-- The processor's two-level walk from `CR3`: `none` when an entry on the way is not present. -/
def walk (s : Vmmngr) (v : VirtualAddr) : Option Translation :=
  let pde := s.mem.load32 (entry (s.cr3 &&& ~~~0xFFF) (v >>> 22))
  if pde.getLsbD 0 then
    let pte := s.mem.load32 (entry (pde &&& ~~~0xFFF) ((v >>> 12) &&& 0x3FF))
    if pte.getLsbD 0 then some ⟨pde &&& 0xFFF, pte &&& 0xFFF, pte &&& ~~~0xFFF⟩ else none
  else none

end Vmmngr

end FanOS

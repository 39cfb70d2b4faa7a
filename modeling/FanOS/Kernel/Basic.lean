import FanOS.PhysicalMmngr.Basic

/-!
# Memory set-up in `kmain` (`kernel.c`)

`kmain` reads the memory map that the loader left at `0x1000` (the number of entries, then the
entries), sizes physical memory by its last entry, frees the available regions and reserves the
memory of the BIOS and loader, of the bitmap and of the kernel image.  Bases and sizes are 64-bit;
they are cut to 32 bits where they are passed to the physical memory manager.
-/

namespace FanOS.Kernel

open Pmmngr

/-- `MEMMAP_ADDRESS`. -/
def memmapAddress : PhysicalAddr := 0x30000

/-- `KERNEL_ADDRESS`. -/
def kernelAddress : PhysicalAddr := 0x100000

/-- `SMAP_entry_t`, less the field `acpi`, which is not read. -/
structure SMAPEntry where
  base : BitVec 64
  size : BitVec 64
  type : BitVec 32
  deriving DecidableEq

/-- `SMAP_ENTRY_COUNT_ADDRESS`. -/
def smapEntryCountAddress : PhysicalAddr := 0x1000

/-- `SMAP_ENTRY_ADDRESS`. -/
def smapEntryAddress : PhysicalAddr := 0x1004

/-- `sizeof(SMAP_entry_t)`. -/
def smapEntrySize : ℕ := 24

/-- `*entry`. -/
def loadEntry (mem : Mem) (entry : PhysicalAddr) : SMAPEntry where
  base := mem.load32 (entry + 4) ++ mem.load32 entry
  size := mem.load32 (entry + 12) ++ mem.load32 (entry + 8)
  type := mem.load32 (entry + 16)

/-- The memory map as `kmain` goes through it. -/
def smapEntries (mem : Mem) : List SMAPEntry :=
  (List.range (mem.load32 smapEntryCountAddress).toNat).map fun i =>
    loadEntry mem (smapEntryAddress + BitVec.ofNat 32 (smapEntrySize * i))

/-- The loop body of `kmain` over the memory map: free the region of an entry of type 1. -/
def importEntry (s : Pmmngr) (entry : SMAPEntry) : Pmmngr :=
  if entry.type = 1 then s.pmmngrInitRegion (entry.base.setWidth 32) (entry.size.setWidth 32) else s

/-- `total_memory`: the last byte of the last entry, cut to 32 bits. -/
def totalMemory (entries : List SMAPEntry) (h : entries ≠ []) : BitVec 32 :=
  let lastEntry := entries.getLast h
  (lastEntry.base + lastEntry.size - 1).setWidth 32

/-- `kmain` up to the end of the loop over the memory map. -/
def kmainImport (mem : Mem) (entries : List SMAPEntry) (h : entries ≠ []) : Pmmngr :=
  entries.foldl importEntry (pmmngrInit mem memmapAddress (totalMemory entries h))

/-- The three reservations of `kmain`: BIOS and loader, bitmap, kernel image. -/
def kmainReserve (s : Pmmngr) (kernelSize : BitVec 32) : Pmmngr :=
  let s := s.pmmngrDeinitRegion 0x1000 0x15000
  let s := s.pmmngrDeinitRegion memmapAddress (s.pmmngrGetBlockCount / blocksPerByte)
  s.pmmngrDeinitRegion kernelAddress (kernelSize * 512)

/-- The physical memory manager as `kmain` leaves it to `vmmngr_init`. -/
def kmainMemory (mem : Mem) (entries : List SMAPEntry) (h : entries ≠ []) (kernelSize : BitVec 32) :
    Pmmngr := kmainReserve (kmainImport mem entries h) kernelSize

end FanOS.Kernel

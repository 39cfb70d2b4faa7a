import FanOS.Memory.Bits

/-!
# The physical memory manager (`physical_mmngr.c`)

A bitmap of 4 KiB blocks (`1`: allocated, `0`: available) kept in memory at `memory_map`, and a
counter of used blocks beside it.  `pmmngr_init` marks everything used, `pmmngr_init_region` and
`pmmngr_deinit_region` mark ranges free and used, `pmmngr_alloc_blocks` searches the bitmap for a
run of free blocks and `pmmngr_free_blocks` returns one.

The bitmap is read and written as the source does it, a 32-bit word at a time, in the memory
`mem`; `marked` is the reading of it that the proofs use.  `uint32_t` values are `BitVec 32`;
loop counters that stay below a `uint32_t` bound are natural numbers.  `int32_t` results are
their two's complement words, so `-1` is `0xFFFFFFFF`.
-/

namespace FanOS

/-- `physical_addr`. -/
abbrev PhysicalAddr := BitVec 32

/-- `BLOCKS_PER_BYTE`. -/
def blocksPerByte : BitVec 32 := 8

/-- `BLOCK_SIZE` (4 KiB). -/
def blockSize : BitVec 32 := 4096

/-- The static variables of `physical_mmngr.c` and the memory that holds the bitmap.
`max_blocks` is only ever written together with `memory_size`, as its quotient by the block
size. -/
structure Pmmngr where
  /-- Physical memory, as far as the bitmap is concerned. -/
  mem : Mem
  /-- The pointer `memory_map`. -/
  memoryMap : PhysicalAddr
  memorySize : BitVec 32
  usedBlocks : BitVec 32
  maxBlocks : BitVec 32
  maxBlocks_eq : maxBlocks = memorySize / blockSize

namespace Pmmngr

/-- `pmmngr_get_memory_size`. -/
def pmmngrGetMemorySize (s : Pmmngr) : BitVec 32 := s.memorySize

/-- `pmmngr_get_block_count`. -/
def pmmngrGetBlockCount (s : Pmmngr) : BitVec 32 := s.maxBlocks

/-- `pmmngr_get_used_block_count`. -/
def pmmngrGetUsedBlockCount (s : Pmmngr) : BitVec 32 := s.usedBlocks

/-- `pmmngr_get_free_block_count`. -/
def pmmngrGetFreeBlockCount (s : Pmmngr) : BitVec 32 := s.maxBlocks - s.usedBlocks

/-! ### The bitmap -/

/-- `mmap_set`: `memory_map[bit / 32] |= (1 << (bit % 32))`. -/
def mmapSet (s : Pmmngr) (bit : BitVec 32) : Pmmngr :=
  let a := s.memoryMap + 4 * (bit / 32)
  { s with mem := s.mem.store32 a (s.mem.load32 a ||| (1#32 <<< (bit % 32))) }

/-- `mmap_unset`: `memory_map[bit / 32] &= ~(1 << (bit % 32))`. -/
def mmapUnset (s : Pmmngr) (bit : BitVec 32) : Pmmngr :=
  let a := s.memoryMap + 4 * (bit / 32)
  { s with mem := s.mem.store32 a (s.mem.load32 a &&& ~~~(1#32 <<< (bit % 32))) }

/-- `memory_map[i]`. -/
def mapWord (s : Pmmngr) (i : ℕ) : BitVec 32 := s.mem.load32 (Mem.word s.memoryMap i)

/-- `memory_map[i] & (1 << j)` is zero: the search's test for a free block. -/
def wordBitClear (s : Pmmngr) (i j : ℕ) : Bool := s.mapWord i &&& (1#32 <<< j) == 0

/-- The loop that moves `idx` on by `idx_count` words, but not past the last one:
`for (; idx_count > 0 && idx + 1 < mmap_size; idx_count--) idx++`. -/
def idxLoop (mmapSize : ℕ) : ℕ → ℕ → ℕ
  | 0, idx => idx
  | idxCount + 1, idx => if idx + 1 < mmapSize then idxLoop mmapSize idxCount (idx + 1) else idx

/-- The loop over `count`, entered with `k = blocks - count` rounds to go: does it return? -/
def countLoop (s : Pmmngr) (mmapSize i j blocks : ℕ) : ℕ → ℕ → Bool
  | 0, _ => false
  | k + 1, freeBlocks =>
    let count := blocks - (k + 1)
    let bit := (j + count) % 2 ^ 32
    let idx := idxLoop mmapSize (bit / 32) i
    let freeBlocks := if s.wordBitClear idx (bit % 32) then freeBlocks + 1 else freeBlocks
    if freeBlocks = blocks then true else countLoop s mmapSize i j blocks k freeBlocks

/-- `mmap_first_free_blocks`: the first block at which the search settles, or `-1`. -/
def mmapFirstFreeBlocks (s : Pmmngr) (blocks : BitVec 32) : BitVec 32 :=
  if blocks = 0 then -1
  else
    let mmapSize := (s.pmmngrGetBlockCount / 32).toNat
    let found := (List.range mmapSize).findSome? fun i =>
      if s.mapWord i ≠ 0xFFFFFFFF then
        (List.range 32).findSome? fun j =>
          if s.wordBitClear i (j % 32) && s.countLoop mmapSize i j blocks.toNat blocks.toNat 0 then
            some (i * 32 + j)
          else none
      else none
    match found with
    | some block => BitVec.ofNat 32 block
    | none => -1

/-! ### Setting up -/

/-- A loop that visits `n` consecutive blocks, the first being `block`. -/
def forBlocks (f : Pmmngr → BitVec 32 → Pmmngr) : ℕ → BitVec 32 → Pmmngr → Pmmngr
  | 0, _, s => s
  | n + 1, block, s => forBlocks f n (block + 1) (f s block)

/-- `pmmngr_init`, in memory `mem`. -/
def pmmngrInit (mem : Mem) (startAddress : PhysicalAddr) (size : BitVec 32) : Pmmngr :=
  let maxBlocks := size / blockSize
  { mem := mem.memset startAddress 0xFF (maxBlocks / blocksPerByte).toNat
    memoryMap := startAddress
    memorySize := size
    usedBlocks := maxBlocks
    maxBlocks := maxBlocks
    maxBlocks_eq := rfl }

/-- The loop body of `pmmngr_init_region`: `mmap_unset(align++); used_blocks--`. -/
def initBlock (s : Pmmngr) (align : BitVec 32) : Pmmngr :=
  { s.mmapUnset align with usedBlocks := s.usedBlocks - 1 }

/-- `pmmngr_init_region`: mark the blocks free and count them down, then mark block 0 used. -/
def pmmngrInitRegion (s : Pmmngr) (base : PhysicalAddr) (size : BitVec 32) : Pmmngr :=
  let align := base / blockSize
  let blocks := size / blockSize
  (forBlocks initBlock blocks.toNat align s).mmapSet 0

/-- The loop body of `pmmngr_deinit_region`: `mmap_set(align++); used_blocks++`. -/
def deinitBlock (s : Pmmngr) (align : BitVec 32) : Pmmngr :=
  { s.mmapSet align with usedBlocks := s.usedBlocks + 1 }

/-- `pmmngr_deinit_region`: mark the blocks used and count them up. -/
def pmmngrDeinitRegion (s : Pmmngr) (base : PhysicalAddr) (size : BitVec 32) : Pmmngr :=
  let align := base / blockSize
  let blocks := size / blockSize
  forBlocks deinitBlock blocks.toNat align s

/-! ### Allocation -/

/-- `pmmngr_alloc_blocks`: the address of the run (or null), and the new state. -/
def pmmngrAllocBlocks (s : Pmmngr) (blocks : BitVec 32) : PhysicalAddr × Pmmngr :=
  if s.pmmngrGetFreeBlockCount ≤ blocks then (0, s)
  else
    let startingBlock := s.mmapFirstFreeBlocks blocks
    if startingBlock = -1 then (0, s)
    else
      let s' := forBlocks mmapSet blocks.toNat startingBlock s
      (startingBlock * blockSize, { s' with usedBlocks := s'.usedBlocks + blocks })

/-- `pmmngr_alloc_block`. -/
def pmmngrAllocBlock (s : Pmmngr) : PhysicalAddr × Pmmngr := s.pmmngrAllocBlocks 1

/-- `pmmngr_free_blocks`. -/
def pmmngrFreeBlocks (s : Pmmngr) (address : PhysicalAddr) (blocks : BitVec 32) : Pmmngr :=
  let startingBlock := address / blockSize
  let s' := forBlocks mmapUnset blocks.toNat startingBlock s
  { s' with usedBlocks := s'.usedBlocks - blocks }

/-- `pmmngr_free_block`. -/
def pmmngrFreeBlock (s : Pmmngr) (address : PhysicalAddr) : Pmmngr := s.pmmngrFreeBlocks address 1

/-! ### Reading the state -/

/-- Block `b` is marked used in the bitmap. -/
def marked (s : Pmmngr) (b : ℕ) : Bool := s.mem.bit s.memoryMap b

/-- The number of whole words of the bitmap: the part `mmap_first_free_blocks` walks over. -/
def mapWords (s : Pmmngr) : ℕ := s.maxBlocks.toNat / 32

end Pmmngr

end FanOS

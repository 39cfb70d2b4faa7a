import FanOS.Boot.Basic
import FanOS.Compaction.Basic
import FanOS.Kernel.Basic
import FanOS.Loop.Basic

/-!
# The memory map (`memory.inc`)

`get_memory_map` calls `int 15h` with `EAX = E820h` until `EBX` is zero, and `main` stores the number of
entries in front of them.  Behind the first call the carry flag and `EAX` are tested, and a zero in `EBX` is
taken for a failure too; behind the others only `EBX` is.

`Report` is what the BIOS answers.  The call after the one with the last entry fails, unless that one has
set `EBX` to zero, and those after it fail too; registers are then whatever they are.
-/

namespace FanOS.Boot

open Kernel (SMAPEntry)

/-! ### The BIOS -/

/-- An entry as the BIOS writes it. -/
structure Range where
  bytes : ℕ → BitVec 8
  /-- It is 24 bytes and not 20: the extended attributes are among them. -/
  extended : Bool

namespace Range

variable (r : Range)

/-- The number of its bytes. -/
def length : ℕ := if r.extended then 24 else 20

/-- Its meaning. -/
def entry : SMAPEntry := Kernel.loadEntry (fun a => r.bytes a.toNat) 0

/-- Its length is not zero. -/
def present : Bool := r.entry.size ≠ 0

end Range

/-- The answers of the BIOS, by calls. -/
structure Report where
  ranges : List Range
  ranges_ne_nil : ranges ≠ []
  /-- `EBX` after a call. -/
  ebx : ℕ → BitVec 32
  ebx_ne_zero : ∀ k, k + 1 < ranges.length → ebx k ≠ 0
  /-- `EAX` and `ECX` after a call that fails. -/
  eax : ℕ → BitVec 32
  ecx : ℕ → BitVec 32

/-- The entries of non-zero length. -/
def Report.present (ρ : Report) : List Range := ρ.ranges.filter Range.present

/-! ### Collecting -/

/-- Registers and memory, and the number of calls so far. -/
structure Regs where
  calls : ℕ
  carry : Bool
  eax : BitVec 32
  ebx : BitVec 32
  ecx : BitVec 32
  bp : BitVec 16
  di : BitVec 16
  mem : Mem

/-- `'PAMS'`. -/
def pams : BitVec 32 := 0x534D4150

/-- `memmap_entry_count`. -/
def memmapEntryCount : BitVec 32 := 0x1000

/-- Where `main` lets the entries begin. -/
def memmapEntries : BitVec 16 := 0x1004

section

variable (ρ : Report)

/-- `int 0x15`, with a buffer of 24 bytes at `es:di`.  The stack holds the return address of
`get_memory_map` and the frame of the interrupt. -/
def int15 (s : Regs) : Except Failure Regs :=
  if s.di.toNat + 24 ≤ stackTop - 8 then
    match ρ.ranges[s.calls]? with
    | some r =>
      .ok { s with
        calls := s.calls + 1
        carry := false
        eax := pams
        ebx := ρ.ebx s.calls
        ecx := BitVec.ofNat 32 r.length
        mem := s.mem.storeBlock (linear 0 s.di) r.length r.bytes }
    | none =>
      .ok { s with
        calls := s.calls + 1
        carry := true
        eax := ρ.eax s.calls
        ebx := ρ.ebx s.calls
        ecx := ρ.ecx s.calls }
  else .error .stackOverwritten

/-- `.good_entry`. -/
def goodEntry (s : Regs) : Regs := { s with bp := s.bp + 1, di := s.di + 24 }

/-- From `.start` to `.skip_entry`. -/
def start (s : Regs) : Regs :=
  if s.ecx.setWidth 16 = (0 : BitVec 16) then s
  else if s.mem.load32 (linear 0 (s.di + 8)) ≠ 0 then goodEntry s
  else if s.mem.load32 (linear 0 (s.di + 12)) = 0 then s
  else goodEntry s

/-- `.skip_entry`: the next call, or the end. -/
def skipEntry (s : Regs) : Regs ⊕ Except Failure Regs :=
  if s.ebx ≠ 0 then
    match int15 ρ s with
    | .ok s => .inl s
    | .error e => .inr (.error e)
  else .inr (.ok { s with carry := false })

/-- A round of the loop, from the end of its call to that of the next one. -/
def round (s : Regs) : Regs ⊕ Except Failure Regs := skipEntry ρ (start s)

/-- `get_memory_map`, cut off after `n` rounds of its loop. -/
def getMemoryMap (m : Mem) (n : ℕ) : Option (Except Failure Regs) :=
  let s : Regs :=
    { calls := 0
      carry := false
      eax := 0xE820
      ebx := 0
      ecx := 24
      bp := 0
      di := memmapEntries
      mem := m.store32 (linear 0 (memmapEntries + 20)) 1 }
  match int15 ρ s with
  | .error e => some (.error e)
  | .ok s =>
    if s.carry ∨ s.eax ≠ pams ∨ s.ebx = 0 then some (.ok { s with carry := true })
    else Loop.run (round ρ) n s

end

/-- `mov [memmap_entry_count], bp`. -/
def storeCount (s : Regs) : Mem :=
  (s.mem.store8 memmapEntryCount (s.bp.setWidth 8)).store8 (memmapEntryCount + 1)
    ((s.bp >>> 8).setWidth 8)

/-! ### What it should do -/

/-- The address of an entry. -/
def slotAddr (i : ℕ) : ℕ := 0x1004 + 24 * i

/-- The entries of non-zero length have been collected, and `kmain` will read them, whatever the loader
reads from a floppy before. -/
structure Collected (ρ : Report) (s : Regs) : Prop where
  count : s.bp.toNat = ρ.present.length
  stored : ∀ i r, ρ.present[i]? = some r →
    ∀ j < r.length, s.mem (BitVec.ofNat 32 (slotAddr i + j)) = r.bytes j
  read : ∀ f m, main f (storeCount s) = .ok m → Kernel.smapEntries m = ρ.present.map Range.entry

/-- `get_memory_map` returns with the memory map. -/
def Collects (ρ : Report) (m : Mem) : Prop :=
  ∃ n s, getMemoryMap ρ m n = some (.ok s) ∧ Collected ρ s

/-- What is behind the entries has zero length: the last entry, if it is not one of them, or else what was
there before. -/
def Report.EmptyBehind (ρ : Report) (m : Mem) : Prop :=
  (ρ.ranges.getLast ρ.ranges_ne_nil).present = false ∨
    (Kernel.loadEntry m (BitVec.ofNat 32 (slotAddr ρ.present.length))).size = 0

/-- The upper half of the number of entries is zero before; the entries end below the table that the loader
reads; `EBX` is not zero after the first call, unless its entry is empty; and it comes to zero, before a call
that fails gives an entry. -/
structure CollectCond (ρ : Report) (m : Mem) : Prop where
  upper : m.load16 (memmapEntryCount + 2) = 0
  room : ρ.present.length ≤ 298
  single : ρ.ebx 0 = 0 → ρ.present = []
  ends : ∃ j, ρ.ebx j = 0 ∧
    ∀ k, ρ.ranges.length ≤ k → k ≤ j → (ρ.ecx k).setWidth 16 = (0 : BitVec 16) ∨ ρ.EmptyBehind m

end FanOS.Boot

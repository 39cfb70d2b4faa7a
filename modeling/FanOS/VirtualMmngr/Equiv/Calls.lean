import FanOS.PhysicalMmngr.Equiv.Ownership
import FanOS.Transition.Basic
import FanOS.VirtualMmngr.Equiv.Init

/-!
# Sequences of page calls

`pagingSystem` starts from a successful `vmmngr_init` and takes `vmmngr_map_page` and
`vmmngr_unmap_page` calls.  The paging invariant holds in all its states
(`pagingInv_of_reachable`), so a call changes the hardware walk of its own page only
(`walk_of_other_page`), whether or not it has to install a table and whether or not it can.

For the page itself the last call should decide.  It does for unmapping; a mapping yields the frame
asked for iff the frame has bit 31 or the entry it overwrites does not (`last_mapping_wins_iff`),
because `PTE_FRAME` lacks that bit and so no call ever clears it.
-/

namespace FanOS.Vmmngr

open Mem (PageAligned)

/-! ### The system -/

/-- A call that changes the mapping of one page. -/
inductive PageCall
  | map (physAddr : PhysicalAddr) (virtAddr : VirtualAddr)
  | unmap (addr : VirtualAddr)

namespace PageCall

/-- Make the call. -/
def run (s : Vmmngr) : PageCall → Vmmngr
  | map physAddr virtAddr => s.vmmngrMapPage physAddr virtAddr
  | unmap addr => s.vmmngrUnmapPage addr

/-- The virtual address that the call is about. -/
def addr : PageCall → VirtualAddr
  | map _ virtAddr => virtAddr
  | unmap addr => addr

/-- A physical address, if there is one, is aligned to 4 KiB. -/
def Aligned : PageCall → Prop
  | map physAddr _ => PageAligned physAddr
  | unmap _ => True

end PageCall

/-- Page calls after a successful `vmmngr_init`. -/
def pagingSystem : System Vmmngr PageCall where
  init s := ∃ s₀ : Vmmngr, s₀.curdir = 0 ∧ s₀.paging = false ∧ s = s₀.vmmngrInit ∧ s.paging = true
  step s c s' := s' = c.run s

theorem pagingInv_of_init {s : Vmmngr} (h : pagingSystem.init s) : PagingInv s := by
  obtain ⟨s₀, -, h0, rfl, hp⟩ := h
  exact pagingInv_vmmngrInit (available_of_paging h0 hp)

/-- A call keeps the invariant. -/
theorem PagingInv.run {s : Vmmngr} (h : PagingInv s) (c : PageCall) : PagingInv (c.run s) := by
  cases c with
  | map p v => exact h.vmmngrMapPage p v
  | unmap v => exact (h.vmmngrUnmapPage_spec v).1

theorem pagingInv_of_reachable {s : Vmmngr} (h : pagingSystem.Reachable s) : PagingInv s := by
  refine h.invariant (I := PagingInv) (fun _ => pagingInv_of_init) fun s c s' hs hstep => ?_
  rw [hstep]
  exact hs.run c

/-! ### Other pages -/

/-- **A call does not touch other pages**: in every state reached from a successful `vmmngr_init`
it leaves the hardware walk of every page but its own as it was. -/
theorem walk_of_other_page (s : Vmmngr) (h : pagingSystem.Reachable s) (c : PageCall)
    (w : VirtualAddr) (hw : page w ≠ page c.addr) : (c.run s).walk w = s.walk w := by
  have hinv := pagingInv_of_reachable h
  cases c with
  | map p v =>
    rcases hinv.vmmngrMapPage_cases p v with ⟨-, -, hfail⟩ | ⟨-, hinv', hup⟩
    · -- no table could be allocated: only the bitmap has changed
      rw [PageCall.run, hfail]
      rfl
    · exact hup.walk_of_ne hinv hinv' hw
  | unmap v =>
    obtain ⟨hinv', hup⟩ := hinv.vmmngrUnmapPage_spec v
    exact hup.walk_of_ne hinv hinv' hw

/-- A machine of 64 blocks with eight of them free, before `vmmngr_init`. -/
def smallMachine : Vmmngr :=
  ⟨Pmmngr.setUp (fun _ => 0) 0x30000 0x40000 [.init 0x1000 0x8000], fun _ => 0, 0, 0, false⟩

theorem available_smallMachine : smallMachine.InitAvailable := by
  unfold InitAvailable
  decide +kernel

theorem init_smallMachine : pagingSystem.init smallMachine.vmmngrInit :=
  ⟨smallMachine, rfl, rfl, rfl, by rw [vmmngrInit_of_available available_smallMachine]⟩

theorem dirEntry_smallMachine_ne_zero :
    smallMachine.vmmngrInit.dirEntry (pageDirIndex 0) ≠ 0 := by
  rw [dirEntry_vmmngrInit available_smallMachine (pageDirIndex_lt _), if_neg (by decide),
    if_pos (by decide)]
  exact seven_or_ne_zero _

/-- A mapping at 4 MiB, which needs a new table, and the page at 0. -/
theorem walk_of_other_page_new_table :
    smallMachine.vmmngrInit.dirEntry (pageDirIndex 0x400000) = 0 ∧
      (smallMachine.vmmngrInit.vmmngrMapPage 0x12345 0x400000).walk 0 =
        smallMachine.vmmngrInit.walk 0 := by
  refine ⟨?_, walk_of_other_page _ (.init init_smallMachine) (.map 0x12345 0x400000) 0 (by decide)⟩
  rw [dirEntry_vmmngrInit available_smallMachine (pageDirIndex_lt _), if_neg (by decide),
    if_neg (by decide)]

/-! ### The page of the call -/

/-- There is a page table for `v`, or a block for one. -/
def TableAvailable (s : Vmmngr) (v : VirtualAddr) : Prop :=
  s.dirEntry (pageDirIndex v) ≠ 0 ∨ s.pmm.pmmngrAllocBlock.1 ≠ 0

theorem tableAvailable_smallMachine : smallMachine.vmmngrInit.TableAvailable 0 :=
  Or.inl dirEntry_smallMachine_ne_zero

namespace PagingInv

variable {s : Vmmngr} {v : VirtualAddr}

/-- The walk of a page that has just been mapped. -/
theorem walk_vmmngrMapPage_self (h : PagingInv s) (ht : s.TableAvailable v) (p : PhysicalAddr) :
    ∃ t, (s.vmmngrMapPage p v).walk v = some t ∧ t.frame = ptEntryMap p (s.pte v) &&& ~~~0xFFF := by
  rcases h.vmmngrMapPage_cases p v with ⟨h0, halloc, -⟩ | ⟨-, hinv', hup⟩
  · rcases ht with ht | ht
    · exact absurd h0 ht
    · exact absurd halloc ht
  · rw [hinv'.walk_eq, hup.pte_self, if_pos (getLsbD_zero_ptEntryMap p _)]
    exact ⟨_, rfl, rfl⟩

theorem pte_vmmngrMapPage_self (h : PagingInv s) (ht : s.TableAvailable v) (p : PhysicalAddr) :
    (s.vmmngrMapPage p v).pte v = ptEntryMap p (s.pte v) := by
  rcases h.vmmngrMapPage_cases p v with ⟨h0, halloc, -⟩ | ⟨-, -, hup⟩
  · rcases ht with ht | ht
    · exact absurd h0 ht
    · exact absurd halloc ht
  · exact hup.pte_self

theorem walk_vmmngrUnmapPage_self (h : PagingInv s) : (s.vmmngrUnmapPage v).walk v = none := by
  obtain ⟨hinv', hup⟩ := h.vmmngrUnmapPage_spec v
  rw [hinv'.walk_eq, hup.pte_self, getLsbD_zero_ptEntryUnmap]
  rfl

end PagingInv

/-- Mapping `v` to `p` makes the walk of `v` yield `p`. -/
def MappingWins (s : Vmmngr) (p : PhysicalAddr) (v : VirtualAddr) : Prop :=
  ∃ t, (s.vmmngrMapPage p v).walk v = some t ∧ t.frame = p

/-- **When the last mapping wins**: in every state reached by aligned calls, mapping `v` to `p`
makes the walk of `v` present with frame `p` iff `p` has bit 31 or the entry that is overwritten
does not have it.  Unmapping always makes the walk of `v` not present. -/
theorem last_mapping_wins_iff (s : Vmmngr)
    (h : (pagingSystem.restrict fun _ c => c.Aligned).Reachable s) (p : PhysicalAddr)
    (hp : PageAligned p) (v : VirtualAddr) (ht : s.TableAvailable v) :
    (s.MappingWins p v ↔ p.getLsbD 31 = true ∨ (s.pte v).getLsbD 31 = false) ∧
      (s.vmmngrUnmapPage v).walk v = none := by
  have hinv := pagingInv_of_reachable h.of_restrict
  refine ⟨?_, hinv.walk_vmmngrUnmapPage_self⟩
  obtain ⟨t, hwalk, hframe⟩ := hinv.walk_vmmngrMapPage_self ht p
  rw [MappingWins, hwalk, ← frame_ptEntryMap_eq_iff hp, ← hframe]
  constructor
  · rintro ⟨t', ht', hp'⟩
    rw [Option.some.inj ht', hp']
  · exact fun hp' => ⟨t, rfl, hp'⟩

/-- Page 0 of a machine just set up, which has a table, is mapped to 2 GiB and unmapped. -/
theorem last_mapping_wins_page_zero :
    smallMachine.vmmngrInit.MappingWins 0x80000000 0 ∧
      (smallMachine.vmmngrInit.vmmngrUnmapPage 0).walk 0 = none := by
  obtain ⟨hiff, hunmap⟩ := last_mapping_wins_iff _ (.init init_smallMachine) 0x80000000 (by decide) 0
    tableAvailable_smallMachine
  exact ⟨hiff.mpr (Or.inl (by decide)), hunmap⟩

/-- Mapped to 2 GiB and then to `0x1000`, page 0 ends up at 2 GiB + `0x1000`. -/
theorem not_mappingWins :
    ∃ s, (pagingSystem.restrict fun _ c => c.Aligned).Reachable s ∧ s.TableAvailable 0 ∧
      PageAligned 0x1000 ∧ ¬ s.MappingWins 0x1000 0 := by
  have hinit : (pagingSystem.restrict fun _ c => c.Aligned).Reachable smallMachine.vmmngrInit :=
    .init init_smallMachine
  have hinv := pagingInv_of_init init_smallMachine
  have hreach := System.Reachable.step (a := PageCall.map 0x80000000 0) hinit
    ⟨(by decide : PageAligned 0x80000000), rfl⟩
  have hinv' := hinv.vmmngrMapPage 0x80000000 0
  have havail : (smallMachine.vmmngrInit.vmmngrMapPage 0x80000000 0).TableAvailable 0 := by
    refine Or.inl fun h0 => ?_
    rcases hinv.vmmngrMapPage_cases 0x80000000 0 with ⟨hzero, -, -⟩ | ⟨-, -, hup⟩
    · exact dirEntry_smallMachine_ne_zero hzero
    · rw [hup.dirEntry _ (pageDirIndex_lt _) dirEntry_smallMachine_ne_zero] at h0
      exact dirEntry_smallMachine_ne_zero h0
  refine ⟨_, hreach, havail, by decide, ?_⟩
  rintro ⟨t, hwalk, hframe⟩
  obtain ⟨t', hwalk', hframe'⟩ := hinv'.walk_vmmngrMapPage_self havail 0x1000
  -- the entry written by the first call has bit 31
  rw [PageCall.run, hwalk', Option.some.injEq] at hwalk
  rw [← hwalk, hframe', hinv.pte_vmmngrMapPage_self tableAvailable_smallMachine,
    frame_ptEntryMap_eq_iff (by decide)] at hframe
  rcases hframe with hframe | hframe
  · exact absurd hframe (by decide)
  · simp [ptEntryMap, ptEntrySetFrame, entrySetFrame] at hframe

end FanOS.Vmmngr

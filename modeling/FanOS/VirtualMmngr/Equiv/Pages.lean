import FanOS.Transition.Basic
import FanOS.VirtualMmngr.Equiv.Entries
import FanOS.PhysicalMmngr.Equiv.Alloc
import Mathlib.Logic.Function.Basic

/-!
# Pages that are allocated and freed

`pageSystem` takes `vmmngr_alloc_page` and `vmmngr_free_page` calls on a family of page table entries.
Beside it run the blocks that the entries hold: `vmmngr_alloc_page` gives an entry a block, and the
entry holds it until it is freed.

An entry should give back the block that it holds, and no other present entry should map that block.
Both can fail.  `PTE_FRAME` lacks bit 31, so a block from 2 GiB on is not found in its entry again;
and `vmmngr_free_page` leaves the frame in the entry, so an entry that is freed once more frees a block
that another one may map by now.  `AllocCond` excludes the first and `PageCond` both, and then pages are
safe in every state (`pages_safe`).  A request that the counter refuses does neither, and an entry without a
frame frees nothing.
-/

namespace FanOS.Vmmngr

open Mem (PageAligned)

/-! ### Frames in entries -/

/-- What `vmmngr_alloc_page` makes of an entry. -/
def ptEntryAlloc (p e : BitVec 32) : BitVec 32 := ptEntryAddAttrib (ptEntrySetFrame e p) ptePresent

/-- The frame that is found again lacks bit 31 of the address. -/
theorem ptEntryPfn_ptEntryAlloc (p e : BitVec 32) : ptEntryPfn (ptEntryAlloc p e) = p &&& pteFrame := by
  have hclear : (e &&& ~~~pteFrame) &&& pteFrame = 0 := by
    rw [BitVec.and_assoc, show ~~~pteFrame &&& pteFrame = 0 from by decide]
    exact BitVec.and_zero
  have hone : ptePresent &&& pteFrame = 0 := by decide
  rw [ptEntryPfn, ptEntryAlloc, ptEntryAddAttrib, entryAddAttrib, ptEntrySetFrame, entrySetFrame,
    BitVec.and_or_distrib_right, BitVec.and_or_distrib_right, hclear, hone]
  rw [show (0 : BitVec 32) = 0#32 from rfl, BitVec.zero_or, BitVec.or_zero]

theorem toNat_and_pteFrame (p : BitVec 32) : (p &&& pteFrame).toNat / 4096 = p.toNat / 4096 % 2 ^ 19 := by
  have hsplit : p &&& pteFrame = (p &&& 0x7FFFFFFF) &&& ~~~0xFFF := by
    rw [BitVec.and_assoc, show (0x7FFFFFFF : BitVec 32) &&& ~~~0xFFF = pteFrame from by decide]
  have hlow : (p &&& 0x7FFFFFFF).toNat = p.toNat % 2 ^ 31 := by
    rw [BitVec.toNat_and]
    exact Nat.and_two_pow_sub_one_eq_mod p.toNat 31
  rw [hsplit, toNat_and_not_fff, hlow]
  omega

theorem getLsbD_zero_ptEntryAlloc (p e : BitVec 32) : (ptEntryAlloc p e).getLsbD 0 = true := by
  simp [ptEntryAlloc, ptEntryAddAttrib, entryAddAttrib, ptePresent]

/-! ### The system -/

variable {ι : Type*} [DecidableEq ι]

/-- Page table entries beside the managers. -/
structure Pages (ι : Type*) where
  vm : Vmmngr
  entry : ι → BitVec 32
  /-- The block that `vmmngr_alloc_page` has given an entry, if it has not been freed since. -/
  held : ι → Option ℕ

/-- A call on an entry. -/
inductive EntryCall (ι : Type*)
  | alloc (i : ι)
  | free (i : ι)

namespace Pages

/-- What a call does. -/
def next (s : Pages ι) : EntryCall ι → Pages ι
  | .alloc i =>
    let (p, e, vm) := s.vm.vmmngrAllocPage (s.entry i)
    { vm := vm
      entry := Function.update s.entry i e
      held := if p = 0 then s.held else Function.update s.held i (some (p.toNat / 4096)) }
  | .free i =>
    let (e, vm) := s.vm.vmmngrFreePage (s.entry i)
    { vm := vm
      entry := Function.update s.entry i e
      held := Function.update s.held i none }

/-- Entry `i` has its present bit. -/
def Present (s : Pages ι) (i : ι) : Prop := (s.entry i).getLsbD 0 = true

/-- The block whose address is in entry `i`. -/
def block (s : Pages ι) (i : ι) : ℕ := (ptEntryPfn (s.entry i)).toNat / 4096

/-- Freeing entry `i` clears the bit of block `b` and no other. -/
def FreesOnly (s : Pages ι) (i : ι) (b : ℕ) : Prop :=
  ∀ x < 2 ^ 35, (s.next (.free i)).vm.pmm.marked x = if x = b then false else s.vm.pmm.marked x

/-- An entry gives back the block that it has been given. -/
def Returns (s : Pages ι) : Prop := ∀ i b, s.held i = some b → s.FreesOnly i b

/-- No other present entry maps a block that an entry has been given. -/
def Unshared (s : Pages ι) : Prop :=
  ∀ i b, s.held i = some b → ∀ j, j ≠ i → ¬ (s.Present j ∧ s.block j = b)

/-- No present entry maps a free block, or the block of another one. -/
structure Consistent (s : Pages ι) : Prop where
  marked : ∀ {i}, s.Present i → s.vm.pmm.marked (s.block i) = true
  unique : ∀ {i j}, s.Present i → s.Present j → s.block i = s.block j → i = j

end Pages

/-- Calls on entries, from any state of the managers and with anything in the entries. -/
def pageSystem : System (Pages ι) (EntryCall ι) where
  init s := s.held = fun _ => none
  step s c s' := s' = s.next c

/-- The same from states in which no present entry maps a free block, or the block of another one. -/
def consistentSystem : System (Pages ι) (EntryCall ι) where
  init s := s.held = (fun _ => none) ∧ s.Consistent
  step := pageSystem.step

/-- The counter refuses the request, or the first free block is below 2 GiB. -/
def AllocCond (s : Pages ι) : EntryCall ι → Prop
  | .alloc _ => s.vm.pmm.pmmngrGetFreeBlockCount ≤ 1 ∨ ∀ b, s.vm.pmm.FirstAccepted b 1 → b < 2 ^ 19
  | .free _ => True

/-- The same, and an entry is only freed if it is present or has no frame. -/
def PageCond (s : Pages ι) : EntryCall ι → Prop
  | .alloc i => AllocCond s (.alloc i)
  | .free i => s.Present i ∨ ptEntryPfn (s.entry i) = 0

/-! ### Calls -/

namespace Pages

variable {s : Pages ι} {i j : ι} {b : ℕ}

/-- The state after an allocation that fails. -/
theorem next_alloc_of_eq_zero (h : s.vm.pmm.pmmngrAllocBlock.1 = 0) :
    s.next (.alloc i) =
      ⟨{ s.vm with pmm := s.vm.pmm.pmmngrAllocBlock.2 }, s.entry, s.held⟩ := by
  simp only [next, vmmngrAllocPage, h, if_true, Function.update_eq_self]

/-- The state after an allocation that succeeds. -/
theorem next_alloc_of_ne_zero (h : s.vm.pmm.pmmngrAllocBlock.1 ≠ 0) :
    s.next (.alloc i) =
      ⟨{ s.vm with pmm := s.vm.pmm.pmmngrAllocBlock.2 },
        Function.update s.entry i (ptEntryAlloc s.vm.pmm.pmmngrAllocBlock.1 (s.entry i)),
        Function.update s.held i (some (s.vm.pmm.pmmngrAllocBlock.1.toNat / 4096))⟩ := by
  simp only [next, vmmngrAllocPage, h, if_false, ptEntryAlloc]

/-- Freeing an entry clears the bit of the block in it, unless that is block 0. -/
theorem marked_free (s : Pages ι) (i : ι) {x : ℕ} (hx : x < 2 ^ 35) :
    (s.next (.free i)).vm.pmm.marked x =
      if s.block i = x ∧ ptEntryPfn (s.entry i) ≠ 0 then false else s.vm.pmm.marked x := by
  rw [next, vmmngrFreePage]
  by_cases hp : ptEntryPfn (s.entry i) = 0
  · -- `vmmngr_free_page` takes frame 0 for no frame
    simp only [hp, ne_eq, not_true_eq_false, and_false, if_false]
  · have hlt := (ptEntryPfn (s.entry i)).isLt
    have hfree := s.vm.pmm.marked_pmmngrFreeBlocks (ptEntryPfn (s.entry i)) 1
      (by rw [show (1 : BitVec 32).toNat = 1 from rfl]; omega) hx
    simp only [ne_eq, hp, not_false_eq_true, if_true, and_true, block]
    refine hfree.trans (if_congr ?_ rfl rfl)
    rw [show (1 : BitVec 32).toNat = 1 from rfl]
    omega

/-- An entry frees the block that is in it, and only that. -/
theorem freesOnly_block (h : s.block i ≠ 0) : s.FreesOnly i (s.block i) := by
  intro x hx
  have hne : ptEntryPfn (s.entry i) ≠ 0 := by
    intro hzero
    apply h
    rw [block, hzero]
    rfl
  rw [s.marked_free i hx]
  exact if_congr ⟨fun h => h.1.symm, fun h => ⟨h.symm, hne⟩⟩ rfl rfl

omit [DecidableEq ι] in
theorem block_lt (s : Pages ι) (i : ι) : s.block i < 2 ^ 20 := by
  have hlt := (ptEntryPfn (s.entry i)).isLt
  rw [block]
  omega

omit [DecidableEq ι] in
/-- The block that is handed out is the first free one. -/
theorem firstAccepted_of_ne_zero (h : s.vm.pmm.pmmngrAllocBlock.1 ≠ 0) :
    s.vm.pmm.FirstAccepted (s.vm.pmm.pmmngrAllocBlock.1.toNat / 4096) 1 := by
  rcases s.vm.pmm.pmmngrAllocBlocks_cases_of_le (n := 1) (by decide) with hfail | ⟨b, hg⟩
  · exact absurd (congrArg Prod.fst hfail) h
  · have hb := hg.address_div
    rw [show s.vm.pmm.pmmngrAllocBlock.1.toNat / 4096 = b from hb]
    exact hg.first

/-- What an allocation that succeeds does to the entry, the block and the other entries. -/
structure Given (s s' : Pages ι) (i : ι) (b : ℕ) : Prop where
  ne_zero : b ≠ 0
  unmarked : s.vm.pmm.marked b = false
  marked : s'.vm.pmm.marked b = true
  keeps : ∀ x < 2 ^ 35, s.vm.pmm.marked x = true → s'.vm.pmm.marked x = true
  present : s'.Present i
  block : s'.block i = b % 2 ^ 19
  held : s'.held i = some b
  entry_ne : ∀ j, j ≠ i → s'.entry j = s.entry j
  held_ne : ∀ j, j ≠ i → s'.held j = s.held j

theorem given_of_ne_zero (h : s.vm.pmm.pmmngrAllocBlock.1 ≠ 0) :
    s.Given (s.next (.alloc i)) i (s.vm.pmm.pmmngrAllocBlock.1.toNat / 4096) := by
  obtain ⟨haligned, hun, hmark⟩ := s.vm.pmm.pmmngrAllocBlock_fresh h
  rw [next_alloc_of_ne_zero h]
  constructor
  case ne_zero =>
    intro h0
    apply h
    apply BitVec.eq_of_toNat_eq
    rw [show (0 : BitVec 32).toNat = 0 from rfl]
    omega
  case unmarked => exact hun
  case marked => exact hmark
  case keeps => exact fun x hx hx' => s.vm.pmm.marked_pmmngrAllocBlock_of_marked hx hx'
  case present =>
    simp only [Present, Function.update_self]
    exact getLsbD_zero_ptEntryAlloc _ _
  case block =>
    simp only [Pages.block, Function.update_self]
    rw [ptEntryPfn_ptEntryAlloc, toNat_and_pteFrame]
  case held => exact Function.update_self _ _ _
  case entry_ne => exact fun j hj => Function.update_of_ne hj _ _
  case held_ne => exact fun j hj => Function.update_of_ne hj _ _

/-- A request that is refused takes no block. -/
theorem Given.not_refused (hg : s.Given (s.next (.alloc i)) i b) :
    ¬ s.vm.pmm.pmmngrGetFreeBlockCount ≤ 1 := by
  intro hle
  have hfail : s.vm.pmm.pmmngrAllocBlock = (0, s.vm.pmm) := if_pos hle
  have hsame : (s.next (.alloc i)).vm.pmm = s.vm.pmm := by
    rw [next_alloc_of_eq_zero (congrArg Prod.fst hfail), hfail]
  have hmarked := hg.marked
  rw [hsame, hg.unmarked] at hmarked
  cases hmarked

/-- An allocation fails and keeps the entries, or it gives the entry the first free block. -/
theorem next_alloc_cases (s : Pages ι) (i : ι) :
    ((s.next (.alloc i)).entry = s.entry ∧ (s.next (.alloc i)).held = s.held ∧
        ∀ x < 2 ^ 35, s.vm.pmm.marked x = true → (s.next (.alloc i)).vm.pmm.marked x = true) ∨
      ∃ b, s.vm.pmm.FirstAccepted b 1 ∧ s.Given (s.next (.alloc i)) i b := by
  by_cases h : s.vm.pmm.pmmngrAllocBlock.1 = 0
  · rw [next_alloc_of_eq_zero h]
    exact Or.inl ⟨rfl, rfl, fun x hx hx' => s.vm.pmm.marked_pmmngrAllocBlock_of_marked hx hx'⟩
  · exact Or.inr ⟨_, firstAccepted_of_ne_zero h, given_of_ne_zero h⟩

theorem held_free (s : Pages ι) (i : ι) :
    (s.next (.free i)).held = Function.update s.held i none := rfl

theorem entry_free_of_ne (h : j ≠ i) : (s.next (.free i)).entry j = s.entry j :=
  Function.update_of_ne h _ _

theorem not_present_free (s : Pages ι) (i : ι) : ¬ (s.next (.free i)).Present i := by
  have hentry : (s.next (.free i)).entry i = ptEntryDelAttrib (s.entry i) ptePresent :=
    Function.update_self _ _ _
  rw [Present, hentry]
  simp [ptEntryDelAttrib, entryDelAttrib, ptePresent]

/-- An entry that holds a block after a call has just been given it, or has held it before and is as it
was. -/
theorem held_next_cases {c : EntryCall ι} (h : (s.next c).held j = some b) :
    (c = .alloc j ∧ s.vm.pmm.FirstAccepted b 1 ∧ s.Given (s.next c) j b) ∨
      (s.held j = some b ∧ (s.next c).entry j = s.entry j) := by
  cases c with
  | alloc i =>
    rcases s.next_alloc_cases i with ⟨he, hh, -⟩ | ⟨c, hfirst, hg⟩
    · exact Or.inr ⟨(congrFun hh j).symm.trans h, congrFun he j⟩
    · by_cases hji : j = i
      · subst hji
        obtain rfl := Option.some.inj (hg.held.symm.trans h)
        exact Or.inl ⟨rfl, hfirst, hg⟩
      · exact Or.inr ⟨(hg.held_ne j hji).symm.trans h, hg.entry_ne j hji⟩
  | free i =>
    rw [held_free] at h
    by_cases hji : j = i
    · rw [hji, Function.update_self] at h
      exact absurd h (by simp)
    · rw [Function.update_of_ne hji] at h
      exact Or.inr ⟨h, entry_free_of_ne hji⟩

/-! ### Entries that hold a block -/

/-- A block that is held is in the entry that holds it. -/
def Kept (s : Pages ι) : Prop := ∀ i b, s.held i = some b → b ≠ 0 ∧ s.block i = b

omit [DecidableEq ι] in
/-- Entries that keep their blocks. -/
theorem block_congr {s s' : Pages ι} (h : s'.entry i = s.entry i) : s'.block i = s.block i := by
  rw [block, block, h]

theorem Kept.returns (h : s.Kept) : s.Returns := by
  intro i b hi
  obtain ⟨h0, rfl⟩ := h i b hi
  exact freesOnly_block h0

theorem Kept.next (h : s.Kept) {c : EntryCall ι} (hc : AllocCond s c) : (s.next c).Kept := by
  intro j b hj
  rcases held_next_cases hj with ⟨rfl, hfirst, hg⟩ | ⟨hheld, hentry⟩
  · refine ⟨hg.ne_zero, ?_⟩
    rw [hg.block, Nat.mod_eq_of_lt (hc.resolve_left hg.not_refused b hfirst)]
  · obtain ⟨h0, hb⟩ := h j b hheld
    exact ⟨h0, (block_congr hentry).trans hb⟩

/-! ### Entries that map a block -/

omit [DecidableEq ι] in
theorem Present.congr {s s' : Pages ι} (h : s'.entry i = s.entry i) : s'.Present i ↔ s.Present i := by
  rw [Present, Present, h]

theorem Consistent.free (h : s.Consistent) (hi : s.Present i ∨ ptEntryPfn (s.entry i) = 0) :
    (s.next (.free i)).Consistent := by
  -- entry `i` is not present any more, and the block that it frees, if any, is nobody else's
  have hother : ∀ {j}, (s.next (.free i)).Present j →
      j ≠ i ∧ s.Present j ∧ (s.next (.free i)).block j = s.block j := by
    intro j hj
    have hji : j ≠ i := fun heq => s.not_present_free i (heq ▸ hj)
    exact ⟨hji, (Present.congr (entry_free_of_ne hji)).mp hj, block_congr (entry_free_of_ne hji)⟩
  constructor
  · intro j hj
    obtain ⟨hji, hpre, hb⟩ := hother hj
    have hlt := s.block_lt j
    rw [hb, s.marked_free i (by omega), if_neg]
    · exact h.marked hpre
    · rintro ⟨heq, hframe⟩
      exact hji (h.unique hpre (hi.resolve_right hframe) heq.symm)
  · intro j k hj hk hjk
    obtain ⟨-, hprej, hbj⟩ := hother hj
    obtain ⟨-, hprek, hbk⟩ := hother hk
    exact h.unique hprej hprek (hbj.symm.trans (hjk.trans hbk))

theorem Consistent.alloc (h : s.Consistent) (i : ι) (hc : AllocCond s (.alloc i)) :
    (s.next (.alloc i)).Consistent := by
  rcases s.next_alloc_cases i with ⟨he, -, hkeep⟩ | ⟨c, hfirst, hg⟩
  · constructor
    · intro j hj
      have hlt := s.block_lt j
      rw [block_congr (congrFun he j)]
      exact hkeep _ (by omega) (h.marked ((Present.congr (congrFun he j)).mp hj))
    · intro j k hj hk hjk
      rw [block_congr (congrFun he j), block_congr (congrFun he k)] at hjk
      exact h.unique ((Present.congr (congrFun he j)).mp hj) ((Present.congr (congrFun he k)).mp hk) hjk
  · have hblock : (s.next (.alloc i)).block i = c := by
      rw [hg.block, Nat.mod_eq_of_lt (hc.resolve_left hg.not_refused c hfirst)]
    have hother : ∀ {j}, j ≠ i → (s.next (.alloc i)).Present j →
        s.Present j ∧ (s.next (.alloc i)).block j = s.block j := fun hji hj =>
      ⟨(Present.congr (hg.entry_ne _ hji)).mp hj, block_congr (hg.entry_ne _ hji)⟩
    -- the block was free, and the other present entries map blocks that were not
    have hne : ∀ {j}, j ≠ i → (s.next (.alloc i)).Present j → (s.next (.alloc i)).block j ≠ c := by
      intro j hji hj heq
      obtain ⟨hpre, hb⟩ := hother hji hj
      have hmarked := h.marked hpre
      rw [← hb, heq, hg.unmarked] at hmarked
      exact absurd hmarked (by decide)
    constructor
    · intro j hj
      by_cases hji : j = i
      · rw [hji, hblock]
        exact hg.marked
      · obtain ⟨hpre, hb⟩ := hother hji hj
        have hlt := s.block_lt j
        rw [hb]
        exact hg.keeps _ (by omega) (h.marked hpre)
    · intro j k hj hk hjk
      by_cases hji : j = i
      · by_cases hki : k = i
        · rw [hji, hki]
        · exact absurd (hjk.symm.trans (hji ▸ hblock)) (hne hki hk)
      · by_cases hki : k = i
        · exact absurd (hjk.trans (hki ▸ hblock)) (hne hji hj)
        · obtain ⟨hprej, hbj⟩ := hother hji hj
          obtain ⟨hprek, hbk⟩ := hother hki hk
          exact h.unique hprej hprek (hbj.symm.trans (hjk.trans hbk))

theorem Consistent.next (h : s.Consistent) {c : EntryCall ι} (hc : PageCond s c) :
    (s.next c).Consistent := by
  cases c with
  | alloc i => exact h.alloc i hc
  | free i => exact h.free hc

/-- Entries that hold a block are present. -/
def HeldPresent (s : Pages ι) : Prop := ∀ i b, s.held i = some b → s.Present i

theorem HeldPresent.next (h : s.HeldPresent) (c : EntryCall ι) : (s.next c).HeldPresent := by
  intro j b hj
  rcases held_next_cases hj with ⟨-, -, hg⟩ | ⟨hheld, hentry⟩
  · exact hg.present
  · exact (Present.congr hentry).mpr (h j b hheld)

omit [DecidableEq ι] in
theorem Consistent.unshared (h : s.Consistent) (hkept : s.Kept) (hheld : s.HeldPresent) :
    s.Unshared := by
  rintro i b hi j hji ⟨hj, hb⟩
  exact hji (h.unique hj (hheld i b hi) (hb.trans (hkept i b hi).2.symm))

/-- A block from 2 GiB on is not given back. -/
theorem Given.not_freesOnly {s' : Pages ι} (hg : s.Given s' i b) (hb : 2 ^ 19 ≤ b) (hlt : b < 2 ^ 20) :
    ¬ s'.FreesOnly i b := by
  intro h
  -- the block in the entry is below `2 ^ 19`, so the bit of `b` stays
  have hfree := h b (by omega)
  rw [if_pos rfl, s'.marked_free i (by omega), hg.block, if_neg (by omega), hg.marked] at hfree
  exact absurd hfree (by decide)

end Pages

/-! ### Runs -/

variable {s : Pages ι}

theorem kept_of_reachable (h : (pageSystem.restrict AllocCond).Reachable s) : s.Kept := by
  refine h.invariant ?_ ?_
  · intro s hinit i b hi
    rw [show s.held = fun _ => none from hinit] at hi
    exact absurd hi (by simp)
  · rintro s c - hkept ⟨hc, rfl⟩
    exact hkept.next hc

/-- A run from a consistent state is one of `pageSystem`. -/
theorem reachable_of_consistent (h : (consistentSystem.restrict PageCond).Reachable s) :
    (pageSystem.restrict AllocCond).Reachable s := by
  induction h with
  | init h => exact .init h.1
  | @step s s' c _ hs ih =>
    refine ih.step (a := c) ⟨?_, hs.2⟩
    cases c with
    | alloc i => exact hs.1
    | free i => trivial

theorem consistent_of_reachable (h : (consistentSystem.restrict PageCond).Reachable s) :
    s.Consistent ∧ s.HeldPresent := by
  refine h.invariant (I := fun s => s.Consistent ∧ s.HeldPresent) ?_ ?_
  · rintro s ⟨hheld, hcons⟩
    refine ⟨hcons, fun i b hi => ?_⟩
    rw [hheld] at hi
    exact absurd hi (by simp)
  · rintro s c - ⟨hcons, hpres⟩ ⟨hc, rfl⟩
    exact ⟨hcons.next hc, hpres.next c⟩

/-- **When pages are safe**: while the first free block is below 2 GiB whenever one is handed out, every entry
gives back the block that it has been given; and if only present entries and such without a frame are freed,
no other present entry maps that block.  A block from 2 GiB on is not given back. -/
theorem pages_safe (s : Pages ι) :
    ((pageSystem.restrict AllocCond).Reachable s → s.Returns) ∧
    ((consistentSystem.restrict PageCond).Reachable s → s.Returns ∧ s.Unshared) ∧
    ∀ i, 2 ^ 31 ≤ s.vm.pmm.pmmngrAllocBlock.1.toNat → ¬ (s.next (.alloc i)).Returns := by
  refine ⟨fun h => (kept_of_reachable h).returns, fun h => ?_, fun i hge hret => ?_⟩
  · have hkept := kept_of_reachable (reachable_of_consistent h)
    obtain ⟨hcons, hheld⟩ := consistent_of_reachable h
    exact ⟨hkept.returns, hcons.unshared hkept hheld⟩
  · have hne : s.vm.pmm.pmmngrAllocBlock.1 ≠ 0 := by
      intro h0
      rw [h0] at hge
      exact absurd hge (by decide)
    have hg := Pages.given_of_ne_zero (i := i) hne
    have hlt := s.vm.pmm.pmmngrAllocBlock.1.isLt
    exact hg.not_freesOnly (by omega) (by omega) (hret i _ hg.held)

/-! ### A machine with eight free blocks -/

/-- A machine of 0x80040000 bytes, with eight free blocks from `base` on. -/
def eightBlocks (base : PhysicalAddr) : Pmmngr :=
  (Pmmngr.pmmngrInit (fun _ => 0) 0x30000 0x80040000).pmmngrInitRegion base 0x8000

/-- One entry, which is empty, on that machine. -/
def eightBlockPages (base : PhysicalAddr) : Pages Unit where
  vm := { pmm := eightBlocks base, mem := fun _ => 0, curdir := 0, cr3 := 0, paging := false }
  entry := fun _ => 0
  held := fun _ => none

theorem marked_eightBlocks (base : PhysicalAddr) {b : ℕ} (hb : b < 0x80040) (h0 : b ≠ 0) :
    (eightBlocks base).marked b = decide (b ∉ Pmmngr.regionBlocks base 0x8000) := by
  have hbytes : 8 * (((0x80040000 : BitVec 32) / blockSize).toNat / 8) = 0x80040 := by decide
  rw [eightBlocks, Pmmngr.marked_pmmngrInitRegion _ _ _ (by omega), if_neg h0,
    Pmmngr.marked_pmmngrInit _ _ _ (by omega), hbytes, if_pos hb]
  by_cases hmem : b ∈ Pmmngr.regionBlocks base 0x8000
  · rw [if_pos hmem, decide_eq_false (not_not.mpr hmem)]
  · rw [if_neg hmem, decide_eq_true hmem]

/-- The first free block is the first one of the region. -/
theorem firstAccepted_eightBlocks {base : PhysicalAddr} {b : ℕ} (hbase : base.toNat / 4096 = b)
    (h0 : b ≠ 0) (hb : b < 0x80040) : (eightBlocks base).FirstAccepted b 1 := by
  have hwords : (eightBlocks base).mapWords = 0x4002 := by
    rw [Pmmngr.mapWords, eightBlocks, Pmmngr.maxBlocks_pmmngrInitRegion]
    rfl
  have hsize : (0x8000 : BitVec 32).toNat / 4096 = 8 := by decide
  refine ⟨by omega, ?_, ?_⟩
  · refine (Pmmngr.accepts_iff_of_le (by omega)).mpr fun x h1 h2 => ?_
    obtain rfl : x = b := by omega
    rw [marked_eightBlocks base hb h0, decide_eq_false_iff_not, not_not, Pmmngr.mem_regionBlocks]
    omega
  · intro x hx hacc
    have hfree := hacc.marked_eq_false le_rfl (by omega) (by omega)
    by_cases hx0 : x = 0
    · rw [hx0, eightBlocks, Pmmngr.marked_pmmngrInitRegion _ _ _ (by omega), if_pos rfl] at hfree
      exact absurd hfree (by decide)
    · rw [marked_eightBlocks base (by omega) hx0, decide_eq_false_iff_not, not_not,
        Pmmngr.mem_regionBlocks] at hfree
      omega

/-- It is what an allocation gives. -/
theorem toNat_pmmngrAllocBlock_eightBlocks {base : PhysicalAddr} {b : ℕ}
    (hbase : base.toNat / 4096 = b) (h0 : b ≠ 0) (hb : b < 0x80040) :
    (eightBlocks base).pmmngrAllocBlock.1.toNat = 4096 * b := by
  have hcount : ¬ (eightBlocks base).pmmngrGetFreeBlockCount ≤ 1 := by
    rw [Pmmngr.pmmngrGetFreeBlockCount, eightBlocks, Pmmngr.maxBlocks_pmmngrInitRegion,
      Pmmngr.usedBlocks_pmmngrInitRegion, Pmmngr.maxBlocks_pmmngrInit, Pmmngr.usedBlocks_pmmngrInit]
    decide
  have hg := Pmmngr.grant_of_firstAccepted (n := 1) (by decide) (by decide) hcount
    (firstAccepted_eightBlocks hbase h0 hb)
  rw [Pmmngr.pmmngrAllocBlock, hg.address, BitVec.toNat_ofNat, Nat.mod_eq_of_lt (by omega)]

theorem given_eightBlockPages {base : PhysicalAddr} {b : ℕ} (hbase : base.toNat / 4096 = b)
    (h0 : b ≠ 0) (hb : b < 0x80040) :
    (eightBlockPages base).Given ((eightBlockPages base).next (.alloc ())) () b := by
  have haddr : (eightBlockPages base).vm.pmm.pmmngrAllocBlock.1.toNat = 4096 * b :=
    toNat_pmmngrAllocBlock_eightBlocks hbase h0 hb
  have hne : (eightBlockPages base).vm.pmm.pmmngrAllocBlock.1 ≠ 0 := by
    intro hzero
    rw [hzero, show (0 : BitVec 32).toNat = 0 from rfl] at haddr
    omega
  have hg := Pages.given_of_ne_zero (i := ()) hne
  rwa [haddr, Nat.mul_div_cancel_left b (by decide)] at hg

/-- With the region at 1 MiB, the entry gives back the block that it is given. -/
theorem pages_safe_one_megabyte :
    ((eightBlockPages 0x100000).next (.alloc ())).held () = some 256 ∧
      ((eightBlockPages 0x100000).next (.alloc ())).FreesOnly () 256 := by
  have hbase : (0x100000 : PhysicalAddr).toNat / 4096 = 256 := by decide
  have hg := given_eightBlockPages hbase (by decide) (by decide)
  have hcons : (eightBlockPages 0x100000).Consistent := by
    constructor
    · rintro i hi
      exact absurd (show (0 : BitVec 32).getLsbD 0 = true from hi) (by decide)
    · intro i j _ _ _
      rfl
  have hreach : (consistentSystem.restrict PageCond).Reachable
      ((eightBlockPages 0x100000).next (.alloc ())) := by
    refine .step (.init ⟨rfl, hcons⟩) (a := .alloc ()) ⟨Or.inr fun b hb => ?_, rfl⟩
    rw [hb.unique (firstAccepted_eightBlocks (b := 256) (by decide) (by decide) (by decide))]
    decide
  exact ⟨hg.held, ((pages_safe _).2.1 hreach).1 () 256 hg.held⟩

/-- With the region at 2 GiB, the entry does not give back block 0x80000. -/
theorem not_returns_two_gigabytes :
    ¬ ∀ s : Pages Unit, pageSystem.Reachable s → s.Returns ∧ s.Unshared := by
  intro h
  have hbase : (0x80000000 : PhysicalAddr).toNat / 4096 = 0x80000 := by decide
  have hg := given_eightBlockPages hbase (by decide) (by decide)
  have hinit : pageSystem.init (eightBlockPages 0x80000000) := rfl
  have hreach : pageSystem.Reachable ((eightBlockPages 0x80000000).next (.alloc ())) :=
    (System.Reachable.init hinit).step (a := .alloc ()) rfl
  exact hg.not_freesOnly (by decide) (by decide) ((h _ hreach).1 () _ hg.held)

end FanOS.Vmmngr

import FanOS.Malloc.Equiv.Live

/-!
# Freeing and merging

The loop of `malloc_free` ends when it comes to the last block, before it compares that block with the
pointer (`mallocFree_at`).  So `free` takes effect on a live allocation if and only if another block follows
it (`free_takes_effect`).

`merge_free_blocks` is left at once, because the head of the list is at address 0 (`mergeFreeBlocks_eq`).
It does what it is for only on lists on which there is nothing to do (`mergeFreeBlocks_coalesces`).
-/

namespace FanOS.Malloc

open Tiling (Block span placed)

variable {h : Malloc} {b : Block} {bs pre post : List Block} {x : ℕ}

/-! ### Nodes -/

/-- The header of every block is a node. -/
theorem Tiled.isNode (ht : Tiled h bs) (hx : (x, b) ∈ placed 12 0 bs) :
    IsNode h (BitVec.ofNat 32 x) := by
  have hnode : ∀ a, IsNode h (BitVec.ofNat 32 a) → Chain h.mem a bs 0 → a + span 12 bs < 2 ^ 32 →
      (x, b) ∈ placed 12 a bs → IsNode h (BitVec.ofNat 32 x) := by
    clear ht hx
    induction bs with
    | nil => exact fun a _ _ _ hx => absurd hx List.not_mem_nil
    | cons c bs ih =>
      intro a ha hc hlt hx
      rw [Tiling.span_cons] at hlt
      rw [Tiling.placed_cons, List.mem_cons] at hx
      rcases hx with hx | hx
      · rwa [(Prod.mk.inj hx).1]
      · have hbs : bs ≠ [] := by
          rintro rfl
          exact absurd hx List.not_mem_nil
        rw [chain_cons_of_ne_nil hbs] at hc
        have hnext := IsNode.next ha (by rw [hc.1.next]; exact ofNat_ne_zero (by omega) (by omega))
        rw [hc.1.next] at hnext
        exact ih _ hnext hc.2 (by omega) hx
  have hlt := ht.span_lt
  have hhead : IsNode h (BitVec.ofNat 32 0) := by
    rw [show BitVec.ofNat 32 0 = h.mallocListHead from ht.head.symm]
    exact .head
  exact hnode 0 hhead ht.chain_zero (by omega) hx

/-- A block that is placed has its header in memory. -/
theorem Tiled.exists_header (ht : Tiled h bs) (hx : (x, b) ∈ placed 12 0 bs) :
    ∃ next, Header h.mem x b next := by
  obtain ⟨pre, post, rfl, rfl⟩ := Tiling.exists_append_of_mem_placed hx
  rw [Nat.zero_add]
  exact ⟨_, ht.header⟩

/-! ### Frees that take effect -/

/-- The call `malloc_free(r.1)` for a live allocation `r` takes effect: its bytes belong to a block marked
free, and every other live allocation is still that of a block in use. -/
def FreeTakesEffect (s : HeapState) (r : VirtualAddr × BitVec 32) : Prop :=
  ∃ h', s.1.mallocFree r.1 = some h' ∧
    (∃ a, IsNode h' a ∧ nodeFree h'.mem a ≠ 0 ∧ a.toNat + 12 ≤ r.1.toNat ∧
      r.1.toNat + r.2.toNat ≤ a.toNat + 12 + (nodeSize h'.mem a).toNat) ∧
    ∀ t ∈ s.2, t ≠ r → IsNode h' (t.1 - mallocBlockSize) ∧
      nodeSize h'.mem (t.1 - mallocBlockSize) = t.2 ∧ nodeFree h'.mem (t.1 - mallocBlockSize) = 0

/-- The header of a live allocation. -/
theorem sub_mallocBlockSize_eq {p : VirtualAddr} (hp : p.toNat = x + 12) :
    p - mallocBlockSize = BitVec.ofNat 32 x := by
  have hlt := p.isLt
  apply BitVec.eq_of_toNat_eq
  rw [BitVec.toNat_sub, hp, show mallocBlockSize.toNat = 12 from rfl, BitVec.toNat_ofNat]
  omega

/-- A live allocation is that of a block in use. -/
theorem LiveAt.inUse {r : VirtualAddr × BitVec 32} (ht : Tiled h bs) (hr : LiveAt bs r) :
    IsNode h (r.1 - mallocBlockSize) ∧ nodeSize h.mem (r.1 - mallocBlockSize) = r.2 ∧
      nodeFree h.mem (r.1 - mallocBlockSize) = 0 := by
  obtain ⟨x, hx, hmem⟩ := hr
  obtain ⟨next, hhead⟩ := ht.exists_header hmem
  rw [sub_mallocBlockSize_eq hx]
  refine ⟨ht.isNode hmem, ?_, hhead.free⟩
  rw [hhead.size]
  simp

/-- A live allocation is not inside a block that is marked free. -/
theorem LiveAt.not_free {r : VirtualAddr × BitVec 32} {a : VirtualAddr} (ht : Tiled h bs)
    (hr : LiveAt bs r) (ha : IsNode h a) (hfree : nodeFree h.mem a ≠ 0)
    (hle : a.toNat + 12 ≤ r.1.toNat)
    (hend : r.1.toNat + r.2.toNat ≤ a.toNat + 12 + (nodeSize h.mem a).toNat) : False := by
  obtain ⟨x, hx, hmem⟩ := hr
  obtain ⟨y, c, rfl, hy⟩ := ht.exists_placed ha
  obtain ⟨next, hhead⟩ := ht.exists_header hy
  have hbound := Tiling.mem_placed_bounds hy
  have hlt := ht.span_lt
  rw [hhead.size, BitVec.toNat_ofNat, BitVec.toNat_ofNat, Nat.mod_eq_of_lt (by omega),
    Nat.mod_eq_of_lt (by omega)] at hend
  rw [BitVec.toNat_ofNat, Nat.mod_eq_of_lt (by omega)] at hle
  -- the block would have to be the one of the allocation, which is in use
  rcases Tiling.placed_eq_or_apart hmem hy with ⟨-, rfl⟩ | hbefore | hbehind
  · exact hfree hhead.free
  · simp only at hbefore
    omega
  · omega

section Block

variable {s : HeapState} {r : VirtualAddr × BitVec 32}
  (ht : Tiled s.1 (pre ++ ⟨r.2.toNat, false⟩ :: post)) (hx : r.1.toNat = span 12 pre + 12)
include ht hx

theorem mallocFree_live : s.1.mallocFree r.1 =
    if post = [] then some s.1
    else some { s.1 with mem := setFree s.1.mem (BitVec.ofNat 32 (span 12 pre)) true } := by
  have hlt := ht.span_lt
  rw [Tiling.span_append, Tiling.span_cons] at hlt
  have hptr : r.1 = BitVec.ofNat 32 (span 12 pre + 12) := by
    apply BitVec.eq_of_toNat_eq
    rw [hx, BitVec.toNat_ofNat, Nat.mod_eq_of_lt (by omega)]
  rw [hptr]
  exact mallocFree_at ht

/-- The last block stays in use. -/
theorem not_freeTakesEffect (hpost : post = []) : ¬ FreeTakesEffect s r := by
  have hfree := mallocFree_live ht hx
  rw [if_pos hpost] at hfree
  have hmem : (span 12 pre, ⟨r.2.toNat, false⟩) ∈ placed 12 0 (pre ++ ⟨r.2.toNat, false⟩ :: post) := by
    rw [Tiling.mem_placed_append]
    exact Or.inr (by simp)
  rintro ⟨h', heq, ⟨a, ha, hafree, hle, hend⟩, -⟩
  obtain rfl := Option.some.inj (hfree.symm.trans heq)
  exact LiveAt.not_free ht ⟨_, hx, hmem⟩ ha hafree hle hend

/-- Another block is marked, and nothing else changes. -/
theorem freeTakesEffect (hpost : post ≠ [])
    (hlive : ∀ t ∈ s.2, LiveAt (pre ++ ⟨r.2.toNat, false⟩ :: post) t)
    (hne : ∀ t ∈ s.2, t ≠ r → t.1 ≠ r.1) : FreeTakesEffect s r := by
  have hfree := mallocFree_live ht hx
  rw [if_neg hpost] at hfree
  have ht' := ht.setFree true
  have hlt := ht.span_lt
  rw [Tiling.span_append, Tiling.span_cons] at hlt
  refine ⟨_, hfree, ⟨BitVec.ofNat 32 (span 12 pre), ?_⟩, fun t htm htr => ?_⟩
  · have hself : (span 12 pre, ⟨r.2.toNat, true⟩) ∈ placed 12 0 (pre ++ ⟨r.2.toNat, true⟩ :: post) := by
      rw [Tiling.mem_placed_append]
      exact Or.inr (by simp)
    obtain ⟨next, hhead⟩ := ht'.exists_header hself
    have haddr : (BitVec.ofNat 32 (span 12 pre)).toNat = span 12 pre := by
      rw [BitVec.toNat_ofNat, Nat.mod_eq_of_lt (by omega)]
    refine ⟨ht'.isNode hself, ?_, ?_, ?_⟩
    · rw [hhead.free, if_pos rfl]
      decide
    · rw [haddr, hx]
    · rw [hhead.size, haddr, hx, BitVec.ofNat_toNat, BitVec.setWidth_eq]
  · -- the other allocations are where they were
    obtain ⟨y, hy, hymem⟩ := hlive t htm
    have hyne : y ≠ span 12 pre := by
      rintro rfl
      exact hne t htm htr (BitVec.eq_of_toNat_eq (hy.trans hx.symm))
    have hymem' := mem_placed_replace [⟨r.2.toNat, true⟩] hymem hyne (Or.inr (by simp))
    rw [List.append_assoc] at hymem'
    exact LiveAt.inUse ht' ⟨y, hy, hymem'⟩

end Block

/-- Live allocations with the same pointer are the same. -/
theorem eq_of_fst_eq {s : HeapState} {r t : VirtualAddr × BitVec 32}
    (hne : s.2.Pairwise fun r t => r.1 ≠ t.1) (hr : r ∈ s.2) (ht : t ∈ s.2) (heq : t.1 = r.1) :
    t = r := by
  have : Std.Symm fun r t : VirtualAddr × BitVec 32 => r.1 ≠ t.1 := ⟨fun _ _ h => h.symm⟩
  by_contra htr
  exact hne.forall ht hr htr heq

/-- **A free takes effect** on a live allocation, in every state reached by requests that are supplied with
pages and meet `LiveCond` and by frees, if and only if the block is not the last one. -/
theorem free_takes_effect (s : HeapState)
    (h : (heapSystem.restrict fun s c => Supplied s c ∧ LiveCond s c).Reachable s)
    (r : VirtualAddr × BitVec 32) (hr : r ∈ s.2) :
    FreeTakesEffect s r ↔ nodeNext s.1.mem (r.1 - mallocBlockSize) ≠ 0 := by
  have hinv : LiveInv s := liveInv_of_reachable (fun _ _ hc => hc) h
  have hi : s.1.mallocIniited = true := by
    by_contra hi
    rw [LiveInv, if_neg hi] at hinv
    rw [hinv.2] at hr
    exact absurd hr List.not_mem_nil
  rw [LiveInv, if_pos hi] at hinv
  obtain ⟨bs, ht, -, hlive, hne⟩ := hinv
  obtain ⟨x, hx, hmem⟩ := hlive r hr
  obtain ⟨pre, post, rfl, hpre⟩ := Tiling.exists_append_of_mem_placed hmem
  obtain rfl : x = span 12 pre := by omega
  have hlt := ht.span_lt
  rw [Tiling.span_append, Tiling.span_cons] at hlt
  rw [sub_mallocBlockSize_eq hx, ht.header.next]
  by_cases hpost : post = []
  · rw [if_pos hpost]
    exact ⟨fun heff => absurd heff (not_freeTakesEffect ht hx hpost), fun h0 => absurd rfl h0⟩
  · rw [if_neg hpost]
    refine ⟨fun _ => ofNat_ne_zero (by omega) (by omega), fun _ => ?_⟩
    exact freeTakesEffect ht hx hpost hlive fun t htm htr heq => htr (eq_of_fst_eq hne hr htm heq)

/-- A request of 100 bytes on the small machine is freed with effect. -/
theorem free_takes_effect_one_request :
    ∃ s : HeapState, s.2 = [(12, 100)] ∧ FreeTakesEffect s (12, 100) := by
  have hsup : Supplied (newHeap Vmmngr.smallMachine.vmmngrInit) (.malloc 100 fun _ => 0) :=
    supplied_smallMachine (by decide) (by decide)
  obtain ⟨s, hreach, hs, -, ht⟩ := exists_reachable_smallMachine
    (P := fun s c => Supplied s c ∧ LiveCond s c) ⟨hsup, liveCond_smallMachine⟩
  have hr : ((12, 100) : VirtualAddr × BitVec 32) ∈ s.2 := by
    rw [hs]
    exact List.mem_singleton.mpr rfl
  have hnext : nodeNext s.1.mem (12 - mallocBlockSize) = 112 := ht.chain_zero.1.next
  refine ⟨s, hs, (free_takes_effect s hreach (12, 100) hr).mpr ?_⟩
  rw [hnext]
  decide

/-- A request for all of the page is not: its block is the last one. -/
theorem not_free_takes_effect :
    ∃ s : HeapState, (heapSystem.restrict fun s c => Supplied s c).Reachable s ∧
      ∃ r ∈ s.2, ¬ FreeTakesEffect s r := by
  have hinit : (heapSystem.restrict fun s c => Supplied s c).Reachable
      (newHeap Vmmngr.smallMachine.vmmngrInit) := .init (init_newHeap Vmmngr.init_smallMachine)
  have hsup : Supplied (newHeap Vmmngr.smallMachine.vmmngrInit) (.malloc 4084 fun _ => 0) :=
    supplied_smallMachine (by decide) (by decide)
  obtain ⟨h', heq, -, ht⟩ := syscallMalloc_whole_smallMachine
  have hstep : heapStep (newHeap Vmmngr.smallMachine.vmmngrInit) (.malloc 4084 fun _ => 0)
      (h', [(12, 4084)]) := ⟨12, heq, rfl⟩
  have hlast : Tiled h' ([] ++ ⟨(4084 : BitVec 32).toNat, false⟩ :: []) := ht
  refine ⟨_, hinit.step ⟨hsup, hstep⟩, (12, 4084), List.mem_singleton.mpr rfl, ?_⟩
  exact not_freeTakesEffect hlast rfl rfl

/-! ### Merging -/

/-- No two neighbours are both free. -/
def NoFreeNeighbours (bs : List Block) : Prop :=
  bs.IsChain fun b c => ¬ (b.free = true ∧ c.free = true)

/-- `merge_free_blocks` on the heap with the blocks `bs` returns, keeps every block in use and the bytes
that are tiled, and leaves no two free neighbours. -/
def Coalesces (h : Malloc) (bs : List Block) : Prop :=
  ∃ h' bs', h.mergeFreeBlocks = some h' ∧ Tiled h' bs' ∧ span 12 bs' = span 12 bs ∧
    (∀ x b, (x, b) ∈ placed 12 0 bs → b.free = false → (x, b) ∈ placed 12 0 bs') ∧
    NoFreeNeighbours bs'

/-- **Merging** does what it is for if and only if there is nothing to merge. -/
theorem mergeFreeBlocks_coalesces (h : Malloc) (bs : List Block) (ht : Tiled h bs) :
    Coalesces h bs ↔ NoFreeNeighbours bs := by
  have hmerge := mergeFreeBlocks_eq ht.head
  constructor
  · rintro ⟨h', bs', heq, ht', -, -, hnone⟩
    obtain rfl := Option.some.inj (hmerge.symm.trans heq)
    rwa [ht.unique ht']
  · intro hnone
    exact ⟨h, bs, hmerge, ht, rfl, fun _ _ hx _ => hx, hnone⟩

/-- One block in use and one that is free. -/
theorem mergeFreeBlocks_coalesces_one_request :
    ∃ h, Tiled h [⟨100, false⟩, ⟨3972, true⟩] ∧ Coalesces h [⟨100, false⟩, ⟨3972, true⟩] := by
  obtain ⟨h', -, -, ht⟩ := syscallMalloc_smallMachine (n := 100) (fun _ => 0) (by decide) (by decide)
  refine ⟨h', ht, (mergeFreeBlocks_coalesces h' _ ht).mpr ?_⟩
  simp [NoFreeNeighbours]

/-- When the block in use is freed, both blocks are free and stay apart. -/
theorem not_mergeFreeBlocks_coalesces :
    ∃ h, Tiled h [⟨100, true⟩, ⟨3972, true⟩] ∧ ¬ Coalesces h [⟨100, true⟩, ⟨3972, true⟩] := by
  obtain ⟨h', -, -, ht⟩ := syscallMalloc_smallMachine (n := 100) (fun _ => 0) (by decide) (by decide)
  have hfirst : Tiled h' ([] ++ ⟨100, false⟩ :: [⟨3972, true⟩]) := ht
  have ht' : Tiled { h' with mem := setFree h'.mem 0 true } [⟨100, true⟩, ⟨3972, true⟩] :=
    hfirst.setFree true
  refine ⟨_, ht', ?_⟩
  rintro ⟨h₁, bs', heq, ht₁, -, -, hnone⟩
  obtain rfl := Option.some.inj ((mergeFreeBlocks_eq ht'.head).symm.trans heq)
  rw [ht₁.unique ht'] at hnone
  simp [NoFreeNeighbours] at hnone

end FanOS.Malloc

import FanOS.Malloc.Equiv.Calls

/-!
# Live allocations

Every live allocation is the payload of a block in use (`LiveAt`).  Blocks of a tiling are apart, so
live allocations do not overlap each other or a header and stay inside the heap (`LiveSafe`).

What can go wrong is that the search stops at the last block although that is in use: it is then
handed out again, or split, while its owner still has it.  `LiveCond` excludes this, and requests
that do not fit.  `live_allocations_safe` is the result about all runs.
-/

namespace FanOS.Malloc

open Tiling (Block span placed)

variable {h : Malloc} {n : BitVec 32} {b d : Block} {bs pre post : List Block} {x : ℕ}

/-! ### The property -/

/-- The addresses of the headers: the list from its head on. -/
inductive IsNode (h : Malloc) : VirtualAddr → Prop
  | head : IsNode h h.mallocListHead
  | next {a : VirtualAddr} (ha : IsNode h a) (hne : nodeNext h.mem a ≠ 0) :
    IsNode h (nodeNext h.mem a)

/-- The live allocations do not overlap, do not touch a header, and lie in the mapped heap. -/
structure LiveSafe (s : HeapState) : Prop where
  disjoint : s.2.Pairwise fun r t =>
    r.1.toNat + r.2.toNat ≤ t.1.toNat ∨ t.1.toNat + t.2.toNat ≤ r.1.toNat
  headers : ∀ r ∈ s.2, ∀ a, IsNode s.1 a →
    r.1.toNat + r.2.toNat ≤ a.toNat ∨ a.toNat + 12 ≤ r.1.toNat
  mapped : ∀ r ∈ s.2, mallocVirtAddr.toNat ≤ r.1.toNat ∧ r.1.toNat + r.2.toNat ≤
    mallocVirtAddr.toNat + 4096 * s.1.totalMallocPages.toNat

/-! ### Blocks and nodes -/

/-- The header after that of a placed block is null or that of the next block. -/
theorem Chain.next_mem {m : Mem} {a : ℕ} (hc : Chain m a bs 0) (hx : (x, b) ∈ placed 12 a bs) :
    nodeNext m (BitVec.ofNat 32 x) = 0 ∨
      ∃ c, nodeNext m (BitVec.ofNat 32 x) = BitVec.ofNat 32 (x + 12 + b.size) ∧
        (x + 12 + b.size, c) ∈ placed 12 a bs := by
  induction bs generalizing a with
  | nil => simp at hx
  | cons c bs ih =>
    rw [Tiling.placed_cons, List.mem_cons] at hx
    rcases hx with hx | hx
    · obtain ⟨rfl, rfl⟩ := Prod.mk.inj hx
      cases bs with
      | nil => exact Or.inl (chain_singleton.mp hc).next
      | cons d bs => exact Or.inr ⟨d, hc.1.next, by simp⟩
    · exact (ih hc.2 hx).imp_right fun ⟨d, h1, h2⟩ => ⟨d, h1, List.mem_cons_of_mem _ h2⟩

/-- Every node of a tiled heap is the header of a block. -/
theorem Tiled.exists_placed (ht : Tiled h bs) {a : VirtualAddr} (ha : IsNode h a) :
    ∃ x b, a = BitVec.ofNat 32 x ∧ (x, b) ∈ placed 12 0 bs := by
  induction ha with
  | head =>
    cases bs with
    | nil => exact absurd rfl ht.ne_nil
    | cons b bs => exact ⟨0, b, ht.head, by simp⟩
  | next ha hne ih =>
    obtain ⟨x, b, rfl, hx⟩ := ih
    rcases ht.chain_zero.next_mem hx with h0 | ⟨c, heq, hmem⟩
    · exact absurd h0 hne
    · exact ⟨_, c, heq, hmem⟩

/-! ### The invariant -/

/-- The allocation is the payload of a block in use. -/
def LiveAt (bs : List Block) (r : VirtualAddr × BitVec 32) : Prop :=
  ∃ x, r.1.toNat = x + 12 ∧ (x, ⟨r.2.toNat, false⟩) ∈ placed 12 0 bs

/-- Nothing is live before the heap is set up; then live allocations are distinct blocks in use. -/
def LiveInv (s : HeapState) : Prop :=
  if s.1.mallocIniited then
    ∃ bs, Tiled s.1 bs ∧ HeadPos bs ∧ (∀ r ∈ s.2, LiveAt bs r) ∧ s.2.Pairwise fun r t => r.1 ≠ t.1
  else s.1.mallocListHead = mallocVirtAddr ∧ s.2 = []

/-- Distinct blocks of a tiling are apart. -/
theorem LiveInv.safe {s : HeapState} (hinv : LiveInv s) : LiveSafe s := by
  by_cases hi : s.1.mallocIniited = true
  · rw [LiveInv, if_pos hi] at hinv
    obtain ⟨bs, ht, -, hlive, hne⟩ := hinv
    have hlt := ht.span_lt
    refine ⟨?_, fun r hr a ha => ?_, fun r hr => ?_⟩
    · -- different pointers are payloads of different blocks
      refine List.Pairwise.imp_of_mem (fun {r t} hr hu hrt => ?_) hne
      obtain ⟨x, hx, hxm⟩ := hlive r hr
      obtain ⟨y, hy, hym⟩ := hlive t hu
      have hxy : x ≠ y := fun hxy => hrt (BitVec.eq_of_toNat_eq (by omega))
      have := Tiling.placed_eq_or_apart hxm hym
      simp only at this
      omega
    · obtain ⟨x, hx, hxm⟩ := hlive r hr
      obtain ⟨y, b, rfl, hym⟩ := ht.exists_placed ha
      have hb := Tiling.mem_placed_bounds hym
      have := Tiling.placed_eq_or_apart hxm hym
      rw [BitVec.toNat_ofNat, Nat.mod_eq_of_lt (by omega)]
      simp only at this
      omega
    · obtain ⟨x, hx, hxm⟩ := hlive r hr
      have hb := Tiling.mem_placed_bounds hxm
      have hsp := ht.span_eq
      simp only [toNat_mallocVirtAddr] at hb ⊢
      omega
  · rw [LiveInv, if_neg hi] at hinv
    constructor <;> simp [hinv.2]

/-! ### Steps -/

/-- Replacing one block leaves the others where they are. -/
theorem mem_placed_replace (mid : List Block) (hx : (x, d) ∈ placed 12 0 (pre ++ b :: post))
    (hne : x ≠ span 12 pre) (hmid : post = [] ∨ span 12 mid = 12 + b.size) :
    (x, d) ∈ placed 12 0 (pre ++ mid ++ post) := by
  rw [Tiling.mem_placed_append, Tiling.placed_cons, List.mem_cons] at hx
  rw [List.append_assoc, Tiling.mem_placed_append, Tiling.mem_placed_append]
  rcases hx with hx | hx | hx
  · exact Or.inl hx
  · exact absurd (Prod.mk.inj hx).1 (by omega)
  · refine Or.inr (Or.inr ?_)
    rcases hmid with rfl | hspan
    · simp at hx
    · rwa [hspan, ← Nat.add_assoc]

/-- An allocation leaves the blocks it does not take where they are, and has its own. -/
theorem Carves.mem_placed {k : ℕ} {bs' : List Block} (hc : Carves k pre b post bs')
    (hx : (x, d) ∈ placed 12 0 (pre ++ b :: post)) (hne : x ≠ span 12 pre) :
    (x, d) ∈ placed 12 0 bs' := by
  cases hc with
  | exact h =>
    have := mem_placed_replace [⟨k, false⟩] hx hne (Or.inr (by simp [h]))
    simpa using this
  | split h =>
    have := mem_placed_replace [⟨k, false⟩, ⟨b.size - k - 12, true⟩] hx hne
      (Or.inr (by simp; omega))
    simpa using this
  | grow h hpost s =>
    subst hpost
    have := mem_placed_replace [⟨k, false⟩, ⟨s, true⟩] hx hne (Or.inl rfl)
    simpa using this

theorem Carves.mem_placed_self {k : ℕ} {bs' : List Block} (hc : Carves k pre b post bs') :
    (span 12 pre, ⟨k, false⟩) ∈ placed 12 0 bs' := by
  have hcons : ∀ rest, (span 12 pre, ⟨k, false⟩) ∈ placed 12 0 (pre ++ ⟨k, false⟩ :: rest) := by
    intro rest
    rw [Tiling.mem_placed_append]
    exact Or.inr (by simp)
  cases hc with
  | exact h => exact hcons _
  | split h => exact hcons _
  | grow h hpost s => exact hcons _

/-- Frees only pass pointers of live allocations. -/
def HeapCall.FreesLive (s : HeapState) : HeapCall → Prop
  | .malloc _ _ => True
  | .free ptr => ∃ r ∈ s.2, r.1 = ptr

/-- The condition on a request: the first one is not zero, and if it is not zero it fits and the
block at which its search stops is not live. -/
def LiveCond (s : HeapState) : HeapCall → Prop
  | .malloc n _ => (n = 0 → s.1.mallocIniited = true) ∧ (n ≠ 0 → FitCond s.1 n.toNat ∧
      ∀ pre b post, Tiled s.1 (pre ++ b :: post) → Stops n.toNat pre b post →
        ∀ r ∈ s.2, r.1.toNat ≠ span 12 pre + 12)
  | .free _ => True

namespace LiveInv

variable {s s' : HeapState}

theorem heapInv (hinv : LiveInv s) : HeapInv s.1 := by
  by_cases hi : s.1.mallocIniited = true
  · rw [LiveInv, if_pos hi] at hinv
    obtain ⟨bs, ht, hpos, -⟩ := hinv
    exact heapInv_of_tiled hi ht hpos
  · rw [LiveInv, if_neg hi] at hinv
    rw [HeapInv, if_neg hi]
    exact hinv.1

/-- The live allocations before a request, at the blocks where it finds them. -/
theorem liveAt_ready (hinv : LiveInv s) {fresh : Mem}
    (ht : Tiled (s.1.ready fresh n) (pre ++ b :: post)) :
    (∀ r ∈ s.2, LiveAt (pre ++ b :: post) r) ∧ (s.2.Pairwise fun r t => r.1 ≠ t.1) := by
  by_cases hi : s.1.mallocIniited = true
  · rw [LiveInv, if_pos hi] at hinv
    obtain ⟨bs, ht', -, hlive, hne⟩ := hinv
    rw [ready_of_inited hi] at ht
    rw [ht.unique ht']
    exact ⟨hlive, hne⟩
  · rw [LiveInv, if_neg hi] at hinv
    simp [hinv.2]

/-- **A request** under the condition adds a live block. -/
theorem malloc (hinv : LiveInv s) {fresh : Mem} (hsup : Supplied s (.malloc n fresh))
    (hc : LiveCond s (.malloc n fresh)) (hstep : heapStep s (.malloc n fresh) s') : LiveInv s' := by
  obtain ⟨ptr, heq, hlive'⟩ := hstep
  by_cases hn : n = 0
  · -- the heap is set up and nothing happens
    subst hn
    have hi := hc.1 rfl
    obtain ⟨bs, ht, -⟩ := hinv.heapInv.of_inited hi
    rw [syscallMalloc_zero ht hi, Option.some.injEq, Prod.mk.injEq] at heq
    obtain ⟨rfl, hs'⟩ := heq
    rw [if_pos rfl] at hlive'
    rwa [show s' = s from Prod.ext hs'.symm hlive']
  · obtain ⟨hfit, hstop⟩ := hc.2 hn
    have hn0 : 0 < n.toNat := by bv_omega
    obtain ⟨pre, b, post, ht, hpos, hstops, hf⟩ := exists_fits hinv.heapInv hn0 hfit hsup.2
    obtain ⟨h', bs', heq', ht', hcarves, hi', -⟩ := syscallMalloc_spec ht hpos hn0 hstops hf
    obtain ⟨rfl, rfl⟩ := Prod.mk.inj (Option.some.inj (heq.symm.trans heq'))
    obtain ⟨hlive, hne⟩ := hinv.liveAt_ready ht
    have hlt := ht.span_lt
    rw [Tiling.span_append, Tiling.span_cons] at hlt
    have hptr : (BitVec.ofNat 32 (span 12 pre + 12)).toNat = span 12 pre + 12 := by
      rw [BitVec.toNat_ofNat, Nat.mod_eq_of_lt (by omega)]
    -- the block taken is not live
    have hnot : ∀ r ∈ s.2, r.1.toNat ≠ span 12 pre + 12 := by
      intro r hr
      by_cases hi : s.1.mallocIniited = true
      · rw [ready_of_inited hi] at ht
        exact hstop pre b post ht hstops r hr
      · rw [LiveInv, if_neg hi] at hinv
        rw [hinv.2] at hr
        exact absurd hr List.not_mem_nil
    rw [if_neg (ofNat_ne_zero (by omega) (by omega))] at hlive'
    rw [LiveInv, if_pos hi', hlive']
    refine ⟨bs', ht', hcarves.headPos hn0 hpos, fun r hr => ?_, List.pairwise_cons.mpr ⟨?_, hne⟩⟩
    · rcases List.mem_cons.mp hr with rfl | hr
      · exact ⟨span 12 pre, hptr, hcarves.mem_placed_self⟩
      · obtain ⟨x, hx, hxm⟩ := hlive r hr
        have := hnot r hr
        exact ⟨x, hx, hcarves.mem_placed hxm (by omega)⟩
    · intro r hr hrp
      exact hnot r hr (by rw [← hrp]; exact hptr)

/-- **A free** takes its block out of the live ones. -/
theorem free (hinv : LiveInv s) {ptr : VirtualAddr} (hstep : heapStep s (.free ptr) s') :
    LiveInv s' := by
  obtain ⟨heq, hlive'⟩ := hstep
  by_cases hi : s.1.mallocIniited = true
  · rw [LiveInv, if_pos hi] at hinv
    obtain ⟨bs, ht, hpos, hlive, hne⟩ := hinv
    obtain ⟨-, hfields⟩ := (heapInv_of_tiled hi ht hpos).free heq
    have hi' : s'.1.mallocIniited = true := by rw [hfields]; exact hi
    have hmem : ∀ r ∈ s'.2, r ∈ s.2 ∧ r.1 ≠ ptr := by
      intro r hr
      rw [hlive', List.mem_filter] at hr
      simpa using hr
    have hne' : s'.2.Pairwise fun r t => r.1 ≠ t.1 := by
      rw [hlive']
      exact hne.filter _
    rw [LiveInv, if_pos hi']
    rcases mallocFree_cases ht ptr with hsame | ⟨pre, b, post, rfl, hp, hfree, ht'⟩
    · obtain hs' := Option.some.inj (hsame.symm.trans heq)
      exact ⟨bs, hs' ▸ ht, hpos, fun r hr => hlive r (hmem r hr).1, hne'⟩
    · obtain hs' := Option.some.inj (hfree.symm.trans heq)
      have hlt := ht.span_lt
      rw [Tiling.span_append, Tiling.span_cons] at hlt
      refine ⟨_, hs' ▸ ht', hpos.setFree, fun r hr => ?_, hne'⟩
      obtain ⟨hr, hrp⟩ := hmem r hr
      obtain ⟨x, hx, hxm⟩ := hlive r hr
      refine ⟨x, hx, ?_⟩
      -- an allocation at the freed block would be the one that was freed
      have hxne : x ≠ span 12 pre := by
        rintro rfl
        refine hrp (BitVec.eq_of_toNat_eq ?_)
        rw [hp, hx, BitVec.toNat_ofNat, Nat.mod_eq_of_lt (by omega)]
      have := mem_placed_replace [⟨b.size, true⟩] hxm hxne (Or.inr (by simp))
      simpa using this
  · -- whatever is written, nothing is live and the heap is not set up
    rw [LiveInv, if_neg hi] at hinv
    obtain ⟨hhead, hnil⟩ := hinv
    have hfields := freeLoop_fields hhead heq
    rw [LiveInv, hfields, if_neg hi, hlive', hnil]
    exact ⟨hhead, rfl⟩

end LiveInv

/-- The invariant holds in every state reached by requests that are supplied with pages and meet
`LiveCond`, and by frees. -/
theorem liveInv_of_reachable {P : HeapState → HeapCall → Prop} {s : HeapState}
    (hP : ∀ s c, P s c → Supplied s c ∧ LiveCond s c) (h : (heapSystem.restrict P).Reachable s) :
    LiveInv s := by
  refine h.invariant (I := LiveInv) (fun s hs => ?_) ?_
  · rw [LiveInv, if_neg (by simp [hs.2.2.1])]
    exact ⟨hs.2.1, hs.2.2.2.2⟩
  · rintro s c s' hs ⟨hc, hstep⟩
    obtain ⟨hsup, hcond⟩ := hP s c hc
    cases c with
    | malloc n fresh => exact hs.malloc hsup hcond hstep
    | free ptr => exact hs.free hstep

/-- **Live allocations are safe** in every state reached by requests that are supplied with pages
and meet `LiveCond`, and by frees of live pointers. -/
theorem live_allocations_safe (s : HeapState)
    (h : (heapSystem.restrict fun s c =>
      c.FreesLive s ∧ Supplied s c ∧ LiveCond s c).Reachable s) : LiveSafe s :=
  (liveInv_of_reachable (fun _ _ hc => hc.2) h).safe

theorem liveCond_smallMachine :
    LiveCond (newHeap Vmmngr.smallMachine.vmmngrInit) (.malloc 100 fun _ => 0) := by
  refine ⟨fun h => absurd h (by decide), fun _ => ⟨?_, fun _ _ _ _ _ r hr => ?_⟩⟩
  · exact fitCond_newHeap Vmmngr.init_smallMachine (by decide) (by decide)
  · exact absurd hr List.not_mem_nil

/-- A request meets the condition if there is room in a block that is not live. -/
theorem liveCond_of_room {s : HeapState} {fresh : Mem} (hi : s.1.mallocIniited = true)
    (ht : Tiled s.1 (pre ++ b :: post)) (hs : Stops n.toNat pre b post) (hroom : n.toNat + 12 ≤ b.size)
    (hlive : ∀ r ∈ s.2, r.1.toNat ≠ span 12 pre + 12) : LiveCond s (.malloc n fresh) := by
  refine ⟨fun _ => hi, fun _ => ⟨?_, fun pre' b' post' ht' hs' => ?_⟩⟩
  · rw [FitCond, if_pos hi]
    intro pre' b' post' ht' hs'
    obtain ⟨-, rfl⟩ := hs.unique hs' (ht.unique ht')
    exact ⟨Or.inr hroom, fun hlt => by omega⟩
  · obtain ⟨rfl, -⟩ := hs.unique hs' (ht.unique ht')
    exact hlive

/-- Such a request, as a step. -/
theorem exists_step_of_room {s : HeapState} (hi : s.1.mallocIniited = true)
    (ht : Tiled s.1 (pre ++ b :: post)) (hpos : HeadPos (pre ++ b :: post)) (hn : 0 < n.toNat)
    (hs : Stops n.toNat pre b post) (hroom : n.toNat + 12 ≤ b.size)
    (hlive : ∀ r ∈ s.2, r.1.toNat ≠ span 12 pre + 12) :
    ∃ h', (heapSystem.restrict fun s c => c.FreesLive s ∧ Supplied s c ∧ LiveCond s c).step s
        (.malloc n fun _ => 0) (h', (BitVec.ofNat 32 (span 12 pre + 12), n) :: s.2) ∧
      h'.mallocIniited = true ∧
      Tiled h' (pre ++ ⟨n.toNat, false⟩ :: ⟨b.size - n.toNat - 12, true⟩ :: post) := by
  have hlt := ht.span_lt
  rw [Tiling.span_append, Tiling.span_cons] at hlt
  have ht' : Tiled (s.1.ready (fun _ => 0) n) (pre ++ b :: post) := by rwa [ready_of_inited hi]
  obtain ⟨h', heq, hi', htiled⟩ := syscallMalloc_of_room ht' hpos hn hs hroom
  have hptr : BitVec.ofNat 32 (span 12 pre + 12) ≠ 0 := ofNat_ne_zero (by omega) (by omega)
  refine ⟨h', ⟨⟨trivial, supplied_of_le hi ht hs (by omega), liveCond_of_room hi ht hs hroom hlive⟩,
    _, heq, ?_⟩, hi', htiled⟩
  rw [if_neg hptr]

/-- On the small machine two blocks are live, the first is freed, and a third request is given its place. -/
theorem live_allocations_safe_two_live :
    ∃ s : HeapState, s.2 = [(12, 40), (124, 200)] ∧ LiveSafe s := by
  have hsup : Supplied (newHeap Vmmngr.smallMachine.vmmngrInit) (.malloc 100 fun _ => 0) :=
    supplied_smallMachine (by decide) (by decide)
  have hlive : HeapCall.FreesLive (newHeap Vmmngr.smallMachine.vmmngrInit)
    (.malloc 100 fun _ => 0) := trivial
  obtain ⟨⟨h₁, live₁⟩, hreach₁, rfl, hi₁, ht₁⟩ := exists_reachable_smallMachine
    (P := fun s c => c.FreesLive s ∧ Supplied s c ∧ LiveCond s c) ⟨hlive, hsup, liveCond_smallMachine⟩
  obtain ⟨h₂, hstep₂, hi₂, ht₂⟩ := exists_step_of_room (s := (h₁, [(12, 100)])) (n := 200)
    (b := ⟨3972, true⟩) hi₁ (show Tiled h₁ ([⟨100, false⟩] ++ _ :: []) from ht₁) (by simp [HeadPos])
    (by decide) ⟨by simp, Or.inl rfl⟩ (by decide) (by simp)
  -- the first block is not the last one, so it is freed
  have ht₂' : Tiled h₂ ([] ++ ⟨100, false⟩ :: [⟨200, false⟩, ⟨3760, true⟩]) := ht₂
  have hfree : h₂.mallocFree 12 = some { h₂ with mem := setFree h₂.mem 0 true } :=
    (mallocFree_at ht₂').trans (if_neg (by simp))
  have hstep₃ : (heapSystem.restrict fun s c => c.FreesLive s ∧ Supplied s c ∧ LiveCond s c).step
      (h₂, [(124, 200), (12, 100)]) (.free 12)
      ({ h₂ with mem := setFree h₂.mem 0 true }, [(124, 200)]) :=
    ⟨⟨⟨(12, 100), by simp, rfl⟩, trivial, trivial⟩, hfree, by simp⟩
  obtain ⟨h₄, hstep₄, -, -⟩ := exists_step_of_room
    (s := ({ h₂ with mem := setFree h₂.mem 0 true }, [(124, 200)])) (n := 40) (b := ⟨100, true⟩) hi₂
    (ht₂'.setFree true) (by simp [HeadPos]) (by decide) ⟨by simp, Or.inr (by decide)⟩ (by decide)
    (by simp)
  exact ⟨_, rfl, live_allocations_safe _ (((hreach₁.step hstep₂).step hstep₃).step hstep₄)⟩

/-- A request for all of the only block leaves it as the only block, in use. -/
theorem syscallMalloc_whole_page {f : Bool}
    (ht : Tiled (h.ready (fun _ => 0) 4084) [⟨4084, f⟩]) :
    ∃ h', h.syscallMalloc (fun _ => 0) 4084 = some (12, h') ∧ h'.mallocIniited = true ∧
      Tiled h' [⟨4084, false⟩] := by
  have hs : Stops (BitVec.toNat 4084#32) [] ⟨4084, f⟩ [] := ⟨by simp, Or.inl rfl⟩
  obtain ⟨h', bs', heq, ht', hcarves, hi, -⟩ := syscallMalloc_spec
    (show Tiled _ ([] ++ (⟨4084, f⟩ : Block) :: []) from ht) (by simp [HeadPos]) (by decide) hs
    (Or.inl rfl)
  cases hcarves with
  | exact _ => exact ⟨h', heq, hi, ht'⟩
  | split h => exact absurd h (by simp)
  | grow h _ s => exact absurd h (by simp)

/-- A first request for 4084 bytes on the small machine. -/
theorem syscallMalloc_whole_smallMachine :
    ∃ h', (newHeap Vmmngr.smallMachine.vmmngrInit).1.syscallMalloc (fun _ => 0) 4084 = some (12, h') ∧
      h'.mallocIniited = true ∧ Tiled h' [⟨4084, false⟩] := by
  apply syscallMalloc_whole_page (f := true)
  rw [ready_of_not_inited (by rw [newHeap])]
  exact tiled_mallocInit _ _ (by decide) (by decide)

/-- Two requests of 4084 bytes, the size of a first block, are both given that block. -/
theorem not_live_allocations_safe :
    ∃ s : HeapState, (heapSystem.restrict fun s c => c.FreesLive s ∧ Supplied s c).Reachable s ∧
      ¬ LiveSafe s := by
  have hinit : (heapSystem.restrict fun s c => c.FreesLive s ∧ Supplied s c).Reachable
      (newHeap Vmmngr.smallMachine.vmmngrInit) := .init (init_newHeap Vmmngr.init_smallMachine)
  have hsup : Supplied (newHeap Vmmngr.smallMachine.vmmngrInit) (.malloc 4084 fun _ => 0) :=
    supplied_smallMachine (by decide) (by decide)
  obtain ⟨h₁, heq₁, hi₁, ht₁⟩ := syscallMalloc_whole_smallMachine
  obtain ⟨h₂, heq₂, -, -⟩ := syscallMalloc_whole_page (h := h₁) (f := false)
    (by rwa [ready_of_inited hi₁])
  have hsup' : Supplied (h₁, [(12, 4084)]) (.malloc 4084 fun _ => 0) := by
    refine ⟨fun h => absurd h (by simp [hi₁]), fun pre b post ht _ hlt => ?_⟩
    rw [ready_of_inited hi₁] at ht
    have hb : b ∈ pre ++ b :: post := by simp
    rw [ht.unique ht₁, List.mem_singleton] at hb
    rw [hb] at hlt
    exact absurd hlt (by decide)
  have hstep₁ : heapStep (newHeap Vmmngr.smallMachine.vmmngrInit) (.malloc 4084 fun _ => 0)
      (h₁, [(12, 4084)]) := ⟨12, heq₁, rfl⟩
  have hstep₂ : heapStep (h₁, [(12, 4084)]) (.malloc 4084 fun _ => 0)
      (h₂, [(12, 4084), (12, 4084)]) := ⟨12, heq₂, rfl⟩
  have hlive : ∀ s, HeapCall.FreesLive s (.malloc 4084 fun _ => 0) := fun _ => trivial
  refine ⟨_, (hinit.step ⟨⟨hlive _, hsup⟩, hstep₁⟩).step ⟨⟨hlive _, hsup'⟩, hstep₂⟩, fun hsafe => ?_⟩
  have hdisj := (List.pairwise_cons.mp hsafe.disjoint).1 (12, 4084) List.mem_cons_self
  simp at hdisj

end FanOS.Malloc

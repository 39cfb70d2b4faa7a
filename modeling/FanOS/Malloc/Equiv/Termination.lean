import FanOS.Malloc.Equiv.FirstFit
import FanOS.Malloc.Equiv.UserPages

/-!
# Requests that never return

`malloc_next_block` has two loops before it changes anything: the walk along the list, and the count of
the pages by which the last block has to grow.  On a list that ends the walk does too
(`searchLoop_getLast`).  The count compares `cur->size + page_count * PAGE_SIZE` with
`size + sizeof(malloc_block_t)`, both modulo `2 ^ 32`.  The first of them takes all values that have the
lower 12 bits of `cur->size`; if the second is larger than the largest of these, the loop goes round for
ever (`Endless`, `pageCountLoop_eq_none`), and otherwise it ends (`exists_pageCountLoop`).

`syscallMalloc_terminates` puts the two together.  A heap that is just being set up has a block that
fits or that one more page makes fit, so requests of any size return there.
-/

namespace FanOS.Malloc

variable {h h' : Malloc} {fresh m : Mem} {n s c : BitVec 32} {a cur ptr : VirtualAddr}
  {l : List VirtualAddr} {k : ℕ}

/-! ### The count -/

/-- No count of pages makes a block of `s` bytes as large as a request of `n` bytes with another header:
the largest size that the block can come to is smaller. -/
def Endless (s n : BitVec 32) : Prop := 2 ^ 32 - 4096 + s.toNat % 4096 < (n.toNat + 12) % 2 ^ 32

theorem toNat_grown (s c : BitVec 32) :
    (s + c * pageSize).toNat = (s.toNat + 4096 * c.toNat) % 2 ^ 32 := by
  rw [BitVec.toNat_add, BitVec.toNat_mul, show pageSize.toNat = 4096 from rfl, Nat.add_mod_mod,
    Nat.mul_comm]

theorem grown_lt_iff (s n c : BitVec 32) : s + c * pageSize < n + mallocBlockSize ↔
    (s.toNat + 4096 * c.toNat) % 2 ^ 32 < (n.toNat + 12) % 2 ^ 32 := by
  rw [BitVec.lt_def, toNat_grown, BitVec.toNat_add, show mallocBlockSize.toNat = 12 from rfl]

/-- The count of pages never ends. -/
theorem pageCountLoop_eq_none (he : Endless s n) (k : ℕ) (c : BitVec 32) :
    pageCountLoop s n k c = none := by
  induction k generalizing c with
  | zero => rfl
  | succ k ih =>
    have hgo : s + c * pageSize < n + mallocBlockSize := by
      rw [grown_lt_iff]
      unfold Endless at he
      omega
    rw [pageCountLoop, if_pos hgo]
    exact ih _

/-- The count ends if there is a count ahead at which it stops. -/
theorem exists_pageCountLoop_of_stop {j : ℕ} (hj : j < k)
    (hstop : ¬ s + (c + BitVec.ofNat 32 j) * pageSize < n + mallocBlockSize) :
    ∃ r, pageCountLoop s n k c = some r := by
  induction k generalizing c j with
  | zero => omega
  | succ k ih =>
    rw [pageCountLoop]
    by_cases hgo : s + c * pageSize < n + mallocBlockSize
    · rw [if_pos hgo]
      cases j with
      | zero =>
        rw [show c + BitVec.ofNat 32 0 = c from BitVec.add_zero c] at hstop
        exact absurd hgo hstop
      | succ j =>
        refine ih (j := j) (by omega) ?_
        rwa [BitVec.add_assoc, show (1 : BitVec 32) = BitVec.ofNat 32 1 from rfl, ← BitVec.ofNat_add,
          Nat.add_comm 1 j]
    · rw [if_neg hgo]
      exact ⟨c, rfl⟩

/-- Otherwise it ends, at the latest when the block has come to its largest size. -/
theorem exists_pageCountLoop (he : ¬ Endless s n) : ∃ r, pageCountLoop s n (2 ^ 32) 1 = some r := by
  have hlt := s.isLt
  apply exists_pageCountLoop_of_stop (j := (2 ^ 21 - 2 - s.toNat / 4096) % 2 ^ 20) (by omega)
  rw [grown_lt_iff, BitVec.toNat_add, BitVec.toNat_ofNat, show (1 : BitVec 32).toNat = 1 from rfl]
  unfold Endless at he
  omega

/-! ### The walk -/

/-- The walk along a list none of whose blocks can serve the request ends at the last one. -/
theorem searchLoop_getLast (hl : Linked m a l) (hnone : ∀ b ∈ l, serves m n b = false)
    (hk : l.length ≤ k) : searchLoop m n k a = l.getLast? := by
  induction hl generalizing k with
  | @last a hnext =>
    obtain ⟨k, rfl⟩ : ∃ k', k = k' + 1 := ⟨k - 1, by simp at hk; omega⟩
    rw [searchLoop, if_neg fun hc => hc.1 hnext]
    rfl
  | @next a l hnext hl ih =>
    rw [List.length_cons] at hk
    obtain ⟨k, rfl⟩ : ∃ k', k = k' + 1 := ⟨k - 1, by omega⟩
    have hunfit := hnone a List.mem_cons_self
    rw [serves, decide_eq_false_iff_not, not_and_or, ne_eq, not_not, BitVec.not_le] at hunfit
    have hl0 : l ≠ [] := by
      cases hl <;> simp
    rw [searchLoop, if_pos ⟨hnext, hunfit.symm⟩,
      ih (fun b hb => hnone b (List.mem_cons_of_mem _ hb)) (by omega), List.getLast?_cons,
      List.getLast?_eq_some_getLast hl0, Option.getD_some]

/-- A walk that has ended is not changed by more rounds. -/
theorem searchLoop_of_le {j : ℕ} (hs : searchLoop m n j a = some cur) (hjk : j ≤ k) :
    searchLoop m n k a = some cur := by
  induction j generalizing a k with
  | zero => exact absurd hs (by simp [searchLoop])
  | succ j ih =>
    obtain ⟨k, rfl⟩ : ∃ k', k = k' + 1 := ⟨k - 1, by omega⟩
    rw [searchLoop] at hs ⊢
    split_ifs at hs ⊢ with hgo
    · exact ih hs (by omega)
    · exact hs

/-! ### Requests -/

theorem nodeSize_setFree_self (m : Mem) (node : VirtualAddr) (f : Bool) :
    nodeSize (setFree m node f) node = nodeSize m node := by
  have hapart : Mem.Apart node (node + 4) := by
    unfold Mem.Apart
    constructor <;> bv_omega
  rw [nodeSize, setFree, Mem.load32_store32_of_apart _ _ hapart, nodeSize]

/-- The block that is split is left with the size asked for, wherever the second header goes. -/
theorem nodeSize_mallocSplit (m : Mem) (node : VirtualAddr) (n : BitVec 32) :
    nodeSize (mallocSplit m node n) node = n := by
  have hapart : Mem.Apart node (node + 8) := by
    unfold Mem.Apart
    constructor <;> bv_omega
  rw [mallocSplit, nodeSize, setNext, Mem.load32_store32_of_apart _ _ hapart]
  exact (nodeSize_setFree_self _ _ _).trans (nodeSize_setSize _ _ _)

theorem mallocListHead_growLoop (fresh : Mem) (cur : VirtualAddr) (k : ℕ) (virt : VirtualAddr)
    (h : Malloc) : (growLoop fresh cur k virt h).mallocListHead = h.mallocListHead := by
  induction k generalizing h virt with
  | zero => rfl
  | succ k ih =>
    rw [growLoop, ih, growPage]
    dsimp only
    split_ifs <;> rfl

/-- `malloc_next_block` returns the block `cur` in the state `h'`: the payload of the block at which the
search of `s` stops, which has the size asked for then. -/
structure Hands (s : Malloc) (n : BitVec 32) (cur : VirtualAddr) (h' : Malloc) : Prop where
  search : searchLoop s.mem n (2 ^ 32) s.mallocListHead = some cur
  count : nodeSize s.mem cur < n → ∃ c, pageCountLoop (nodeSize s.mem cur) n (2 ^ 32) 1 = some c
  size : nodeSize h'.mem cur = n
  head : h'.mallocListHead = s.mallocListHead

/-- What `malloc_next_block` does once both loops have ended. -/
theorem exists_hands (hn : n ≠ 0)
    (hs : searchLoop (h.searched fresh n).mem n (2 ^ 32) (h.searched fresh n).mallocListHead = some cur)
    (hc : nodeSize (h.searched fresh n).mem cur < n →
      ∃ c, pageCountLoop (nodeSize (h.searched fresh n).mem cur) n (2 ^ 32) 1 = some c) :
    ∃ h', h.mallocNextBlock fresh n = some (cur + mallocBlockSize, h') ∧
      Hands (h.searched fresh n) n cur h' := by
  rw [mallocNextBlock, if_neg hn, ← searched]
  dsimp only
  rw [hs]
  dsimp only
  by_cases hexact : nodeSize (h.searched fresh n).mem cur = n
  · rw [if_pos hexact]
    exact ⟨_, rfl, hs, hc, (nodeSize_setFree_self _ _ _).trans hexact, rfl⟩
  · rw [if_neg hexact]
    by_cases hsplit : n < nodeSize (h.searched fresh n).mem cur
    · rw [if_pos hsplit]
      exact ⟨_, rfl, hs, hc, nodeSize_mallocSplit _ _ _, rfl⟩
    · rw [if_neg hsplit]
      obtain ⟨c, hcount⟩ := hc (by bv_omega)
      rw [hcount]
      exact ⟨_, rfl, hs, hc, nodeSize_mallocSplit _ _ _, mallocListHead_growLoop _ _ _ _ _⟩

/-- **A `malloc_next_block` that returns** has ended both loops. -/
theorem hands_of_mallocNextBlock (hn : n ≠ 0) (heq : h.mallocNextBlock fresh n = some (ptr, h')) :
    ∃ cur, ptr = cur + mallocBlockSize ∧ Hands (h.searched fresh n) n cur h' := by
  cases hs : searchLoop (h.searched fresh n).mem n (2 ^ 32) (h.searched fresh n).mallocListHead with
  | none =>
    rw [mallocNextBlock, if_neg hn, ← searched] at heq
    dsimp only at heq
    rw [hs] at heq
    exact absurd heq (by simp)
  | some cur =>
    have hc : nodeSize (h.searched fresh n).mem cur < n →
        ∃ c, pageCountLoop (nodeSize (h.searched fresh n).mem cur) n (2 ^ 32) 1 = some c := by
      intro hless
      rw [← Option.isSome_iff_exists, Option.isSome_iff_ne_none]
      intro hcount
      rw [mallocNextBlock, if_neg hn, ← searched] at heq
      dsimp only at heq
      rw [hs] at heq
      dsimp only at heq
      rw [if_neg (by bv_omega), if_neg (by bv_omega), hcount] at heq
      exact absurd heq (by simp)
    obtain ⟨h₁, heq', hhands⟩ := exists_hands hn hs hc
    obtain ⟨rfl, rfl⟩ := Prod.mk.inj (Option.some.inj (heq.symm.trans heq'))
    exact ⟨cur, rfl, hhands⟩

/-! ### Loops that end -/

/-- Both loops of `malloc_next_block` end, after some number of rounds, when it searches the heap `s`
for `n` bytes. -/
def LoopsEnd (s : Malloc) (n : BitVec 32) : Prop :=
  ∃ j cur, searchLoop s.mem n j s.mallocListHead = some cur ∧
    (nodeSize s.mem cur < n → ∃ j c, pageCountLoop (nodeSize s.mem cur) n j 1 = some c)

/-- The walk has ended, so it is a matter of the count. -/
theorem loopsEnd_iff_not_endless (hs : searchLoop h.mem n (2 ^ 32) h.mallocListHead = some cur) :
    LoopsEnd h n ↔ (nodeSize h.mem cur < n → ¬ Endless (nodeSize h.mem cur) n) := by
  constructor
  · rintro ⟨j, cur', hs', hcount⟩ hless he
    have heq := (searchLoop_of_le hs (Nat.le_max_left (2 ^ 32) j)).symm.trans
      (searchLoop_of_le hs' (Nat.le_max_right (2 ^ 32) j))
    obtain rfl := Option.some.inj heq
    obtain ⟨i, c, hc⟩ := hcount hless
    rw [pageCountLoop_eq_none he] at hc
    exact absurd hc (by simp)
  · intro hcount
    refine ⟨2 ^ 32, cur, hs, fun hless => ?_⟩
    obtain ⟨c, hc⟩ := exists_pageCountLoop (hcount hless)
    exact ⟨2 ^ 32, c, hc⟩

/-- `malloc_next_block` returns if and only if they end. -/
theorem isSome_mallocNextBlock_iff (hn : n ≠ 0)
    (hs : searchLoop (h.searched fresh n).mem n (2 ^ 32) (h.searched fresh n).mallocListHead =
      some cur) :
    (h.mallocNextBlock fresh n).isSome = true ↔ LoopsEnd (h.searched fresh n) n := by
  constructor
  · intro hsome
    obtain ⟨⟨ptr, h'⟩, heq⟩ := Option.isSome_iff_exists.mp hsome
    obtain ⟨cur', -, hhands⟩ := hands_of_mallocNextBlock hn heq
    refine ⟨2 ^ 32, cur', hhands.search, fun hless => ?_⟩
    obtain ⟨c, hc⟩ := hhands.count hless
    exact ⟨2 ^ 32, c, hc⟩
  · intro hend
    obtain ⟨h', heq, -⟩ := exists_hands hn hs fun hless =>
      exists_pageCountLoop ((loopsEnd_iff_not_endless hs).mp hend hless)
    rw [heq]
    rfl

/-! ### A heap that is being set up -/

theorem nodeSize_mallocInit (h : Malloc) (fresh : Mem) (n : BitVec 32) :
    nodeSize (h.mallocInit fresh n).mem mallocVirtAddr =
      initPageCount n * pageSize - mallocBlockSize := by
  rw [mallocInit]
  simp only [initPages_fields, totalMallocPages_takePages, mallocListHead_takePages]
  exact (nodeSize_setNext (a := 0) _ _ (by decide)).trans
    ((nodeSize_setFree (a := 0) _ _ (by decide)).trans (nodeSize_setSize _ _ _))

/-- Its block has no more than 12 bytes less than the request, or is not made to wrap by it. -/
theorem not_endless_mallocInit (hn : n ≠ 0)
    (hless : nodeSize (h.mallocInit fresh n).mem mallocVirtAddr < n) :
    ¬ Endless (nodeSize (h.mallocInit fresh n).mem mallocVirtAddr) n := by
  have hpages := toNat_initPageCount n
  have hpos : 0 < n.toNat := Nat.pos_of_ne_zero fun h0 => hn (BitVec.eq_of_toNat_eq h0)
  have hlt := n.isLt
  have hsize : (nodeSize (h.mallocInit fresh n).mem mallocVirtAddr).toNat =
      4096 * pagesFor n.toNat - 12 := by
    rw [nodeSize_mallocInit, BitVec.toNat_sub, BitVec.toNat_mul, hpages,
      show pageSize.toNat = 4096 from rfl, show mallocBlockSize.toNat = 12 from rfl]
    unfold pagesFor
    omega
  rw [BitVec.lt_def, hsize] at hless
  unfold Endless
  rw [hsize]
  unfold pagesFor at hless ⊢
  omega

theorem loopsEnd_mallocInit (h : Malloc) (fresh : Mem) (hn : n ≠ 0) :
    LoopsEnd (h.mallocInit fresh n) n :=
  (loopsEnd_iff_not_endless (searchLoop_mallocInit h fresh n n)).mpr (not_endless_mallocInit hn)

/-- A request searches a heap that has just been set up, or the heap as it is. -/
theorem searched_ready_cases (h : Malloc) (fresh : Mem) (n : BitVec 32) :
    (¬ (h.mallocIniited = true ∧ nodeSize h.mem h.mallocListHead ≠ 0) ∧
      ∃ g : Malloc, (h.ready fresh n).searched fresh n = g.mallocInit fresh n) ∨
    (h.mallocIniited = true ∧ nodeSize h.mem h.mallocListHead ≠ 0 ∧
      (h.ready fresh n).searched fresh n = h) := by
  cases hi : h.mallocIniited with
  | false =>
    refine Or.inl ⟨fun hc => Bool.false_ne_true hc.1, ?_⟩
    rw [ready_of_not_inited hi, searched]
    split_ifs
    · exact ⟨_, rfl⟩
    · exact ⟨_, rfl⟩
  | true =>
    rw [ready_of_inited hi, searched]
    by_cases h0 : nodeSize h.mem h.mallocListHead = 0
    · rw [if_pos h0]
      exact Or.inl ⟨fun hc => hc.2 h0, _, rfl⟩
    · rw [if_neg h0]
      exact Or.inr ⟨rfl, h0, rfl⟩

/-! ### Termination -/

/-- A request of `n` bytes on the heap with the blocks `l`, none of which can serve it, has to enlarge
the last block, and no count of pages is enough for it. -/
structure Starved (h : Malloc) (l : List VirtualAddr) (n : BitVec 32) : Prop where
  inited : h.mallocIniited = true ∧ nodeSize h.mem h.mallocListHead ≠ 0
  unserved : ∀ a ∈ l, serves h.mem n a = false
  endless : ∃ a ∈ l.getLast?, nodeSize h.mem a < n ∧ Endless (nodeSize h.mem a) n

/-- The search for a block ends on every list that does. -/
theorem exists_searchLoop (hl : Linked m a l) (n : BitVec 32) :
    ∃ cur, searchLoop m n (2 ^ 32) a = some cur ∧
      (n ≤ nodeSize m cur ∧ cur ∈ l ∧ serves m n cur = true ∨
        l.getLast? = some cur ∧ ∀ b ∈ l, serves m n b = false) := by
  cases hfind : l.find? (serves m n) with
  | some cur =>
    have hserves : serves m n cur = true := List.find?_some hfind
    exact ⟨cur, searchLoop_linked hl hfind hl.length_le,
      Or.inl ⟨(of_decide_eq_true hserves).2, List.mem_of_find?_eq_some hfind, hserves⟩⟩
  | none =>
    have hnone : ∀ b ∈ l, serves m n b = false := by
      intro b hb
      simpa using List.find?_eq_none.mp hfind b hb
    have hne : l ≠ [] := by
      cases hl <;> simp
    have hlast := List.getLast?_eq_some_getLast hne
    exact ⟨l.getLast hne, (searchLoop_getLast hl hnone hl.length_le).trans hlast, Or.inr ⟨hlast, hnone⟩⟩

/-- Which requests end both loops. -/
theorem loopsEnd_searched_iff (fresh : Mem) (hn : n ≠ 0)
    (hl : h.mallocIniited = true → Linked h.mem h.mallocListHead l) :
    (∃ cur, searchLoop ((h.ready fresh n).searched fresh n).mem n (2 ^ 32)
      ((h.ready fresh n).searched fresh n).mallocListHead = some cur) ∧
    (LoopsEnd ((h.ready fresh n).searched fresh n) n ↔ ¬ Starved h l n) := by
  rcases searched_ready_cases h fresh n with ⟨hfresh, g, hg⟩ | ⟨hi, h0, hg⟩
  · rw [hg]
    refine ⟨⟨_, searchLoop_mallocInit g fresh n n⟩, fun _ hstarved => hfresh hstarved.inited, fun _ => ?_⟩
    exact loopsEnd_mallocInit g fresh hn
  · rw [hg]
    obtain ⟨cur, hs, hcur⟩ := exists_searchLoop (hl hi) n
    refine ⟨⟨cur, hs⟩, (loopsEnd_iff_not_endless hs).trans ⟨fun hend hstarved => ?_, fun hok hless he => ?_⟩⟩
    · obtain ⟨b, hb, hless, he⟩ := hstarved.endless
      rcases hcur with ⟨-, hmem, hserves⟩ | ⟨hlast, -⟩
      · exact absurd ((hstarved.unserved cur hmem).symm.trans hserves) Bool.false_ne_true
      · obtain rfl := Option.some.inj (hb.symm.trans hlast)
        exact hend hless he
    · rcases hcur with ⟨hle, -⟩ | ⟨hlast, hnone⟩
      · exact BitVec.not_le.mpr hless hle
      · exact hok ⟨⟨hi, h0⟩, hnone, cur, hlast, hless, he⟩

theorem mallocListHead_mallocInit (h : Malloc) (fresh : Mem) (n : BitVec 32) :
    (h.mallocInit fresh n).mallocListHead = mallocVirtAddr := by
  unfold mallocInit
  exact (initPages_fields _ _ _ _ _).1

theorem mallocListHead_searched_ready (hhead : h.mallocListHead = mallocVirtAddr) (fresh : Mem)
    (n : BitVec 32) : ((h.ready fresh n).searched fresh n).mallocListHead = mallocVirtAddr := by
  rcases searched_ready_cases h fresh n with ⟨-, g, hg⟩ | ⟨-, -, hg⟩
  · rw [hg, mallocListHead_mallocInit]
  · rw [hg, hhead]

/-- What `syscall_malloc` returns is what `malloc_next_block` returns. -/
theorem syscallMalloc_of_mallocNextBlock
    (hnext : (h.ready fresh n).mallocNextBlock fresh n = some (ptr, h'))
    (hhead : h'.mallocListHead = mallocVirtAddr) : h.syscallMalloc fresh n = some (ptr, h') := by
  rw [syscallMalloc_eq, hnext]
  simp only
  rw [mergeFreeBlocks_eq hhead]
  rfl

theorem isSome_syscallMalloc_iff (hhead : h.mallocListHead = mallocVirtAddr) (fresh : Mem) (hn : n ≠ 0) :
    (h.syscallMalloc fresh n).isSome = true ↔
      ((h.ready fresh n).mallocNextBlock fresh n).isSome = true := by
  cases hnext : (h.ready fresh n).mallocNextBlock fresh n with
  | none => rw [syscallMalloc_eq, hnext]
  | some r =>
    obtain ⟨ptr, h'⟩ := r
    obtain ⟨cur, -, hhands⟩ := hands_of_mallocNextBlock hn hnext
    rw [syscallMalloc_of_mallocNextBlock hnext
      (hhands.head.trans (mallocListHead_searched_ready hhead fresh n))]

/-- Nothing runs for a request of no bytes. -/
theorem isSome_syscallMalloc_zero (hhead : h.mallocListHead = mallocVirtAddr) (fresh : Mem) :
    (h.syscallMalloc fresh 0).isSome = true := by
  have hready : (h.ready fresh 0).mallocListHead = mallocVirtAddr := by
    unfold ready
    split_ifs
    · exact mallocListHead_mallocInit h fresh 0
    · exact hhead
  rw [syscallMalloc_of_mallocNextBlock (by rw [mallocNextBlock, if_pos rfl]) hready]
  rfl

/-- **`syscall_malloc` terminates** on every heap whose list is finite and for every request, except for
those that starve. -/
theorem syscallMalloc_terminates (h : Malloc) (fresh : Mem) (n : BitVec 32) (l : List VirtualAddr)
    (hhead : h.mallocListHead = mallocVirtAddr)
    (hl : h.mallocIniited = true → Linked h.mem h.mallocListHead l) :
    ((n ≠ 0 → LoopsEnd ((h.ready fresh n).searched fresh n) n) ↔ ¬ Starved h l n) ∧
      ((h.syscallMalloc fresh n).isSome = true ↔ ¬ Starved h l n) := by
  by_cases hn : n = 0
  · subst hn
    have hnot : ¬ Starved h l 0 := by
      intro hstarved
      obtain ⟨a, -, hless, -⟩ := hstarved.endless
      exact absurd hless BitVec.not_lt_zero
    exact ⟨⟨fun _ => hnot, fun _ h0 => absurd rfl h0⟩,
      ⟨fun _ => hnot, fun _ => isSome_syscallMalloc_zero hhead fresh⟩⟩
  · obtain ⟨⟨cur, hs⟩, hend⟩ := loopsEnd_searched_iff fresh hn hl
    refine ⟨⟨fun hall => hend.mp (hall hn), fun hok _ => hend.mpr hok⟩, ?_⟩
    rw [isSome_syscallMalloc_iff hhead fresh hn, isSome_mallocNextBlock_iff hn hs, hend]

/-! ### A heap of one page -/

/-- The blocks of a tiled heap are a finite list. -/
theorem Tiled.linked {bs : List Tiling.Block} (ht : Tiled h bs) :
    Linked h.mem h.mallocListHead ((Tiling.placed 12 0 bs).map fun p => BitVec.ofNat 32 p.1) := by
  have hlinked : ∀ a, Chain h.mem a bs 0 → bs ≠ [] → a + Tiling.span 12 bs < 2 ^ 32 →
      Linked h.mem (BitVec.ofNat 32 a)
        ((Tiling.placed 12 a bs).map fun p => BitVec.ofNat 32 p.1) := by
    clear ht
    induction bs with
    | nil => exact fun a _ hne => absurd rfl hne
    | cons b bs ih =>
      intro a hc _ hlt
      rw [Tiling.span_cons] at hlt
      by_cases hbs : bs = []
      · subst hbs
        exact .last (chain_singleton.mp hc).next
      · rw [chain_cons_of_ne_nil hbs] at hc
        have hnext := hc.1.next
        rw [Tiling.placed_cons, List.map_cons]
        refine .next ?_ ?_
        · rw [hnext]
          exact ofNat_ne_zero (by omega) (by omega)
        · rw [hnext]
          exact ih _ hc.2 hbs (by omega)
  have hlt := ht.span_lt
  rw [ht.head]
  exact hlinked 0 ht.chain_zero ht.ne_nil (by omega)

/-- A heap of one page with 100 bytes in use serves no request of almost 4 GiB, and never comes to an
end of counting pages for it. -/
theorem starved_of_tiled (hi : h.mallocIniited = true) (ht : Tiled h [⟨100, false⟩, ⟨3972, true⟩]) :
    Starved h [0, 112] 0xFFFFFFF3 := by
  have hfirst : Header h.mem 0 ⟨100, false⟩ 112 := ht.chain_zero.1
  have hlast : Header h.mem 112 ⟨3972, true⟩ 0 := chain_singleton.mp ht.chain_zero.2
  have hsize : nodeSize h.mem 112 = 3972 := hlast.size
  have hfree : nodeFree h.mem 0 = 0 := hfirst.free
  refine ⟨⟨hi, ht.nodeSize_head_ne_zero (by simp [HeadPos])⟩, fun a ha => ?_, 112, rfl, ?_⟩
  · rw [serves, decide_eq_false_iff_not]
    rintro ⟨hused, hle⟩
    rcases List.mem_pair.mp ha with rfl | rfl
    · exact hused hfree
    · rw [hsize] at hle
      exact absurd hle (by decide)
  · rw [hsize]
    exact ⟨by decide, by unfold Endless; decide⟩

/-- After a request of 100 bytes on the small machine, one of 4 GiB less one byte returns, since the sum
with the header wraps to 11, and one that is smaller by 12 bytes does not. -/
theorem syscallMalloc_terminates_one_page : ∃ h : Malloc, h.mallocIniited = true ∧
    Linked h.mem h.mallocListHead [0, 112] ∧
    (h.syscallMalloc (fun _ => 0) 0xFFFFFFFF).isSome = true ∧
    ¬ (h.syscallMalloc (fun _ => 0) 0xFFFFFFF3).isSome = true := by
  obtain ⟨h', -, hi, ht⟩ := syscallMalloc_smallMachine (n := 100) (fun _ => 0) (by decide) (by decide)
  have hlinked : h'.mallocIniited = true → Linked h'.mem h'.mallocListHead [0, 112] := fun _ => ht.linked
  refine ⟨h', hi, ht.linked, ?_, fun hsome => ?_⟩
  · refine (syscallMalloc_terminates h' (fun _ => 0) 0xFFFFFFFF [0, 112] ht.head hlinked).2.mpr ?_
    intro hstarved
    obtain ⟨a, -, -, he⟩ := hstarved.endless
    unfold Endless at he
    rw [show ((0xFFFFFFFF : BitVec 32).toNat + 12) % 2 ^ 32 = 11 from rfl] at he
    omega
  · exact (syscallMalloc_terminates h' (fun _ => 0) 0xFFFFFFF3 [0, 112] ht.head hlinked).2.mp hsome
      (starved_of_tiled hi ht)

/-- Two requests on the small machine, one of 100 and one of `0xFFFFFFF3` bytes: the second never
returns. -/
theorem not_syscallMalloc_terminates :
    ∃ s : HeapState, (heapSystem.restrict Supplied).Reachable s ∧
      (∃ l, Linked s.1.mem s.1.mallocListHead l) ∧
      ∀ fresh, ¬ LoopsEnd ((s.1.ready fresh 0xFFFFFFF3).searched fresh 0xFFFFFFF3) 0xFFFFFFF3 := by
  have hsup : Supplied (newHeap Vmmngr.smallMachine.vmmngrInit) (.malloc 100 fun _ => 0) :=
    supplied_smallMachine (by decide) (by decide)
  obtain ⟨s, hreach, -, hi, ht⟩ := exists_reachable_smallMachine (P := Supplied) hsup
  refine ⟨s, hreach, ⟨_, ht.linked⟩, fun fresh hend => ?_⟩
  have hlinked : s.1.mallocIniited = true → Linked s.1.mem s.1.mallocListHead [0, 112] :=
    fun _ => ht.linked
  exact (loopsEnd_searched_iff fresh (by decide) hlinked).2.mp hend (starved_of_tiled hi ht)

end FanOS.Malloc

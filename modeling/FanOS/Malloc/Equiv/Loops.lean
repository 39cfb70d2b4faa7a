import FanOS.Malloc.Equiv.Chain

/-!
# The loops over the block list

Each loop of `malloc.c` that follows the list, run on a chain of headers, does what the list
operation does: the search ends at the first free block that is large enough, or at the last block
in whatever state that is (`Stops`, `searchLoop_eq_some`); `malloc_free` marks the block with the
given payload address unless it is the last one (`freeLoop_cases`); and `merge_free_blocks` does
nothing at all (`mergeFreeBlocks_eq`).  All loops end well within `2 ^ 32` rounds.
-/

namespace FanOS.Malloc

open Mem (AgreeOn)
open Tiling (Block span)

variable {m : Mem} {a n : ℕ} {b : Block} {bs pre post : List Block}

/-! ### Lengths -/

/-- A heap has fewer blocks than bytes. -/
theorem length_le_span (bs : List Block) : bs.length ≤ span 12 bs := by
  induction bs with
  | nil => simp
  | cons b bs ih =>
    rw [List.length_cons, Tiling.span_cons]
    omega

theorem ofNat_ne_ofNat {x y : ℕ} (hx : x < 2 ^ 32) (hy : y < 2 ^ 32) (hne : x ≠ y) :
    BitVec.ofNat 32 x ≠ BitVec.ofNat 32 y := by
  intro h
  have heq := congrArg BitVec.toNat h
  rw [BitVec.toNat_ofNat, BitVec.toNat_ofNat, Nat.mod_eq_of_lt hx, Nat.mod_eq_of_lt hy] at heq
  exact hne heq

theorem ofNat_ne_zero {x : ℕ} (h0 : 0 < x) (hlt : x < 2 ^ 32) : BitVec.ofNat 32 x ≠ 0 :=
  ofNat_ne_ofNat (y := 0) hlt (by omega) h0.ne'

theorem ofNat_lt_ofNat {x y : ℕ} (hx : x < 2 ^ 32) (hy : y < 2 ^ 32) :
    BitVec.ofNat 32 x < BitVec.ofNat 32 y ↔ x < y := by
  rw [BitVec.lt_def, BitVec.toNat_ofNat, BitVec.toNat_ofNat, Nat.mod_eq_of_lt hx,
    Nat.mod_eq_of_lt hy]

theorem flag_eq_zero_iff (f : Bool) : (if f then (1 : BitVec 32) else 0) = 0 ↔ f = false := by
  cases f <;> simp

/-! ### The search -/

/-- A search for `n` bytes in `pre ++ b :: post` stops at `b`. -/
structure Stops (n : ℕ) (pre : List Block) (b : Block) (post : List Block) : Prop where
  skipped : ∀ c ∈ pre, c.size < n ∨ c.free = false
  taken : post = [] ∨ (n ≤ b.size ∧ b.free = true)

/-- Every search stops somewhere, -/
theorem exists_stops (n : ℕ) {bs : List Block} (h : bs ≠ []) :
    ∃ pre b post, bs = pre ++ b :: post ∧ Stops n pre b post := by
  induction bs with
  | nil => exact absurd rfl h
  | cons b bs ih =>
    by_cases hstop : bs = [] ∨ (n ≤ b.size ∧ b.free = true)
    · exact ⟨[], b, bs, rfl, by simp, hstop⟩
    · rw [not_or, not_and_or] at hstop
      obtain ⟨pre, c, post, rfl, hs⟩ := ih hstop.1
      refine ⟨b :: pre, c, post, rfl, fun d hd => ?_, hs.taken⟩
      rcases List.mem_cons.mp hd with rfl | hd
      · rcases hstop.2 with h2 | h2
        · exact Or.inl (by omega)
        · exact Or.inr (by simpa using h2)
      · exact hs.skipped d hd

/-- and at one block only. -/
theorem Stops.unique {n : ℕ} {pre post pre' post' : List Block} {b b' : Block} (hs : Stops n pre b post)
    (hs' : Stops n pre' b' post') (heq : pre ++ b :: post = pre' ++ b' :: post') : pre = pre' ∧ b = b' := by
  -- a block is not skipped where the search stops
  have hnot : ∀ {c : Block} {mid rest : List Block} {d : Block}, (c.size < n ∨ c.free = false) →
      ¬ (mid ++ d :: rest = [] ∨ (n ≤ c.size ∧ c.free = true)) := by
    rintro c mid rest d hskip (hnil | ⟨hle, hfree⟩)
    · simp at hnil
    · rcases hskip with hlt | hused
      · omega
      · rw [hused] at hfree
        cases hfree
  induction pre generalizing pre' with
  | nil =>
    cases pre' with
    | nil => exact ⟨rfl, (List.cons.inj heq).1⟩
    | cons c pre' =>
      obtain ⟨rfl, rfl⟩ := List.cons.inj heq
      exact absurd hs.taken (hnot (hs'.skipped b List.mem_cons_self))
  | cons c pre ih =>
    cases pre' with
    | nil =>
      obtain ⟨rfl, rfl⟩ := List.cons.inj heq
      exact absurd hs'.taken (hnot (hs.skipped c List.mem_cons_self))
    | cons d pre' =>
      obtain ⟨rfl, htail⟩ := List.cons.inj heq
      obtain ⟨rfl, rfl⟩ := ih ⟨fun e he => hs.skipped e (List.mem_cons_of_mem c he), hs.taken⟩
        ⟨fun e he => hs'.skipped e (List.mem_cons_of_mem c he), hs'.taken⟩ htail
      exact ⟨rfl, rfl⟩

/-- **The search** of `malloc_next_block` ends where the search of the list stops. -/
theorem searchLoop_eq_some (hc : Chain m a (pre ++ b :: post) 0)
    (hlt : a + span 12 (pre ++ b :: post) < 2 ^ 32) (hn : n < 2 ^ 32) (hs : Stops n pre b post)
    {k : ℕ} (hk : pre.length < k) :
    searchLoop m (BitVec.ofNat 32 n) k (BitVec.ofNat 32 a) =
      some (BitVec.ofNat 32 (a + span 12 pre)) := by
  induction pre generalizing a k with
  | nil =>
    obtain ⟨k, rfl⟩ : ∃ k', k = k' + 1 := ⟨k - 1, by omega⟩
    rw [List.nil_append, Tiling.span_cons] at hlt
    have hh := hc.1
    -- the loop ends here: the list does, or the block is free and large enough
    rw [searchLoop, if_neg, Tiling.span_nil, Nat.add_zero]
    rintro ⟨hnext, hunfit⟩
    rcases hs.taken with rfl | ⟨hsize, hfree⟩
    · rw [hh.next, if_pos rfl] at hnext
      exact hnext rfl
    · rw [hh.size, hh.free, ofNat_lt_ofNat (by omega) hn, flag_eq_zero_iff] at hunfit
      rcases hunfit with h | h
      · omega
      · exact Bool.false_ne_true (h.symm.trans hfree)
  | cons c pre ih =>
    obtain ⟨k, rfl⟩ : ∃ k', k = k' + 1 := ⟨k - 1, by omega⟩
    rw [List.cons_append, Tiling.span_cons] at hlt
    rw [List.length_cons] at hk
    rw [List.cons_append, chain_cons_of_ne_nil (by simp)] at hc
    obtain ⟨hh, hrest⟩ := hc
    have hs' : Stops n pre b post := ⟨fun d hd => hs.skipped d (List.mem_cons_of_mem _ hd), hs.taken⟩
    rw [searchLoop, if_pos, hh.next, ih hrest (by omega) hs' (by omega), Tiling.span_cons]
    · rw [show a + 12 + c.size + span 12 pre = a + (12 + c.size + span 12 pre) by omega]
    · rw [hh.next, hh.size, hh.free, ofNat_lt_ofNat (by omega) hn, flag_eq_zero_iff]
      exact ⟨ofNat_ne_zero (by omega) (by omega), hs.skipped c List.mem_cons_self⟩

/-! ### Freeing -/

/-- The head of the list is at address 0, where `merge_free_blocks` takes it for the end of the
list: it never merges anything. -/
theorem mergeFreeBlocks_eq {h : Malloc} (hh : h.mallocListHead = mallocVirtAddr) :
    h.mergeFreeBlocks = some h := by
  have hloop : mergeLoop (2 ^ 32) h.mem h.mallocListHead = some h.mem := by
    rw [show 2 ^ 32 = (2 ^ 32 - 1) + 1 from rfl, mergeLoop, if_neg fun hc => hc.1 hh]
  rw [mergeFreeBlocks, hloop]
  rfl

/-- **The loop of `malloc_free`** changes nothing, or marks the block with the given payload
address, which is not the last one. -/
theorem freeLoop_cases {h : Malloc} (hh : h.mallocListHead = mallocVirtAddr) (ptr : VirtualAddr)
    (hc : Chain h.mem a bs 0) (hne : bs ≠ []) (hlt : a + span 12 bs < 2 ^ 32) {k : ℕ}
    (hk : bs.length ≤ k) :
    freeLoop h ptr k (BitVec.ofNat 32 a) = some h ∨
    ∃ pre b post, bs = pre ++ b :: post ∧ post ≠ [] ∧
      ptr = BitVec.ofNat 32 (a + span 12 pre + 12) ∧
      freeLoop h ptr k (BitVec.ofNat 32 a) =
        some { h with mem := setFree h.mem (BitVec.ofNat 32 (a + span 12 pre)) true } := by
  induction bs generalizing a k with
  | nil => exact absurd rfl hne
  | cons b bs ih =>
    rw [List.length_cons] at hk
    obtain ⟨k, rfl⟩ : ∃ k', k = k' + 1 := ⟨k - 1, by omega⟩
    rw [Tiling.span_cons] at hlt
    rw [freeLoop]
    by_cases hbs : bs = []
    · -- the loop condition is `next != 0`, so the last block is never looked at
      subst hbs
      rw [chain_singleton] at hc
      rw [hc.next, if_neg (by simp)]
      exact Or.inl rfl
    · rw [chain_cons_of_ne_nil hbs] at hc
      rw [hc.1.next, if_pos (ofNat_ne_zero (by omega) (by omega))]
      by_cases hptr : BitVec.ofNat 32 a + mallocBlockSize = ptr
      · refine Or.inr ⟨[], b, bs, rfl, hbs, ?_, ?_⟩
        · rw [← hptr, Tiling.span_nil, Nat.add_zero, BitVec.ofNat_add]
          rfl
        · rw [if_pos hptr, Tiling.span_nil, Nat.add_zero]
          exact mergeFreeBlocks_eq hh
      · rw [if_neg hptr]
        rcases ih hc.2 hbs (by omega) (k := k) (by omega) with heq | ⟨pre, c, post, rfl, hpost, hp, heq⟩
        · exact Or.inl heq
        · have hspan : a + 12 + b.size + span 12 pre = a + span 12 (b :: pre) := by
            rw [Tiling.span_cons]
            omega
          rw [hspan] at hp heq
          exact Or.inr ⟨b :: pre, c, post, rfl, hpost, hp, heq⟩

/-- **The loop of `malloc_free`**, given the payload of a block: it marks the block unless it is the last
one. -/
theorem freeLoop_at {h : Malloc} {k : ℕ} (hh : h.mallocListHead = mallocVirtAddr)
    (hc : Chain h.mem a (pre ++ b :: post) 0) (hlt : a + span 12 (pre ++ b :: post) < 2 ^ 32)
    (hk : pre.length < k) :
    freeLoop h (BitVec.ofNat 32 (a + span 12 pre + 12)) k (BitVec.ofNat 32 a) =
      if post = [] then some h
      else some { h with mem := setFree h.mem (BitVec.ofNat 32 (a + span 12 pre)) true } := by
  induction pre generalizing a k with
  | nil =>
    obtain ⟨k, rfl⟩ : ∃ k', k = k' + 1 := ⟨k - 1, by omega⟩
    rw [List.nil_append, Tiling.span_cons] at hlt
    have hptr : BitVec.ofNat 32 a + mallocBlockSize = BitVec.ofNat 32 (a + 12) :=
      (BitVec.ofNat_add a 12).symm
    rw [freeLoop, hc.1.next, Tiling.span_nil, Nat.add_zero]
    by_cases hpost : post = []
    · rw [if_pos hpost, if_neg (by simp), if_pos hpost]
    · rw [if_neg hpost, if_pos (ofNat_ne_zero (by omega) (by omega)), if_pos hptr, if_neg hpost]
      exact mergeFreeBlocks_eq hh
  | cons c pre ih =>
    obtain ⟨k, rfl⟩ : ∃ k', k = k' + 1 := ⟨k - 1, by omega⟩
    rw [List.cons_append, Tiling.span_cons, Tiling.span_append, Tiling.span_cons] at hlt
    rw [List.length_cons] at hk
    rw [List.cons_append, chain_cons_of_ne_nil (by simp)] at hc
    -- the pointer is that of a block further on
    have hne : BitVec.ofNat 32 a + mallocBlockSize ≠
        BitVec.ofNat 32 (a + span 12 (c :: pre) + 12) := by
      rw [show mallocBlockSize = BitVec.ofNat 32 12 from rfl, ← BitVec.ofNat_add]
      rw [Tiling.span_cons]
      exact ofNat_ne_ofNat (by omega) (by omega) (by omega)
    rw [freeLoop, hc.1.next, if_pos (ofNat_ne_zero (by omega) (by omega)), if_neg hne]
    have hrest := ih (k := k) hc.2 (by rw [Tiling.span_append, Tiling.span_cons]; omega) (by omega)
    rwa [show a + 12 + c.size + span 12 pre = a + span 12 (c :: pre) by rw [Tiling.span_cons]; omega]
      at hrest

end FanOS.Malloc

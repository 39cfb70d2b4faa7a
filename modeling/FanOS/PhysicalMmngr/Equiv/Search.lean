import FanOS.PhysicalMmngr.Equiv.Bitmap

/-!
# What `mmap_first_free_blocks` finds

The search tries the blocks of the bitmap's whole words in order and tests `n` bits for each.
Inside the whole words the bit tested for block `x` is bit `x`; past the end the word index is
clamped, so bit `x % 32` of the last word is tested instead (`testedBlock`).  `Accepts` is the
test the search applies to a start, and `mmapFirstFreeBlocks_spec` says that it returns the first
start that passes, or `-1` if none does.

The clamping only concerns runs that reach past the whole words: for those the blocks inside the
words have really been tested (`Accepts.marked_eq_false`), the others have not.
-/

namespace FanOS.Pmmngr

/-- The block whose bit is tested when the search asks about block `x`. -/
def testedBlock (s : Pmmngr) (x : ℕ) : ℕ := 32 * min (x / 32) (s.mapWords - 1) + x % 32

/-- The search's test for a run of `n` blocks from `start`. -/
def Accepts (s : Pmmngr) (start n : ℕ) : Prop :=
  ∀ c, c < n → s.marked (s.testedBlock (start + c)) = false

instance (s : Pmmngr) (start n : ℕ) : Decidable (s.Accepts start n) :=
  inferInstanceAs (Decidable (∀ c, c < n → s.marked (s.testedBlock (start + c)) = false))

/-! ### The inner loops -/

/-- Masking with `1 << j` tests bit `j`. -/
theorem and_shiftLeft_beq_zero (x : BitVec 32) {j : ℕ} (hj : j < 32) :
    (x &&& (1#32 <<< j) == 0) = !x.getLsbD j := by
  have hone : ∀ k, k < 32 → (1#32 <<< j).getLsbD k = decide (k = j) := by
    intro k hk
    rw [BitVec.getLsbD_shiftLeft]
    by_cases hkj : k = j
    · simp [hkj, hj]
    · have hlt : k < j ∨ k - j ≠ 0 := by omega
      rcases hlt with hlt | hlt <;> simp [hkj, hlt]
  cases hx : x.getLsbD j with
  | true =>
    rw [Bool.not_true, beq_eq_false_iff_ne]
    intro h
    have hbit := congrArg (·.getLsbD j) h
    simp only [BitVec.getLsbD_and, hx, hone j hj] at hbit
    simp at hbit
  | false =>
    rw [Bool.not_false, beq_iff_eq]
    apply BitVec.eq_of_getLsbD_eq
    intro k hk
    rw [BitVec.getLsbD_and, hone k hk]
    by_cases hkj : k = j
    · simp [hkj, hx]
    · simp [hkj]

theorem wordBitClear_eq (s : Pmmngr) (i : ℕ) {j : ℕ} (hj : j < 32) :
    s.wordBitClear i j = !s.marked (32 * i + j) := by
  rw [wordBitClear, and_shiftLeft_beq_zero _ hj, mapWord, Mem.getLsbD_load32_word _ _ _ hj, marked]

/-- Moving on by words stops at the last one. -/
theorem idxLoop_eq_min (mmapSize c : ℕ) {idx : ℕ} (h : idx < mmapSize) :
    idxLoop mmapSize c idx = min (idx + c) (mmapSize - 1) := by
  induction c generalizing idx with
  | zero => rw [idxLoop]; omega
  | succ c ih =>
    rw [idxLoop]
    by_cases h2 : idx + 1 < mmapSize
    · rw [if_pos h2, ih h2]
      omega
    · rw [if_neg h2]
      omega

/-- With `k` rounds to go and at most `blocks - k` free blocks seen, the loop over `count` returns
iff every block so far was free and every remaining one is. -/
theorem countLoop_eq_true_iff (s : Pmmngr) {i j blocks : ℕ} (hi : i < s.mapWords)
    (hblocks : j + blocks ≤ 2 ^ 32) {k freeBlocks : ℕ} (hk : k ≤ blocks)
    (hfree : freeBlocks ≤ blocks - k) :
    s.countLoop s.mapWords i j blocks k freeBlocks = true ↔
      0 < k ∧ freeBlocks = blocks - k ∧
        ∀ c, blocks - k ≤ c → c < blocks →
          s.marked (s.testedBlock (32 * i + j + c)) = false := by
  induction k generalizing freeBlocks with
  | zero => simp [countLoop]
  | succ k ih =>
    have hbit : (j + (blocks - (k + 1))) % 2 ^ 32 = j + (blocks - (k + 1)) :=
      Nat.mod_eq_of_lt (by omega)
    -- the bit tested in this round is the one `testedBlock` names
    have htest : s.wordBitClear (idxLoop s.mapWords ((j + (blocks - (k + 1))) / 32) i)
        ((j + (blocks - (k + 1))) % 32) =
          !s.marked (s.testedBlock (32 * i + j + (blocks - (k + 1)))) := by
      rw [idxLoop_eq_min _ _ hi, wordBitClear_eq _ _ (Nat.mod_lt _ (by norm_num)), testedBlock]
      congr 3 <;> omega
    rw [countLoop]
    simp only [hbit, htest]
    cases hm : s.marked (s.testedBlock (32 * i + j + (blocks - (k + 1)))) with
    | true =>
      simp only [Bool.not_true, Bool.false_eq_true, if_false]
      rw [if_neg (by omega), ih (by omega) (by omega)]
      constructor
      · rintro ⟨-, h, -⟩
        omega
      · rintro ⟨-, -, h⟩
        have := h (blocks - (k + 1)) le_rfl (by omega)
        rw [hm] at this
        exact absurd this (by decide)
    | false =>
      simp only [Bool.not_false, if_true]
      by_cases hend : freeBlocks + 1 = blocks
      · rw [if_pos hend]
        simp only [true_iff]
        refine ⟨by omega, by omega, fun c h1 h2 => ?_⟩
        obtain rfl : c = blocks - (k + 1) := by omega
        exact hm
      · rw [if_neg hend, ih (by omega) (by omega)]
        constructor
        · rintro ⟨h1, h2, h3⟩
          refine ⟨by omega, by omega, fun c hc1 hc2 => ?_⟩
          rcases Nat.eq_or_lt_of_le hc1 with rfl | hlt
          · exact hm
          · exact h3 c (by omega) hc2
        · rintro ⟨h1, h2, h3⟩
          exact ⟨by omega, by omega, fun c hc1 hc2 => h3 c (by omega) hc2⟩

/-- The loop over `count` is the search's test. -/
theorem countLoop_eq_decide (s : Pmmngr) {i j n : ℕ} (hi : i < s.mapWords) (hn : 0 < n)
    (hlt : j + n ≤ 2 ^ 32) :
    s.countLoop s.mapWords i j n n 0 = decide (s.Accepts (32 * i + j) n) := by
  rw [Bool.eq_iff_iff, decide_eq_true_iff, countLoop_eq_true_iff s hi hlt le_rfl (by omega)]
  constructor
  · rintro ⟨-, -, h⟩ c hc
    exact h c (by omega) hc
  · intro h
    exact ⟨hn, by omega, fun c _ hc => h c hc⟩

/-! ### The search -/

/-- A search over `0, …, n - 1` returns the first hit. -/
theorem findSome?_range_eq_some_iff {β : Type*} (f : ℕ → Option β) (n : ℕ) (x : β) :
    (List.range n).findSome? f = some x ↔ ∃ i, i < n ∧ f i = some x ∧ ∀ j, j < i → f j = none := by
  induction n with
  | zero => simp
  | succ n ih =>
    rw [List.range_succ, List.findSome?_append, List.findSome?_singleton, Option.or_eq_some_iff, ih]
    constructor
    · rintro (⟨i, hi, h1, h2⟩ | ⟨h1, h2⟩)
      · exact ⟨i, by omega, h1, h2⟩
      · rw [List.findSome?_eq_none_iff] at h1
        exact ⟨n, by omega, h2, fun j hj => h1 j (List.mem_range.mpr hj)⟩
    · rintro ⟨i, hi, h1, h2⟩
      rcases Nat.lt_succ_iff_lt_or_eq.mp hi with hlt | rfl
      · exact Or.inl ⟨i, hlt, h1, h2⟩
      · refine Or.inr ⟨?_, h1⟩
        rw [List.findSome?_eq_none_iff]
        exact fun j hj => h2 j (List.mem_range.mp hj)

/-- A search only asks its body about the members of the list. -/
theorem findSome?_congr {α β : Type*} {f g : α → Option β} {l : List α}
    (h : ∀ x ∈ l, f x = g x) : l.findSome? f = l.findSome? g := by
  induction l with
  | nil => rfl
  | cons a l ih =>
    rw [List.findSome?_cons, List.findSome?_cons, h a List.mem_cons_self,
      ih fun x hx => h x (List.mem_cons_of_mem _ hx)]

/-- A start inside the words that passes the test is itself free. -/
theorem Accepts.marked_eq_false {s : Pmmngr} {start n x : ℕ} (h : s.Accepts start n)
    (h1 : start ≤ x) (h2 : x < start + n) (hx : x < 32 * s.mapWords) : s.marked x = false := by
  have := h (x - start) (by omega)
  rw [testedBlock, show start + (x - start) = x by omega] at this
  rwa [show 32 * min (x / 32) (s.mapWords - 1) + x % 32 = x by omega] at this

/-- A run inside the words passes the test iff it is free. -/
theorem accepts_iff_of_le {s : Pmmngr} {start n : ℕ} (h : start + n ≤ 32 * s.mapWords) :
    s.Accepts start n ↔ ∀ x, start ≤ x → x < start + n → s.marked x = false := by
  constructor
  · intro ha x h1 h2
    exact ha.marked_eq_false h1 h2 (by omega)
  · intro hf c hc
    rw [testedBlock, show 32 * min ((start + c) / 32) (s.mapWords - 1) + (start + c) % 32 = start + c
      by omega]
    exact hf _ (by omega) (by omega)

/-- The first start that passes the test. -/
def FirstAccepted (s : Pmmngr) (start n : ℕ) : Prop :=
  start < 32 * s.mapWords ∧ s.Accepts start n ∧ ∀ t, t < start → ¬ s.Accepts t n

theorem FirstAccepted.unique {s : Pmmngr} {a b n : ℕ} (ha : s.FirstAccepted a n)
    (hb : s.FirstAccepted b n) : a = b := by
  rcases Nat.lt_trichotomy a b with h | h | h
  · exact absurd ha.2.1 (hb.2.2 a h)
  · exact h
  · exact absurd hb.2.1 (ha.2.2 b h)

theorem pmmngrGetBlockCount_div (s : Pmmngr) :
    (s.pmmngrGetBlockCount / 32).toNat = s.mapWords := by
  rw [BitVec.toNat_udiv, pmmngrGetBlockCount, mapWords]
  rfl

theorem mapWords_lt (s : Pmmngr) : 32 * s.mapWords < 2 ^ 20 := by
  have := s.maxBlocks_lt
  unfold mapWords
  omega

/-- Inside one word the search tries the free bits in order. -/
theorem wordSearch_eq (s : Pmmngr) {i n : ℕ} (hi : i < s.mapWords) (hn : 0 < n)
    (hlt : n + 32 ≤ 2 ^ 32) :
    (if s.mapWord i ≠ 0xFFFFFFFF then
        (List.range 32).findSome? fun j =>
          if s.wordBitClear i (j % 32) && s.countLoop s.mapWords i j n n 0 then
            some (i * 32 + j)
          else none
      else none) =
      (List.range 32).findSome? fun j =>
        if s.Accepts (32 * i + j) n then some (i * 32 + j) else none := by
  have hbody : ∀ j ∈ List.range 32,
      (if s.wordBitClear i (j % 32) && s.countLoop s.mapWords i j n n 0 then some (i * 32 + j)
        else none) = if s.Accepts (32 * i + j) n then some (i * 32 + j) else none := by
    intro j hj
    have hj32 : j < 32 := List.mem_range.mp hj
    rw [Nat.mod_eq_of_lt hj32, countLoop_eq_decide s hi hn (by omega), wordBitClear_eq s i hj32]
    by_cases ha : s.Accepts (32 * i + j) n
    · simp [ha, ha.marked_eq_false le_rfl (by omega) (by omega)]
    · simp [ha]
  split_ifs with hfull
  · exact findSome?_congr hbody
  · -- a full word has no free bit to start from
    rw [not_not] at hfull
    symm
    rw [List.findSome?_eq_none_iff]
    intro j hj
    have hj32 : j < 32 := List.mem_range.mp hj
    have hset : s.marked (32 * i + j) = true :=
      (Mem.load32_word_eq_allOnes_iff s.mem s.memoryMap i).mp hfull j hj32
    rw [if_neg]
    intro ha
    rw [ha.marked_eq_false le_rfl (by omega) (by omega)] at hset
    exact absurd hset (by decide)

/-- **The search** returns the first start that passes its test, or `-1` when none does. -/
theorem mmapFirstFreeBlocks_spec (s : Pmmngr) {n : BitVec 32} (hn : n ≠ 0)
    (hlt : n.toNat + 32 ≤ 2 ^ 32) :
    (∃ b, s.FirstAccepted b n.toNat ∧ s.mmapFirstFreeBlocks n = BitVec.ofNat 32 b) ∨
      (∀ b, b < 32 * s.mapWords → ¬ s.Accepts b n.toNat) ∧ s.mmapFirstFreeBlocks n = -1 := by
  have hpos : 0 < n.toNat := by
    rcases Nat.eq_zero_or_pos n.toNat with h | h
    · exact absurd (BitVec.eq_of_toNat_eq h) hn
    · exact h
  have hfound : ((List.range s.mapWords).findSome? fun i =>
      if s.mapWord i ≠ 0xFFFFFFFF then
        (List.range 32).findSome? fun j =>
          if s.wordBitClear i (j % 32) && s.countLoop s.mapWords i j n.toNat n.toNat 0 then
            some (i * 32 + j)
          else none
      else none) =
      (List.range s.mapWords).findSome? fun i => (List.range 32).findSome? fun j =>
        if s.Accepts (32 * i + j) n.toNat then some (i * 32 + j) else none :=
    findSome?_congr fun i hi => wordSearch_eq s (List.mem_range.mp hi) hpos hlt
  unfold mmapFirstFreeBlocks
  simp only [if_neg hn, pmmngrGetBlockCount_div, hfound]
  cases hres : (List.range s.mapWords).findSome? fun i => (List.range 32).findSome? fun j =>
      if s.Accepts (32 * i + j) n.toNat then some (i * 32 + j) else none with
  | none =>
    refine Or.inr ⟨fun b hb ha => ?_, rfl⟩
    rw [List.findSome?_eq_none_iff] at hres
    have h1 := hres (b / 32) (List.mem_range.mpr (by omega))
    rw [List.findSome?_eq_none_iff] at h1
    have h2 := h1 (b % 32) (List.mem_range.mpr (by omega))
    rw [show 32 * (b / 32) + b % 32 = b by omega, if_pos ha] at h2
    exact absurd h2 (by simp)
  | some x =>
    refine Or.inl ⟨x, ?_, rfl⟩
    obtain ⟨i, hi, h1, h2⟩ := (findSome?_range_eq_some_iff _ _ _).mp hres
    obtain ⟨j, hj, h3, h4⟩ := (findSome?_range_eq_some_iff _ _ _).mp h1
    have ha : s.Accepts (32 * i + j) n.toNat := by
      by_contra hna
      rw [if_neg hna] at h3
      exact absurd h3 (by simp)
    rw [if_pos ha, Option.some.injEq] at h3
    subst h3
    refine ⟨by omega, by rwa [show i * 32 + j = 32 * i + j by omega], fun t ht hta => ?_⟩
    -- an earlier hit lies in an earlier word or earlier in the same word
    rcases Nat.lt_or_ge (t / 32) i with hlt' | hge
    · have := h2 _ hlt'
      rw [List.findSome?_eq_none_iff] at this
      have := this (t % 32) (List.mem_range.mpr (by omega))
      rw [show 32 * (t / 32) + t % 32 = t by omega, if_pos hta] at this
      exact absurd this (by simp)
    · have := h4 (t % 32) (by omega)
      rw [show 32 * i + t % 32 = t by omega, if_pos hta] at this
      exact absurd this (by simp)

end FanOS.Pmmngr

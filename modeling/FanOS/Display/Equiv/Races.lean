import FanOS.Display.Equiv.Echo

/-!
# Where an echo corrupts the console

If `EchoCond` does not hold, there is a point of `print_char(c)` where an interrupt leaves a screen
that no order of the two characters gives.  Shown on a screen whose cells hold their own numbers, by
the cursor or by a cell that tells it from both orders, or by a write behind the screen.
-/

namespace FanOS.Display

variable {s t u v a b : Console} {c d : BitVec 8} {x y x' y' : ℕ}

/-! ### Telling screens apart -/

/-- The screen whose cells hold their own numbers. -/
def numbered : Console := ⟨fun i => .ofNat 16 i, 0, 0, 0⟩

theorem framebuffer_numbered (j : ℕ) : numbered.framebuffer j = .ofNat 16 j := rfl

theorem le_toNat_glyph (c : BitVec 8) : 3840 ≤ (glyph c).toNat := by
  have hall : ∀ n < 256, 3840 ≤ (glyph (.ofNat 8 n)).toNat := by decide +kernel
  have h := hall c.toNat c.isLt
  rwa [BitVec.ofNat_toNat, BitVec.setWidth_eq] at h

/-- A number is no character. -/
theorem number_ne_glyph {j : ℕ} (hj : j < 3840) (c : BitVec 8) : BitVec.ofNat 16 j ≠ glyph c := by
  intro h
  have hle := le_toNat_glyph c
  rw [← h, BitVec.toNat_ofNat] at hle
  omega

theorem number_ne_number {i j : ℕ} (hi : i < 3840) (hj : j < 3840) (h : i ≠ j) :
    BitVec.ofNat 16 i ≠ BitVec.ofNat 16 j := by
  intro heq
  have := congrArg BitVec.toNat heq
  rw [BitVec.toNat_ofNat, BitVec.toNat_ofNat] at this
  omega

theorem ne_column (h : x ≠ x') (hx : x < 256) (hx' : x' < 256) :
    ¬ SameScreen (a.goto x y) (b.goto x' y') := by
  intro hsame
  have := congrArg BitVec.toNat hsame.2.1
  rw [toNat_cursorX_goto hx, toNat_cursorX_goto hx'] at this
  exact h this

theorem ne_row (h : y ≠ y') (hy : y < 256) (hy' : y' < 256) :
    ¬ SameScreen (a.goto x y) (b.goto x' y') := by
  intro hsame
  have := congrArg BitVec.toNat hsame.2.2
  rw [toNat_cursorY_goto hy, toNat_cursorY_goto hy'] at this
  exact h this

theorem ne_cell (j : ℕ) (hj : j < 2000) (h : a.framebuffer j ≠ b.framebuffer j) :
    ¬ SameScreen (a.goto x y) (b.goto x' y') := fun hsame => h (hsame.1 j hj)

/-- A number where there should be a character. -/
theorem ne_of_number (j i : ℕ) (hj : j < 2000) (hi : i < 2000) (ha : a.framebuffer j = .ofNat 16 i)
    (hb : b.framebuffer j = glyph c) : ¬ SameScreen (a.goto x y) (b.goto x' y') := by
  apply ne_cell j hj
  rw [ha, hb]
  exact number_ne_glyph (by omega) c

/-- A character where there should be a number. -/
theorem ne_of_glyph (j i : ℕ) (hj : j < 2000) (hi : i < 2000) (ha : a.framebuffer j = glyph c)
    (hb : b.framebuffer j = .ofNat 16 i) : ¬ SameScreen (a.goto x y) (b.goto x' y') := by
  apply ne_cell j hj
  rw [ha, hb]
  exact (number_ne_glyph (by omega) c).symm

theorem store_self (i : ℕ) (v : BitVec 16) : (s.store i v).framebuffer i = v :=
  Function.update_self _ _ _

theorem store_of_ne {i j : ℕ} (h : j ≠ i) (v : BitVec 16) :
    (s.store i v).framebuffer j = s.framebuffer j := Function.update_of_ne h _ _

theorem numbered_store_of_ne {i j : ℕ} (h : j ≠ i) (v : BitVec 16) :
    (numbered.store i v).framebuffer j = .ofNat 16 j := by
  rw [store_of_ne h, framebuffer_numbered]

/-- The screen after the interrupt is that of neither order. -/
theorem not_echoSafe {n : ℕ} {q : Point × Console} (hq : (step c)^[n] (.entry, s) = q)
    (ht : interrupted c d q = t) (hu : printChar d (printChar c s) = u)
    (hv : printChar c (printChar d s) = v) (h1 : ¬ SameScreen t u) (h2 : ¬ SameScreen t v) :
    ¬ EchoSafe c d s := by
  intro h
  have hserial := (h n).1
  rw [hq, ht, hu, hv] at hserial
  exact hserial.elim h1 h2

/-- The interrupt leads to a write behind the screen. -/
theorem not_echoSafe_of_extent {n : ℕ} {q : Point × Console} (hq : (step c)^[n] (.entry, s) = q)
    (ht : interrupted c d q = t) (h : 2000 < t.extent) : ¬ EchoSafe c d s := by
  intro hsafe
  have hle := (hsafe n).2
  rw [hq, ht] at hle
  omega

/-! ### New lines -/

/-- The cells after a new line in row `y`. -/
def afterLine (s : Console) (y : ℕ) : Console := if y < 24 then s else scrolled s

theorem newLine_eq_goto (s : Console) (y : ℕ) :
    newLine s y = (afterLine s y).goto 0 (min (y + 1) 24) := by
  unfold newLine afterLine
  split_ifs with h
  · rw [Nat.min_eq_left (by omega)]
  · rw [Nat.min_eq_right (by omega)]

theorem newLine_of_lt (hy : y < 24) : newLine s y = s.goto 0 (y + 1) := if_pos hy

/-- Where a cell is after a new line. -/
def lineUp (y j : ℕ) : ℕ := if y < 24 then j else j - 80

theorem framebuffer_afterLine {j : ℕ} (hj : j < 2000) (h : y < 24 ∨ 80 ≤ j) :
    (afterLine s y).framebuffer (lineUp y j) = s.framebuffer j := by
  unfold afterLine lineUp
  split_ifs with hy
  · rfl
  · rw [framebuffer_scrolled, if_pos (by omega), Nat.sub_add_cancel (h.resolve_left hy)]

theorem lineUp_lt {j : ℕ} (hj : j < 2000) : lineUp y j < 2000 := by
  unfold lineUp
  split_ifs <;> omega

/-- Loops do not take writes back. -/
theorem le_extent_storeLoop (v : Console → ℕ → BitVec 16) (s : Console) (k i : ℕ) :
    s.extent ≤ (storeLoop v k i s).extent := by
  induction k generalizing i s with
  | zero => exact Nat.le_refl _
  | succ k ih =>
    rw [storeLoop]
    exact Nat.le_trans (Nat.le_max_left _ (i + 1)) (ih (s.store i (v s i)) (i + 1))

theorem le_extent_copyLoop (s : Console) (k i : ℕ) : s.extent ≤ (copyLoop k i s).extent := by
  rw [copyLoop_eq]
  exact le_extent_storeLoop _ s k i

theorem le_extent_blankLoop (s : Console) (k i : ℕ) : s.extent ≤ (blankLoop k i s).extent := by
  rw [blankLoop_eq]
  exact le_extent_storeLoop _ s k i

theorem le_extent_scrolled (s : Console) : s.extent ≤ (scrolled s).extent :=
  Nat.le_trans (le_extent_copyLoop s 1920 0) (le_extent_blankLoop _ 80 1920)

theorem le_extent_newLine (s : Console) (y : ℕ) : s.extent ≤ (newLine s y).extent := by
  unfold newLine
  split_ifs
  · exact Nat.le_refl _
  · exact le_extent_scrolled s

theorem lt_extent_store (s : Console) (i : ℕ) (v : BitVec 16) : i < (s.store i v).extent :=
  Nat.le_max_right _ _

/-- One scroll is not two, and not none. -/
theorem ne_scrolled (hcells : ∀ j, j % 80 = 0 → s.framebuffer j = .ofNat 16 j) :
    ¬ SameScreen (s.goto x y) ((scrolled s).goto x' y') := by
  apply ne_cell 0 (by omega)
  rw [framebuffer_scrolled, if_pos (by omega), hcells 0 rfl, hcells (0 + 80) rfl]
  exact number_ne_number (by omega) (by omega) (by omega)

theorem scrolled_ne_scrolled_scrolled (hcells : ∀ j, j % 80 = 0 → s.framebuffer j = .ofNat 16 j) :
    ¬ SameScreen ((scrolled s).goto x y) ((scrolled (scrolled s)).goto x' y') := by
  apply ne_cell 0 (by omega)
  rw [framebuffer_scrolled, if_pos (by omega), framebuffer_scrolled, if_pos (by omega),
    framebuffer_scrolled, if_pos (by omega), hcells (0 + 80) rfl, hcells (0 + 80 + 80) rfl]
  exact number_ne_number (by omega) (by omega) (by omega)

/-- One new line is not two. -/
theorem newLine_ne_newLine (hcells : ∀ j, j % 80 = 0 → s.framebuffer j = .ofNat 16 j) :
    ¬ SameScreen (newLine s y) (newLine (afterLine s y) (min (y + 1) 24)) := by
  rcases Nat.lt_trichotomy y 23 with hy | rfl | hy
  · rw [newLine_of_lt (by omega), Nat.min_eq_left (by omega), newLine_of_lt (by omega)]
    exact ne_row (by omega) (by omega) (by omega)
  · exact ne_scrolled hcells
  · rw [newLine, if_neg (by omega), afterLine, if_neg (by omega), Nat.min_eq_right (by omega)]
    exact scrolled_ne_scrolled_scrolled hcells

/-! ### The points of the interrupts -/

theorem iterate_putStore (hc : Printable c) (hx : x < 80) (hy : y < 25) :
    (step c)^[2] (.entry, s.goto x y) = (.putStore (80 * y + x), s.goto x y) := by
  show step c (step c (.entry, s.goto x y)) = _
  rw [step_entry_printable hc, step, location_goto (by omega) (by omega)]

theorem iterate_putX (hc : Printable c) (hx : x < 80) (hy : y < 25) :
    (step c)^[3] (.entry, s.goto x y) = (.putX, (s.store (80 * y + x) (glyph c)).goto x y) := by
  rw [Function.iterate_succ_apply', iterate_putStore hc hx hy, step, goto_store]

theorem iterate_bspDecX (hx : 0 < x) (hx' : x < 80) (hy : y < 25) :
    (step ctBsp)^[2] (.entry, s.goto x y) = (.bspDecX, s.goto x y) := by
  have hne : (s.goto x y).cursorX ≠ 0 := ofNat_ne_zero hx (by omega)
  show step ctBsp (step ctBsp (.entry, s.goto x y)) = _
  rw [step_entry_bsp (Or.inl hx.ne') (by omega) (by omega), step, if_pos hne]

theorem iterate_bspLoc (hx : 0 < x) (hx' : x < 80) (hy : y < 25) :
    (step ctBsp)^[3] (.entry, s.goto x y) = (.bspLoc, s.goto (x - 1) y) := by
  rw [Function.iterate_succ_apply', iterate_bspDecX hx hx' hy, step, goto_left hx]

theorem iterate_bspLoc_up (hy : 0 < y) (hy' : y < 25) :
    (step ctBsp)^[5] (.entry, s.goto 0 y) = (.bspLoc, s.goto 79 (y - 1)) := by
  have hzero : ¬ (s.goto 0 y).cursorX ≠ 0 := fun h => h rfl
  have hne : (s.goto 0 y).cursorY ≠ 0 := ofNat_ne_zero hy (by omega)
  have htest : (step ctBsp)^[3] (.entry, s.goto 0 y) = (.bspDecY, s.goto 0 y) := by
    show step ctBsp (step ctBsp (step ctBsp (.entry, s.goto 0 y))) = _
    rw [step_entry_bsp (Or.inr hy.ne') (by omega) (by omega), step, if_neg hzero, step, if_pos hne]
  rw [Function.iterate_succ_apply', Function.iterate_succ_apply', htest, step, goto_up hy]
  rfl

theorem iterate_lfY : (step 0x0A)^[2] (.entry, s.goto x y) = (.lfY, s.goto 0 y) := rfl

theorem iterate_lf_wrapTest : (step 0x0A)^[3] (.entry, s.goto x y) = (.wrapTest, s.goto 0 (y + 1)) := by
  rw [Function.iterate_succ_apply', iterate_lfY, step, goto_down]

/-- A new line in the last row comes to the loops. -/
theorem iterate_copy : (step 0x0A)^[5] (.entry, s.goto x 24) = (.copy 0, s.goto 0 25) := by
  rw [Function.iterate_succ_apply', Function.iterate_succ_apply', iterate_lf_wrapTest]
  rfl

theorem iterate_copy_one :
    (step 0x0A)^[6] (.entry, s.goto x 24) = (.copy 1, (s.store 0 (s.framebuffer 80)).goto 0 25) := by
  rw [Function.iterate_succ_apply', iterate_copy]
  rfl

/-! ### Before the cursor goes to a new line -/

theorem min_row_lt (y : ℕ) : min (y + 1) 24 < 25 := by omega

/-- The cursor is moved twice when `print_char(d)` has moved it before. -/
theorem interrupted_wrapX (hd : printChar d (s.goto 80 y) = newLine s y) :
    interrupted c d (.wrapX, s.goto 80 y) = newLine (afterLine s y) (min (y + 1) 24) := by
  rw [interrupted, hd, newLine_eq_goto, resume_wrapX _ (by omega)]

/-- The rest does nothing when `print_char(d)` has left the cursor on the screen. -/
theorem interrupted_wrapTest (hd : printChar d s = t.goto x' y') (hx : x' < 80) (hy : y' < 25) :
    interrupted c d (.wrapTest, s) = t.goto x' y' := by
  rw [interrupted, hd, resume, finish_goto hx hy]

/-- `c` comes to the test for the last column with the cursor behind it.  In the first column it
moves the cursor to another one. -/
structure Wraps (c : BitVec 8) (x y : ℕ) (n : ℕ) (w : Console) : Prop where
  row : y < 25
  test : (step c)^[n] (.entry, numbered.goto x y) = (.wrapTest, w.goto 80 y)
  printChar_eq : printChar c (numbered.goto x y) = newLine w y
  cells : ∀ j, j % 80 = 0 → w.framebuffer j = .ofNat 16 j
  ne_column : ∀ (s t : Console) (y' y'' : ℕ), y' < 25 →
    ¬ SameScreen (t.goto 0 y'') (printChar c (s.goto 0 y'))

theorem wraps_tab (hx : 72 ≤ x) (hx' : x < 80) (hy : y < 25) : Wraps ctTab x y 2 numbered where
  row := hy
  test := by
    have hcolumn : 8 * (x / 8 + 1) = 80 := by omega
    have hput := putChar_tab (s := numbered) (y := y) (show x < 248 by omega)
    rw [hcolumn] at hput
    rw [← hput]
    rfl
  printChar_eq := printChar_tab_of_le hx (by omega) hy
  cells _ _ := rfl
  ne_column s t y' y'' hy' := by
    rw [printChar_tab (by omega) hy']
    exact ne_column (by omega) (by omega) (by omega)

theorem wraps_printable (hc : Printable c) (hy : y < 25) :
    Wraps c 79 y 4 (numbered.store (80 * y + 79) (glyph c)) where
  row := hy
  test := by
    rw [Function.iterate_succ_apply', iterate_putX hc (by omega) hy, step, goto_right]
  printChar_eq := printChar_printable_of_le hc (by omega) (by omega) hy
  cells j hj := by
    exact numbered_store_of_ne (by omega) _
  ne_column s t y' y'' hy' := by
    rw [printChar_printable hc (by omega) hy']
    exact ne_column (by omega) (by omega) (by omega)

namespace Wraps

variable {n : ℕ} {w : Console} (h : Wraps c x y n w)
include h

theorem wrapX : (step c)^[n + 1] (.entry, numbered.goto x y) = (.wrapX, w.goto 80 y) := by
  have hwrap : (w.goto 80 y).cursorX.toNat ≥ maxRow := by
    rw [toNat_cursorX_goto (by omega)]
    exact Nat.le_refl 80
  rw [Function.iterate_succ_apply', h.test, step, if_pos hwrap]

theorem not_echoSafe_inert (hx : x < 80) (hd : Inert d) : ¬ EchoSafe c d (numbered.goto x y) := by
  have hfinish : printChar d (w.goto 80 y) = newLine w y := by
    rw [printChar_eq_finish, putChar_inert hd, finish_goto_of_le (by omega) (by omega) h.row]
  have hne : ¬ SameScreen (newLine (afterLine w y) (min (y + 1) 24)) (newLine w y) := fun hsame =>
    newLine_ne_newLine h.cells hsame.symm
  refine not_echoSafe h.wrapX (interrupted_wrapX hfinish) ?_ ?_ hne hne
  · rw [h.printChar_eq, newLine_eq_goto, printChar_inert hd (by omega) (min_row_lt y)]
  · rw [printChar_inert hd hx h.row, h.printChar_eq]

theorem not_echoSafe_lf : ¬ EchoSafe c 0x0A (numbered.goto x y) := by
  have ht : interrupted c 0x0A (.wrapTest, w.goto 80 y) = newLine w y := by
    rw [newLine_eq_goto]
    refine interrupted_wrapTest ?_ (by omega) (min_row_lt y)
    rw [printChar_lf (by have := h.row; omega), newLine_eq_goto]
  refine not_echoSafe h.test ht ?_ rfl (newLine_ne_newLine h.cells) ?_
  · rw [h.printChar_eq, newLine_eq_goto, printChar_lf (by omega)]
  · rw [printChar_lf (by have := h.row; omega), newLine_eq_goto, newLine_eq_goto]
    exact h.ne_column _ _ _ _ (min_row_lt y)

theorem not_echoSafe_cr : ¬ EchoSafe c 0x0D (numbered.goto x y) := by
  have ht : interrupted c 0x0D (.wrapTest, w.goto 80 y) = w.goto 0 y :=
    interrupted_wrapTest (printChar_cr h.row) (by omega) h.row
  refine not_echoSafe h.test ht ?_ rfl ?_ ?_ (u := newLine w y)
  · rw [h.printChar_eq, newLine_eq_goto, printChar_cr (min_row_lt y)]
  · -- the cursor is still in the row that it has to leave
    unfold newLine
    split_ifs
    · exact ne_row (by omega) (by omega) (by omega)
    · exact ne_scrolled h.cells
  · rw [printChar_cr h.row]
    exact h.ne_column _ _ _ _ h.row

theorem not_echoSafe_tab (hx : 72 ≤ x) (hx' : x < 80) : ¬ EchoSafe c ctTab (numbered.goto x y) := by
  have ht := interrupted_wrapX (s := w) (c := c) (printChar_tab_of_le (by omega) (by omega) h.row)
  rw [newLine_eq_goto] at ht
  refine not_echoSafe h.wrapX ht rfl rfl ?_ ?_
  · rw [h.printChar_eq, newLine_eq_goto, printChar_tab (by omega) (min_row_lt y)]
    exact FanOS.Display.ne_column (by omega) (by omega) (by omega)
  · rw [printChar_tab_of_le hx (by omega) h.row, newLine_eq_goto]
    exact h.ne_column _ _ _ _ (min_row_lt y)

/-- A back space goes back from behind the last column. -/
theorem not_echoSafe_bsp (hne : ¬ SameScreen (newLine (w.store (80 * y + 79) (glyph ctWht)) y)
      (printChar c (printChar ctBsp (numbered.goto x y)))) :
    ¬ EchoSafe c ctBsp (numbered.goto x y) := by
  have ht : interrupted c ctBsp (.wrapX, w.goto 80 y) =
      newLine (w.store (80 * y + 79) (glyph ctWht)) y := by
    rw [interrupted, printChar_bsp (by omega) (by omega) h.row,
      resume_wrapX _ (by have := h.row; omega)]
  refine not_echoSafe h.wrapX ht rfl rfl ?_ hne
  rw [h.printChar_eq, newLine_eq_goto, newLine_eq_goto, printChar_bsp_up (by omega) (by omega)]
  exact FanOS.Display.ne_column (by omega) (by omega) (by omega)

/-- A character is written behind the last column: to the row below, or behind the screen. -/
theorem not_echoSafe_printable (hd : Printable d)
    (hne : y < 24 → ¬ SameScreen ((w.store (80 * y + 80) (glyph d)).goto 0 (y + 1))
      (printChar c (printChar d (numbered.goto x y)))) :
    ¬ EchoSafe c d (numbered.goto x y) := by
  have ht : interrupted c d (.wrapTest, w.goto 80 y) = newLine (w.store (80 * y + 80) (glyph d)) y := by
    rw [newLine_eq_goto]
    refine interrupted_wrapTest ?_ (by omega) (min_row_lt y)
    rw [printChar_printable_of_le hd (by omega) (by omega) h.row, newLine_eq_goto]
  by_cases hy : y < 24
  · rw [newLine_of_lt hy] at ht
    refine not_echoSafe h.test ht rfl rfl ?_ (hne hy)
    rw [h.printChar_eq, newLine_eq_goto, printChar_printable hd (by omega) (min_row_lt y)]
    exact FanOS.Display.ne_column (by omega) (by omega) (by omega)
  · apply not_echoSafe_of_extent h.test ht
    have hrow := h.row
    have hstore := lt_extent_store w (80 * y + 80) (glyph d)
    have hle := le_extent_newLine (w.store (80 * y + 80) (glyph d)) y
    omega

end Wraps

/-- A tab that goes to a new line is not safe. -/
theorem not_echoSafe_tab (hx : 72 ≤ x) (hx' : x < 80) (hy : y < 25) (d : BitVec 8) :
    ¬ EchoSafe ctTab d (numbered.goto x y) := by
  have h := wraps_tab hx hx' hy
  rcases char_cases d with hd | hd | rfl | rfl | rfl | rfl
  · exact h.not_echoSafe_inert hx' hd
  · refine h.not_echoSafe_printable hd fun hlt => ?_
    rcases Nat.lt_or_ge x 79 with hx79 | hx79
    · -- in the other order `d` is in the row of the tab
      rw [printChar_printable hd hx79 hy, printChar_tab_of_le (by omega) (by omega) hy,
        newLine_of_lt hlt]
      refine ne_of_number (80 * y + x) (80 * y + x) (by omega) (by omega) ?_ (store_self _ _)
      exact numbered_store_of_ne (by omega) _
    · rw [printChar_printable_of_le hd hx79 (by omega) hy, newLine_eq_goto]
      exact h.ne_column _ _ _ _ (min_row_lt y)
  · apply h.not_echoSafe_bsp
    rw [printChar_bsp (by omega) (by omega) hy]
    rcases Nat.eq_or_lt_of_le hx with rfl | hlt
    · rw [printChar_tab (by omega) hy, newLine_eq_goto]
      exact ne_column (by omega) (by omega) (by omega)
    · -- in the other order the back space erases the cell before the cursor
      rw [printChar_tab_of_le (by omega) (by omega) hy, newLine_eq_goto, newLine_eq_goto]
      refine ne_of_glyph (lineUp y (80 * y + 79)) (80 * y + 79) (lineUp_lt (by omega)) (by omega)
        ((framebuffer_afterLine (by omega) (by omega)).trans (store_self _ _)) ?_
      rw [framebuffer_afterLine (by omega) (by omega), numbered_store_of_ne (by omega)]
  · exact h.not_echoSafe_tab hx hx'
  · exact h.not_echoSafe_cr
  · exact h.not_echoSafe_lf

/-- A printable character in the last column is not safe. -/
theorem not_echoSafe_last_column (hc : Printable c) (hy : y < 25) (d : BitVec 8) :
    ¬ EchoSafe c d (numbered.goto 79 y) := by
  have h := wraps_printable hc hy
  rcases char_cases d with hd | hd | rfl | rfl | rfl | rfl
  · exact h.not_echoSafe_inert (by omega) hd
  · refine h.not_echoSafe_printable hd fun hlt => ?_
    rw [printChar_printable_of_le hd (by omega) (by omega) hy, newLine_of_lt hlt]
    exact h.ne_column _ _ _ _ (by omega)
  · apply h.not_echoSafe_bsp
    rw [printChar_bsp (by omega) (by omega) hy, printChar_printable hc (by omega) hy, newLine_eq_goto]
    exact ne_column (by omega) (by omega) (by omega)
  · exact h.not_echoSafe_tab (by omega) (by omega)
  · exact h.not_echoSafe_cr
  · exact h.not_echoSafe_lf

/-! ### New lines -/

/-- The loops move the rows up once more, and the cursor to the last row. -/
theorem scrollRest_goto : scrollRest (s.goto x y) 0 = (scrolled s).goto x 24 := by
  rw [scrollRest, Nat.sub_zero, blankLoop_copyLoop, scrolled_goto]
  rfl

/-- The loops do not come back to a cell. -/
theorem framebuffer_scrollRest_zero (s : Console) {i : ℕ} (hi : 0 < i) :
    (scrollRest s i).framebuffer 0 = s.framebuffer 0 := by
  unfold scrollRest
  dsimp only
  rw [framebuffer_blankLoop, if_neg (fun h => absurd h.1 (by decide)), framebuffer_copyLoop,
    if_neg (fun h => absurd h.1 (Nat.not_le.mpr hi))]

theorem printChar_lf_last : printChar 0x0A (s.goto x 24) = (scrolled s).goto 0 24 :=
  printChar_lf (by omega)

theorem scrolled_scrolled_ne : ¬ SameScreen ((scrolled (scrolled numbered)).goto x y)
    ((scrolled numbered).goto x' y') := fun hsame =>
  scrolled_ne_scrolled_scrolled (fun _ _ => rfl) hsame.symm

/-- The loops run once more than they should when the handler scrolls too. -/
theorem not_echoSafe_scroll_twice (x' : ℕ)
    (hd : printChar d (numbered.goto 0 25) = (scrolled numbered).goto x' 24)
    (h1 : ¬ SameScreen ((scrolled (scrolled numbered)).goto x' 24)
      (printChar d ((scrolled numbered).goto 0 24)))
    (h2 : ¬ SameScreen ((scrolled (scrolled numbered)).goto x' 24)
      (printChar 0x0A (printChar d (numbered.goto x 24)))) :
    ¬ EchoSafe 0x0A d (numbered.goto x 24) := by
  have hcopy : interrupted 0x0A d (.copy 0, numbered.goto 0 25) =
      (scrolled (scrolled numbered)).goto x' 24 := by
    rw [interrupted, hd, resume, scrollRest_goto]
  refine not_echoSafe iterate_copy hcopy ?_ rfl h1 h2
  rw [printChar_lf_last]

theorem not_echoSafe_scroll_inert (hx : x < 80) (hd : Inert d) : ¬ EchoSafe 0x0A d (numbered.goto x 24) := by
  refine not_echoSafe_scroll_twice 0 ?_ ?_ ?_
  · rw [printChar_eq_finish, putChar_inert hd, finish_goto_eq (by omega) (by omega),
      if_neg (by omega)]
  · rw [printChar_inert hd (by omega) (by omega)]
    exact scrolled_scrolled_ne
  · rw [printChar_inert hd hx (by omega), printChar_lf_last]
    exact scrolled_scrolled_ne

/-- A character is written behind the screen. -/
theorem not_echoSafe_scroll_printable (hd : Printable d) : ¬ EchoSafe 0x0A d (numbered.goto x 24) := by
  have ht : interrupted 0x0A d (.wrapTest, numbered.goto 0 (24 + 1)) =
      finish ((scrolled (numbered.store 2000 (glyph d))).goto 1 24) := by
    rw [interrupted, printChar_eq_finish, putChar_printable_goto hd (by omega) (by omega),
      finish_goto_eq (by omega) (by omega), if_neg (by omega), resume]
  rw [finish_goto (by omega) (by omega)] at ht
  apply not_echoSafe_of_extent iterate_lf_wrapTest ht
  exact Nat.lt_of_lt_of_le (lt_extent_store numbered 2000 (glyph d)) (le_extent_scrolled _)

theorem not_echoSafe_scroll_bsp (hx : x < 80) : ¬ EchoSafe 0x0A ctBsp (numbered.goto x 24) := by
  have ht := interrupted_wrapTest (c := 0x0A)
    (printChar_bsp_up (s := numbered) (show 0 < 25 by omega) (by omega)) (by omega) (by omega)
  refine not_echoSafe iterate_lf_wrapTest ht rfl rfl ?_ ?_
  · rw [printChar_lf_last, printChar_bsp_up (by omega) (by omega)]
    exact ne_row (by omega) (by omega) (by omega)
  · rcases Nat.eq_zero_or_pos x with rfl | hpos
    · rw [printChar_bsp_up (by omega) (by omega), printChar_lf (by omega), newLine_eq_goto]
      exact ne_column (by omega) (by omega) (by omega)
    · rw [printChar_bsp hpos (by omega) (by omega), printChar_lf_last]
      exact ne_column (by omega) (by omega) (by omega)

theorem not_echoSafe_scroll_tab (hx : x < 80) : ¬ EchoSafe 0x0A ctTab (numbered.goto x 24) := by
  refine not_echoSafe_scroll_twice 8 ?_ ?_ ?_
  · rw [printChar_eq_finish, putChar_tab (by omega), finish_goto_eq (by omega) (by omega),
      if_neg (by omega)]
  · rw [printChar_tab (by omega) (by omega)]
    exact scrolled_scrolled_ne
  · rcases Nat.lt_or_ge x 72 with hlt | hge
    · rw [printChar_tab hlt (by omega), printChar_lf_last]
      exact scrolled_scrolled_ne
    · rw [printChar_tab_of_le hge (by omega) (by omega), newLine_eq_goto, printChar_lf (by omega),
        newLine_eq_goto]
      exact ne_column (by omega) (by omega) (by omega)

theorem not_echoSafe_scroll_cr : ¬ EchoSafe 0x0A 0x0D (numbered.goto x 24) := by
  refine not_echoSafe_scroll_twice 0 ?_ ?_ ?_
  · rw [printChar_eq_finish, putChar_cr, finish_goto_eq (by omega) (by omega), if_neg (by omega)]
  · rw [printChar_cr (by omega)]
    exact scrolled_scrolled_ne
  · rw [printChar_cr (by omega), printChar_lf_last]
    exact scrolled_scrolled_ne

/-- The handler leaves row 1 in the first row, and the loops have passed its first cell. -/
theorem not_echoSafe_scroll_lf : ¬ EchoSafe 0x0A 0x0A (numbered.goto x 24) := by
  have ht : (interrupted 0x0A 0x0A
      (.copy 1, (numbered.store 0 (numbered.framebuffer 80)).goto 0 25)).framebuffer 0 = .ofNat 16 80 := by
    rw [interrupted, printChar_lf (by omega), resume, framebuffer_scrollRest_zero _ (by omega),
      newLine_eq_goto, framebuffer_goto, afterLine, if_neg (by omega), framebuffer_scrolled,
      if_pos (by omega), numbered_store_of_ne (by omega)]
  have hu : (printChar 0x0A (printChar 0x0A (numbered.goto x 24))).framebuffer 0 = .ofNat 16 160 := by
    rw [printChar_lf_last, printChar_lf_last, framebuffer_goto, framebuffer_scrolled,
      if_pos (by omega), framebuffer_scrolled, if_pos (by omega), framebuffer_numbered]
  have hne : ¬ SameScreen (interrupted 0x0A 0x0A
      (.copy 1, (numbered.store 0 (numbered.framebuffer 80)).goto 0 25))
      (printChar 0x0A (printChar 0x0A (numbered.goto x 24))) := by
    intro hsame
    have hcell := hsame.1 0 (by omega)
    rw [ht, hu] at hcell
    exact number_ne_number (by omega) (by omega) (by omega) hcell
  exact not_echoSafe iterate_copy_one rfl rfl rfl hne hne

/-- A new line that scrolls is not safe. -/
theorem not_echoSafe_scroll (hx : x < 80) (d : BitVec 8) : ¬ EchoSafe 0x0A d (numbered.goto x 24) := by
  rcases char_cases d with hd | hd | rfl | rfl | rfl | rfl
  · exact not_echoSafe_scroll_inert hx hd
  · exact not_echoSafe_scroll_printable hd
  · exact not_echoSafe_scroll_bsp hx
  · exact not_echoSafe_scroll_tab hx
  · exact not_echoSafe_scroll_cr
  · exact not_echoSafe_scroll_lf

/-- A character that is written to the row that a new line leaves. -/
theorem not_echoSafe_lf_printable (hx : x < 80) (hy : y < 24) (hd : Printable d) :
    ¬ EchoSafe 0x0A d (numbered.goto x y) := by
  have ht : interrupted 0x0A d (.lfY, numbered.goto 0 y) =
      (numbered.store (80 * y + 0) (glyph d)).goto 1 (y + 1) := by
    rw [interrupted, printChar_printable hd (by omega) (by omega), resume_lfY,
      finish_goto (by omega) (by omega)]
  refine not_echoSafe iterate_lfY ht rfl rfl ?_ ?_
  · rw [printChar_lf (by omega), newLine_of_lt hy, printChar_printable hd (by omega) (by omega)]
    apply ne_of_glyph (80 * y) (80 * y) (by omega) (by omega) (store_self _ _)
    exact numbered_store_of_ne (by omega) _
  · rcases Nat.lt_or_ge x 79 with hlt | hge
    · rw [printChar_printable hd hlt (by omega), printChar_lf (by omega), newLine_of_lt hy]
      exact ne_column (by omega) (by omega) (by omega)
    · rw [printChar_printable_of_le hd hge (by omega) (by omega), newLine_eq_goto,
        printChar_lf (by omega), newLine_eq_goto]
      exact ne_column (by omega) (by omega) (by omega)

/-- A back space at the start of the row that a new line leaves. -/
theorem not_echoSafe_lf_bsp (hx : x < 80) (hy : y < 24) (h0 : ¬ (x = 0 ∧ y = 0)) :
    ¬ EchoSafe 0x0A ctBsp (numbered.goto x y) := by
  have hu : printChar ctBsp (printChar 0x0A (numbered.goto x y)) =
      (numbered.store (80 * y + 79) (glyph ctWht)).goto 79 y := by
    rw [printChar_lf (by omega), newLine_of_lt hy, printChar_bsp_up (by omega) (by omega),
      Nat.add_sub_cancel]
  rcases Nat.eq_zero_or_pos y with rfl | hy0
  · have ht : interrupted 0x0A ctBsp (.lfY, numbered.goto 0 0) = numbered.goto 0 1 := by
      rw [interrupted, printChar_bsp_zero, resume_lfY, finish_goto (by omega) (by omega)]
    apply not_echoSafe iterate_lfY ht hu rfl (ne_column (by omega) (by omega) (by omega))
    rw [printChar_bsp (by omega) (by omega) (by omega), printChar_lf (by omega), newLine_of_lt hy]
    exact ne_of_number (80 * 0 + (x - 1)) (80 * 0 + (x - 1)) (by omega) (by omega) rfl
      (store_self _ _)
  · have ht : interrupted 0x0A ctBsp (.lfY, numbered.goto 0 y) =
        (numbered.store (80 * (y - 1) + 79) (glyph ctWht)).goto 79 y := by
      rw [interrupted, printChar_bsp_up hy0 (by omega), resume_lfY, Nat.sub_add_cancel hy0,
        finish_goto (by omega) (by omega)]
    refine not_echoSafe iterate_lfY ht hu rfl ?_ ?_
    · refine ne_of_number (80 * y + 79) (80 * y + 79) (by omega) (by omega) ?_ (store_self _ _)
      exact numbered_store_of_ne (by omega) _
    · rcases Nat.eq_zero_or_pos x with rfl | hpos
      · rw [printChar_bsp_up hy0 (by omega), printChar_lf (by omega), newLine_eq_goto]
        exact ne_column (by omega) (by omega) (by omega)
      · rw [printChar_bsp hpos (by omega) (by omega), printChar_lf (by omega), newLine_eq_goto]
        exact ne_column (by omega) (by omega) (by omega)

/-! ### Between a cell and the cursor -/

/-- The end of `print_char` keeps a number where there should be a character. -/
theorem finish_ne_finish {j : ℕ} (hx : x ≤ 80) (hy : y < 25) (hj : j < 2000) (hrow : y < 24 ∨ 80 ≤ j)
    (ha : a.framebuffer j = .ofNat 16 j) (hb : b.framebuffer j = glyph c) :
    ¬ SameScreen (finish (a.goto x y)) (finish (b.goto x y)) := by
  rcases Nat.lt_or_ge x 80 with hlt | hge
  · rw [finish_goto hlt hy, finish_goto hlt hy]
    exact ne_of_number j j hj hj ha hb
  · rw [finish_goto_of_le hge (by omega) hy, finish_goto_of_le hge (by omega) hy, newLine_eq_goto,
      newLine_eq_goto]
    exact ne_of_number (lineUp y j) j (lineUp_lt hj) hj ((framebuffer_afterLine hj hrow).trans ha)
      ((framebuffer_afterLine hj hrow).trans hb)

section Printable

variable (hc : Printable c) (hx : x < 79) (hy : y < 25)
include hc hx hy

/-- A character that is written over the first one. -/
theorem not_echoSafe_printable_printable (hd : Printable d) : ¬ EchoSafe c d (numbered.goto x y) := by
  have ht : interrupted c d (.putX, (numbered.store (80 * y + x) (glyph c)).goto x y) =
      finish (((numbered.store (80 * y + x) (glyph c)).store (80 * y + x) (glyph d)).goto (x + 1 + 1) y) := by
    rw [interrupted, printChar_printable hd hx hy, resume_putX]
  have hcell : ((numbered.store (80 * y + x) (glyph c)).store (80 * y + x) (glyph d)).framebuffer
      (80 * y + (x + 1)) = .ofNat 16 (80 * y + (x + 1)) := by
    rw [store_of_ne (by omega), numbered_store_of_ne (by omega)]
  refine not_echoSafe (iterate_putX hc (by omega) hy) ht rfl rfl ?_ ?_
  · rw [printChar_printable hc hx hy, printChar_eq_finish,
      putChar_printable_goto hd (by omega) (by omega)]
    exact finish_ne_finish (by omega) hy (by omega) (by omega) hcell (store_self _ _)
  · rw [printChar_printable hd hx hy, printChar_eq_finish,
      putChar_printable_goto hc (by omega) (by omega)]
    exact finish_ne_finish (by omega) hy (by omega) (by omega) hcell (store_self _ _)

/-- A carriage return before the cell is written and the cursor moved on. -/
theorem not_echoSafe_printable_cr (hx0 : 0 < x) : ¬ EchoSafe c 0x0D (numbered.goto x y) := by
  have ht : interrupted c 0x0D (.putStore (80 * y + x), numbered.goto x y) =
      (numbered.store (80 * y + x) (glyph c)).goto 1 y := by
    rw [interrupted, printChar_cr hy, resume_putStore, finish_goto (by omega) hy]
  refine not_echoSafe (iterate_putStore hc (by omega) hy) ht rfl rfl ?_ ?_
  · rw [printChar_printable hc hx hy, printChar_cr hy]
    exact ne_column (by omega) (by omega) (by omega)
  · rw [printChar_cr hy, printChar_printable hc (by omega) hy]
    apply ne_of_glyph (80 * y + x) (80 * y + x) (by omega) (by omega) (store_self _ _)
    exact numbered_store_of_ne (by omega) _

/-- A character that goes to a new line before the cursor is moved on. -/
theorem not_echoSafe_printable_newLine (hd : ∀ (s : Console) (x' : ℕ), x ≤ x' → x' < 80 →
      printChar d (s.goto x' y) = newLine s y) : ¬ EchoSafe c d (numbered.goto x y) := by
  have ht : interrupted c d (.putX, (numbered.store (80 * y + x) (glyph c)).goto x y) =
      (afterLine (numbered.store (80 * y + x) (glyph c)) y).goto 1 (min (y + 1) 24) := by
    rw [interrupted, hd _ x (by omega) (by omega), newLine_eq_goto, resume_putX,
      finish_goto (by omega) (min_row_lt y)]
  refine not_echoSafe (iterate_putX hc (by omega) hy) ht rfl rfl ?_ ?_
  · rw [printChar_printable hc hx hy, hd _ (x + 1) (by omega) (by omega), newLine_eq_goto]
    exact ne_column (by omega) (by omega) (by omega)
  · rw [hd _ x (by omega) (by omega), newLine_eq_goto,
      printChar_printable hc (by omega) (min_row_lt y)]
    refine ne_of_glyph (lineUp y (80 * y + x)) (80 * y + x) (lineUp_lt (by omega)) (by omega)
      ((framebuffer_afterLine (by omega) (by omega)).trans (store_self _ _)) ?_
    rw [store_of_ne, framebuffer_afterLine (by omega) (by omega), framebuffer_numbered]
    unfold lineUp
    split_ifs <;> omega

/-- A tab before the cursor is moved on. -/
theorem not_echoSafe_printable_tab : ¬ EchoSafe c ctTab (numbered.goto x y) := by
  rcases Nat.lt_or_ge x 72 with hlt | hge
  · have ht : interrupted c ctTab (.putX, (numbered.store (80 * y + x) (glyph c)).goto x y) =
        (numbered.store (80 * y + x) (glyph c)).goto (8 * (x / 8 + 1) + 1) y := by
      rw [interrupted, printChar_tab hlt hy, resume_putX, finish_goto (by omega) hy]
    refine not_echoSafe (iterate_putX hc (by omega) hy) ht rfl rfl ?_ ?_
    · rw [printChar_printable hc hx hy]
      rcases Nat.lt_or_ge (x + 1) 72 with hlt' | hge'
      · rw [printChar_tab hlt' hy]
        exact ne_column (by omega) (by omega) (by omega)
      · rw [printChar_tab_of_le hge' (by omega) hy, newLine_eq_goto]
        exact ne_column (by omega) (by omega) (by omega)
    · rw [printChar_tab hlt hy, printChar_printable hc (by omega) hy]
      apply ne_of_glyph (80 * y + x) (80 * y + x) (by omega) (by omega) (store_self _ _)
      exact numbered_store_of_ne (by omega) _
  · exact not_echoSafe_printable_newLine hc hx hy fun s x' hle hlt =>
      printChar_tab_of_le (by omega) (by omega) hy

/-- A back space before the cursor is moved on. -/
theorem not_echoSafe_printable_bsp (h0 : ¬ (x = 0 ∧ y = 0)) :
    ¬ EchoSafe c ctBsp (numbered.goto x y) := by
  have hu : printChar ctBsp (printChar c (numbered.goto x y)) =
      ((numbered.store (80 * y + x) (glyph c)).store (80 * y + x) (glyph ctWht)).goto x y := by
    rw [printChar_printable hc hx hy, printChar_bsp (by omega) (by omega) hy, Nat.add_sub_cancel]
  -- `loc` is the cell that the back space erases at `putX`
  have hne : ∀ loc < 80 * y + x,
      ¬ SameScreen (((numbered.store (80 * y + x) (glyph c)).store loc (glyph ctWht)).goto x y)
        (((numbered.store (80 * y + x) (glyph c)).store (80 * y + x) (glyph ctWht)).goto x y) ∧
      ¬ SameScreen (((numbered.store (80 * y + x) (glyph c)).store loc (glyph ctWht)).goto x y)
        (((numbered.store loc (glyph ctWht)).store loc (glyph c)).goto x y) := by
    intro loc hloc
    constructor
    · apply ne_of_glyph loc loc (by omega) (by omega) (store_self _ _)
      rw [store_of_ne (by omega), numbered_store_of_ne (by omega)]
    · refine ne_of_glyph (80 * y + x) (80 * y + x) (by omega) (by omega) ?_ ?_ (c := c)
      · rw [store_of_ne (by omega), store_self]
      · rw [store_of_ne (by omega), numbered_store_of_ne (by omega)]
  rcases Nat.eq_zero_or_pos x with rfl | hpos
  · have hy0 : 0 < y := by omega
    have hline : ∀ s : Console, newLine s (y - 1) = s.goto 0 y := fun s => by
      rw [newLine_of_lt (by omega), Nat.sub_add_cancel hy0]
    obtain ⟨hne1, hne2⟩ := hne (80 * (y - 1) + 79) (by omega)
    refine not_echoSafe (iterate_putX hc (by omega) hy) ?_ hu ?_ hne1 hne2
    · rw [interrupted, printChar_bsp_up hy0 (by omega), resume_putX,
        finish_goto_of_le (by omega) (by omega) (by omega), hline]
    · rw [printChar_bsp_up hy0 (by omega), printChar_printable_of_le hc (by omega) (by omega) (by omega),
        hline]
  · obtain ⟨hne1, hne2⟩ := hne (80 * y + (x - 1)) (by omega)
    refine not_echoSafe (iterate_putX hc (by omega) hy) ?_ hu ?_ hne1 hne2
    · rw [interrupted, printChar_bsp hpos (by omega) hy, resume_putX, Nat.sub_add_cancel hpos,
        finish_goto (by omega) hy]
    · rw [printChar_bsp hpos (by omega) hy, printChar_printable hc (by omega) hy,
        Nat.sub_add_cancel hpos]

end Printable

/-- A printable character is not safe if the handler does something. -/
theorem not_echoSafe_printable (hc : Printable c) (hx : x < 79) (hy : y < 25) (hd : ¬ Idle d x y) :
    ¬ EchoSafe c d (numbered.goto x y) := by
  unfold Idle at hd
  push Not at hd
  obtain ⟨hinert, hcr, hbsp⟩ := hd
  rcases char_cases d with hd | hd | rfl | rfl | rfl | rfl
  · exact absurd hd hinert
  · exact not_echoSafe_printable_printable hc hx hy hd
  · exact not_echoSafe_printable_bsp hc hx hy fun h => hbsp rfl h.1 h.2
  · exact not_echoSafe_printable_tab hc hx hy
  · exact not_echoSafe_printable_cr hc hx hy (Nat.pos_of_ne_zero (hcr rfl))
  · exact not_echoSafe_printable_newLine hc hx hy fun s x' _ _ => printChar_lf (by omega)

/-! ### Between the cursor and a cell -/

/-- A back space after a tab leaves no column that a tab goes to. -/
theorem ne_tab_bsp (hx : x < 80) (hy : y < 25) (hx' : x' < 80) (hcolumn : x' % 8 = 0) :
    ¬ SameScreen (t.goto x' y') (printChar ctBsp (printChar ctTab (s.goto x y))) := by
  rcases Nat.lt_or_ge x 72 with hlt | hge
  · rw [printChar_tab hlt hy, printChar_bsp (by omega) (by omega) hy]
    exact ne_column (by omega) (by omega) (by omega)
  · rw [printChar_tab_of_le hge (by omega) hy, newLine_eq_goto,
      printChar_bsp_up (by omega) (by omega)]
    exact ne_column (by omega) (by omega) (by omega)

/-- A back space moves the cursor back in its row or to the end of the row above. -/
theorem eq_or_of_before (h : 80 * y' + x' + 1 = 80 * y + x) (hx : x < 80) (hx' : x' < 80) :
    (0 < x ∧ x' = x - 1 ∧ y' = y) ∨ (0 < y ∧ x = 0 ∧ x' = 79 ∧ y' = y - 1) := by omega

section Before

variable (h : 80 * y' + x' + 1 = 80 * y + x) (hx : x < 80) (hx' : x' < 80) (hy : y < 25)
include h hx hx' hy

theorem iterate_bspLoc_before :
    ∃ n, (step ctBsp)^[n] (.entry, s.goto x y) = (.bspLoc, s.goto x' y') := by
  obtain ⟨hpos, rfl, rfl⟩ | ⟨hpos, rfl, rfl, rfl⟩ := eq_or_of_before h hx hx'
  · exact ⟨3, iterate_bspLoc hpos hx hy⟩
  · exact ⟨5, iterate_bspLoc_up hpos hy⟩

theorem printChar_bsp_before :
    printChar ctBsp (s.goto x y) = (s.store (80 * y' + x') (glyph ctWht)).goto x' y' := by
  obtain ⟨hpos, rfl, rfl⟩ | ⟨hpos, rfl, rfl, rfl⟩ := eq_or_of_before h hx hx'
  · exact printChar_bsp hpos (by omega) hy
  · exact printChar_bsp_up hpos (by omega)

theorem printChar_printable_before (hd : Printable d) :
    printChar d (s.goto x' y') = (s.store (80 * y' + x') (glyph d)).goto x y := by
  obtain ⟨hpos, rfl, rfl⟩ | ⟨hpos, rfl, rfl, rfl⟩ := eq_or_of_before h hx hx'
  · rw [printChar_printable hd (by omega) hy, Nat.sub_add_cancel hpos]
  · rw [printChar_printable_of_le hd (by omega) (by omega) (by omega), newLine_of_lt (by omega),
      Nat.sub_add_cancel hpos]

/-- The handler prints where the cursor has been moved to. -/
theorem not_echoSafe_bspLoc (ht : erase (printChar d (numbered.goto x' y')) = t)
    (h1 : ¬ SameScreen t
      (printChar d ((numbered.store (80 * y' + x') (glyph ctWht)).goto x' y')))
    (h2 : ¬ SameScreen t (printChar ctBsp (printChar d (numbered.goto x y)))) :
    ¬ EchoSafe ctBsp d (numbered.goto x y) := by
  obtain ⟨n, hn⟩ := iterate_bspLoc_before (s := numbered) h hx hx' hy
  refine not_echoSafe hn ?_ ?_ rfl h1 h2
  · rw [interrupted, resume]
    exact ht
  · rw [printChar_bsp_before h hx hx' hy]

/-- A character that is written to the cell that is to be erased. -/
theorem not_echoSafe_bsp_printable (hd : Printable d) : ¬ EchoSafe ctBsp d (numbered.goto x y) := by
  have ht : erase (printChar d (numbered.goto x' y')) =
      ((numbered.store (80 * y' + x') (glyph d)).store (80 * y + x) (glyph ctWht)).goto x y := by
    rw [printChar_printable_before h hx hx' hy hd, erase_goto (by omega) (by omega), finish_goto hx hy]
  -- the character stays in its cell, and the next one is erased
  have hcell : ((numbered.store (80 * y' + x') (glyph d)).store (80 * y + x) (glyph ctWht)).framebuffer
      (80 * y' + x') = glyph d := by
    rw [store_of_ne (by omega), store_self]
  refine not_echoSafe_bspLoc h hx hx' hy ht ?_ ?_
  · rw [printChar_printable_before h hx hx' hy hd]
    apply ne_of_glyph (80 * y + x) (80 * y + x) (by omega) (by omega) (store_self _ _)
    rw [store_of_ne (by omega), numbered_store_of_ne (by omega)]
  · by_cases hlast : x = 79 ∧ y = 24
    · obtain ⟨rfl, rfl⟩ := hlast
      rw [printChar_printable_of_le hd (by omega) (by omega) (by omega), newLine_eq_goto,
        printChar_bsp_up (by omega) (by omega)]
      exact ne_row (by omega) (by omega) (by omega)
    · obtain ⟨x₂, y₂, h₂, hx₂, hy₂⟩ : ∃ x₂ y₂, 80 * y + x + 1 = 80 * y₂ + x₂ ∧ x₂ < 80 ∧ y₂ < 25 := by
        rcases Nat.lt_or_ge x 79 with hlt | hge
        · exact ⟨x + 1, y, by omega, by omega, hy⟩
        · exact ⟨0, y + 1, by omega, by omega, by omega⟩
      rw [printChar_printable_before h₂ hx₂ hx hy₂ hd, printChar_bsp_before h₂ hx₂ hx hy₂]
      apply ne_of_glyph (80 * y' + x') (80 * y' + x') (by omega) (by omega) hcell
      rw [store_of_ne (by omega), numbered_store_of_ne (by omega)]

/-- A character that goes to a new line before the cell is erased. -/
theorem not_echoSafe_bsp_newLine (hd : ∀ s : Console, printChar d (s.goto x' y') = newLine s y')
    (h2 : ∀ (t : Console) (y'' : ℕ), ¬ SameScreen (t.goto 0 y'')
      (printChar ctBsp (printChar d (numbered.goto x y)))) :
    ¬ EchoSafe ctBsp d (numbered.goto x y) := by
  have ht : erase (printChar d (numbered.goto x' y')) =
      ((afterLine numbered y').store (80 * min (y' + 1) 24 + 0) (glyph ctWht)).goto 0
        (min (y' + 1) 24) := by
    rw [hd, newLine_eq_goto, erase_goto (by omega) (by omega), finish_goto (by omega) (min_row_lt y')]
  refine not_echoSafe_bspLoc h hx hx' hy ht ?_ (h2 _ _)
  rw [hd, newLine_eq_goto]
  refine ne_of_number (lineUp y' (80 * y' + x')) (80 * y' + x') (lineUp_lt (by omega)) (by omega) ?_
    ((framebuffer_afterLine (by omega) (by omega)).trans (store_self _ _))
  rw [store_of_ne, framebuffer_afterLine (by omega) (by omega), framebuffer_numbered]
  unfold lineUp
  split_ifs <;> omega

theorem not_echoSafe_bsp_lf : ¬ EchoSafe ctBsp 0x0A (numbered.goto x y) := by
  refine not_echoSafe_bsp_newLine h hx hx' hy (fun s => printChar_lf (by omega)) fun t y'' => ?_
  rw [printChar_lf (by omega), newLine_eq_goto, printChar_bsp_up (by omega) (by omega)]
  exact ne_column (by omega) (by omega) (by omega)

theorem not_echoSafe_bsp_tab : ¬ EchoSafe ctBsp ctTab (numbered.goto x y) := by
  rcases Nat.lt_or_ge x' 72 with hlt | hge
  · have ht : erase (printChar ctTab (numbered.goto x' y')) =
        (numbered.store (80 * y' + 8 * (x' / 8 + 1)) (glyph ctWht)).goto (8 * (x' / 8 + 1)) y' := by
      rw [printChar_tab hlt (by omega), erase_goto (by omega) (by omega),
        finish_goto (by omega) (by omega)]
    refine not_echoSafe_bspLoc h hx hx' hy ht ?_ ?_
    · rw [printChar_tab hlt (by omega)]
      refine ne_of_number (80 * y' + x') (80 * y' + x') (by omega) (by omega) ?_ (store_self _ _)
      exact numbered_store_of_ne (by omega) _
    · exact ne_tab_bsp hx hy (by omega) (by omega)
  · refine not_echoSafe_bsp_newLine h hx hx' hy
      (fun s => printChar_tab_of_le hge (by omega) (by omega)) fun t y'' => ?_
    exact ne_tab_bsp hx hy (by omega) (by omega)

theorem not_echoSafe_bsp_cr (h0 : 0 < x') : ¬ EchoSafe ctBsp 0x0D (numbered.goto x y) := by
  have ht : erase (printChar 0x0D (numbered.goto x' y')) =
      (numbered.store (80 * y' + 0) (glyph ctWht)).goto 0 y' := by
    rw [printChar_cr (by omega), erase_goto (by omega) (by omega), finish_goto (by omega) (by omega)]
  refine not_echoSafe_bspLoc h hx hx' hy ht ?_ ?_
  · rw [printChar_cr (by omega)]
    refine ne_of_number (80 * y' + x') (80 * y' + x') (by omega) (by omega) ?_ (store_self _ _)
    exact numbered_store_of_ne (by omega) _
  · rw [printChar_cr hy]
    rcases Nat.eq_zero_or_pos y with rfl | hpos
    · rw [printChar_bsp_zero]
      exact ne_of_glyph (80 * y' + 0) (80 * y' + 0) (by omega) (by omega) (store_self _ _) rfl
    · rw [printChar_bsp_up hpos (by omega)]
      exact ne_column (by omega) (by omega) (by omega)

theorem not_echoSafe_bsp_bsp (h0 : 0 < x') : ¬ EchoSafe ctBsp ctBsp (numbered.goto x y) := by
  have ht : erase (printChar ctBsp (numbered.goto x' y')) =
      ((numbered.store (80 * y' + (x' - 1)) (glyph ctWht)).store (80 * y' + (x' - 1))
        (glyph ctWht)).goto (x' - 1) y' := by
    rw [printChar_bsp h0 (by omega) (by omega), erase_goto (by omega) (by omega),
      finish_goto (by omega) (by omega)]
  have hne : ¬ SameScreen (((numbered.store (80 * y' + (x' - 1)) (glyph ctWht)).store
      (80 * y' + (x' - 1)) (glyph ctWht)).goto (x' - 1) y')
      (printChar ctBsp ((numbered.store (80 * y' + x') (glyph ctWht)).goto x' y')) := by
    rw [printChar_bsp h0 (by omega) (by omega)]
    refine ne_of_number (80 * y' + x') (80 * y' + x') (by omega) (by omega) ?_ ?_ (c := ctWht)
    · rw [store_of_ne (by omega), numbered_store_of_ne (by omega)]
    · rw [store_of_ne (by omega), store_self]
  apply not_echoSafe_bspLoc h hx hx' hy ht hne
  rwa [printChar_bsp_before h hx hx' hy]

end Before

/-- A back space goes up at most. -/
theorem cursorY_printChar_bsp_le (hy : y < 25) :
    (printChar ctBsp (s.goto 0 y)).cursorY.toNat ≤ y := by
  rcases Nat.eq_zero_or_pos y with rfl | hpos
  · rw [printChar_bsp_zero]
    exact Nat.le_refl 0
  · rw [printChar_bsp_up hpos (by omega), toNat_cursorY_goto (by omega)]
    exact Nat.sub_le y 1

/-- The handler moves the cursor to the first column between the test for it and the decrement, and
the decrement moves it to a column that is not on the screen. -/
theorem not_echoSafe_bsp_second (hy : y < 25) (hd : printChar d (numbered.goto 1 y) = t.goto 0 y)
    (hle : ∀ s : Console, (printChar d (s.goto 0 y)).cursorY.toNat ≤ y) :
    ¬ EchoSafe ctBsp d (numbered.goto 1 y) := by
  have ht : interrupted ctBsp d (.bspDecX, numbered.goto 1 y) =
      newLine (t.store (80 * y + 255) (glyph ctWht)) y := by
    rw [interrupted, hd, resume_bspDecX_zero, erase_goto (by omega) (by omega),
      finish_goto_of_le (by omega) (by omega) hy]
  have hq := iterate_bspDecX (s := numbered) (show 0 < 1 by omega) (by omega) hy
  rcases Nat.lt_or_ge y 22 with hlt | hge
  · rw [newLine_of_lt (by omega)] at ht
    have hne : ∀ u : Console, u.cursorY.toNat ≤ y →
        ¬ SameScreen ((t.store (80 * y + 255) (glyph ctWht)).goto 0 (y + 1)) u := by
      intro u hu hsame
      rw [← hsame.2.2, toNat_cursorY_goto (by omega)] at hu
      omega
    refine not_echoSafe hq ht rfl rfl (hne _ ?_) (hne _ ?_)
    · rw [printChar_bsp (by omega) (by omega) hy]
      exact hle _
    · rw [hd]
      exact cursorY_printChar_bsp_le hy
  · apply not_echoSafe_of_extent hq ht
    have hstore := lt_extent_store t (80 * y + 255) (glyph ctWht)
    have hnew := le_extent_newLine (t.store (80 * y + 255) (glyph ctWht)) y
    omega

/-- A back space is not safe unless it is ignored or the handler does nothing. -/
theorem not_echoSafe_bsp (hx : x < 80) (hy : y < 25) (h0 : ¬ (x = 0 ∧ y = 0)) (hd : ¬ Inert d) :
    ¬ EchoSafe ctBsp d (numbered.goto x y) := by
  obtain ⟨x', y', h, hx'⟩ : ∃ x' y', 80 * y' + x' + 1 = 80 * y + x ∧ x' < 80 :=
    ⟨(80 * y + x - 1) % 80, (80 * y + x - 1) / 80, by omega, by omega⟩
  rcases char_cases d with hd' | hd' | rfl | rfl | rfl | rfl
  · exact absurd hd' hd
  · exact not_echoSafe_bsp_printable h hx hx' hy hd'
  · rcases Nat.eq_zero_or_pos x' with rfl | hpos
    · obtain rfl : x = 1 := by omega
      exact not_echoSafe_bsp_second hy (printChar_bsp (by omega) (by omega) hy)
        fun s => cursorY_printChar_bsp_le hy
    · exact not_echoSafe_bsp_bsp h hx hx' hy hpos
  · exact not_echoSafe_bsp_tab h hx hx' hy
  · rcases Nat.eq_zero_or_pos x' with rfl | hpos
    · obtain rfl : x = 1 := by omega
      refine not_echoSafe_bsp_second hy (printChar_cr hy) fun s => ?_
      rw [printChar_cr hy, toNat_cursorY_goto (by omega)]
    · exact not_echoSafe_bsp_cr h hx hx' hy hpos
  · exact not_echoSafe_bsp_lf h hx hx' hy

/-! ### The condition -/

/-- The condition is needed. -/
theorem echoCond_of_echoSafe (hx : x < 80) (hy : y < 25) (h : EchoSafe c d (numbered.goto x y)) :
    EchoCond x y c d := by
  -- for each kind of `c`, an interleaving that shows another screen when its condition fails
  by_contra hcond
  revert h
  rcases char_cases c with hc | hc | rfl | rfl | rfl | rfl
  · obtain ⟨hprint, hbsp, htab, -, hlf⟩ := hc
    rw [EchoCond, if_neg hbsp, if_neg htab, if_neg hlf, if_neg hprint] at hcond
    exact absurd trivial hcond
  · rw [EchoCond, if_neg (hc.ne (by decide)), if_neg (hc.ne (by decide)), if_neg (hc.ne (by decide)),
      if_pos hc] at hcond
    rcases Nat.lt_or_ge x 79 with hlt | hge
    · exact not_echoSafe_printable hc hlt hy fun hidle => hcond ⟨hlt, hidle⟩
    · obtain rfl : x = 79 := by omega
      exact not_echoSafe_last_column hc hy d
  · rw [EchoCond, if_pos rfl, not_or] at hcond
    exact not_echoSafe_bsp hx hy hcond.1 hcond.2
  · rw [EchoCond, if_neg (by decide), if_pos rfl] at hcond
    exact not_echoSafe_tab (Nat.le_of_not_lt hcond) hx hy d
  · rw [EchoCond, if_neg (by decide), if_neg (by decide), if_neg (by decide),
      if_neg (by decide)] at hcond
    exact absurd trivial hcond
  · rw [EchoCond, if_neg (by decide), if_neg (by decide), if_pos rfl] at hcond
    rcases Nat.lt_or_ge y 24 with hlt | hge
    · have hd : ¬ (Inert d ∨ d = 0x0D ∨ d = 0x0A ∨ d = ctTab ∨ d = ctBsp ∧ x = 0 ∧ y = 0) :=
        fun hd => hcond ⟨hlt, hd⟩
      push Not at hd
      obtain ⟨hinert, hcr, hlf, htab, hbsp⟩ := hd
      rcases char_cases d with hd | hd | rfl | rfl | rfl | rfl
      · exact absurd hd hinert
      · exact not_echoSafe_lf_printable hx hlt hd
      · exact not_echoSafe_lf_bsp hx hlt fun h => hbsp rfl h.1 h.2
      · exact absurd rfl htab
      · exact absurd rfl hcr
      · exact absurd rfl hlf
    · obtain rfl : y = 24 := by omega
      exact not_echoSafe_scroll hx d

/-- **Key echo**: the characters are printed one after the other, whatever is on the screen and
wherever the interrupt comes, if and only if the cursor and the characters meet the condition. -/
theorem echoSafe_iff (hx : x < 80) (hy : y < 25) :
    (∀ s : Console, s.cursorX.toNat = x → s.cursorY.toNat = y → s.extent ≤ 2000 → EchoSafe c d s) ↔
      EchoCond x y c d := by
  constructor
  · intro h
    apply echoCond_of_echoSafe hx hy
    exact h _ (toNat_cursorX_goto (by omega)) (toNat_cursorY_goto (by omega)) (Nat.zero_le _)
  · rintro hcond s rfl rfl hs
    have hsafe := echoSafe_of_echoCond hs hx hy hcond
    rwa [goto_self] at hsafe

/-- A carriage return is printed in the last cell and a letter echoed. -/
theorem echoSafe_iff_cr_last : (79 < 80 ∧ 24 < 25) ∧
    ∀ s : Console, s.cursorX.toNat = 79 → s.cursorY.toNat = 24 → s.extent ≤ 2000 →
      EchoSafe 0x0D 0x61 s :=
  ⟨by decide, (echoSafe_iff (by decide) (by decide)).mpr trivial⟩

/-- Both letters are written to the first cell. -/
theorem not_echoSafe_letters : ¬ ∀ (s : Console) (c d : BitVec 8), s.cursorX.toNat < 80 →
    s.cursorY.toNat < 25 → s.extent ≤ 2000 → EchoSafe c d s := by
  intro h
  have hsafe := h (numbered.goto 0 0) 0x61 0x62 (by decide) (by decide) (Nat.zero_le _)
  exact not_echoSafe_printable_printable (by decide) (by omega) (by omega) (by decide) hsafe

end FanOS.Display

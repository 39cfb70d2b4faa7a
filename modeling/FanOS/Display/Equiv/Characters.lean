import FanOS.Display.Steps
import Mathlib.Tactic.SplitIfs

/-!
# What each character does

`s.goto x y` is the console with the cursor in column `x` of row `y`.  For every kind of character
there is an equation for `print_char` there: it moves the cursor, or writes a cell and moves it, or
goes to a new line (`newLine`), which scrolls the screen in the last row.
-/

namespace FanOS.Display

variable {s : Console} {c : BitVec 8} {x y : ℕ}

/-- Characters that are written to the screen: those from a blank on. -/
def Printable (c : BitVec 8) : Prop := 0x20 ≤ c.toNat

instance : DecidablePred Printable := fun c => inferInstanceAs (Decidable (0x20 ≤ c.toNat))

/-- Characters that `print_char` ignores. -/
def Inert (c : BitVec 8) : Prop :=
  ¬ Printable c ∧ c ≠ ctBsp ∧ c ≠ ctTab ∧ c ≠ 0x0D ∧ c ≠ 0x0A

instance : DecidablePred Inert := fun c =>
  inferInstanceAs (Decidable (¬ Printable c ∧ c ≠ ctBsp ∧ c ≠ ctTab ∧ c ≠ 0x0D ∧ c ≠ 0x0A))

/-! ### The cursor -/

/-- The console with the cursor somewhere else. -/
def Console.goto (s : Console) (x y : ℕ) : Console := positionCursor (.ofNat 8 x) (.ofNat 8 y) s

@[simp] theorem framebuffer_goto : (s.goto x y).framebuffer = s.framebuffer := rfl
@[simp] theorem goto_store (i : ℕ) (v : BitVec 16) :
    (s.goto x y).store i v = (s.store i v).goto x y := rfl
@[simp] theorem extent_store (i : ℕ) (v : BitVec 16) :
    (s.store i v).extent = max s.extent (i + 1) := rfl

theorem toNat_cursorX_goto (hx : x < 256) : (s.goto x y).cursorX.toNat = x :=
  Nat.mod_eq_of_lt hx

theorem toNat_cursorY_goto (hy : y < 256) : (s.goto x y).cursorY.toNat = y :=
  Nat.mod_eq_of_lt hy

theorem goto_self (s : Console) : s.goto s.cursorX.toNat s.cursorY.toNat = s := by
  unfold Console.goto positionCursor
  rw [BitVec.ofNat_toNat, BitVec.ofNat_toNat, BitVec.setWidth_eq, BitVec.setWidth_eq]

theorem toNat_getCursorLocation (s : Console) :
    (getCursorLocation s).toNat = s.cursorY.toNat * 80 + s.cursorX.toNat := by
  have hx := s.cursorX.isLt
  have hy := s.cursorY.isLt
  unfold getCursorLocation maxRow
  bv_omega

theorem location_goto (hx : x < 256) (hy : y < 256) :
    (getCursorLocation (s.goto x y)).toNat = 80 * y + x := by
  rw [toNat_getCursorLocation, toNat_cursorX_goto hx, toNat_cursorY_goto hy, Nat.mul_comm]

/-! ### Going to a new line -/

/-- All rows are moved up by one. -/
def scrolled (s : Console) : Console := blankLoop 80 1920 (copyLoop 1920 0 s)

/-- The loops of `scroll_screen`. -/
theorem blankLoop_copyLoop (s : Console) :
    blankLoop maxRow ((maxCol - 1) * maxRow) (copyLoop (maxRow * (maxCol - 1)) 0 s) = scrolled s := by
  rw [show maxRow * (maxCol - 1) = 1920 from rfl, show (maxCol - 1) * maxRow = 1920 from rfl,
    show maxRow = 80 from rfl, scrolled]

theorem framebuffer_scrolled (s : Console) (j : ℕ) :
    (scrolled s).framebuffer j =
      if j < 1920 then s.framebuffer (j + 80) else if j < 2000 then glyph ctWht else s.framebuffer j := by
  have hrow : maxRow = 80 := rfl
  rw [scrolled, framebuffer_blankLoop, framebuffer_copyLoop, hrow]
  rcases Nat.lt_or_ge j 1920 with hj | hj
  · rw [if_neg (by omega), if_pos (by omega), if_pos hj]
  · rw [if_neg (show ¬ j < 1920 by omega)]
    rcases Nat.lt_or_ge j 2000 with hj' | hj'
    · rw [if_pos (by omega), if_pos hj']
    · rw [if_neg (by omega), if_neg (by omega), if_neg (by omega)]

theorem storeLoop_goto {v : Console → ℕ → BitVec 16} (hv : ∀ s i, v (s.goto x y) i = v s i)
    (s : Console) (k i : ℕ) : storeLoop v k i (s.goto x y) = (storeLoop v k i s).goto x y := by
  induction k generalizing i s with
  | zero => rfl
  | succ k ih => rw [storeLoop, storeLoop, hv, goto_store, ih]

theorem copyLoop_goto (s : Console) (k i : ℕ) :
    copyLoop k i (s.goto x y) = (copyLoop k i s).goto x y := by
  rw [copyLoop_eq, copyLoop_eq, storeLoop_goto]
  exact fun s i => by rw [framebuffer_goto]

theorem blankLoop_goto (s : Console) (k i : ℕ) :
    blankLoop k i (s.goto x y) = (blankLoop k i s).goto x y := by
  rw [blankLoop_eq, blankLoop_eq, storeLoop_goto]
  exact fun _ _ => rfl

theorem extent_storeLoop_le (v : Console → ℕ → BitVec 16) (s : Console) (k i : ℕ) :
    (storeLoop v k i s).extent ≤ max s.extent (i + k) := by
  induction k generalizing i s with
  | zero => exact Nat.le_max_left _ _
  | succ k ih =>
    have := ih (s.store i (v s i)) (i + 1)
    rw [extent_store] at this
    rw [storeLoop]
    omega

theorem extent_copyLoop_le (s : Console) (k i : ℕ) :
    (copyLoop k i s).extent ≤ max s.extent (i + k) := by
  rw [copyLoop_eq]
  exact extent_storeLoop_le _ s k i

theorem extent_blankLoop_le (s : Console) (k i : ℕ) :
    (blankLoop k i s).extent ≤ max s.extent (i + k) := by
  rw [blankLoop_eq]
  exact extent_storeLoop_le _ s k i

theorem scrolled_goto : scrolled (s.goto x y) = (scrolled s).goto x y := by
  rw [scrolled, copyLoop_goto, blankLoop_goto, scrolled]

theorem extent_scrolled_le (s : Console) : (scrolled s).extent ≤ max s.extent 2000 := by
  have h1 := extent_copyLoop_le s 1920 0
  have h2 := extent_blankLoop_le (copyLoop 1920 0 s) 80 1920
  rw [scrolled]
  omega

/-- The cursor goes to the row below, or the screen is scrolled. -/
def newLine (s : Console) (y : ℕ) : Console :=
  if y < 24 then s.goto 0 (y + 1) else (scrolled s).goto 0 24

/-- Rows behind the last one are scrolled on to the screen. -/
theorem scrollScreen_goto (hy : y < 256) :
    scrollScreen (s.goto x y) = if y < 25 then s.goto x y else (scrolled s).goto x 24 := by
  rw [scrollScreen, toNat_cursorY_goto hy]
  apply if_congr Iff.rfl rfl
  simp only [blankLoop_copyLoop, scrolled_goto]
  rfl

/-- The end of `print_char`, with the cursor in a column of the screen. -/
theorem finish_goto_eq (hx : x < 80) (hy : y < 256) :
    finish (s.goto x y) = if y < 25 then s.goto x y else (scrolled s).goto x 24 := by
  have hwrap : ¬ (s.goto x y).cursorX.toNat ≥ maxRow := by
    rw [toNat_cursorX_goto (by omega)]
    exact Nat.not_le.mpr hx
  rw [finish, wrapCursor, if_neg hwrap, scrollScreen_goto hy]

theorem finish_goto (hx : x < 80) (hy : y < 25) : finish (s.goto x y) = s.goto x y := by
  rw [finish_goto_eq hx (by omega), if_pos hy]

/-- The end of `print_char` behind a new line. -/
theorem finish_goto_succ (hy : y < 255) : finish (s.goto 0 (y + 1)) = newLine s y := by
  rw [finish_goto_eq (by omega) (by omega), newLine]
  exact if_congr (by omega) rfl rfl

/-- The end of `print_char`, behind the last column. -/
theorem finish_goto_of_le (hx : 80 ≤ x) (hx' : x < 256) (hy : y < 25) :
    finish (s.goto x y) = newLine s y := by
  have hwrap : (s.goto x y).cursorX.toNat ≥ maxRow := by
    rw [toNat_cursorX_goto hx']
    exact hx
  have hnext : ({ s.goto x y with cursorX := 0, cursorY := (s.goto x y).cursorY + 1 } : Console) =
      s.goto 0 (y + 1) := by
    rw [Console.goto, positionCursor, Console.goto, positionCursor, BitVec.ofNat_add]
    rfl
  rw [finish, wrapCursor, if_pos hwrap, hnext, scrollScreen_goto (by omega), newLine]
  exact if_congr (by omega) rfl rfl

theorem goto_down : ({ s.goto x y with cursorY := (s.goto x y).cursorY + 1 } : Console) = s.goto x (y + 1) := by
  unfold Console.goto positionCursor
  rw [BitVec.ofNat_add]
  rfl

theorem goto_right : ({ s.goto x y with cursorX := (s.goto x y).cursorX + 1 } : Console) = s.goto (x + 1) y := by
  unfold Console.goto positionCursor
  rw [BitVec.ofNat_add]
  rfl

/-! ### The branches of `print_char` -/

/-- Only back spaces, tabs, carriage returns and new lines come before the printable characters. -/
theorem Printable.ne (hc : Printable c) {b : BitVec 8} (hb : b.toNat < 0x20) : c ≠ b := by
  rintro rfl
  exact absurd hc (Nat.not_le.mpr hb)

theorem putChar_printable (hc : Printable c) (s : Console) :
    putChar c s = positionCursor (s.cursorX + 1) s.cursorY
      (s.store (getCursorLocation s).toNat (glyph c)) := by
  have hge : c ≥ ctWht := hc
  rw [putChar, if_neg (fun h => hc.ne (by decide) h.1), if_neg (hc.ne (by decide)),
    if_neg (hc.ne (by decide)), if_neg (hc.ne (by decide)), if_pos hge]
  rfl

theorem putChar_newline (s : Console) :
    putChar 0x0A s = positionCursor 0 (s.cursorY + 1) s := by
  rw [putChar, if_neg (fun h => absurd h.1 (by decide)), if_neg (by decide), if_neg (by decide),
    if_pos rfl, positionCursor]

theorem putChar_inert (hc : Inert c) (s : Console) : putChar c s = s := by
  obtain ⟨hprint, hbsp, htab, hcr, hlf⟩ := hc
  have hlt : ¬ c ≥ ctWht := hprint
  rw [putChar, if_neg (fun h => hbsp h.1), if_neg htab, if_neg hcr, if_neg hlf, if_neg hlt]

theorem putChar_cr : putChar 0x0D (s.goto x y) = s.goto 0 y := by
  rw [putChar, if_neg (fun h => absurd h.1 (by decide)), if_neg (by decide), if_pos rfl]
  rfl

/-- The next multiple of 8. -/
theorem tab_column :
    ∀ x < 248, BitVec.ofNat 8 x + 8 &&& ~~~(8 - 1) = BitVec.ofNat 8 (8 * (x / 8 + 1)) := by
  decide +kernel

theorem putChar_tab (hx : x < 248) : putChar ctTab (s.goto x y) = s.goto (8 * (x / 8 + 1)) y := by
  rw [putChar, if_neg (fun h => absurd h.1 (by decide)), if_pos rfl]
  unfold Console.goto positionCursor
  rw [← tab_column x hx]

theorem ofNat_ne_zero {n : ℕ} (hn : 0 < n) (hn' : n < 256) : BitVec.ofNat 8 n ≠ 0 := by
  intro h
  have := congrArg BitVec.toNat h
  rw [BitVec.toNat_ofNat, Nat.mod_eq_of_lt hn'] at this
  exact absurd this hn.ne'

theorem ofNat_sub_one {n : ℕ} (hn : 0 < n) : BitVec.ofNat 8 n - 1 = BitVec.ofNat 8 (n - 1) := by
  bv_omega

theorem goto_left (hx : 0 < x) :
    ({ s.goto x y with cursorX := (s.goto x y).cursorX - 1 } : Console) = s.goto (x - 1) y := by
  unfold Console.goto positionCursor
  rw [← ofNat_sub_one hx]

theorem goto_up (hy : 0 < y) :
    ({ s.goto x y with cursorY := (s.goto x y).cursorY - 1 } : Console) = s.goto x (y - 1) := by
  unfold Console.goto positionCursor
  rw [← ofNat_sub_one hy]

theorem putChar_bsp (hx : 0 < x) (hx' : x < 256) (hy : y < 256) :
    putChar ctBsp (s.goto x y) = (s.store (80 * y + (x - 1)) (glyph ctWht)).goto (x - 1) y := by
  have hne : (s.goto x y).cursorX ≠ 0 := ofNat_ne_zero hx hx'
  rw [putChar, if_pos ⟨rfl, Or.inl hne⟩]
  simp only [if_pos hne, goto_left hx]
  rw [location_goto (by omega) hy, goto_store]

theorem putChar_bsp_up (hy : 0 < y) (hy' : y < 256) :
    putChar ctBsp (s.goto 0 y) = (s.store (80 * (y - 1) + 79) (glyph ctWht)).goto 79 (y - 1) := by
  have hzero : ¬ (s.goto 0 y).cursorX ≠ 0 := fun h => h rfl
  have hne : (s.goto 0 y).cursorY ≠ 0 := ofNat_ne_zero hy hy'
  have hup : ({ s.goto 0 y with
        cursorY := (s.goto 0 y).cursorY - 1, cursorX := .ofNat 8 (maxRow - 1) } : Console) =
      s.goto 79 (y - 1) := goto_up (s := s) (x := 79) hy
  rw [putChar, if_pos ⟨rfl, Or.inr hne⟩]
  simp only [if_neg hzero, if_pos hne, hup]
  rw [location_goto (by omega) (by omega), goto_store]

theorem putChar_bsp_zero : putChar ctBsp (s.goto 0 0) = s.goto 0 0 := by
  rw [putChar, if_neg (fun h => h.2.elim (fun h => h rfl) fun h => h rfl)]
  rfl

/-! ### `print_char` -/

theorem printChar_eq_finish (c : BitVec 8) (s : Console) : printChar c s = finish (putChar c s) := rfl

theorem printChar_inert (hc : Inert c) (hx : x < 80) (hy : y < 25) :
    printChar c (s.goto x y) = s.goto x y := by
  rw [printChar_eq_finish, putChar_inert hc, finish_goto hx hy]

theorem printChar_cr (hy : y < 25) : printChar 0x0D (s.goto x y) = s.goto 0 y := by
  rw [printChar_eq_finish, putChar_cr, finish_goto (by omega) hy]

theorem printChar_lf (hy : y < 255) : printChar 0x0A (s.goto x y) = newLine s y := by
  have hput : putChar 0x0A (s.goto x y) = s.goto 0 (y + 1) := by
    rw [putChar_newline]
    unfold Console.goto positionCursor
    rw [BitVec.ofNat_add]
    rfl
  rw [printChar_eq_finish, hput, finish_goto_succ hy]

theorem printChar_tab (hx : x < 72) (hy : y < 25) :
    printChar ctTab (s.goto x y) = s.goto (8 * (x / 8 + 1)) y := by
  rw [printChar_eq_finish, putChar_tab (by omega), finish_goto (by omega) hy]

theorem printChar_tab_of_le (hx : 72 ≤ x) (hx' : x < 248) (hy : y < 25) :
    printChar ctTab (s.goto x y) = newLine s y := by
  rw [printChar_eq_finish, putChar_tab hx', finish_goto_of_le (by omega) (by omega) hy]

theorem putChar_printable_goto (hc : Printable c) (hx : x < 255) (hy : y < 256) :
    putChar c (s.goto x y) = (s.store (80 * y + x) (glyph c)).goto (x + 1) y := by
  rw [putChar_printable hc, location_goto (by omega) hy]
  unfold Console.goto positionCursor
  rw [BitVec.ofNat_add]
  rfl

theorem printChar_printable (hc : Printable c) (hx : x < 79) (hy : y < 25) :
    printChar c (s.goto x y) = (s.store (80 * y + x) (glyph c)).goto (x + 1) y := by
  rw [printChar_eq_finish, putChar_printable_goto hc (by omega) (by omega),
    finish_goto (by omega) hy]

theorem printChar_printable_of_le (hc : Printable c) (hx : 79 ≤ x) (hx' : x < 255) (hy : y < 25) :
    printChar c (s.goto x y) = newLine (s.store (80 * y + x) (glyph c)) y := by
  rw [printChar_eq_finish, putChar_printable_goto hc hx' (by omega),
    finish_goto_of_le (by omega) (by omega) hy]

theorem printChar_bsp (hx : 0 < x) (hx' : x ≤ 80) (hy : y < 25) :
    printChar ctBsp (s.goto x y) = (s.store (80 * y + (x - 1)) (glyph ctWht)).goto (x - 1) y := by
  rw [printChar_eq_finish, putChar_bsp hx (by omega) (by omega), finish_goto (by omega) hy]

theorem printChar_bsp_up (hy : 0 < y) (hy' : y ≤ 25) :
    printChar ctBsp (s.goto 0 y) = (s.store (80 * (y - 1) + 79) (glyph ctWht)).goto 79 (y - 1) := by
  rw [printChar_eq_finish, putChar_bsp_up hy (by omega), finish_goto (by omega) (by omega)]

theorem printChar_bsp_zero : printChar ctBsp (s.goto 0 0) = s.goto 0 0 := by
  rw [printChar_eq_finish, putChar_bsp_zero, finish_goto (by omega) (by omega)]

/-! ### The rest of `print_char` -/

variable (c)

theorem resume_lfY : resume c .lfY (s.goto x y) = finish (s.goto x (y + 1)) :=
  congrArg finish goto_down

theorem resume_putStore (i : ℕ) :
    resume c (.putStore i) (s.goto x y) = finish ((s.store i (glyph c)).goto (x + 1) y) :=
  congrArg finish (goto_right (s := s.store i (glyph c)) (x := x) (y := y))

theorem resume_putX : resume c .putX (s.goto x y) = finish (s.goto (x + 1) y) :=
  congrArg finish goto_right

theorem resume_wrapX (hy : y < 255) : resume c .wrapX (s.goto x y) = newLine s y := by
  have hnext : ({ s.goto x y with cursorX := 0, cursorY := (s.goto x y).cursorY + 1 } : Console) =
      s.goto 0 (y + 1) := goto_down (s := s) (x := 0) (y := y)
  rw [resume, hnext, scrollScreen_goto (by omega), newLine]
  exact if_congr (by omega) rfl rfl

theorem erase_goto (hx : x < 256) (hy : y < 256) :
    erase (s.goto x y) = finish ((s.store (80 * y + x) (glyph ctWht)).goto x y) := by
  rw [erase, location_goto hx hy, goto_store]

/-- In the first column the cursor is moved to a column that no screen has. -/
theorem resume_bspDecX_zero : resume c .bspDecX (s.goto 0 y) = erase (s.goto 255 y) := rfl

end FanOS.Display

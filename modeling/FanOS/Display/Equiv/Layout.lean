import FanOS.Display.Equiv.Characters
import FanOS.Text.Basic

/-!
# What the console shows

After `clear_screen` the console shows the end of the text that is printed to it: `Shows s ls line`
says that the lines `ls` and then the unfinished line `line` have been printed, and what is then on
the screen.  Every character keeps to it (`Shows.printChar`), so a whole text does
(`Shows.printString`).
-/

namespace FanOS.Display

open Text

variable {s : Console} {ls : List (List (BitVec 8))} {line : List (BitVec 8)} {c : BitVec 8}

/-! ### Rows of the screen -/

/-- The cell in column `j` of a line: its character, or a blank behind its end. -/
def cellOf (line : List (BitVec 8)) (j : ℕ) : BitVec 16 := glyph (line.getD j ctWht)

/-- The rows of the screen show the last lines of a text. -/
def ShowsRows (s : Console) (ls : List (List (BitVec 8))) : Prop :=
  ∀ r < 25, ∀ j < 80, s.framebuffer (80 * r + j) = cellOf (row 25 ls r) j

theorem cellOf_nil (j : ℕ) : cellOf [] j = glyph ctWht := by
  rw [cellOf, List.getD_nil]

/-- A character that is added to a line changes one cell. -/
theorem cellOf_append_singleton (line : List (BitVec 8)) (c : BitVec 8) (j : ℕ) :
    cellOf (line ++ [c]) j = if j = line.length then glyph c else cellOf line j := by
  unfold cellOf
  rcases Nat.lt_trichotomy j line.length with hj | rfl | hj
  · rw [if_neg (by omega), List.getD_append _ _ _ _ hj]
  · rw [if_pos rfl, List.getD_append_right _ _ _ _ (Nat.le_refl _), Nat.sub_self]
    rfl
  · rw [if_neg (by omega), List.getD_eq_default _ _ (by simp; omega),
      List.getD_eq_default _ _ (by omega)]

/-- Storing a character at the cursor adds it to the last line. -/
theorem ShowsRows.store (h : ShowsRows s (ls ++ [line])) (hline : line.length < 80)
    (hx : s.cursorX.toNat = line.length) (hy : s.cursorY.toNat = min ls.length 24) :
    ShowsRows (s.store (getCursorLocation s).toNat (glyph c)) (ls ++ [line ++ [c]]) := by
  intro r hr j hj
  rw [toNat_getCursorLocation, hx, hy]
  simp only [Console.store]
  by_cases hrow : r = min ls.length 24
  · subst hrow
    rw [row_append_singleton_self (by omega), cellOf_append_singleton]
    by_cases hcol : j = line.length
    · subst hcol
      rw [if_pos rfl, Nat.mul_comm, Function.update_self]
    · have hcell := h _ hr j hj
      rw [row_append_singleton_self (by omega)] at hcell
      rw [if_neg hcol, Function.update_of_ne (by omega), hcell]
  · rw [Function.update_of_ne (by omega), h r hr j hj, row_append_singleton_of_ne hrow]

/-! ### The console -/

/-- The console shows the last 25 lines of a text; the cursor is at the end of the last one. -/
structure Shows (s : Console) (ls : List (List (BitVec 8))) (line : List (BitVec 8)) : Prop where
  length_lt : line.length < 80
  rows : ShowsRows s (ls ++ [line])
  cursorX : s.cursorX.toNat = line.length
  cursorY : s.cursorY.toNat = min ls.length 24

/-- A cleared screen shows the empty text. -/
theorem shows_clearScreen (s : Console) : Shows (clearScreen s) [] [] where
  length_lt := by decide
  rows r hr j hj := by
    have hin : 0 ≤ 80 * r + j ∧ 80 * r + j < 0 + maxRow * maxCol := by
      unfold maxRow maxCol
      omega
    have hrow : row 25 ([] ++ [[]]) r = ([] : List (BitVec 8)) := by
      rw [row_append_nil_of_lt (by decide), row_eq_getD, List.getD_nil]
    rw [hrow, cellOf_nil, clearScreen]
    simp only [framebuffer_blankLoop]
    rw [if_pos hin]
  cursorX := rfl
  cursorY := rfl

/-- Going to a new line, and scrolling if it is below the screen. -/
theorem ShowsRows.newLine (h : ShowsRows s ls) (hx : s.cursorX = 0) (hls : 0 < ls.length)
    (hy : s.cursorY.toNat = min (ls.length - 1) 24 + 1) : Shows (scrollScreen s) ls [] := by
  unfold scrollScreen
  rcases Nat.lt_or_ge ls.length 25 with hlt | hge
  · -- there is room below
    rw [if_pos (by unfold maxCol; omega)]
    refine ⟨by decide, fun r hr j hj => ?_, by rw [hx]; rfl, by omega⟩
    rw [row_append_nil_of_lt hlt, h r hr j hj]
  · rw [if_neg (by unfold maxCol; omega)]
    refine ⟨by decide, fun r hr j hj => ?_, by simp [hx], ?_⟩
    · simp only [framebuffer_blankLoop, framebuffer_copyLoop, maxRow, maxCol]
      rcases Nat.lt_or_ge r 24 with hr' | hr'
      · rw [if_neg (by omega), if_pos (by omega), row_append_nil_of_le hge (by omega),
          ← h (r + 1) (by omega) j hj, show 80 * r + j + 80 = 80 * (r + 1) + j by omega]
      · have hmin : r = min ls.length (25 - 1) := by omega
        rw [if_pos (by omega), hmin, row_append_singleton_self (by omega), cellOf_nil]
    · rw [Nat.min_eq_right (by omega)]
      rfl

/-! ### Printing -/

/-- A newline ends the line. -/
theorem Shows.printChar_newline (h : Shows s ls line) :
    Shows (printChar 0x0A s) (ls ++ [line]) [] := by
  have hy := h.cursorY
  have hwrap : ¬ (positionCursor 0 (s.cursorY + 1) s).cursorX.toNat ≥ maxRow := Nat.not_succ_le_zero _
  rw [printChar, putChar_newline, wrapCursor, if_neg hwrap]
  refine ShowsRows.newLine (s := positionCursor 0 (s.cursorY + 1) s) h.rows rfl (by simp) ?_
  rw [List.length_append, List.length_singleton, positionCursor]
  bv_omega

/-- A printable character is added to the line, which is ended with its 80th character. -/
theorem Shows.printChar_printable (h : Shows s ls line) (hc : Printable c) :
    if line.length + 1 = 80 then Shows (printChar c s) (ls ++ [line ++ [c]]) []
    else Shows (printChar c s) ls (line ++ [c]) := by
  have hx := h.cursorX
  have hy := h.cursorY
  have hlt := h.length_lt
  have hrows := h.rows.store (c := c) h.length_lt hx hy
  rw [printChar, putChar_printable hc]
  -- the console with the character in it
  generalize s.store (getCursorLocation s).toNat (glyph c) = s' at hrows
  have hsucc : (positionCursor (s.cursorX + 1) s.cursorY s').cursorX.toNat = line.length + 1 := by
    unfold positionCursor
    bv_omega
  rw [wrapCursor, hsucc]
  split_ifs with hlast hwrap hwrap
  · refine ShowsRows.newLine (s := positionCursor 0 (s.cursorY + 1) s') hrows rfl (by simp) ?_
    rw [List.length_append, List.length_singleton, positionCursor]
    bv_omega
  · exact absurd hlast.ge hwrap
  · unfold maxRow at hwrap
    omega
  · have hstay : s.cursorY.toNat < 25 := by omega
    rw [scrollScreen_of_lt (show (positionCursor _ s.cursorY s').cursorY.toNat < 25 from hstay)]
    refine ⟨?_, hrows, ?_, hy⟩
    · rw [List.length_append, List.length_singleton]
      omega
    · rw [hsucc, List.length_append, List.length_singleton]

/-- **Printing a text** adds its lines to what the console shows. -/
theorem Shows.printString (h : Shows s ls line) {text : List (BitVec 8)}
    (htext : ∀ c ∈ text, Printable c ∨ c = 0x0A) :
    ∃ ls' line', ls' ++ [line'] = ls ++ lines 80 0x0A line text ∧
      Shows (printString text s) ls' line' := by
  induction text generalizing s ls line with
  | nil => exact ⟨ls, line, rfl, h⟩
  | cons c text ih =>
    have hrest : ∀ c ∈ text, Printable c ∨ c = 0x0A := fun c hc => htext c (List.mem_cons_of_mem _ hc)
    have hchar := htext c List.mem_cons_self
    have hzero : c ≠ 0 := by
      rintro rfl
      exact absurd hchar (by decide)
    rw [Display.printString, if_pos hzero, lines]
    by_cases hnl : c = 0x0A
    · subst hnl
      obtain ⟨ls', line', heq, hshows⟩ := ih h.printChar_newline hrest
      exact ⟨ls', line', by rw [heq, if_pos rfl, List.append_assoc]; rfl, hshows⟩
    · have hstep := h.printChar_printable (hchar.resolve_right hnl)
      rw [if_neg hnl]
      -- a character in the last column ends its line
      split_ifs at hstep ⊢ with hlast
      · obtain ⟨ls', line', heq, hshows⟩ := ih hstep hrest
        exact ⟨ls', line', by rw [heq, List.append_assoc]; rfl, hshows⟩
      · exact ih hstep hrest

/-- **The console shows the tail of the text**: after `clear_screen` and `print_string` its rows are the
last 25 lines of the text, and the cursor is at the end of the last line. -/
theorem printString_shows_tail (s : Console) {text : List (BitVec 8)}
    (htext : ∀ c ∈ text, Printable c ∨ c = 0x0A) :
    let ls := lines 80 0x0A [] text
    let s' := printString text (clearScreen s)
    (∀ r < 25, ∀ j < 80, s'.framebuffer (80 * r + j) = cellOf (row 25 ls r) j) ∧
      (∃ line, ls.getLast? = some line ∧ s'.cursorX.toNat = line.length) ∧
      s'.cursorY.toNat = min ls.length 25 - 1 := by
  obtain ⟨ls, line, heq, h⟩ := (shows_clearScreen s).printString htext
  rw [List.nil_append] at heq
  simp only [← heq]
  refine ⟨h.rows, ⟨line, by simp, h.cursorX⟩, ?_⟩
  rw [h.cursorY, List.length_append, List.length_singleton]
  omega

/-- A text of three lines, of which the second is full. -/
def threeLines : List (BitVec 8) := [0x61, 0x0A] ++ List.replicate 80 0x62 ++ [0x63]

theorem printString_shows_tail_three_lines :
    (∀ r < 25, ∀ j < 80, (printString threeLines (clearScreen ⟨fun _ => 0, 0, 0, 0⟩)).framebuffer
        (80 * r + j) = cellOf (row 25 (lines 80 0x0A [] threeLines) r) j) ∧
      row 25 (lines 80 0x0A [] threeLines) 2 = [0x63] :=
  ⟨(printString_shows_tail ⟨fun _ => 0, 0, 0, 0⟩ (by decide +kernel)).1, by decide +kernel⟩

end FanOS.Display

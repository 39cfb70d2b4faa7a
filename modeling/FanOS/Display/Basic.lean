import Mathlib.Data.Nat.Bitwise
import Mathlib.Logic.Function.Basic

/-!
# The console (`display.c`)

The screen is a framebuffer of 25 rows of 80 cells, a character and its attribute each.  `print_char`
writes at the cursor and moves it on, to a new line behind the last column, and scrolls when it has
left the last row.

`MAX_ROW` is the length of a row and `MAX_COL` that of a column.  The framebuffer is a map from
indices to cells which goes on behind the screen as memory does; `extent` notes how far writes have
gone.  The commands that show the cursor are left out.
-/

namespace FanOS.Display

def maxRow : ℕ := 80
def maxCol : ℕ := 25

/-- `CT_WHT`, a blank. -/
def ctWht : BitVec 8 := 0x20
/-- `CT_BSP`. -/
def ctBsp : BitVec 8 := 0x08
/-- `CT_TAB`. -/
def ctTab : BitVec 8 := 0x09

def bgColor : BitVec 8 := 0x0
def fgColor : BitVec 8 := 0xF

/-- The static variables. -/
structure Console where
  framebuffer : ℕ → BitVec 16
  cursorX : BitVec 8
  cursorY : BitVec 8
  /-- No cell from here on has been written. -/
  extent : ℕ

/-- `framebuffer[i] = v`. -/
def Console.store (s : Console) (i : ℕ) (v : BitVec 16) : Console :=
  { s with framebuffer := Function.update s.framebuffer i v, extent := max s.extent (i + 1) }

/-- `position_cursor`. -/
def positionCursor (x y : BitVec 8) (s : Console) : Console := { s with cursorX := x, cursorY := y }

/-- `get_cursor_location`. -/
def getCursorLocation (s : Console) : BitVec 16 :=
  s.cursorY.setWidth 16 * BitVec.ofNat 16 maxRow + s.cursorX.setWidth 16

/-- `get_attribute`. -/
def getAttribute : BitVec 8 := bgColor <<< 4 ||| (fgColor &&& 0x0F)

/-- `c | (attribute << 8)`. -/
def glyph (c : BitVec 8) : BitVec 16 := c.setWidth 16 ||| getAttribute.setWidth 16 <<< 8

/-! ### Scrolling -/

/-- `framebuffer[i] = framebuffer[i + MAX_ROW]`, at index `i` and for `k` cells. -/
def copyLoop : ℕ → ℕ → Console → Console
  | 0, _, s => s
  | k + 1, i, s => copyLoop k (i + 1) (s.store i (s.framebuffer (i + maxRow)))

/-- `framebuffer[i] = blank`, at index `i` and for `k` cells. -/
def blankLoop : ℕ → ℕ → Console → Console
  | 0, _, s => s
  | k + 1, i, s => blankLoop k (i + 1) (s.store i (glyph ctWht))

/-- `scroll_screen`. -/
def scrollScreen (s : Console) : Console :=
  if s.cursorY.toNat < maxCol then s
  else
    let s := copyLoop (maxRow * (maxCol - 1)) 0 s
    let s := blankLoop maxRow ((maxCol - 1) * maxRow) s
    { s with cursorY := .ofNat 8 (maxCol - 1) }

theorem scrollScreen_of_lt {s : Console} (h : s.cursorY.toNat < 25) : scrollScreen s = s := if_pos h

/-- `clear_screen`. -/
def clearScreen (s : Console) : Console :=
  { blankLoop (maxRow * maxCol) 0 s with cursorX := 0, cursorY := 0 }

/-! ### Printing -/

/-- What `print_char` does for a character, before the cursor is moved to a new line. -/
def putChar (c : BitVec 8) (s : Console) : Console :=
  if c = ctBsp ∧ (s.cursorX ≠ 0 ∨ s.cursorY ≠ 0) then
    let s :=
      if s.cursorX ≠ 0 then { s with cursorX := s.cursorX - 1 }
      else if s.cursorY ≠ 0 then
        { s with cursorY := s.cursorY - 1, cursorX := .ofNat 8 (maxRow - 1) }
      else s
    s.store (getCursorLocation s).toNat (glyph ctWht)
  else if c = ctTab then { s with cursorX := (s.cursorX + 8) &&& ~~~(8 - 1) }
  else if c = 0x0D then { s with cursorX := 0 }
  else if c = 0x0A then { s with cursorX := 0, cursorY := s.cursorY + 1 }
  else if c ≥ ctWht then
    let s := s.store (getCursorLocation s).toNat (glyph c)
    { s with cursorX := s.cursorX + 1 }
  else s

/-- The cursor goes to a new line behind the last column. -/
def wrapCursor (s : Console) : Console :=
  if s.cursorX.toNat ≥ maxRow then { s with cursorX := 0, cursorY := s.cursorY + 1 } else s

/-- `print_char`. -/
def printChar (c : BitVec 8) (s : Console) : Console := scrollScreen (wrapCursor (putChar c s))

/-- `print_string`, of the bytes up to the terminator or up to the end of the list. -/
def printString : List (BitVec 8) → Console → Console
  | [], s => s
  | c :: str, s => if c ≠ 0 then printString str (printChar c s) else s

/-! ### The loops -/

/-- `framebuffer[i] = v`, at index `i` and for `k` cells, where `v` may be made of other cells. -/
def storeLoop (v : Console → ℕ → BitVec 16) : ℕ → ℕ → Console → Console
  | 0, _, s => s
  | k + 1, i, s => storeLoop v k (i + 1) (s.store i (v s i))

variable (s : Console)

theorem copyLoop_eq (k i : ℕ) :
    copyLoop k i s = storeLoop (fun s i => s.framebuffer (i + maxRow)) k i s := by
  induction k generalizing i s with
  | zero => rfl
  | succ k ih => rw [copyLoop, ih, storeLoop]

theorem blankLoop_eq (k i : ℕ) : blankLoop k i s = storeLoop (fun _ _ => glyph ctWht) k i s := by
  induction k generalizing i s with
  | zero => rfl
  | succ k ih => rw [blankLoop, ih, storeLoop]

theorem cursorX_storeLoop (v : Console → ℕ → BitVec 16) (k i : ℕ) :
    (storeLoop v k i s).cursorX = s.cursorX := by
  induction k generalizing i s with
  | zero => rfl
  | succ k ih => rw [storeLoop, ih, Console.store]

@[simp] theorem cursorX_copyLoop (k i : ℕ) : (copyLoop k i s).cursorX = s.cursorX := by
  rw [copyLoop_eq, cursorX_storeLoop]

@[simp] theorem cursorX_blankLoop (k i : ℕ) : (blankLoop k i s).cursorX = s.cursorX := by
  rw [blankLoop_eq, cursorX_storeLoop]

/-- Every cell is written after the ones that are made of it. -/
theorem framebuffer_storeLoop {v : Console → ℕ → BitVec 16}
    (hv : ∀ s i x j, i < j → v (s.store i x) j = v s j) (k i j : ℕ) :
    (storeLoop v k i s).framebuffer j = if i ≤ j ∧ j < i + k then v s j else s.framebuffer j := by
  induction k generalizing i s with
  | zero => rw [storeLoop, if_neg (by omega)]
  | succ k ih =>
    have hstore : (s.store i (v s i)).framebuffer = Function.update s.framebuffer i (v s i) := rfl
    rw [storeLoop, ih, hstore]
    rcases Nat.lt_trichotomy j i with hj | rfl | hj
    · rw [if_neg (by omega), if_neg (by omega), Function.update_of_ne (by omega)]
    · rw [if_neg (by omega), if_pos (by omega), Function.update_self]
    · rw [hv s i _ j hj, Function.update_of_ne (by omega)]
      exact if_congr (by omega) rfl rfl

/-- Rows are moved up. -/
theorem framebuffer_copyLoop (k i j : ℕ) :
    (copyLoop k i s).framebuffer j =
      if i ≤ j ∧ j < i + k then s.framebuffer (j + maxRow) else s.framebuffer j := by
  rw [copyLoop_eq, framebuffer_storeLoop]
  intro s i x j hij
  exact Function.update_of_ne (by omega) _ _

theorem framebuffer_blankLoop (k i j : ℕ) :
    (blankLoop k i s).framebuffer j =
      if i ≤ j ∧ j < i + k then glyph ctWht else s.framebuffer j := by
  rw [blankLoop_eq, framebuffer_storeLoop]
  exact fun _ _ _ _ _ => rfl

end FanOS.Display

import FanOS.Display.Basic
import Mathlib.Logic.Function.Iterate

/-!
# `print_char`, statement by statement

The handler of the keyboard prints to the console that the interrupted program prints to.  To say
where an interrupt may come, `step` runs `print_char` one statement at a time: a `Point` is a place
between two statements, with the local variable that is still needed there, and a test of the console
is a step of its own.  `resume c p` is what is left to be done from `p` on; the steps from any point
on do just that (`exists_iterate_step_eq`).
-/

namespace FanOS.Display

/-- The places between the statements of `print_char` and `scroll_screen`, each named for the
statement that comes next. -/
inductive Point where
  | entry
  /-- `if (cursor_x)`, of a back space. -/
  | bspTestX
  /-- `cursor_x--`. -/
  | bspDecX
  /-- `if (cursor_y)`. -/
  | bspTestY
  /-- `cursor_y--`. -/
  | bspDecY
  /-- `cursor_x = MAX_ROW - 1`. -/
  | bspSetX
  /-- `loc = framebuffer + get_cursor_location()`. -/
  | bspLoc
  /-- `*loc = CT_WHT | (attribute << 8)`. -/
  | bspStore (loc : ℕ)
  /-- `cursor_x = (cursor_x + 8) & ~(8 - 1)`. -/
  | tab
  /-- `cursor_x = 0`, of a carriage return. -/
  | cr
  /-- `cursor_x = 0`, of a new line. -/
  | lfX
  /-- `cursor_y++`. -/
  | lfY
  /-- `loc = framebuffer + get_cursor_location()`, of a printable character. -/
  | putLoc
  /-- `*loc = c | (attribute << 8)`. -/
  | putStore (loc : ℕ)
  /-- `cursor_x++`. -/
  | putX
  /-- `if (cursor_x >= MAX_ROW)`. -/
  | wrapTest
  /-- `cursor_x = 0`. -/
  | wrapX
  /-- `cursor_y++`. -/
  | wrapY
  /-- `if (cursor_y < MAX_COL)`, in `scroll_screen`. -/
  | scrollTest
  /-- `framebuffer[i] = framebuffer[i + MAX_ROW]`. -/
  | copy (i : ℕ)
  /-- `framebuffer[i] = blank`. -/
  | blank (i : ℕ)
  /-- `cursor_y = MAX_COL - 1`. -/
  | scrollY
  | done
  deriving DecidableEq

/-- The next statement of `print_char`. -/
def step (c : BitVec 8) : Point × Console → Point × Console
  | (.entry, s) =>
    if c = ctBsp ∧ (s.cursorX ≠ 0 ∨ s.cursorY ≠ 0) then (.bspTestX, s)
    else if c = ctTab then (.tab, s)
    else if c = 0x0D then (.cr, s)
    else if c = 0x0A then (.lfX, s)
    else if c ≥ ctWht then (.putLoc, s)
    else (.wrapTest, s)
  | (.bspTestX, s) => if s.cursorX ≠ 0 then (.bspDecX, s) else (.bspTestY, s)
  | (.bspDecX, s) => (.bspLoc, { s with cursorX := s.cursorX - 1 })
  | (.bspTestY, s) => if s.cursorY ≠ 0 then (.bspDecY, s) else (.bspLoc, s)
  | (.bspDecY, s) => (.bspSetX, { s with cursorY := s.cursorY - 1 })
  | (.bspSetX, s) => (.bspLoc, { s with cursorX := .ofNat 8 (maxRow - 1) })
  | (.bspLoc, s) => (.bspStore (getCursorLocation s).toNat, s)
  | (.bspStore loc, s) => (.wrapTest, s.store loc (glyph ctWht))
  | (.tab, s) => (.wrapTest, { s with cursorX := (s.cursorX + 8) &&& ~~~(8 - 1) })
  | (.cr, s) => (.wrapTest, { s with cursorX := 0 })
  | (.lfX, s) => (.lfY, { s with cursorX := 0 })
  | (.lfY, s) => (.wrapTest, { s with cursorY := s.cursorY + 1 })
  | (.putLoc, s) => (.putStore (getCursorLocation s).toNat, s)
  | (.putStore loc, s) => (.putX, s.store loc (glyph c))
  | (.putX, s) => (.wrapTest, { s with cursorX := s.cursorX + 1 })
  | (.wrapTest, s) => if s.cursorX.toNat ≥ maxRow then (.wrapX, s) else (.scrollTest, s)
  | (.wrapX, s) => (.wrapY, { s with cursorX := 0 })
  | (.wrapY, s) => (.scrollTest, { s with cursorY := s.cursorY + 1 })
  | (.scrollTest, s) => if s.cursorY.toNat < maxCol then (.done, s) else (.copy 0, s)
  | (.copy i, s) =>
    if i < maxRow * (maxCol - 1) then (.copy (i + 1), s.store i (s.framebuffer (i + maxRow)))
    else (.blank ((maxCol - 1) * maxRow), s)
  | (.blank i, s) =>
    if i < maxRow * maxCol then (.blank (i + 1), s.store i (glyph ctWht)) else (.scrollY, s)
  | (.scrollY, s) => (.done, { s with cursorY := .ofNat 8 (maxCol - 1) })
  | (.done, s) => (.done, s)

/-- The rest of `scroll_screen`, once it is known to scroll. -/
def scrollRest (s : Console) (i : ℕ) : Console :=
  { blankLoop maxRow ((maxCol - 1) * maxRow) (copyLoop (maxRow * (maxCol - 1) - i) i s) with
    cursorY := .ofNat 8 (maxCol - 1) }

/-- The rest of `print_char` behind the part for its character. -/
def finish (s : Console) : Console := scrollScreen (wrapCursor s)

/-- The rest of `print_char` for a back space, once the cursor has been moved. -/
def erase (s : Console) : Console := finish (s.store (getCursorLocation s).toNat (glyph ctWht))

/-- The rest of `print_char`. -/
def resume (c : BitVec 8) : Point → Console → Console
  | .entry, s => printChar c s
  | .bspTestX, s =>
    if s.cursorX ≠ 0 then erase { s with cursorX := s.cursorX - 1 }
    else if s.cursorY ≠ 0 then
      erase { s with cursorY := s.cursorY - 1, cursorX := .ofNat 8 (maxRow - 1) }
    else erase s
  | .bspDecX, s => erase { s with cursorX := s.cursorX - 1 }
  | .bspTestY, s =>
    if s.cursorY ≠ 0 then
      erase { s with cursorY := s.cursorY - 1, cursorX := .ofNat 8 (maxRow - 1) }
    else erase s
  | .bspDecY, s => erase { s with cursorY := s.cursorY - 1, cursorX := .ofNat 8 (maxRow - 1) }
  | .bspSetX, s => erase { s with cursorX := .ofNat 8 (maxRow - 1) }
  | .bspLoc, s => erase s
  | .bspStore loc, s => finish (s.store loc (glyph ctWht))
  | .tab, s => finish { s with cursorX := (s.cursorX + 8) &&& ~~~(8 - 1) }
  | .cr, s => finish { s with cursorX := 0 }
  | .lfX, s => finish { s with cursorX := 0, cursorY := s.cursorY + 1 }
  | .lfY, s => finish { s with cursorY := s.cursorY + 1 }
  | .putLoc, s =>
    finish { s.store (getCursorLocation s).toNat (glyph c) with cursorX := s.cursorX + 1 }
  | .putStore loc, s => finish { s.store loc (glyph c) with cursorX := s.cursorX + 1 }
  | .putX, s => finish { s with cursorX := s.cursorX + 1 }
  | .wrapTest, s => finish s
  | .wrapX, s => scrollScreen { s with cursorX := 0, cursorY := s.cursorY + 1 }
  | .wrapY, s => scrollScreen { s with cursorY := s.cursorY + 1 }
  | .scrollTest, s => scrollScreen s
  | .copy i, s => scrollRest s i
  | .blank i, s => { blankLoop (maxRow * maxCol - i) i s with cursorY := .ofNat 8 (maxCol - 1) }
  | .scrollY, s => { s with cursorY := .ofNat 8 (maxCol - 1) }
  | .done, s => s

/-! ### Steps and the rest -/

/-- One more round of a loop. -/
theorem copyLoop_sub_of_lt (s : Console) {i n : ℕ} (h : i < n) :
    copyLoop (n - i) i s = copyLoop (n - (i + 1)) (i + 1) (s.store i (s.framebuffer (i + maxRow))) := by
  rw [show n - i = n - (i + 1) + 1 by omega, copyLoop]

theorem blankLoop_sub_of_lt (s : Console) {i n : ℕ} (h : i < n) :
    blankLoop (n - i) i s = blankLoop (n - (i + 1)) (i + 1) (s.store i (glyph ctWht)) := by
  rw [show n - i = n - (i + 1) + 1 by omega, blankLoop]

/-- The first test of `print_char` leaves the rest to be done. -/
theorem resume_step_entry (c : BitVec 8) (s : Console) :
    resume c (step c (.entry, s)).1 (step c (.entry, s)).2 = printChar c s := by
  rw [printChar, putChar, step]
  by_cases hbsp : c = ctBsp ∧ (s.cursorX ≠ 0 ∨ s.cursorY ≠ 0)
  · rw [if_pos hbsp, if_pos hbsp, resume]
    split_ifs <;> rfl
  rw [if_neg hbsp, if_neg hbsp]
  by_cases htab : c = ctTab
  · rw [if_pos htab, if_pos htab]
    rfl
  rw [if_neg htab, if_neg htab]
  by_cases hcr : c = 0x0D
  · rw [if_pos hcr, if_pos hcr]
    rfl
  rw [if_neg hcr, if_neg hcr]
  by_cases hlf : c = 0x0A
  · rw [if_pos hlf, if_pos hlf]
    rfl
  rw [if_neg hlf, if_neg hlf]
  split_ifs <;> rfl

/-- A step leaves the rest to be done. -/
theorem resume_step (c : BitVec 8) (p : Point) (s : Console) :
    resume c (step c (p, s)).1 (step c (p, s)).2 = resume c p s := by
  -- only the points that branch or loop need an argument
  cases p with
  | entry => exact resume_step_entry c s
  | bspTestX =>
    simp only [step, resume]
    split_ifs with hx hy
    · rfl
    · simp only [if_pos hy]
    · simp only [if_neg hy]
  | bspTestY =>
    simp only [step, resume]
    split_ifs <;> rfl
  | wrapTest =>
    simp only [step, resume, finish, wrapCursor]
    split_ifs <;> rfl
  | scrollTest =>
    simp only [step, resume, scrollScreen]
    split_ifs <;> rfl
  | copy i =>
    simp only [step]
    split_ifs with h
    · rw [resume, resume, scrollRest, scrollRest, copyLoop_sub_of_lt s h]
    · rw [resume, resume, scrollRest, Nat.sub_eq_zero_of_le (Nat.le_of_not_lt h), copyLoop]
      rfl
  | blank i =>
    simp only [step]
    split_ifs with h
    · rw [resume, resume, blankLoop_sub_of_lt s h]
    · rw [resume, resume, Nat.sub_eq_zero_of_le (Nat.le_of_not_lt h), blankLoop]
  | _ => rfl

/-- How many steps are left at most. -/
def Point.rank : Point → ℕ
  | .entry => 3010
  | .bspTestX => 3009
  | .bspTestY => 3008
  | .bspDecY => 3007
  | .bspDecX | .bspSetX | .putLoc => 3006
  | .bspLoc | .lfX | .putStore _ => 3005
  | .bspStore _ | .tab | .cr | .lfY | .putX => 3004
  | .wrapTest => 3003
  | .wrapX => 3002
  | .wrapY => 3001
  | .scrollTest => 3000
  | .copy i => 300 + (1920 - i)
  | .blank i => 10 + (2000 - i)
  | .scrollY => 1
  | .done => 0

theorem rank_step_lt (c : BitVec 8) {p : Point} (hp : p ≠ .done) (s : Console) :
    (step c (p, s)).1.rank < p.rank := by
  cases p with
  | done => exact absurd rfl hp
  | copy i =>
    have hmax : maxRow * (maxCol - 1) = 1920 := rfl
    rw [step, hmax]
    by_cases h : i < 1920
    · rw [if_pos h]
      simp only [Point.rank]
      omega
    · rw [if_neg h]
      simp only [Point.rank, maxRow, maxCol]
      omega
  | blank i =>
    have hmax : maxRow * maxCol = 2000 := rfl
    rw [step, hmax]
    by_cases h : i < 2000
    · rw [if_pos h]
      simp only [Point.rank]
      omega
    · rw [if_neg h]
      simp only [Point.rank]
      omega
  | entry | bspTestX | bspTestY | wrapTest | scrollTest =>
    simp only [step]
    split_ifs <;> simp [Point.rank]
  | _ => simp [step, Point.rank]

/-- **Steps run to the end** and do what is left to be done. -/
theorem exists_iterate_step_eq (c : BitVec 8) (p : Point) (s : Console) :
    ∃ n, (step c)^[n] (p, s) = (.done, resume c p s) := by
  induction hr : p.rank using Nat.strong_induction_on generalizing p s with
  | _ r ih =>
    by_cases hp : p = .done
    · subst hp
      exact ⟨0, rfl⟩
    · obtain ⟨n, hn⟩ := ih _ (hr ▸ rank_step_lt c hp s) (step c (p, s)).1 (step c (p, s)).2 rfl
      refine ⟨n + 1, ?_⟩
      rw [Function.iterate_succ_apply, ← resume_step]
      exact hn

end FanOS.Display

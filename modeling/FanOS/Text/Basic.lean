import Mathlib.Data.List.GetD
import Mathlib.Data.Nat.Notation

/-!
# Lines of a text

A text is broken into lines at every newline and behind the last column of a page.  `lines w nl line`
is the list of lines of a text that goes on from the unfinished line `line`; the last line is the one
that would be written to next.

A page shows the last lines of a text.  `row h ls r` is row `r` of a page of `h` rows, and the lemmas
say what a page shows of a text to which a line is added.
-/

namespace FanOS.Text

universe u

variable {α : Type u}

/-- The lines of a text on a page of `w` columns. -/
def lines [DecidableEq α] (w : ℕ) (nl : α) (line : List α) : List α → List (List α)
  | [] => [line]
  | c :: text =>
    if c = nl then line :: lines w nl [] text
    else if line.length + 1 = w then (line ++ [c]) :: lines w nl [] text
    else lines w nl (line ++ [c]) text

/-- Row `r` of a page of `h` rows that shows the last lines of a text. -/
def row (h : ℕ) (ls : List (List α)) (r : ℕ) : List α := (ls.drop (ls.length - h)).getD r []

variable {h r : ℕ} {ls : List (List α)} {line : List α}

theorem row_eq_getD : row h ls r = ls.getD (ls.length - h + r) [] := by
  rw [row, List.getD_eq_getElem?_getD, List.getElem?_drop, List.getD_eq_getElem?_getD]

/-- The last line is in the last row, or above if the page is not full. -/
theorem row_append_singleton_self (hh : 0 < h) : row h (ls ++ [line]) (min ls.length (h - 1)) = line := by
  rw [row_eq_getD, List.length_append, List.length_singleton,
    show ls.length + 1 - h + min ls.length (h - 1) = ls.length by omega,
    List.getD_append_right _ _ _ _ (Nat.le_refl _), Nat.sub_self]
  rfl

/-- The other rows do not depend on the last line. -/
theorem row_append_singleton_of_ne (hr : r ≠ min ls.length (h - 1)) (line' : List α) :
    row h (ls ++ [line]) r = row h (ls ++ [line']) r := by
  simp only [row_eq_getD, List.length_append, List.length_singleton]
  rcases Nat.lt_or_ge (ls.length + 1 - h + r) ls.length with hlt | hge
  · rw [List.getD_append _ _ _ _ hlt, List.getD_append _ _ _ _ hlt]
  · have hout : ls.length + 1 ≤ ls.length + 1 - h + r := by omega
    rw [List.getD_eq_default _ _ (by simpa using hout), List.getD_eq_default _ _ (by simpa using hout)]

/-- A new line on a page with room leaves the rows as they are. -/
theorem row_append_nil_of_lt (hlt : ls.length < h) : row h (ls ++ [[]]) r = row h ls r := by
  simp only [row_eq_getD, List.length_append, List.length_singleton]
  rw [show ls.length + 1 - h + r = r by omega, show ls.length - h + r = r by omega]
  rcases Nat.lt_or_ge r ls.length with hr | hr
  · rw [List.getD_append _ _ _ _ hr]
  · rw [List.getD_append_right _ _ _ _ hr, List.getD_eq_default ls _ hr]
    cases r - ls.length <;> rfl

/-- On a full page it moves them up. -/
theorem row_append_nil_of_le (hle : h ≤ ls.length) (hr : r + 1 < h) :
    row h (ls ++ [[]]) r = row h ls (r + 1) := by
  simp only [row_eq_getD, List.length_append, List.length_singleton]
  rw [List.getD_append _ _ _ _ (by omega),
    show ls.length + 1 - h + r = ls.length - h + (r + 1) by omega]

end FanOS.Text

import Mathlib.Data.Nat.Notation

/-!
# Line editing

A line is edited by strokes: a character is added to its end, the last one is erased, or the line is
entered.  `edit cap` is the line that a user gets whose strokes are read until the line is entered or has
`cap` characters.
-/

namespace FanOS.Line

universe u

variable {α : Type u}

/-- What a key means to the editor. -/
inductive Stroke (α : Type u)
  | char (c : α)
  | erase
  | enter
  | other

/-- The line after a stroke. -/
def Stroke.apply : Stroke α → List α → List α
  | char c, line => line ++ [c]
  | erase, line => line.dropLast
  | _, line => line

/-- The line that is entered with up to `cap` characters, when editing goes on from `line`; `none` if there
are not enough strokes. -/
def edit (cap : ℕ) : List (Stroke α) → List α → Option (List α)
  | [], line => if line.length < cap then none else some line
  | .enter :: _, line => some line
  | k :: ks, line => if line.length < cap then edit cap ks (k.apply line) else some line

variable {cap : ℕ} {ks : List (Stroke α)} {line : List α} {k : Stroke α}

/-- A full line is entered. -/
theorem edit_of_le (h : cap ≤ line.length) : edit cap ks line = some line := by
  fun_cases edit cap ks line with
  | case1 => omega
  | case4 => omega
  | _ => rfl

/-- Strokes but `enter` are applied while there is room. -/
theorem edit_cons (hk : k ≠ .enter) (h : line.length < cap) :
    edit cap (k :: ks) line = edit cap ks (k.apply line) := by
  cases k with
  | enter => exact absurd rfl hk
  | _ => exact if_pos h

/-- Strokes without a meaning are passed over. -/
theorem edit_other : edit cap (.other :: ks) line = edit cap ks line := by
  rcases Nat.lt_or_ge line.length cap with h | h
  · exact edit_cons (fun heq => nomatch heq) h
  · rw [edit_of_le h, edit_of_le h]

end FanOS.Line

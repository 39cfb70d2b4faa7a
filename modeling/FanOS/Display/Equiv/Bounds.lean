import FanOS.Display.Equiv.Characters
import FanOS.Transition.Basic

/-!
# The console stays on the screen

`consoleSystem` runs `print_char` and `clear_screen` one statement at a time, in any order and with any
characters, from a first `clear_screen` on.  `Session.cells` are the cells of the framebuffer that the next
statement reads or writes.

At each place of `print_char` there is something known of the cursor (`Point.Inv`): it may be one column or
one row behind the screen for a while, but not when a cell is computed from it.  So all cells are on the
screen, and so is the cursor after each call (`cells_lt`).
-/

namespace FanOS.Display

variable {s s' : Console} {c : BitVec 8} {p : Point}

/-! ### Calls -/

/-- Between two calls, at a place of `print_char`, or in the loop of `clear_screen`. -/
inductive Session
  | idle (s : Console)
  | printing (c : BitVec 8) (p : Point) (s : Console)
  | clearing (i : ℕ) (s : Console)

/-- A call, or the next statement of the one that runs. -/
inductive Action
  | print (c : BitVec 8)
  | clear
  | step

/-- What an action does. -/
def Session.next : Session → Action → Option Session
  | idle s, .print c => some (printing c .entry s)
  | idle s, .clear => some (clearing 0 s)
  | printing _ .done s, .step => some (idle s)
  | printing c p s, .step => some (printing c (Display.step c (p, s)).1 (Display.step c (p, s)).2)
  | clearing i s, .step =>
    if i < maxRow * maxCol then some (clearing (i + 1) (s.store i (glyph ctWht)))
    else some (idle { s with cursorX := 0, cursorY := 0 })
  | _, _ => none

/-- The cells that a statement of `print_char` reads or writes. -/
def Point.cells : Point → List ℕ
  | .bspStore loc | .putStore loc => [loc]
  | .copy i => if i < maxRow * (maxCol - 1) then [i + maxRow, i] else []
  | .blank i => if i < maxRow * maxCol then [i] else []
  | _ => []

/-- The cells that the next statement reads or writes. -/
def Session.cells : Session → List ℕ
  | idle _ => []
  | printing _ p _ => p.cells
  | clearing i _ => if i < maxRow * maxCol then [i] else []

/-- Runs from `clear_screen` on. -/
def consoleSystem : System Session Action where
  init s := ∃ con, s = .clearing 0 con
  step s a s' := s.next a = some s'

/-! ### Places -/

/-- The cursor is on the screen. -/
def Console.InRange (s : Console) : Prop := s.cursorX.toNat < 80 ∧ s.cursorY.toNat < 25

/-- What is known of the cursor at a place of `print_char`. -/
def Point.Inv : Point → Console → Prop
  | .bspDecX, s => s.InRange ∧ s.cursorX ≠ 0
  | .bspTestX, s => s.InRange ∧ (s.cursorX ≠ 0 ∨ s.cursorY ≠ 0)
  | .bspTestY, s | .bspDecY, s => s.InRange ∧ s.cursorY ≠ 0
  | .bspStore loc, s | .putStore loc, s => s.InRange ∧ loc < 2000
  -- behind the last column, or behind the last row
  | .wrapTest, s =>
    s.cursorX.toNat ≤ 80 ∧ s.cursorY.toNat ≤ 25 ∧ (s.cursorX.toNat = 80 → s.cursorY.toNat < 25)
  | .wrapX, s => s.cursorY.toNat < 25
  | .scrollTest, s => s.cursorX.toNat < 80 ∧ s.cursorY.toNat ≤ 25
  | .copy _, s | .blank _, s | .scrollY, s => s.cursorX.toNat < 80
  | _, s => s.InRange

theorem Console.InRange.wrapTest (h : s.InRange) : Point.wrapTest.Inv s :=
  ⟨h.1.le, h.2.le, fun _ => h.2⟩

theorem Console.InRange.location_lt (h : s.InRange) : (getCursorLocation s).toNat < 2000 := by
  obtain ⟨hx, hy⟩ := h
  rw [toNat_getCursorLocation]
  omega

theorem toNat_sub_one {b : BitVec 8} (h : b ≠ 0) : (b - 1).toNat = b.toNat - 1 := by
  have hne : b.toNat ≠ 0 := fun hnat => h (BitVec.eq_of_toNat_eq hnat)
  bv_omega

theorem toNat_add_one {b : BitVec 8} (h : b.toNat < 80) : (b + 1).toNat = b.toNat + 1 := by
  bv_omega

/-- The tabulator goes to the end of the row at most. -/
theorem toNat_tab_le {b : BitVec 8} (h : b.toNat < 80) : (b + 8 &&& ~~~(8 - 1)).toNat ≤ 80 := by
  have hcolumn := tab_column b.toNat (by omega)
  rw [BitVec.ofNat_toNat, BitVec.setWidth_eq] at hcolumn
  rw [hcolumn, BitVec.toNat_ofNat]
  omega

/-- **A statement** of `print_char` keeps to what is known. -/
theorem Point.Inv.step (h : p.Inv s) : (step c (p, s)).1.Inv (step c (p, s)).2 := by
  have hzero : (0 : BitVec 8).toNat < 80 := by decide
  cases p with
  | entry =>
    have hin : s.InRange := h
    simp only [Display.step]
    split_ifs with hbsp
    · exact ⟨hin, hbsp.2⟩
    · exact hin
    · exact hin
    · exact hin
    · exact hin
    · exact hin.wrapTest
  | bspTestX =>
    obtain ⟨hin, hne⟩ := h
    simp only [Display.step]
    split_ifs with hx
    · exact ⟨hin, hx⟩
    · exact ⟨hin, hne.resolve_left hx⟩
  | bspDecX =>
    obtain ⟨⟨hx, hy⟩, hne⟩ := h
    have hsub := toNat_sub_one hne
    refine ⟨?_, hy⟩
    show (s.cursorX - 1).toNat < 80
    omega
  | bspTestY =>
    simp only [Display.step]
    rw [if_pos h.2]
    exact h
  | bspDecY =>
    obtain ⟨⟨hx, hy⟩, hne⟩ := h
    have hsub := toNat_sub_one hne
    refine ⟨hx, ?_⟩
    show (s.cursorY - 1).toNat < 25
    omega
  | bspSetX => exact ⟨(by decide : (79 : BitVec 8).toNat < 80), h.2⟩
  | bspLoc => exact ⟨h, Console.InRange.location_lt h⟩
  | bspStore loc => exact Console.InRange.wrapTest h.1
  | tab =>
    obtain ⟨hx, hy⟩ := h
    exact ⟨toNat_tab_le hx, hy.le, fun _ => hy⟩
  | cr => exact Console.InRange.wrapTest ⟨hzero, h.2⟩
  | lfX => exact ⟨hzero, h.2⟩
  | lfY =>
    obtain ⟨hx, hy⟩ := h
    have hadd : (s.cursorY + 1).toNat = s.cursorY.toNat + 1 := toNat_add_one (by omega)
    refine ⟨hx.le, ?_, fun heq => absurd heq hx.ne⟩
    show (s.cursorY + 1).toNat ≤ 25
    omega
  | putLoc => exact ⟨h, Console.InRange.location_lt h⟩
  | putStore loc => exact h.1
  | putX =>
    obtain ⟨hx, hy⟩ := h
    have hadd := toNat_add_one hx
    refine ⟨?_, hy.le, fun _ => hy⟩
    show (s.cursorX + 1).toNat ≤ 80
    omega
  | wrapTest =>
    obtain ⟨hx, hy, hwrap⟩ := h
    simp only [Display.step]
    split_ifs with hge
    · exact hwrap (Nat.le_antisymm hx hge)
    · exact ⟨Nat.not_le.mp hge, hy⟩
  | wrapX => exact ⟨hzero, h⟩
  | wrapY =>
    obtain ⟨hx, hy⟩ := h
    have hadd : (s.cursorY + 1).toNat = s.cursorY.toNat + 1 := toNat_add_one (by omega)
    refine ⟨hx, ?_⟩
    show (s.cursorY + 1).toNat ≤ 25
    omega
  | scrollTest =>
    obtain ⟨hx, hy⟩ := h
    simp only [Display.step]
    split_ifs with hlt
    · exact ⟨hx, hlt⟩
    · exact hx
  | copy i =>
    simp only [Display.step]
    split_ifs <;> exact h
  | blank i =>
    simp only [Display.step]
    split_ifs <;> exact h
  | scrollY => exact ⟨h, (by decide : (24 : BitVec 8).toNat < 25)⟩
  | done => exact h

/-! ### Runs -/

/-- What is known between and in calls. -/
def Session.Inv : Session → Prop
  | idle s => s.InRange
  | printing _ p s => p.Inv s
  | clearing _ _ => True

theorem Session.Inv.next {q q' : Session} {a : Action} (h : q.Inv) (hnext : q.next a = some q') :
    q'.Inv := by
  cases q with
  | idle s =>
    cases a with
    | print c =>
      obtain rfl := Option.some.inj hnext
      exact h
    | clear =>
      obtain rfl := Option.some.inj hnext
      trivial
    | step => exact absurd hnext (fun heq => nomatch heq)
  | printing c p s =>
    cases a with
    | step =>
      by_cases hp : p = .done
      · subst hp
        obtain rfl := Option.some.inj hnext
        exact h
      · have hstep : (printing c p s).next .step =
            some (printing c (Display.step c (p, s)).1 (Display.step c (p, s)).2) := by
          cases p <;> first | rfl | exact absurd rfl hp
        obtain rfl := Option.some.inj (hstep.symm.trans hnext)
        exact Point.Inv.step h
    | print d => exact absurd hnext (by cases p <;> exact fun heq => nomatch heq)
    | clear => exact absurd hnext (by cases p <;> exact fun heq => nomatch heq)
  | clearing i s =>
    cases a with
    | step =>
      rw [Session.next] at hnext
      split_ifs at hnext with hlt
      · obtain rfl := Option.some.inj hnext
        trivial
      · obtain rfl := Option.some.inj hnext
        exact ⟨(by decide : (0 : BitVec 8).toNat < 80), (by decide : (0 : BitVec 8).toNat < 25)⟩
    | print d => exact absurd hnext (fun heq => nomatch heq)
    | clear => exact absurd hnext (fun heq => nomatch heq)

theorem reachable_inv {q : Session} (h : consoleSystem.Reachable q) : q.Inv := by
  refine h.invariant (I := Session.Inv) ?_ fun _ _ _ => Session.Inv.next
  rintro _ ⟨con, rfl⟩
  trivial

/-- A statement of `print_char` stays on the screen, -/
theorem Point.Inv.cells_lt (h : p.Inv s) : ∀ i ∈ p.cells, i < 2000 := by
  intro i hi
  cases p with
  | bspStore loc =>
    rw [List.mem_singleton.mp hi]
    exact h.2
  | putStore loc =>
    rw [List.mem_singleton.mp hi]
    exact h.2
  | copy j =>
    rw [Point.cells, show maxRow * (maxCol - 1) = 1920 from rfl, show maxRow = 80 from rfl] at hi
    split_ifs at hi with hlt
    · rcases List.mem_cons.mp hi with rfl | hi
      · omega
      · rw [List.mem_singleton.mp hi]
        omega
    · exact absurd hi List.not_mem_nil
  | blank j =>
    rw [Point.cells, show maxRow * maxCol = 2000 from rfl] at hi
    split_ifs at hi with hlt
    · rwa [List.mem_singleton.mp hi]
    · exact absurd hi List.not_mem_nil
  | _ => exact absurd hi List.not_mem_nil

/-- and so does any statement. -/
theorem Session.Inv.cells_lt {q : Session} (h : q.Inv) : ∀ i ∈ q.cells, i < 2000 := by
  intro i hi
  cases q with
  | idle s => exact absurd hi List.not_mem_nil
  | printing c p s => exact Point.Inv.cells_lt h i hi
  | clearing j s =>
    rw [Session.cells, show maxRow * maxCol = 2000 from rfl] at hi
    split_ifs at hi with hlt
    · rwa [List.mem_singleton.mp hi]
    · exact absurd hi List.not_mem_nil

/-! ### Whole calls -/

/-- Places that `step` comes to are reached, -/
theorem reachable_iterate (n : ℕ) (h : consoleSystem.Reachable (.printing c p s)) :
    consoleSystem.Reachable
      (.printing c ((Display.step c)^[n] (p, s)).1 ((Display.step c)^[n] (p, s)).2) := by
  induction n with
  | zero => exact h
  | succ n ih =>
    rw [Function.iterate_succ_apply']
    generalize (Display.step c)^[n] (p, s) = q at ih
    obtain ⟨p', s'⟩ := q
    by_cases hp : p' = .done
    · subst hp
      exact ih
    · apply ih.step (a := .step)
      cases p' <;> first | rfl | exact absurd rfl hp

/-- so a call of `print_char` is run to its end, -/
theorem reachable_printChar (c : BitVec 8) (h : consoleSystem.Reachable (.idle s)) :
    consoleSystem.Reachable (.idle (printChar c s)) := by
  have hentry : consoleSystem.Reachable (.printing c .entry s) := h.step (a := .print c) rfl
  obtain ⟨n, hn⟩ := exists_iterate_step_eq c .entry s
  have hdone := reachable_iterate n hentry
  rw [hn] at hdone
  exact hdone.step (a := .step) rfl

theorem reachable_blankLoop {i : ℕ} (k : ℕ) (hi : i + k = maxRow * maxCol)
    (h : consoleSystem.Reachable (.clearing i s)) :
    consoleSystem.Reachable (.idle { blankLoop k i s with cursorX := 0, cursorY := 0 }) := by
  induction k generalizing i s with
  | zero =>
    apply h.step (a := .step)
    exact if_neg (by omega)
  | succ k ih =>
    refine ih (i := i + 1) (by omega) (h.step (a := .step) ?_)
    exact if_pos (by omega)

/-- and so is one of `clear_screen`. -/
theorem reachable_clearScreen (s : Console) : consoleSystem.Reachable (.idle (clearScreen s)) :=
  reachable_blankLoop (maxRow * maxCol) (Nat.zero_add _) (.init ⟨s, rfl⟩)

/-- **The console stays on the screen**: the cursor is there after each call, and the cells that a statement
of a call reads or writes are. -/
theorem console_inBounds (q : Session) (h : consoleSystem.Reachable q) :
    (∀ s, q = .idle s → s.cursorX.toNat < 80 ∧ s.cursorY.toNat < 25) ∧ ∀ i ∈ q.cells, i < 2000 := by
  have hinv := reachable_inv h
  refine ⟨?_, hinv.cells_lt⟩
  rintro s rfl
  exact hinv

/-- A screen that has been cleared, after a tab and a back space. -/
def clearedTabBsp : Console :=
  printChar ctBsp (printChar ctTab (clearScreen ⟨fun _ => 0, 0, 0, 0⟩))

/-- Its cursor is on the screen. -/
theorem console_inBounds_bsp : clearedTabBsp.cursorX.toNat < 80 ∧ clearedTabBsp.cursorY.toNat < 25 :=
  (console_inBounds (.idle clearedTabBsp)
    (reachable_printChar _ (reachable_printChar _ (reachable_clearScreen _)))).1 clearedTabBsp rfl

end FanOS.Display

import FanOS.Display.Equiv.Characters

/-!
# Echoing a key while a character is printed

The handler of the keyboard prints a character `d` at some point of `print_char(c)`, which then goes
on.  `EchoSafe` says that the screen is then as if both had been printed one after the other.
-/

namespace FanOS.Display

variable {s t : Console} {c d : BitVec 8} {x y : ℕ}

/-! ### Interrupts -/

/-- The same cells on the screen, and the same cursor. -/
def SameScreen (s t : Console) : Prop :=
  (∀ i < 2000, s.framebuffer i = t.framebuffer i) ∧ s.cursorX = t.cursorX ∧ s.cursorY = t.cursorY

/-- The handler prints `d` when `print_char(c)` has come to a point, and `print_char` goes on. -/
def interrupted (c d : BitVec 8) (q : Point × Console) : Console := resume c q.1 (printChar d q.2)

/-- `t` is the screen after both characters in one order or the other, and nothing has been written
behind it. -/
def Serial (c d : BitVec 8) (s t : Console) : Prop :=
  (SameScreen t (printChar d (printChar c s)) ∨ SameScreen t (printChar c (printChar d s))) ∧
    t.extent ≤ 2000

/-- Wherever the interrupt comes, the characters are printed one after the other. -/
def EchoSafe (c d : BitVec 8) (s : Console) : Prop :=
  ∀ n, Serial c d s (interrupted c d ((step c)^[n] (.entry, s)))

theorem SameScreen.refl (s : Console) : SameScreen s s := ⟨fun _ _ => rfl, rfl, rfl⟩

theorem SameScreen.symm (h : SameScreen s t) : SameScreen t s :=
  ⟨fun i hi => (h.1 i hi).symm, h.2.1.symm, h.2.2.symm⟩

/-- A set of points that steps do not leave.  Without an interrupt, what is left to be done there
ends as `print_char(c)` does. -/
theorem echoSafe_of_closed {l : List (Point × Console)} (hentry : (.entry, s) ∈ l)
    (hstep : ∀ q ∈ l, step c q ∈ l)
    (hserial : ∀ q ∈ l, resume c q.1 q.2 = printChar c s → Serial c d s (interrupted c d q)) :
    EchoSafe c d s := by
  intro n
  have hreached : (step c)^[n] (.entry, s) ∈ l ∧
      resume c ((step c)^[n] (.entry, s)).1 ((step c)^[n] (.entry, s)).2 = printChar c s := by
    induction n with
    | zero => exact ⟨hentry, rfl⟩
    | succ n ih =>
      rw [Function.iterate_succ_apply']
      exact ⟨hstep _ ih.1, (resume_step c _ _).trans ih.2⟩
  exact hserial _ hreached.1 hreached.2

/-! ### On the screen -/

/-- The cursor is on the screen, and nothing has been written behind it. -/
structure OnScreen (s : Console) : Prop where
  cursorX : s.cursorX.toNat < 80
  cursorY : s.cursorY.toNat < 25
  extent : s.extent ≤ 2000

theorem onScreen_goto (hs : s.extent ≤ 2000) (hx : x < 80) (hy : y < 25) : OnScreen (s.goto x y) where
  cursorX := by rwa [toNat_cursorX_goto (by omega)]
  cursorY := by rwa [toNat_cursorY_goto (by omega)]
  extent := hs

theorem onScreen_newLine (hs : s.extent ≤ 2000) (y : ℕ) : OnScreen (newLine s y) := by
  unfold newLine
  split_ifs with h
  · exact onScreen_goto hs (by omega) (by omega)
  · have := extent_scrolled_le s
    exact onScreen_goto (by omega) (by omega) (by omega)

/-- The kinds of characters. -/
theorem char_cases (c : BitVec 8) :
    Inert c ∨ Printable c ∨ c = ctBsp ∨ c = ctTab ∨ c = 0x0D ∨ c = 0x0A := by
  by_cases h : Inert c
  · exact Or.inl h
  · unfold Inert at h
    tauto

/-- Printing keeps the cursor on the screen. -/
theorem OnScreen.printChar (h : OnScreen s) (c : BitVec 8) : OnScreen (printChar c s) := by
  obtain ⟨hx, hy, hs⟩ := h
  rw [← goto_self s]
  generalize s.cursorX.toNat = x at hx
  generalize s.cursorY.toNat = y at hy
  have hstore : ∀ i < 2000, ∀ v, (s.store i v).extent ≤ 2000 := by
    intro i hi v
    rw [extent_store]
    omega
  rcases char_cases c with hc | hc | rfl | rfl | rfl | rfl
  · rw [printChar_inert hc hx hy]
    exact onScreen_goto hs hx hy
  · rcases Nat.lt_or_ge x 79 with hlt | hge
    · rw [printChar_printable hc hlt hy]
      exact onScreen_goto (hstore _ (by omega) _) (by omega) hy
    · rw [printChar_printable_of_le hc hge (by omega) hy]
      exact onScreen_newLine (hstore _ (by omega) _) y
  · rcases Nat.eq_zero_or_pos x with rfl | hpos
    · rcases Nat.eq_zero_or_pos y with rfl | hpos
      · rw [printChar_bsp_zero]
        exact onScreen_goto hs hx hy
      · rw [printChar_bsp_up hpos (by omega)]
        exact onScreen_goto (hstore _ (by omega) _) (by omega) (by omega)
    · rw [printChar_bsp hpos (by omega) hy]
      exact onScreen_goto (hstore _ (by omega) _) (by omega) hy
  · rcases Nat.lt_or_ge x 72 with hlt | hge
    · rw [printChar_tab hlt hy]
      exact onScreen_goto hs (by omega) hy
    · rw [printChar_tab_of_le hge (by omega) hy]
      exact onScreen_newLine hs y
  · rw [printChar_cr hy]
    exact onScreen_goto hs (by omega) hy
  · rw [printChar_lf (by omega)]
    exact onScreen_newLine hs y

/-- The end of `print_char` does nothing more then. -/
theorem OnScreen.finish (h : OnScreen s) : finish s = s := by
  rw [← goto_self s, finish_goto h.cursorX h.cursorY]

/-! ### When the order is kept -/

/-- The interrupt comes before anything has been done. -/
theorem serial_of_before (h : OnScreen s) {p : Point}
    (hp : resume c p (printChar d s) = printChar c (printChar d s)) :
    Serial c d s (interrupted c d (p, s)) := by
  rw [interrupted, hp]
  exact ⟨Or.inr (.refl _), ((h.printChar d).printChar c).extent⟩

/-- The interrupt comes when everything has been done. -/
theorem serial_of_after (h : OnScreen s) {p : Point}
    (hp : p = .wrapTest ∨ p = .scrollTest ∨ p = .done) :
    Serial c d s (interrupted c d (p, printChar c s)) := by
  have hscreen := (h.printChar c).printChar d
  have hrest : interrupted c d (p, printChar c s) = printChar d (printChar c s) := by
    rcases hp with rfl | rfl | rfl
    · exact hscreen.finish
    · exact scrollScreen_of_lt hscreen.cursorY
    · rfl
  rw [hrest]
  exact ⟨Or.inl (.refl _), hscreen.extent⟩

/-- The handler does nothing where the interrupt comes. -/
theorem serial_of_idle (h : OnScreen s) {q : Point × Console} (hd : printChar d q.2 = q.2)
    (hq : resume c q.1 q.2 = printChar c s)
    (hidle : printChar d s = s ∨ printChar d (printChar c s) = printChar c s) :
    Serial c d s (interrupted c d q) := by
  rw [interrupted, hd, hq]
  refine ⟨?_, (h.printChar c).extent⟩
  rcases hidle with hidle | hidle
  · rw [hidle]
    exact Or.inr (.refl _)
  · rw [hidle]
    exact Or.inl (.refl _)

/-- It is enough to look at the points before the console is as after `print_char(c)`. -/
theorem echoSafe_of_points (h : OnScreen s) {l : List (Point × Console)} (hentry : (.entry, s) ∈ l)
    (hstep : ∀ q ∈ l, step c q ∈ l ∨ step c q = (.wrapTest, printChar c s))
    (hserial : ∀ q ∈ l, resume c q.1 q.2 = printChar c s → Serial c d s (interrupted c d q)) :
    EchoSafe c d s := by
  have hscreen := h.printChar c
  refine echoSafe_of_closed (l := l ++ [(.wrapTest, printChar c s), (.scrollTest, printChar c s),
    (.done, printChar c s)]) (List.mem_append_left _ hentry) (fun q hq => ?_) (fun q hq hrest => ?_)
  · simp only [List.mem_append, List.mem_cons, List.not_mem_nil, or_false] at hq ⊢
    rcases hq with hq | rfl | rfl | rfl
    · rcases hstep q hq with hmem | heq
      · exact Or.inl hmem
      · exact Or.inr (Or.inl heq)
    · have hwrap : ¬ (printChar c s).cursorX.toNat ≥ maxRow := Nat.not_le.mpr hscreen.cursorX
      exact Or.inr (Or.inr (Or.inl (if_neg hwrap)))
    · exact Or.inr (Or.inr (Or.inr (if_pos hscreen.cursorY)))
    · exact Or.inr (Or.inr (Or.inr rfl))
  · simp only [List.mem_append, List.mem_cons, List.not_mem_nil, or_false] at hq
    rcases hq with hq | rfl | rfl | rfl
    · exact hserial q hq hrest
    · exact serial_of_after h (by simp)
    · exact serial_of_after h (by simp)
    · exact serial_of_after h (by simp)

/-- The handler does nothing at any of these points. -/
theorem echoSafe_of_idle (h : OnScreen s) {l : List (Point × Console)} (hentry : (.entry, s) ∈ l)
    (hstep : ∀ q ∈ l, step c q ∈ l ∨ step c q = (.wrapTest, printChar c s))
    (hidle : ∀ q ∈ l, printChar d q.2 = q.2) : EchoSafe c d s := by
  have hstart : printChar d s = s := hidle (.entry, s) hentry
  refine echoSafe_of_points h hentry hstep fun q hq hrest => ?_
  exact serial_of_idle h (hidle q hq) hrest (Or.inl hstart)

/-! ### The characters that are safe -/

/-- The first step of `print_char`. -/
theorem step_entry_inert (hc : Inert c) : step c (.entry, s) = (.wrapTest, s) := by
  obtain ⟨hprint, hbsp, htab, hcr, hlf⟩ := hc
  have hlt : ¬ c ≥ ctWht := hprint
  rw [step, if_neg (fun h => hbsp h.1), if_neg htab, if_neg hcr, if_neg hlf, if_neg hlt]

theorem step_entry_printable (hc : Printable c) : step c (.entry, s) = (.putLoc, s) := by
  have hge : c ≥ ctWht := hc
  rw [step, if_neg (fun h => hc.ne (by decide) h.1), if_neg (hc.ne (by decide)),
    if_neg (hc.ne (by decide)), if_neg (hc.ne (by decide)), if_pos hge]

/-- A character that is done with the first step. -/
theorem echoSafe_of_step_entry (h : OnScreen s) (hstep : step c (.entry, s) = (.wrapTest, printChar c s)) :
    EchoSafe c d s := by
  refine echoSafe_of_points (l := [(.entry, s)]) h (by simp) ?_ ?_
  · intro q hq
    rw [List.mem_singleton.mp hq]
    exact Or.inr hstep
  · rintro q hq -
    rw [List.mem_singleton.mp hq]
    exact serial_of_before h rfl

/-- An inert character. -/
theorem echoSafe_inert (hs : s.extent ≤ 2000) (hx : x < 80) (hy : y < 25) (hc : Inert c)
    (d : BitVec 8) : EchoSafe c d (s.goto x y) := by
  refine echoSafe_of_step_entry (onScreen_goto hs hx hy) ?_
  rw [step_entry_inert hc, printChar_inert hc hx hy]

/-- A back space in the first cell, which is ignored. -/
theorem echoSafe_bsp_zero (hs : s.extent ≤ 2000) (d : BitVec 8) : EchoSafe ctBsp d (s.goto 0 0) := by
  refine echoSafe_of_step_entry (onScreen_goto hs (show 0 < 80 by omega) (show 0 < 25 by omega)) ?_
  rw [printChar_bsp_zero]
  rfl

/-- A carriage return. -/
theorem echoSafe_cr (hs : s.extent ≤ 2000) (hx : x < 80) (hy : y < 25) (d : BitVec 8) :
    EchoSafe 0x0D d (s.goto x y) := by
  have h := onScreen_goto hs hx hy
  refine echoSafe_of_points (l := [(.entry, s.goto x y), (.cr, s.goto x y)]) h (by simp) ?_ ?_
  · simp only [List.mem_cons, List.not_mem_nil, or_false]
    rintro q (rfl | rfl)
    · exact Or.inl (Or.inr rfl)
    · rw [printChar_cr hy]
      exact Or.inr rfl
  · simp only [List.mem_cons, List.not_mem_nil, or_false]
    rintro q (rfl | rfl) -
    · exact serial_of_before h rfl
    · exact serial_of_before h rfl

/-- A tab that does not go to a new line. -/
theorem echoSafe_tab (hs : s.extent ≤ 2000) (hx : x < 72) (hy : y < 25) (d : BitVec 8) :
    EchoSafe ctTab d (s.goto x y) := by
  have h := onScreen_goto hs (show x < 80 by omega) hy
  refine echoSafe_of_points (l := [(.entry, s.goto x y), (.tab, s.goto x y)]) h (by simp) ?_ ?_
  · simp only [List.mem_cons, List.not_mem_nil, or_false]
    rintro q (rfl | rfl)
    · exact Or.inl (Or.inr rfl)
    · apply Or.inr
      rw [printChar_tab hx hy, ← putChar_tab (by omega)]
      rfl
  · simp only [List.mem_cons, List.not_mem_nil, or_false]
    rintro q (rfl | rfl) -
    · exact serial_of_before h rfl
    · exact serial_of_before h rfl

/-- `d` does nothing in column `x` of row `y`. -/
def Idle (d : BitVec 8) (x y : ℕ) : Prop :=
  Inert d ∨ d = 0x0D ∧ x = 0 ∨ d = ctBsp ∧ x = 0 ∧ y = 0

theorem printChar_idle (hd : Idle d x y) (hx : x < 80) (hy : y < 25) :
    printChar d (s.goto x y) = s.goto x y := by
  rcases hd with hd | ⟨rfl, rfl⟩ | ⟨rfl, rfl, rfl⟩
  · exact printChar_inert hd hx hy
  · exact printChar_cr hy
  · exact printChar_bsp_zero

/-- A new line that does not scroll. -/
theorem echoSafe_lf (hs : s.extent ≤ 2000) (hx : x < 80) (hy : y < 24)
    (hd : Inert d ∨ d = 0x0D ∨ d = 0x0A ∨ d = ctTab ∨ d = ctBsp ∧ x = 0 ∧ y = 0) :
    EchoSafe 0x0A d (s.goto x y) := by
  have h := onScreen_goto hs hx (show y < 25 by omega)
  have hlf : ∀ x y, y < 24 → printChar 0x0A (s.goto x y) = s.goto 0 (y + 1) := fun x y hy => by
    rw [printChar_lf (by omega), newLine, if_pos hy]
  refine echoSafe_of_points (l := [(.entry, s.goto x y), (.lfX, s.goto x y), (.lfY, s.goto 0 y)]) h
    (by simp) ?_ ?_
  · simp only [List.mem_cons, List.not_mem_nil, or_false]
    rintro q (rfl | rfl | rfl)
    · exact Or.inl (Or.inr (Or.inl rfl))
    · exact Or.inl (Or.inr (Or.inr rfl))
    · rw [hlf x y hy, ← goto_down]
      exact Or.inr rfl
  · simp only [List.mem_cons, List.not_mem_nil, or_false]
    rintro q (rfl | rfl | rfl) hrest
    · exact serial_of_before h rfl
    · exact serial_of_before h rfl
    · -- the cursor is in the first column of the row that is left
      have hidle : Idle d 0 y → (printChar d (s.goto x y) = s.goto x y ∨
          printChar d (printChar 0x0A (s.goto x y)) = printChar 0x0A (s.goto x y)) →
          Serial 0x0A d (s.goto x y) (interrupted 0x0A d (.lfY, s.goto 0 y)) := by
        intro hidle hserial
        exact serial_of_idle h (printChar_idle hidle (by omega) (by omega)) hrest hserial
      rcases hd with hd | rfl | rfl | rfl | ⟨rfl, rfl, rfl⟩
      · exact hidle (Or.inl hd) (Or.inl (printChar_inert hd hx (by omega)))
      · refine hidle (Or.inr (Or.inl ⟨rfl, rfl⟩)) (Or.inr ?_)
        rw [hlf x y hy, printChar_cr (by omega)]
      · have heq : interrupted 0x0A 0x0A (.lfY, s.goto 0 y) =
            printChar 0x0A (printChar 0x0A (s.goto x y)) := by
          rw [interrupted, hlf 0 y hy, resume_lfY, hlf x y hy, printChar_lf (by omega),
            finish_goto_succ (by omega)]
        rw [heq]
        exact ⟨Or.inl (.refl _), ((h.printChar _).printChar _).extent⟩
      · have heq : interrupted 0x0A ctTab (.lfY, s.goto 0 y) =
            printChar ctTab (printChar 0x0A (s.goto x y)) := by
          rw [interrupted, printChar_tab (by omega) (by omega), resume_lfY, hlf x y hy,
            printChar_tab (by omega) (by omega), finish_goto (by omega) (by omega)]
        rw [heq]
        exact ⟨Or.inl (.refl _), ((h.printChar _).printChar _).extent⟩
      · exact hidle (Or.inr (Or.inr ⟨rfl, rfl, rfl⟩)) (Or.inl printChar_bsp_zero)

/-- A printable character that is not in the last column, if the handler does nothing. -/
theorem echoSafe_printable (hs : s.extent ≤ 2000) (hx : x < 79) (hy : y < 25) (hc : Printable c)
    (hd : Idle d x y) : EchoSafe c d (s.goto x y) := by
  have h := onScreen_goto hs (show x < 80 by omega) hy
  have hidle : ∀ s : Console, printChar d (s.goto x y) = s.goto x y := fun s =>
    printChar_idle hd (by omega) hy
  -- the points before the cursor moves; the character is on the screen from the last one on
  refine echoSafe_of_idle (l := [(.entry, s.goto x y), (.putLoc, s.goto x y),
    (.putStore (80 * y + x), s.goto x y), (.putX, (s.store (80 * y + x) (glyph c)).goto x y)]) h
    (by simp) ?_ ?_
  · simp only [List.mem_cons, List.not_mem_nil, or_false]
    rintro q (rfl | rfl | rfl | rfl)
    · exact Or.inl (Or.inr (Or.inl (step_entry_printable hc)))
    · rw [step, location_goto (by omega) (by omega)]
      exact Or.inl (Or.inr (Or.inr (Or.inl rfl)))
    · exact Or.inl (Or.inr (Or.inr (Or.inr rfl)))
    · rw [printChar_printable hc hx hy, ← goto_right]
      exact Or.inr rfl
  · simp only [List.mem_cons, List.not_mem_nil, or_false]
    rintro q (rfl | rfl | rfl | rfl)
    · exact hidle s
    · exact hidle s
    · exact hidle s
    · exact hidle _

theorem step_entry_bsp (h : x ≠ 0 ∨ y ≠ 0) (hx : x < 256) (hy : y < 256) :
    step ctBsp (.entry, s.goto x y) = (.bspTestX, s.goto x y) := by
  refine if_pos ⟨rfl, h.imp (fun hx0 => ?_) fun hy0 => ?_⟩
  · exact ofNat_ne_zero (Nat.pos_of_ne_zero hx0) hx
  · exact ofNat_ne_zero (Nat.pos_of_ne_zero hy0) hy

/-- A back space to the end of the row above, if the handler does nothing wherever the cursor is. -/
theorem echoSafe_bsp_up (hs : s.extent ≤ 2000) (hy0 : 0 < y) (hy : y < 25) (hd : Inert d) :
    EchoSafe ctBsp d (s.goto 0 y) := by
  have hne : (s.goto 0 y).cursorY ≠ 0 := ofNat_ne_zero hy0 (by omega)
  have hup := printChar_bsp_up (s := s) hy0 (show y ≤ 25 by omega)
  -- at the fifth point the cursor is in the new row and still in the first column
  refine echoSafe_of_idle (l := [(.entry, s.goto 0 y), (.bspTestX, s.goto 0 y),
    (.bspTestY, s.goto 0 y), (.bspDecY, s.goto 0 y), (.bspSetX, s.goto 0 (y - 1)),
    (.bspLoc, s.goto 79 (y - 1)), (.bspStore (80 * (y - 1) + 79), s.goto 79 (y - 1))])
    (onScreen_goto hs (by omega) hy) (by simp) ?_ ?_
  · simp only [List.mem_cons, List.not_mem_nil, or_false]
    rintro q (rfl | rfl | rfl | rfl | rfl | rfl | rfl)
    · rw [step_entry_bsp (Or.inr hy0.ne') (by omega) (by omega)]
      simp
    · exact Or.inl (by simp [step, Console.goto, positionCursor])
    · rw [step, if_pos hne]
      simp
    · rw [step, goto_up hy0]
      simp
    · apply Or.inl
      iterate 5 right
      exact Or.inl rfl
    · rw [step, location_goto (by omega) (by omega)]
      simp
    · rw [hup]
      exact Or.inr rfl
  · have hidle : ∀ x' < 80, ∀ y' < 25, printChar d (s.goto x' y') = s.goto x' y' :=
      fun _ hx' _ hy' => printChar_inert hd hx' hy'
    simp only [List.mem_cons, List.not_mem_nil, or_false]
    rintro q (rfl | rfl | rfl | rfl | rfl | rfl | rfl)
    · exact hidle 0 (by omega) y hy
    · exact hidle 0 (by omega) y hy
    · exact hidle 0 (by omega) y hy
    · exact hidle 0 (by omega) y hy
    · exact hidle 0 (by omega) (y - 1) (by omega)
    · exact hidle 79 (by omega) (y - 1) (by omega)
    · exact hidle 79 (by omega) (y - 1) (by omega)

/-- A back space in the row, if the handler does nothing wherever the cursor is. -/
theorem echoSafe_bsp_left (hs : s.extent ≤ 2000) (hx0 : 0 < x) (hx : x < 80) (hy : y < 25)
    (hd : Inert d) : EchoSafe ctBsp d (s.goto x y) := by
  have hne : (s.goto x y).cursorX ≠ 0 := ofNat_ne_zero hx0 (by omega)
  have hleft := printChar_bsp (s := s) hx0 (show x ≤ 80 by omega) hy
  refine echoSafe_of_idle (l := [(.entry, s.goto x y), (.bspTestX, s.goto x y),
    (.bspDecX, s.goto x y), (.bspLoc, s.goto (x - 1) y),
    (.bspStore (80 * y + (x - 1)), s.goto (x - 1) y)]) (onScreen_goto hs hx hy) (by simp) ?_ ?_
  · simp only [List.mem_cons, List.not_mem_nil, or_false]
    rintro q (rfl | rfl | rfl | rfl | rfl)
    · rw [step_entry_bsp (Or.inl hx0.ne') (by omega) (by omega)]
      simp
    · rw [step, if_pos hne]
      simp
    · rw [step, goto_left hx0]
      simp
    · rw [step, location_goto (by omega) (by omega)]
      simp
    · rw [hleft]
      exact Or.inr rfl
  · have hidle : ∀ x' < 80, printChar d (s.goto x' y) = s.goto x' y :=
      fun _ hx' => printChar_inert hd hx' hy
    simp only [List.mem_cons, List.not_mem_nil, or_false]
    rintro q (rfl | rfl | rfl | rfl | rfl)
    · exact hidle x hx
    · exact hidle x hx
    · exact hidle x hx
    · exact hidle (x - 1) (by omega)
    · exact hidle (x - 1) (by omega)

/-! ### The condition -/

/-- Where the cursor and which the characters may be:

* a back space needs a handler that does nothing, except in the first cell, where it does nothing
  itself;
* a tab must not go to a new line;
* a new line must not scroll, and the handler must not write to the row that is left;
* a printable character must not be in the last column, and the handler must do nothing there;
* carriage returns and the other characters are safe. -/
def EchoCond (x y : ℕ) (c d : BitVec 8) : Prop :=
  if c = ctBsp then x = 0 ∧ y = 0 ∨ Inert d
  else if c = ctTab then x < 72
  else if c = 0x0A then
    y < 24 ∧ (Inert d ∨ d = 0x0D ∨ d = 0x0A ∨ d = ctTab ∨ d = ctBsp ∧ x = 0 ∧ y = 0)
  else if Printable c then x < 79 ∧ Idle d x y
  else True

/-- The condition is enough. -/
theorem echoSafe_of_echoCond (hs : s.extent ≤ 2000) (hx : x < 80) (hy : y < 25)
    (h : EchoCond x y c d) : EchoSafe c d (s.goto x y) := by
  rcases char_cases c with hc | hc | rfl | rfl | rfl | rfl
  · exact echoSafe_inert hs hx hy hc d
  · rw [EchoCond, if_neg (hc.ne (by decide)), if_neg (hc.ne (by decide)), if_neg (hc.ne (by decide)),
      if_pos hc] at h
    exact echoSafe_printable hs h.1 hy hc h.2
  · rw [EchoCond, if_pos rfl] at h
    rcases Nat.eq_zero_or_pos x with rfl | hx0
    · rcases Nat.eq_zero_or_pos y with rfl | hy0
      · exact echoSafe_bsp_zero hs d
      · exact echoSafe_bsp_up hs hy0 hy (h.resolve_left fun h0 => hy0.ne' h0.2)
    · exact echoSafe_bsp_left hs hx0 hx hy (h.resolve_left fun h0 => hx0.ne' h0.1)
  · rw [EchoCond, if_neg (by decide), if_pos rfl] at h
    exact echoSafe_tab hs h hy d
  · exact echoSafe_cr hs hx hy d
  · rw [EchoCond, if_neg (by decide), if_neg (by decide), if_pos rfl] at h
    exact echoSafe_lf hs hx h.1 h.2

end FanOS.Display

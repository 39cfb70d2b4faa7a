import FanOS.Keyboard.Basic
import FanOS.Transition.Basic

/-!
# Keys that are pressed and keys that are returned

`keySystem` interleaves interrupts of the keyboard with the steps of a program that calls `get_key`
again and again.  Beside it run the keys that have been pressed and those that `get_key` has returned.

A key that is pressed between the poll that reads a key and the `keyboard_discard_last_key` behind it
is thrown away with the key that was read.  If no press comes there (`PollCond`), every key is
returned once and in order, and only the last one may be pending (`keys_delivered`).
-/

namespace FanOS.Keyboard

variable {outside : ℤ → Keycode}

/-! ### The system -/

/-- Interrupts, where the ports give `status` and `code`, and steps of the program. -/
inductive Event where
  | irq (status code : BitVec 8)
  | getKey

structure Session where
  input : Input
  place : Place
  /-- The keys that have been pressed. -/
  pressed : List Keycode
  /-- The keys that `get_key` has returned. -/
  returned : List Keycode
  /-- The last key that was pressed has not been read by `keyboard_get_last_key`. -/
  unread : Bool

/-- Whether the last key is still to be read after a step of `get_key`: a poll reads what is in the
slot, and `keyboard_discard_last_key` reads nothing. -/
def Session.stillUnread (outside : ℤ → Keycode) (s : Session) : Bool :=
  match s.place with
  | .poll => s.unread && keyboardGetLastKey outside s.input == keyUnknown
  | .discard _ => s.unread

/-- What an event does. -/
def Session.next (outside : ℤ → Keycode) (s : Session) : Event → Session
  | .irq status code =>
    { s with
      input := keyboardIrq1Handler outside status code s.input
      pressed := if Press status code then s.pressed ++ [keyAt outside code.toNat] else s.pressed
      unread := if Press status code then true else s.unread }
  | .getKey =>
    { s with
      input := (getKeyStep outside s.input s.place).2.1
      place := (getKeyStep outside s.input s.place).1
      returned := s.returned ++ (getKeyStep outside s.input s.place).2.2.toList
      unread := s.stillUnread outside }

/-- A press is one of a key, and comes when the one before it has been read. -/
def Allowed (outside : ℤ → Keycode) (s : Session) : Event → Prop
  | .irq status code =>
    Press status code → keyAt outside code.toNat ≠ keyUnknown ∧ s.unread = false
  | .getKey => True

/-- Runs from the start, where the slot is empty. -/
def keySystem (outside : ℤ → Keycode) : System Session Event where
  init s := s.input.scancode = invalidScancode ∧ s.place = .poll ∧ s.pressed = [] ∧
    s.returned = [] ∧ s.unread = false
  step s e s' := Allowed outside s e ∧ s' = s.next outside e

/-- A key that is in the slot, or that has been read and not yet been returned. -/
def Pending (outside : ℤ → Keycode) (s : Session) (key : Keycode) : Prop :=
  keyboardGetLastKey outside s.input = key ∨ s.place = .discard key

/-- All keys have been returned, but perhaps the last, which is pending. -/
def Delivered (outside : ℤ → Keycode) (s : Session) : Prop :=
  s.returned = s.pressed ∨ ∃ key, Pending outside s key ∧ s.pressed = s.returned ++ [key]

/-- No press comes between the poll that reads a key and `keyboard_discard_last_key`. -/
def PollCond (s : Session) : Event → Prop
  | .irq status code => Press status code → s.place = .poll
  | .getKey => True

/-! ### What is in the slot -/

/-- The slot is empty, or has the key that is pending, which has then been read or not. -/
inductive SlotInv (outside : ℤ → Keycode) (s : Session) : Prop
  | empty (hplace : s.place = .poll) (hunread : s.unread = false)
      (hslot : keyboardGetLastKey outside s.input = keyUnknown) (hkeys : s.pressed = s.returned)
  | filled (hplace : s.place = .poll) (hunread : s.unread = true)
      (hslot : keyboardGetLastKey outside s.input ≠ keyUnknown)
      (hkeys : s.pressed = s.returned ++ [keyboardGetLastKey outside s.input])
  | read (key : Keycode) (hplace : s.place = .discard key) (hunread : s.unread = false)
      (hkeys : s.pressed = s.returned ++ [key])

variable {s s' : Session} {status code : BitVec 8}

theorem SlotInv.delivered (h : SlotInv outside s) : Delivered outside s := by
  cases h with
  | empty _ _ _ hkeys => exact Or.inl hkeys.symm
  | filled _ _ _ hkeys => exact Or.inr ⟨_, Or.inl rfl, hkeys⟩
  | read key hplace _ hkeys => exact Or.inr ⟨key, Or.inr hplace, hkeys⟩

/-- Interrupts that are no presses change nothing. -/
theorem next_irq_of_not_press (h : ¬ Press status code) : s.next outside (.irq status code) = s := by
  rw [Session.next, keyboardIrq1Handler_of_not_press h, if_neg h, if_neg h]

/-- A press fills the slot. -/
theorem SlotInv.press (h : SlotInv outside s) (hpress : Press status code)
    (hallowed : Allowed outside s (.irq status code)) (hplace : s.place = .poll) :
    SlotInv outside (s.next outside (.irq status code)) := by
  obtain ⟨hkey, hread⟩ := hallowed hpress
  have hslot : keyboardGetLastKey outside (keyboardIrq1Handler outside status code s.input) =
      keyAt outside code.toNat := keyboardGetLastKey_handler hpress
  cases h with
  | empty _ _ _ hkeys =>
    refine .filled hplace (if_pos hpress) ?_ ?_
    · exact hslot.trans_ne hkey
    · show (if Press status code then s.pressed ++ [keyAt outside code.toNat] else s.pressed) =
        s.returned ++ [keyboardGetLastKey outside (keyboardIrq1Handler outside status code s.input)]
      rw [if_pos hpress, hslot, hkeys]
  | filled _ hunread _ _ => exact absurd (hread.symm.trans hunread) Bool.false_ne_true
  | read key hdiscard _ _ => simp [hplace] at hdiscard

/-- A poll reads the slot, and a key that has been read is returned. -/
theorem SlotInv.getKey (h : SlotInv outside s) : SlotInv outside (s.next outside .getKey) := by
  -- a poll turns `filled` into `read` and `read` into `empty`, and an empty slot stays as it is
  cases h with
  | empty hplace hunread hslot hkeys =>
    have hnext : s.next outside .getKey = s := by
      rw [Session.next, Session.stillUnread, hplace, hunread, getKeyStep, hslot]
      simp [← hplace, ← hunread]
    rw [hnext]
    exact .empty hplace hunread hslot hkeys
  | filled hplace _ hslot hkeys =>
    refine .read (keyboardGetLastKey outside s.input) ?_ ?_ ?_
    · rw [Session.next, hplace, getKeyStep]
      exact if_neg hslot
    · rw [Session.next, Session.stillUnread, hplace]
      simp [hslot]
    · rw [Session.next, hplace, getKeyStep]
      simpa using hkeys
  | read key hplace hunread hkeys =>
    refine .empty ?_ ?_ ?_ ?_
    · rw [Session.next, hplace, getKeyStep]
    · rw [Session.next, Session.stillUnread, hplace]
      exact hunread
    · rw [Session.next, hplace, getKeyStep]
      exact keyboardGetLastKey_of_invalid rfl
    · rw [Session.next, hplace, getKeyStep]
      exact hkeys

/-- A step under the condition. -/
theorem SlotInv.step {e : Event} (h : SlotInv outside s)
    (hstep : ((keySystem outside).restrict PollCond).step s e s') : SlotInv outside s' := by
  obtain ⟨hcond, hallowed, rfl⟩ := hstep
  cases e with
  | irq status code =>
    by_cases hpress : Press status code
    · exact h.press hpress hallowed (hcond hpress)
    · rw [next_irq_of_not_press hpress]
      exact h
  | getKey => exact h.getKey

theorem slotInv_of_reachable (h : ((keySystem outside).restrict PollCond).Reachable s) :
    SlotInv outside s := by
  refine h.invariant (I := SlotInv outside) (fun s hinit => ?_) (fun s e s' hinv => hinv.step)
  obtain ⟨hslot, hplace, hpressed, hreturned, hunread⟩ := hinit
  exact .empty hplace hunread (keyboardGetLastKey_of_invalid hslot) (hpressed.trans hreturned.symm)

/-- A press at the wrong time leaves two keys that have not been returned. -/
theorem SlotInv.not_delivered {e : Event} (h : SlotInv outside s)
    (hstep : (keySystem outside).step s e s') (hcond : ¬ PollCond s e) : ¬ Delivered outside s' := by
  obtain ⟨-, rfl⟩ := hstep
  cases e with
  | getKey => exact absurd trivial hcond
  | irq status code =>
    obtain ⟨hpress, hplace⟩ := Classical.not_imp.mp hcond
    cases h with
    | empty hpoll _ _ _ => exact absurd hpoll hplace
    | filled hpoll _ _ _ => exact absurd hpoll hplace
    | read key _ _ hkeys =>
      have hpressed : (s.next outside (.irq status code)).pressed =
          s.returned ++ [key] ++ [keyAt outside code.toNat] := by
        rw [← hkeys]
        exact if_pos hpress
      rintro (heq | ⟨key', -, heq⟩)
      · have hlen := congrArg List.length (heq.trans hpressed)
        simp [Session.next] at hlen
      · have hlen := congrArg List.length (hpressed.symm.trans heq)
        simp [Session.next] at hlen

/-- **Every key is returned**, once and in order, when presses do not come between a key that is read
and `keyboard_discard_last_key`, and a press that does leaves keys behind. -/
theorem keys_delivered (h : ((keySystem outside).restrict PollCond).Reachable s) :
    Delivered outside s ∧
      ∀ e s', (keySystem outside).step s e s' → ¬ PollCond s e → ¬ Delivered outside s' :=
  ⟨(slotInv_of_reachable h).delivered, fun _ _ hstep hcond =>
    (slotInv_of_reachable h).not_delivered hstep hcond⟩

/-- The start, with a blank console. -/
def start : Session := ⟨⟨invalidScancode, ⟨fun _ => 0, 0, 0, 0⟩⟩, .poll, [], [], false⟩

/-- The events of a run, one after the other. -/
def Session.run (outside : ℤ → Keycode) (s : Session) (es : List Event) : Session :=
  es.foldl (Session.next outside) s

theorem reachable_next {P : Session → Event → Prop} (h : ((keySystem outside).restrict P).Reachable s)
    (e : Event) (hP : P s e) (hallowed : Allowed outside s e) :
    ((keySystem outside).restrict P).Reachable (s.next outside e) := h.step ⟨hP, hallowed, rfl⟩

/-- Keys `a` and `b` are pressed and returned. -/
theorem keys_delivered_two_keys :
    let s := start.run (fun _ => 0) [.irq 1 0x1e, .getKey, .getKey, .irq 1 0x30, .getKey, .getKey]
    s.returned = [key 'a', key 'b'] ∧ Delivered (fun _ => 0) s := by
  have h0 : ((keySystem fun _ => 0).restrict PollCond).Reachable start := .init ⟨rfl, rfl, rfl, rfl, rfl⟩
  have h1 := reachable_next h0 (.irq 1 0x1e) (fun _ => rfl) fun _ => ⟨by decide, rfl⟩
  have h2 := reachable_next h1 .getKey trivial trivial
  have h3 := reachable_next h2 .getKey trivial trivial
  have h4 := reachable_next h3 (.irq 1 0x30) (fun _ => rfl) fun _ => ⟨by decide, rfl⟩
  have h5 := reachable_next h4 .getKey trivial trivial
  have h6 := reachable_next h5 .getKey trivial trivial
  exact ⟨by decide, (keys_delivered h6).1⟩

/-- Key `b` is pressed between the poll that reads `a` and the discard, and is lost: when `a` has been
returned, `b` is not in the slot. -/
theorem not_delivered_second_key : ¬ ∀ (outside : ℤ → Keycode) (s : Session),
    (keySystem outside).Reachable s → Delivered outside s := by
  intro h
  have h0 : ((keySystem fun _ => 0).restrict fun _ _ => True).Reachable start :=
    .init ⟨rfl, rfl, rfl, rfl, rfl⟩
  have h1 := reachable_next h0 (.irq 1 0x1e) trivial fun _ => ⟨by decide, rfl⟩
  have h2 := reachable_next h1 .getKey trivial trivial
  have h3 := reachable_next h2 (.irq 1 0x30) trivial fun _ => ⟨by decide, rfl⟩
  have h4 := reachable_next h3 .getKey trivial trivial
  have hpressed : (start.run (fun _ => 0) [.irq 1 0x1e, .getKey, .irq 1 0x30, .getKey]).pressed =
      [key 'a', key 'b'] := by decide
  have hreturned : (start.run (fun _ => 0) [.irq 1 0x1e, .getKey, .irq 1 0x30, .getKey]).returned =
      [key 'a'] := by decide
  rcases h _ _ h4.of_restrict with heq | ⟨k, hpending, heq⟩
  · exact absurd (hreturned.symm.trans (Eq.trans heq hpressed)) (by decide)
  · have hsplit : [key 'a', key 'b'] = [key 'a'] ++ [k] :=
      hpressed.symm.trans (Eq.trans heq (congrArg (· ++ [k]) hreturned))
    have hlast : key 'b' = k := Option.some.inj (congrArg (fun l => l[1]?) hsplit)
    rcases hpending with hslot | hplace
    · have hempty : keyUnknown = k := hslot
      exact absurd (hlast.trans hempty.symm) (by decide)
    · exact Place.noConfusion hplace

end FanOS.Keyboard

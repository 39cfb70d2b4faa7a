import FanOS.Display.Basic

/-!
# The keyboard (`keyboard.c`) and `get_key` (`userspace.c`)

The handler of the keyboard keeps the last make code in a slot and echoes its key.  `get_key` polls
the slot until there is a key in it and then empties it.

Codes are indices of the table `keys`.  The table has 83 entries, codes go up to 127: what is read
behind it, or before it, is a parameter `outside`.
-/

namespace FanOS.Keyboard

open Display (Console printChar)

/-- `KEYCODE`, an `int32_t` in the table.  Characters are their own codes. -/
abbrev Keycode := BitVec 32

/-- The code of a character. -/
def key (c : Char) : Keycode := .ofNat 32 c.toNat

def keyReturn : Keycode := 0x0D
def keyEscape : Keycode := 0x1001
def keyBackspace : Keycode := 0x08
def keyF (n : ℕ) : Keycode := .ofNat 32 (0x1200 + n)
def keyF11 : Keycode := 0x120b
/-- The same as `KEY_F11`. -/
def keyF12 : Keycode := 0x120b
def keyBackslash : Keycode := 0x5C
def keyQuote : Keycode := 0x27
def keyGrave : Keycode := 0x60
def keyKpNumlock : Keycode := 0x300f
def keyTab : Keycode := 0x4000
def keyCapslock : Keycode := 0x4001
def keyLshift : Keycode := 0x4002
def keyLctrl : Keycode := 0x4003
def keyRshift : Keycode := 0x4006
def keyRalt : Keycode := 0x4008
def keyHome : Keycode := 0x400c
def keyPageup : Keycode := 0x400e
def keyScrolllock : Keycode := 0x4010
def keyUnknown : Keycode := 0x4012

/-- `keys`. -/
def keys : List Keycode :=
  [keyUnknown, keyEscape, key '1', key '2', key '3', key '4', key '5', key '6', key '7', key '8',
    key '9', key '0', key '-', key '=', keyBackspace, keyTab,
    key 'q', key 'w', key 'e', key 'r', key 't', key 'y', key 'u', key 'i', key 'o', key 'p', key '[',
    key ']', keyReturn, keyLctrl,
    key 'a', key 's', key 'd', key 'f', key 'g', key 'h', key 'j', key 'k', key 'l', key ';', keyQuote,
    keyGrave, keyLshift, keyBackslash,
    key 'z', key 'x', key 'c', key 'v', key 'b', key 'n', key 'm', key ',', key '.', key '/', keyRshift,
    key '*', keyRalt, key ' ', keyCapslock,
    keyF 1, keyF 2, keyF 3, keyF 4, keyF 5, keyF 6, keyF 7, keyF 8, keyF 9, keyF 10,
    keyKpNumlock, keyScrolllock, keyHome, key '8', keyPageup,
    -- the table has no entries for the codes from 0x4a to 0x4f
    key '2', key '3', key '0', key '.', keyUnknown, keyUnknown, keyUnknown, keyF11, keyF12]

/-- The slot, beside the console that keys are echoed to. -/
structure Input where
  scancode : BitVec 8
  console : Console

/-- `INVALID_SCANCODE`. -/
def invalidScancode : BitVec 8 := 0

/-- `keyboard_key_to_ascii`. -/
def keyboardKeyToAscii (code : Keycode) : BitVec 8 := code.setWidth 8

/-- There is a make code to be read: the status says so and the code is not negative. -/
def Press (status code : BitVec 8) : Prop := status &&& 0x01 ≠ 0 ∧ 0 ≤ code.toInt

instance (status code : BitVec 8) : Decidable (Press status code) :=
  inferInstanceAs (Decidable (_ ∧ _))

section

variable (outside : ℤ → Keycode)

/-- `keys[i]`. -/
def keyAt (i : ℤ) : Keycode := if 0 ≤ i then keys.getD i.toNat (outside i) else outside i

/-- `keyboard_irq1_handler`, where the ports give `status` and `code`. -/
def keyboardIrq1Handler (status code : BitVec 8) (s : Input) : Input :=
  if Press status code then
    { scancode := code
      console := printChar (keyboardKeyToAscii (keyAt outside code.toNat)) s.console }
  else s

/-- `keyboard_get_last_key`. -/
def keyboardGetLastKey (s : Input) : Keycode :=
  if s.scancode ≠ invalidScancode then keyAt outside s.scancode.toInt else keyUnknown

end

/-- `keyboard_discard_last_key`. -/
def keyboardDiscardLastKey (s : Input) : Input := { s with scancode := invalidScancode }

/-! ### `get_key` -/

/-- Where a program is that calls `get_key` again and again: at a poll, or at
`keyboard_discard_last_key` with a key that it has read. -/
inductive Place where
  | poll
  | discard (key : Keycode)

/-- The next step of `get_key`: the place behind it, the input, and the key if one is returned. -/
def getKeyStep (outside : ℤ → Keycode) (s : Input) : Place → Place × Input × Option Keycode
  | .poll =>
    let key := keyboardGetLastKey outside s
    (if key = keyUnknown then .poll else .discard key, s, none)
  | .discard key => (.poll, keyboardDiscardLastKey s, some key)

/-! ### Codes -/

variable {outside : ℤ → Keycode} {status code : BitVec 8} {s : Input}

/-- Index 0 has no key. -/
theorem keyAt_zero : keyAt outside 0 = keyUnknown := rfl

theorem keyboardGetLastKey_of_invalid (h : s.scancode = invalidScancode) :
    keyboardGetLastKey outside s = keyUnknown := if_neg fun hne => hne h

/-- A code in the slot is read as the key that was echoed. -/
theorem keyboardGetLastKey_handler (h : Press status code) :
    keyboardGetLastKey outside (keyboardIrq1Handler outside status code s) =
      keyAt outside code.toNat := by
  have hnat : code.toInt = code.toNat := by
    have := h.2
    rw [BitVec.toInt_eq_toNat_cond] at this ⊢
    split_ifs at this ⊢ with hlt
    · rfl
    · have := code.isLt
      omega
  unfold keyboardIrq1Handler keyboardGetLastKey
  rw [if_pos h]
  dsimp only
  split_ifs with hzero
  · rw [hnat]
  · rw [not_not.mp hzero]
    exact keyAt_zero.symm

theorem keyboardIrq1Handler_of_not_press (h : ¬ Press status code) :
    keyboardIrq1Handler outside status code s = s := if_neg h

end FanOS.Keyboard

import FanOS.Keyboard.Basic
import FanOS.Line.Basic

/-!
# The command line (`userspace.c`)

`input_cmd` reads keys into a buffer of `len` bytes until the return key is pressed or `len` characters
have been read, and then writes a terminating zero.  A key is a character if the low byte of its code is
not zero.

The bytes around `buf` are numbered from `buf` on, so the ones before it have negative numbers.  The
numbers of the bytes that are written are noted.  `sleep`, which is called behind every key, is left out.
-/

namespace FanOS.Shell

open Keyboard

/-- The variables of `input_cmd`. -/
structure LineState where
  buf : ℤ → BitVec 8
  i : BitVec 32
  /-- The bytes of `buf` that have been written. -/
  written : List ℤ

/-- `buf[i] = b`. -/
def LineState.store (b : BitVec 8) (s : LineState) : LineState :=
  { s with
    buf := Function.update s.buf s.i.toInt b
    written := s.written ++ [s.i.toInt] }

/-- A call of `input_cmd` waits for the next key, or has returned. -/
inductive Call
  | waiting (s : LineState)
  | returned (s : LineState)

def Call.state : Call → LineState
  | waiting s => s
  | returned s => s

/-- The body of the loop for a key that `get_key` has returned; `.inr` is `break`. -/
def inputKey (key : Keycode) (s : LineState) : LineState ⊕ LineState :=
  if key = keyReturn then .inr s
  else if key = keyBackspace then .inl { s.store 0 with i := s.i - 1 }
  else
    let c := keyboardKeyToAscii key
    if c ≠ 0 then .inl { s.store c with i := s.i + 1 } else .inl s

section

variable (len : BitVec 32)

/-- The loop of `input_cmd`, where `get_key` returns these keys. -/
def inputLoop : List Keycode → LineState → Call
  | [], s => if s.i.slt len then .waiting s else .returned s
  | key :: keys, s =>
    if s.i.slt len then
      match inputKey key s with
      | .inl s => inputLoop keys s
      | .inr s => .returned s
    else .returned s

/-- `buf[i] = '\0'`, behind the loop. -/
def Call.terminate : Call → Call
  | waiting s => waiting s
  | returned s => returned (s.store 0)

/-- `input_cmd`, from a state of its loop on. -/
def inputFrom (keys : List Keycode) (s : LineState) : Call := (inputLoop len keys s).terminate

/-- `input_cmd`. -/
def inputCmd (keys : List Keycode) (buf : ℤ → BitVec 8) : Call := inputFrom len keys ⟨buf, 0, []⟩

end

/-! ### What it should do -/

/-- What a key means. -/
def stroke (key : Keycode) : Line.Stroke (BitVec 8) :=
  if key = keyReturn then .enter
  else if key = keyBackspace then .erase
  else if 0 < key.toNat ∧ key.toNat < 128 then .char (key.setWidth 8)
  else .other

/-- The text is at `buf`, with a terminator. -/
structure HoldsText (buf : ℤ → BitVec 8) (text : List (BitVec 8)) : Prop where
  ne_zero : ∀ b ∈ text, b ≠ 0
  bytes : ∀ j ≤ text.length, buf j = text.getD j 0

/-- `input_cmd` edits a line: it writes to the buffer only, and when it returns the buffer has the line that
is entered, of up to `len - 1` characters. -/
structure Enters (len : BitVec 32) (keys : List Keycode) (buf : ℤ → BitVec 8) : Prop where
  inBuffer : ∀ x ∈ (inputCmd len keys buf).state.written, 0 ≤ x ∧ x < len.toInt
  text : ∀ s', inputCmd len keys buf = .returned s' →
    ∃ text, Line.edit (len.toNat - 1) (keys.map stroke) [] = some text ∧ HoldsText s'.buf text

/-- There is room for the keys, when the line has `n` characters: backspace is pressed only if it is neither
empty nor full, characters only if it is not full, and keys that have no character only if their codes are
cut to zero. -/
def Room (len : BitVec 32) : List Keycode → ℕ → Prop
  | [], _ => True
  | key :: keys, n =>
    match stroke key with
    | .enter => True
    | .erase => 0 < n ∧ n + 1 < len.toNat ∧ Room len keys (n - 1)
    | .char _ => n + 1 < len.toNat ∧ Room len keys (n + 1)
    | .other => keyboardKeyToAscii key = 0 ∧ Room len keys n

end FanOS.Shell

import FanOS.Strings.Basic

/-!
# Numbers on the console (`display.c`)

`print_hex` and `print_dec` write the digits of a number to an array of 80 bytes, the last digit first,
reverse the array in place and pass it to `print_string`.

An array is a map from indices to bytes which goes on behind its end as the stack does; the indices that
are read or written are noted.  The characters that `print_string` passes to `print_char` are the result.
-/

namespace FanOS.Display

open Strings (Bytes)

/-- A local array, and the index `i` of its next byte. -/
structure CharArray where
  bytes : Bytes
  i : BitVec 8
  /-- The indices that have been read or written. -/
  accessed : List ℕ

namespace CharArray

/-- `string[j] = b`. -/
def store (j : BitVec 8) (b : BitVec 8) (a : CharArray) : CharArray :=
  { a with bytes := Function.update a.bytes j.toNat b, accessed := a.accessed ++ [j.toNat] }

/-- `string[i++] = b`. -/
def push (a : CharArray) (b : BitVec 8) : CharArray := { a.store a.i b with i := a.i + 1 }

end CharArray

/-- What is printed, and the indices of the array that have been read or written. -/
structure Output where
  chars : List (BitVec 8)
  accessed : List ℕ

/-! ### `reverse_string` -/

/-- The loop of `reverse_string`, with at most so many rounds to go.  The bytes that a round reads are those
that it writes. -/
def reverseLoop : ℕ → BitVec 8 → BitVec 8 → CharArray → Option CharArray
  | 0, _, _, _ => none
  | k + 1, j, i, a =>
    if j < i then
      let tmp := a.bytes j.toNat
      let a := a.store j (a.bytes i.toNat)
      reverseLoop k (j + 1) (i - 1) (a.store i tmp)
    else some a

/-- `reverse_string`. -/
def reverseString (lastIdx : BitVec 8) (a : CharArray) : Option CharArray :=
  reverseLoop (2 ^ 8) 0 lastIdx a

/-! ### `print_string` -/

/-- The loop of `print_string` over an array, at byte `j` and with at most so many rounds to go. -/
def printStringLoop (bytes : Bytes) : ℕ → ℕ → Output → Option Output
  | 0, _, _ => none
  | k + 1, j, o =>
    if bytes j ≠ 0 then printStringLoop bytes k (j + 1) ⟨o.chars ++ [bytes j], o.accessed ++ [j]⟩
    else some ⟨o.chars, o.accessed ++ [j]⟩

/-- The end of `print_hex` and of `print_dec`: the array is terminated, reversed up to its last character and
printed. -/
def printReversed (a : CharArray) : Option Output := do
  let a := a.store a.i 0
  let a := { a with i := a.i - 1 }
  let a ← reverseString a.i a
  printStringLoop a.bytes (2 ^ 32) 0 ⟨[], a.accessed⟩

/-! ### `print_hex` -/

/-- `ascii_numbers`: `"0123456789ABCDEF"`. -/
def asciiNumbers : List (BitVec 8) :=
  [0x30, 0x31, 0x32, 0x33, 0x34, 0x35, 0x36, 0x37, 0x38, 0x39, 0x41, 0x42, 0x43, 0x44, 0x45, 0x46]

/-- The loop of `print_hex`, with at most so many rounds to go. -/
def printHexLoop : ℕ → BitVec 32 → CharArray → Option CharArray
  | 0, hex, a => if 0 < hex then none else some a
  | k + 1, hex, a =>
    if 0 < hex then
      let nibble := hex.setWidth 8 &&& 0x0F
      let nibble := asciiNumbers.getD nibble.toNat 0
      printHexLoop k (hex >>> 4) (a.push nibble)
    else some a

/-- `print_hex`, where `hex_string` has the bytes of `stack` at first. -/
def printHex (stack : Bytes) (hex : BitVec 32) : Option Output :=
  if hex = 0 then some ⟨[0x30, 0x78, 0x30], []⟩
  else do
    let a ← printHexLoop (2 ^ 32) hex ⟨stack, 0, []⟩
    printReversed ((a.push 0x78).push 0x30)

/-! ### `print_dec` -/

/-- The loop of `print_dec`, with at most so many rounds to go. -/
def printDecLoop : ℕ → BitVec 32 → CharArray → Option CharArray
  | 0, num, a => if (0 : BitVec 32).slt num then none else some a
  | k + 1, num, a =>
    if (0 : BitVec 32).slt num then
      printDecLoop k (num.sdiv 10) (a.push ((num.srem 10).setWidth 8 + 0x30))
    else some a

/-- `print_dec`, where `dec_string` has the bytes of `stack` at first. -/
def printDec (stack : Bytes) (num : BitVec 32) : Option Output :=
  if num = 0 then some ⟨[0x30], []⟩
  else do
    let a ← printDecLoop (2 ^ 32) (if num.slt 0 then -num else num) ⟨stack, 0, []⟩
    printReversed (if num.slt 0 then a.push 0x2D else a)

end FanOS.Display

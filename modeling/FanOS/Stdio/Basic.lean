import FanOS.Strings.Basic

/-!
# Formatted output (`stdio.c`)

`printf` writes its text to a buffer that it takes from the heap, and passes the buffer to `print_string`.
`write_buffer` is a region of its own: its bytes are numbered from the pointer on, and the ones from `max`
on are behind the block.  Each access through `write_buffer` is noted with the size that the block has at
that moment, and each growth with the buffers before and after it.

A run that is in a loop that is never left is an `error`, with the state in which the loop is.
-/

namespace FanOS.Stdio

open Strings (Bytes strcpy)

/-- A string: its characters up to the terminator. -/
structure CString where
  bytes : List (BitVec 8)
  ne_zero : ∀ b ∈ bytes, b ≠ 0

/-- The arguments behind `fmt`: the words on the stack, and the string at an address. -/
structure Args where
  word : ℕ → BitVec 32
  string : BitVec 32 → CString

/-- What `printf` does not set itself. -/
structure Surroundings where
  /-- The bytes from the pointer on that call number `k` of `malloc` returns. -/
  fresh : ℕ → Bytes
  /-- The bytes before the array `digits` of `printf_int`: the last one is number 1. -/
  beforeDigits : ℕ → BitVec 8

/-- An access of `printf`. -/
inductive Access
  /-- `write_buffer[index] = …`, with `capacity` bytes allocated. -/
  | write (index capacity : BitVec 32)
  /-- `strcpy(temp_buffer, write_buffer)`, after `len` bytes have been written. -/
  | grow (len : BitVec 32) (write_buffer temp_buffer : Bytes)

/-- `state`: zero or `'%'`. -/
inductive ParserState
  | text
  | percent

/-- The variables of `printf`. -/
structure State where
  buffer : Bytes
  len : BitVec 32
  max : BitVec 32
  state : ParserState
  /-- The number of words by which `arg_ptr` has moved. -/
  argPtr : ℕ
  /-- The number of calls of `malloc`. -/
  mallocs : ℕ
  log : List Access

/-- A call that goes on with a state, or hangs in one. -/
abbrev Run := Except State State

/-- The state with which it goes on or hangs. -/
def Run.state : Run → State
  | .ok s => s
  | .error s => s

/-- `'%'`. -/
def percent : BitVec 8 := 0x25

/-- `'-'`. -/
def minus : BitVec 8 := 0x2D

/-- `digits` of `printf_int`: `"0123456789"`. -/
def decDigits : List (BitVec 8) := [0x30, 0x31, 0x32, 0x33, 0x34, 0x35, 0x36, 0x37, 0x38, 0x39]

/-- `digits` of `printf_hex`: `"0123456789ABCDEF"`. -/
def hexDigits : List (BitVec 8) :=
  [0x30, 0x31, 0x32, 0x33, 0x34, 0x35, 0x36, 0x37, 0x38, 0x39, 0x41, 0x42, 0x43, 0x44, 0x45, 0x46]

/-- `"(null)"`. -/
def null : List (BitVec 8) := [0x28, 0x6E, 0x75, 0x6C, 0x6C, 0x29]

/-- `memset(buffer, 0, max)`. -/
def cleared (buffer : Bytes) (max : BitVec 32) : Bytes := fun i => if i < max.toNat then 0 else buffer i

namespace State

/-- `write_buffer[len++] = b`. -/
def put (b : BitVec 8) (s : State) : State :=
  { s with
    buffer := Function.update s.buffer s.len.toNat b
    len := s.len + 1
    log := s.log ++ [.write s.len s.max] }

/-- `while (*s) write_buffer[len++] = *s++`. -/
def puts : List (BitVec 8) → State → State
  | [], s => s
  | b :: bs, s => puts bs (s.put b)

/-- `arg_ptr++`. -/
def next (s : State) : State := { s with argPtr := s.argPtr + 1 }

/-- `while (--i >= 0) write_buffer[len++] = buf[i]`. -/
def flush (buf : List (BitVec 8)) : ℕ → State → State
  | 0, s => s
  | i + 1, s => flush buf i (s.put (buf.getD i 0))

end State

/-! ### `printf_hex` and `printf_int` -/

/-- `do buf[i++] = digits[n % 16]; while ((n /= 16) > 0)`, with at most so many rounds to go. -/
def hexLoop : ℕ → BitVec 32 → List (BitVec 8) → Option (List (BitVec 8))
  | 0, _, _ => none
  | k + 1, n, buf =>
    let buf := buf ++ [hexDigits.getD (n % 16).toNat 0]
    let n := n / 16
    if 0 < n then hexLoop k n buf else some buf

/-- `printf_hex`. -/
def printfHex (num : BitVec 32) (s : State) : Run :=
  match hexLoop (2 ^ 32) num [] with
  | none => .error s
  | some buf => .ok ((if num < 0x10 then s.put 0x30 else s).flush buf buf.length)

section

variable (a : Args) (m : Surroundings)

/-- `digits[i]` in `printf_int`. -/
def intDigit (i : BitVec 32) : BitVec 8 :=
  if i.slt 0 then m.beforeDigits (-i).toNat else decDigits.getD i.toNat 0

/-- `do buf[i++] = digits[n % 10]; while ((n /= 10) > 0)`, with at most so many rounds to go. -/
def intLoop : ℕ → BitVec 32 → List (BitVec 8) → Option (List (BitVec 8))
  | 0, _, _ => none
  | k + 1, n, buf =>
    let buf := buf ++ [intDigit m (n.srem 10)]
    let n := n.sdiv 10
    if (0 : BitVec 32).slt n then intLoop k n buf else some buf

/-- `printf_int`. -/
def printfInt (num : BitVec 32) (s : State) : Run :=
  match intLoop m (2 ^ 32) (if num.slt 0 then -num else num) [] with
  | none => .error s
  | some buf =>
    let buf := if num.slt 0 then buf ++ [minus] else buf
    .ok (s.flush buf buf.length)

/-! ### `printf` -/

/-- `while (len > max)`, with at most so many rounds to go. -/
def growLoop : ℕ → State → Run
  | 0, s => .error s
  | k + 1, s =>
    if s.max < s.len then
      let max := s.max * 2
      match strcpy (cleared (m.fresh s.mallocs) max) s.buffer with
      | none => .error s
      | some temp =>
        growLoop k { s with
          buffer := temp
          max := max
          mallocs := s.mallocs + 1
          log := s.log ++ [.grow s.len s.buffer temp] }
    else .ok s

/-- The `switch` on the character behind a `%`. -/
def directive (c : BitVec 8) (s : State) : Run :=
  if c = 0x64 then (printfInt m (a.word s.argPtr) s).map State.next
  else if c = 0x78 then (printfHex (a.word s.argPtr) ((s.put 0x30).put 0x78)).map State.next
  else if c = 0x73 then
    let str := (a.string (a.word s.argPtr)).bytes
    .ok (s.next.puts (if str = [] then null else str))
  else if c = 0x63 then .ok (s.put ((a.word s.argPtr).setWidth 8)).next
  else if c = percent then .ok (s.put c)
  else .ok ((s.put percent).put c)

/-- The character `c` of the format. -/
def character (c : BitVec 8) (s : State) : Run :=
  match s.state with
  | .text => if c = percent then .ok { s with state := .percent } else .ok (s.put c)
  | .percent => (directive a m c s).map fun s => { s with state := .text }

/-- The body of the loop. -/
def step (c : BitVec 8) (s : State) : Run := growLoop m (2 ^ 32) s >>= character a m c

/-- The loop over the format. -/
def printfLoop : List (BitVec 8) → State → Run
  | [], s => .ok s
  | c :: fmt, s => step a m c s >>= printfLoop fmt

/-- The variables before the loop: a cleared buffer of 256 bytes. -/
def start : State := ⟨cleared (m.fresh 0) 256, 0, 256, .text, 0, 1, []⟩

/-- `write_buffer[len] = '\0'`. -/
def terminate (s : State) : State :=
  { s with
    buffer := Function.update s.buffer s.len.toNat 0
    log := s.log ++ [.write s.len s.max] }

/-- `printf`, up to the call of `print_string` with the buffer. -/
def printf (fmt : CString) : Run := (printfLoop a m fmt.bytes (start m)).map terminate

end

end FanOS.Stdio

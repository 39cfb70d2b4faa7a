import FanOS.Malloc.Basic
import FanOS.Volume.Basic

/-!
# The shell's command `read` (`userspace.c`)

`cmd_read` opens the file `KRNL    SYS`, takes a buffer from the heap and goes through the file one
`vol_read_file` at a time, until `end` is set or the user presses the key `q`.  After each call it prints
the buffer, byte by byte.

The formats that it passes to `printf` are those of `Message`.  `printf` allocates a buffer of its own, and
`Console` tells what that does to memory.  Beside the variables of `cmd_read` run the bytes that it prints
and, for each call of `vol_read_file`, the addresses that the call writes.
-/

namespace FanOS.Shell

open FloppyDisk Filesystem Volume
open Strings (Bytes)

/-- The calls of `printf` in `cmd_read`. -/
inductive Message
  /-- `"\n\n\r---------[%s]---------\n\r"`. -/
  | title
  /-- `"%x "`. -/
  | byte (b : BitVec 8)
  /-- `"\n\r---------[Press \"q\" to quit]---------"`. -/
  | prompt
  /-- `"\r"`. -/
  | carriageReturn

/-- The console and the user. -/
structure Console where
  /-- What a call of `printf` does to memory, if it returns. -/
  printf : Message → Mem → Option Mem
  /-- Whether the key pressed at the prompt of that number is `q`. -/
  quits : ℕ → Bool

/-- The variables of `cmd_read`, memory, and what has been printed and written. -/
structure ReadState where
  mem : Mem
  file : File
  /-- The bytes that have been printed. -/
  printed : List (BitVec 8)
  /-- The addresses that each call of `vol_read_file` has written. -/
  written : List (List (BitVec 32))
  /-- The number of prompts so far. -/
  prompts : ℕ

/-- `memcpy(buffer, src, count)`: memory and the addresses that are written. -/
def copyTo (buffer : BitVec 32) (src : Bytes) : ℕ → Mem → Mem × List (BitVec 32)
  | 0, m => (m, [])
  | i + 1, m =>
    let (m, addrs) := copyTo buffer src i m
    (m.store8 (buffer + BitVec.ofNat 32 i) (src i), addrs ++ [buffer + BitVec.ofNat 32 i])

section

variable (d : Drive) (fat : BitVec 32) (v : Volume) (c : Console) (buf : BitVec 32)

/-- `vol_read_file(&file, buf)`, where the file system at `fat` is that of `fat_init`. -/
def readFile (s : ReadState) : Option ReadState :=
  let (system, _) := v.load (s.file.deviceId - 0x61)
  if system = 0 then some { s with written := s.written ++ [[]] }
  else if system = fat then
    let (file, sector) := ((fatReadFile d (fatMount d) s.file).run []).1
    let (mem, addrs) := copyTo buf sector sectorSize s.mem
    some { s with mem := mem, file := file, written := s.written ++ [addrs] }
  else none

/-- `for (i = 0; i < 128; i++) printf("%x ", buf[i])`, at byte `i` and with `n` to go. -/
def showLoop : ℕ → BitVec 32 → ReadState → Option ReadState
  | 0, _, s => some s
  | n + 1, i, s =>
    match c.printf (.byte (s.mem (buf + i))) s.mem with
    | none => none
    | some mem =>
      showLoop n (i + 1) { s with mem := mem, printed := s.printed ++ [s.mem (buf + i)] }

/-- The prompt, and whether the user wants to quit there. -/
def promptUser (s : ReadState) : Option (ReadState × Bool) :=
  if s.file.atEnd ≠ 1 then
    match c.printf .prompt s.mem with
    | none => none
    | some mem =>
      let s := { s with mem := mem, prompts := s.prompts + 1 }
      if c.quits (s.prompts - 1) then some (s, true)
      else (c.printf .carriageReturn s.mem).map fun mem => ({ s with mem := mem }, false)
  else some (s, false)

/-- The body of the loop of `cmd_read`. -/
def cmdReadBody (s : ReadState) : ReadState ⊕ Option ReadState :=
  if s.file.atEnd ≠ 1 then
    match (readFile d fat v buf s).bind fun s => (showLoop c buf 128 0 s).bind (promptUser c) with
    | none => .inr none
    | some (s, true) => .inr (some s)
    | some (s, false) => .inl { s with mem := s.mem.memset buf 0 128 }
  else .inr (some s)

end

/-- `cmd_read`, with the string `KRNL    SYS` at `path` and of whose loops at most so many rounds are run:
the buffer, the heap when it has been allocated, and the state at the end. -/
def cmdRead (d : Drive) (fat : BitVec 32) (v : Volume) (u : Leftovers) (path : BitVec 32) (c : Console)
    (h : Malloc) (fresh : Mem) (rounds : ℕ) : Option (VirtualAddr × Malloc × ReadState) := do
  let file ← volOpenFileFat d fat v u path rounds
  let (buf, h) ← h.syscallMalloc fresh 128
  let mem ← c.printf .title h.mem
  let s ← Loop.run (cmdReadBody d fat v c buf) rounds ⟨mem, file, [], [], 0⟩
  let s ← s
  return (buf, h, s)

end FanOS.Shell

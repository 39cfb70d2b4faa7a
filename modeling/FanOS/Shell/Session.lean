import FanOS.Loop.Basic
import FanOS.Shell.Input
import FanOS.Strings.Comparison

/-!
# The shell (`userspace.c`)

`run` clears its buffer, prints the prompt, reads a line and runs it as a command, until the command is
`exit`.  `cmd_read` takes keys as well, one at each of its prompts; how many of these there are is decided by
the length of the file.  The shell stops as well where it waits for a key that does not come.

`Mode.step` is what the shell is for: an interpreter that goes from key to key.
-/

namespace FanOS.Shell

open Keyboard Strings

/-- `MAX_CMD_LEN`. -/
def maxCmdLen : BitVec 32 := 99

/-- What the shell does, in order. -/
inductive Action
  /-- `cmd`. -/
  | prompt
  | help
  /-- `clear_screen`. -/
  | clear
  /-- `cmd_read` opens the file. -/
  | read
  /-- The prompt of `cmd_read`. -/
  | page
  | unknown
  deriving DecidableEq

/-- The actions, and whether `run` has returned or waits for a key. -/
structure Outcome where
  actions : List Action
  returned : Bool
  deriving DecidableEq

/-! ### The functions -/

/-- The loop of `input_cmd`, and the keys that it leaves; none if it waits for one. -/
def lineLoop (len : BitVec 32) : List Keycode → LineState → Option (LineState × List Keycode)
  | [], s => if s.i.slt len then none else some (s, [])
  | key :: keys, s =>
    if s.i.slt len then
      match inputKey key s with
      | .inl s => lineLoop len keys s
      | .inr s => some (s, keys)
    else some (s, key :: keys)

/-- The prompts of `cmd_read` behind one that has been printed, of which so many follow. -/
def pages : ℕ → List Keycode → List Action × Option (List Keycode)
  | _, [] => ([], none)
  | 0, _ :: keys => ([], some keys)
  | n + 1, k :: keys =>
    if k = key 'q' then ([], some keys)
    else
      let (actions, rest) := pages n keys
      (.page :: actions, rest)

/-- `cmd_read`, for a file with so many prompts. -/
def cmdReadKeys (prompts : ℕ) (keys : List Keycode) : List Action × Option (List Keycode) :=
  match prompts with
  | 0 => ([.read], some keys)
  | n + 1 =>
    let (actions, rest) := pages n keys
    (.read :: .page :: actions, rest)

def helpText : List (BitVec 8) := [0x68, 0x65, 0x6C, 0x70]
def exitText : List (BitVec 8) := [0x65, 0x78, 0x69, 0x74]
def clearText : List (BitVec 8) := [0x63, 0x6C, 0x65, 0x61, 0x72]
def readText : List (BitVec 8) := [0x72, 0x65, 0x61, 0x64]

/-- What `run_cmd` does: its result, and the keys that are left if it returns. -/
structure Ran where
  exit : Bool
  actions : List Action
  keys : Option (List Keycode)

/-- `run_cmd`. -/
def runCmd (prompts : ℕ) (buf : Bytes) (keys : List Keycode) : Option Ran := do
  if (← strcmp buf (literal helpText)) = 0 then return ⟨false, [.help], some keys⟩
  else if (← strcmp buf (literal exitText)) = 0 then return ⟨true, [], some keys⟩
  else if (← strcmp buf (literal clearText)) = 0 then return ⟨false, [.clear], some keys⟩
  else if (← strcmp buf (literal readText)) = 0 then
    let (actions, keys) := cmdReadKeys prompts keys
    return ⟨false, actions, keys⟩
  else return ⟨false, [.unknown], some keys⟩

/-- The variables of `run`. -/
structure RunState where
  /-- `cmd_buf`. -/
  buf : ℤ → BitVec 8
  keys : List Keycode
  actions : List Action

/-- `memset(cmd_buf, 0, MAX_CMD_LEN)`. -/
def clearBuf (buf : ℤ → BitVec 8) : ℤ → BitVec 8 := fun x => if 0 ≤ x ∧ x < maxCmdLen.toInt then 0 else buf x

/-- The loop of `run` behind `input_cmd`; a comparison that never ends is waiting too. -/
def afterInput (prompts : ℕ) (actions : List Action) (input : Option (LineState × List Keycode)) :
    RunState ⊕ Outcome :=
  match input with
  | none => .inr ⟨actions, false⟩
  | some (s, keys) =>
    let buf := (s.store 0).buf
    match runCmd prompts (fun i => buf i) keys with
    | none => .inr ⟨actions, false⟩
    | some ran =>
      match ran.keys with
      | none => .inr ⟨actions ++ ran.actions, false⟩
      | some keys =>
        if ran.exit then .inr ⟨actions ++ ran.actions, true⟩
        else .inl ⟨buf, keys, actions ++ ran.actions⟩

/-- The body of the loop of `run`. -/
def runBody (prompts : ℕ) (s : RunState) : RunState ⊕ Outcome :=
  afterInput prompts (s.actions ++ [.prompt]) (lineLoop maxCmdLen s.keys ⟨clearBuf s.buf, 0, []⟩)

/-- `run`, of whose loop at most so many rounds are run. -/
def run (prompts : ℕ) (buf : ℤ → BitVec 8) (keys : List Keycode) (rounds : ℕ) : Option Outcome :=
  Loop.run (runBody prompts) rounds ⟨buf, keys, []⟩

/-! ### What it should do -/

inductive Command
  | help | exit | clear | read | unknown
  deriving DecidableEq

/-- What a line means. -/
def command (line : List (BitVec 8)) : Command :=
  if line = helpText then .help
  else if line = exitText then .exit
  else if line = clearText then .clear
  else if line = readText then .read
  else .unknown

inductive Mode
  /-- A line is edited. -/
  | editing (line : List (BitVec 8))
  /-- A prompt of `cmd_read` waits, and so many follow. -/
  | paging (n : ℕ)

/-- A command is run: where it leads, if the shell goes on, and what is done. -/
def Command.step (prompts : ℕ) : Command → Option Mode × List Action
  | .help => (some (.editing []), [.help, .prompt])
  | .exit => (none, [])
  | .clear => (some (.editing []), [.clear, .prompt])
  | .read =>
    match prompts with
    | 0 => (some (.editing []), [.read, .prompt])
    | n + 1 => (some (.paging n), [.read, .page])
  | .unknown => (some (.editing []), [.unknown, .prompt])

/-- What a key does. -/
def Mode.step (prompts : ℕ) (k : Keycode) : Mode → Option Mode × List Action
  | .editing line =>
    match stroke k with
    | .enter => (command line).step prompts
    | s => (some (.editing (s.apply line)), [])
  | .paging 0 => (some (.editing []), [.prompt])
  | .paging (n + 1) => if k = key 'q' then (some (.editing []), [.prompt]) else (some (.paging n), [.page])

/-- Actions come before. -/
def Outcome.behind (actions : List Action) (o : Outcome) : Outcome :=
  { o with actions := actions ++ o.actions }

/-- What keys do, one after the other. -/
def Mode.interpret (prompts : ℕ) : List Keycode → Mode → Outcome
  | [], _ => ⟨[], false⟩
  | k :: keys, m =>
    match m.step prompts k with
    | (none, actions) => ⟨actions, true⟩
    | (some m, actions) => (m.interpret prompts keys).behind actions

/-- There is room for a key: backspace is not pressed in an empty line, a character not in a full one, and a
key that has no character only if its code is cut to zero. -/
def Mode.fits (k : Keycode) : Mode → Bool
  | .editing line =>
    match stroke k with
    | .enter => true
    | .erase => decide (0 < line.length)
    | .char _ => decide (line.length + 1 < maxCmdLen.toNat)
    | .other => decide (keyboardKeyToAscii k = 0)
  | .paging _ => true

/-- There is room for keys, one after the other. -/
def Mode.fitsAll (prompts : ℕ) : List Keycode → Mode → Bool
  | [], _ => true
  | k :: keys, m =>
    m.fits k &&
      match (m.step prompts k).1 with
      | none => true
      | some m => m.fitsAll prompts keys

end FanOS.Shell

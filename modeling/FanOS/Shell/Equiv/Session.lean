import FanOS.Shell.Equiv.Input
import FanOS.Shell.Session

/-!
# The shell interprets its keys

A line that is entered is what `run_cmd` compares with the names of the commands (`runCmd_eq`), so it runs the
command that the line means.  The keys of a line, and those that `cmd_read` takes, are a part of the keys that
there are (`pages_spec`); what follows is by induction on these.

So as long as there is room for the keys, `run` does what the interpreter does: it runs the lines that are
entered, one after the other, and returns behind the first `exit` (`run_eq`).
-/

namespace FanOS.Shell

open Keyboard Strings

variable {prompts : ℕ} {line : List (BitVec 8)} {s : LineState} {keys : List Keycode}
  {actions : List Action}

/-! ### Commands -/

theorem HoldsText.isText {buf : ℤ → BitVec 8} (h : HoldsText buf line) : IsText (fun i => buf i) 0 line where
  ne_zero := h.ne_zero
  bytes j hj := by
    rw [Nat.zero_add]
    exact h.bytes j hj

/-- What a line that is a command does. -/
def ranOf (prompts : ℕ) (keys : List Keycode) : Command → Ran
  | .help => ⟨false, [.help], some keys⟩
  | .exit => ⟨true, [], some keys⟩
  | .clear => ⟨false, [.clear], some keys⟩
  | .read => ⟨false, (cmdReadKeys prompts keys).1, (cmdReadKeys prompts keys).2⟩
  | .unknown => ⟨false, [.unknown], some keys⟩

/-- `run_cmd` runs the command that the line means. -/
theorem runCmd_eq {buf : Bytes} (prompts : ℕ) (keys : List Keycode) (h : IsText buf 0 line)
    (hlen : line.length < 2 ^ 32) :
    runCmd prompts buf keys = some (ranOf prompts keys (command line)) := by
  have hcompare : ∀ text : List (BitVec 8), (∀ b ∈ text, b ≠ 0) →
      ∃ r, strcmp buf (literal text) = some r ∧ (r = 0 ↔ line = text) := by
    intro text htext
    obtain ⟨r, hr, hcompares⟩ := strcmpLoop_spec h (isText_literal htext) hlen
    exact ⟨r, hr, hcompares.eq_zero_iff⟩
  obtain ⟨r₁, h₁, hiff₁⟩ := hcompare helpText (by decide)
  obtain ⟨r₂, h₂, hiff₂⟩ := hcompare exitText (by decide)
  obtain ⟨r₃, h₃, hiff₃⟩ := hcompare clearText (by decide)
  obtain ⟨r₄, h₄, hiff₄⟩ := hcompare readText (by decide)
  unfold runCmd command
  rw [h₁, h₂, h₃, h₄]
  simp only [Option.bind_eq_bind, Option.bind_some, hiff₁, hiff₂, hiff₃, hiff₄]
  split_ifs <;> rfl

/-! ### Prompts -/

theorem fitsAll_cons {k : Keycode} {m : Mode} : m.fitsAll prompts (k :: keys) = true ↔
    m.fits k = true ∧ ∀ m', (m.step prompts k).1 = some m' → m'.fitsAll prompts keys = true := by
  rw [Mode.fitsAll, Bool.and_eq_true_iff]
  refine and_congr_right fun _ => ?_
  cases (m.step prompts k).1 with
  | none => exact ⟨fun _ _ h => (nomatch h), fun _ => rfl⟩
  | some m => exact ⟨fun h _ heq => Option.some.inj heq ▸ h, fun h => h m rfl⟩

/-- The prompts of `cmd_read` are interpreted, and some of the keys are left. -/
theorem pages_spec (prompts n : ℕ) (keys : List Keycode) :
    ((pages n keys).2 = none ∧ (Mode.paging n).interpret prompts keys = ⟨(pages n keys).1, false⟩) ∨
    ∃ rest, (pages n keys).2 = some rest ∧ rest.length < keys.length ∧
      (Mode.paging n).interpret prompts keys =
        ((Mode.editing []).interpret prompts rest).behind ((pages n keys).1 ++ [.prompt]) ∧
      ((Mode.paging n).fitsAll prompts keys = true → (Mode.editing []).fitsAll prompts rest = true) := by
  induction keys generalizing n with
  | nil =>
    left
    cases n <;> exact ⟨rfl, rfl⟩
  | cons k keys ih =>
    cases n with
    | zero => exact Or.inr ⟨keys, rfl, Nat.lt_succ_self _, rfl, fun h => (fitsAll_cons.mp h).2 _ rfl⟩
    | succ n =>
      by_cases hq : k = key 'q'
      · right
        have hpages : pages (n + 1) (k :: keys) = ([], some keys) := if_pos hq
        have hstep : (Mode.paging (n + 1)).step prompts k = (some (.editing []), [.prompt]) := if_pos hq
        refine ⟨keys, by rw [hpages], Nat.lt_succ_self _, ?_, fun h => ?_⟩
        · rw [Mode.interpret, hstep, hpages]
          rfl
        · exact (fitsAll_cons.mp h).2 _ (by rw [hstep])
      · have hpages : pages (n + 1) (k :: keys) = (.page :: (pages n keys).1, (pages n keys).2) := if_neg hq
        have hstep : (Mode.paging (n + 1)).step prompts k = (some (.paging n), [.page]) := if_neg hq
        have hinterpret : (Mode.paging (n + 1)).interpret prompts (k :: keys) =
            ((Mode.paging n).interpret prompts keys).behind [.page] := by rw [Mode.interpret, hstep]
        rw [hpages, hinterpret]
        obtain ⟨hnone, heq⟩ | ⟨rest, hrest, hlt, heq, hfits⟩ := ih n
        · exact Or.inl ⟨hnone, by rw [heq]; rfl⟩
        · refine Or.inr ⟨rest, hrest, Nat.lt_succ_of_lt hlt, by rw [heq]; rfl,
            fun h => hfits ((fitsAll_cons.mp h).2 _ ?_)⟩
          rw [hstep]

/-! ### Lines -/

/-- The shell goes on from a mode, if it does. -/
def goOn (prompts : ℕ) (keys : List Keycode) (next : Option Mode × List Action) : Outcome :=
  match next with
  | (none, actions) => ⟨actions, true⟩
  | (some m, actions) => (m.interpret prompts keys).behind actions

theorem interpret_cons (k : Keycode) (m : Mode) :
    m.interpret prompts (k :: keys) = goOn prompts keys (m.step prompts k) := by
  rw [Mode.interpret]
  rfl

theorem behind_nil (o : Outcome) : o.behind [] = o := rfl

theorem behind_behind (o : Outcome) (a b : List Action) : (o.behind b).behind a = o.behind (a ++ b) := by
  rw [Outcome.behind, Outcome.behind, Outcome.behind, List.append_assoc]

/-- What a line that is read leaves. -/
structure ReadLine (prompts : ℕ) (line : List (BitVec 8)) (keys : List Keycode) (s' : LineState)
    (line' : List (BitVec 8)) (rest : List Keycode) : Prop where
  editing : Editing maxCmdLen s' line'
  length_lt : rest.length < keys.length
  interpret : (Mode.editing line).interpret prompts keys = goOn prompts rest ((command line').step prompts)
  fits : ∀ m, ((command line').step prompts).1 = some m → m.fitsAll prompts rest = true

theorem ReadLine.of_tail {k : Keycode} {line₁ line' : List (BitVec 8)} {s' : LineState} {rest : List Keycode}
    (hstep : (Mode.editing line).step prompts k = (some (.editing line₁), []))
    (h : ReadLine prompts line₁ keys s' line' rest) : ReadLine prompts line (k :: keys) s' line' rest where
  editing := h.editing
  length_lt := Nat.lt_succ_of_lt h.length_lt
  interpret := by
    rw [interpret_cons, hstep, ← h.interpret]
    exact behind_nil _
  fits := h.fits

/-- A line is read, key by key, until return is pressed. -/
theorem lineLoop_spec (h : Editing maxCmdLen s line)
    (hfits : (Mode.editing line).fitsAll prompts keys = true) :
    (lineLoop maxCmdLen keys s = none ∧ (Mode.editing line).interpret prompts keys = ⟨[], false⟩) ∨
    ∃ s' line' rest, lineLoop maxCmdLen keys s = some (s', rest) ∧
      ReadLine prompts line keys s' line' rest := by
  induction keys generalizing s line with
  | nil => exact Or.inl ⟨if_pos h.slt, rfl⟩
  | cons k keys ih =>
    obtain ⟨hkey, hrest⟩ := fitsAll_cons.mp hfits
    -- a key that edits the line
    have hedit : ∀ s₁ line₁, inputKey k s = .inl s₁ → Editing maxCmdLen s₁ line₁ →
        (Mode.editing line).step prompts k = (some (.editing line₁), []) →
        (lineLoop maxCmdLen (k :: keys) s = none ∧
          (Mode.editing line).interpret prompts (k :: keys) = ⟨[], false⟩) ∨
        ∃ s' line' rest, lineLoop maxCmdLen (k :: keys) s = some (s', rest) ∧
          ReadLine prompts line (k :: keys) s' line' rest := by
      intro s₁ line₁ hinput h₁ hstep
      rw [lineLoop, if_pos h.slt, hinput]
      obtain ⟨hnone, heq⟩ | ⟨s', line', rest, hsome, hread⟩ := ih h₁ (hrest _ (by rw [hstep]))
      · refine Or.inl ⟨hnone, ?_⟩
        rw [interpret_cons, hstep, goOn, heq]
        rfl
      · exact Or.inr ⟨s', line', rest, hsome, hread.of_tail hstep⟩
    obtain ⟨rfl, hstroke⟩ | ⟨rfl, hstroke⟩ | ⟨hret, hbsp, hc, hstroke⟩ | ⟨hret, hbsp, hstroke⟩ :=
      stroke_cases k
    · -- return
      have hstep : (Mode.editing line).step prompts keyReturn = (command line).step prompts := by
        unfold Mode.step
        rw [hstroke]
      refine Or.inr ⟨s, line, keys, if_pos h.slt, h, Nat.lt_succ_self _, ?_,
        fun m hm => hrest m (hstep ▸ hm)⟩
      rw [interpret_cons, hstep]
    · -- backspace
      have hpos : 0 < line.length := by
        unfold Mode.fits at hkey
        rw [hstroke] at hkey
        exact of_decide_eq_true hkey
      refine hedit _ line.dropLast rfl (h.erase hpos) ?_
      unfold Mode.step
      rw [hstroke]
      rfl
    · -- a character
      have hroom : line.length + 1 < maxCmdLen.toNat := by
        unfold Mode.fits at hkey
        rw [hstroke] at hkey
        exact of_decide_eq_true hkey
      refine hedit _ (line ++ [keyboardKeyToAscii k]) (inputKey_of_ne_zero hret hbsp hc) (h.char hc hroom)
        ?_
      unfold Mode.step
      rw [hstroke]
      rfl
    · -- a key without a character
      have hzero : keyboardKeyToAscii k = 0 := by
        unfold Mode.fits at hkey
        rw [hstroke] at hkey
        exact of_decide_eq_true hkey
      refine hedit _ line (inputKey_of_eq_zero hret hbsp hzero) h ?_
      unfold Mode.step
      rw [hstroke]
      rfl

/-! ### The loop -/

/-- The rounds that follow, when so many keys are left at most. -/
theorem run_runBody (n : ℕ) (buf : ℤ → BitVec 8) (hlen : keys.length ≤ n)
    (hfits : (Mode.editing []).fitsAll prompts keys = true) :
    Loop.run (runBody prompts) (n + 1) ⟨buf, keys, actions⟩ =
      some (((Mode.editing []).interpret prompts keys).behind (actions ++ [.prompt])) := by
  induction n using Nat.strong_induction_on generalizing keys buf actions with
  | _ n ih =>
  have hstart : Editing maxCmdLen ⟨clearBuf buf, 0, []⟩ [] := editing_nil (by decide) _
  rw [Loop.run, runBody]
  dsimp only
  obtain ⟨hnone, heq⟩ | ⟨s', line', rest, hsome, hread⟩ := lineLoop_spec hstart hfits
  · rw [hnone, heq]
    simp only [afterInput, Outcome.behind, List.append_nil]
  · have hlt := hread.length_lt
    have hline : line'.length < 2 ^ 32 := hread.editing.length_lt.trans maxCmdLen.isLt
    have hran := runCmd_eq prompts rest hread.editing.holdsText.isText hline
    obtain ⟨n, rfl⟩ : ∃ m, n = m + 1 := ⟨n - 1, by omega⟩
    -- the shell goes on with keys that are left
    have hnext : ∀ (buf' : ℤ → BitVec 8) (acts : List Action) (keys' : List Keycode),
        keys'.length ≤ rest.length → (Mode.editing []).fitsAll prompts keys' = true →
        Loop.run (runBody prompts) (n + 1) ⟨buf', keys', actions ++ [.prompt] ++ acts⟩ =
          some ((((Mode.editing []).interpret prompts keys').behind (acts ++ [.prompt])).behind
            (actions ++ [.prompt])) := by
      intro buf' acts keys' hle hfits'
      rw [ih n (Nat.lt_succ_self n) buf' (by omega) hfits', behind_behind, ← List.append_assoc]
    rw [hsome, hread.interpret]
    unfold afterInput
    dsimp only
    rw [hran]
    have hfit := hread.fits
    cases hcommand : command line' with
    | help =>
      rw [hcommand] at hfit
      exact hnext _ [.help] rest le_rfl (hfit _ rfl)
    | exit => simp only [ranOf, goOn, Command.step, Outcome.behind, List.append_nil, if_true]
    | clear =>
      rw [hcommand] at hfit
      exact hnext _ [.clear] rest le_rfl (hfit _ rfl)
    | unknown =>
      rw [hcommand] at hfit
      exact hnext _ [.unknown] rest le_rfl (hfit _ rfl)
    | read =>
      rw [hcommand] at hfit
      cases prompts with
      | zero => exact hnext _ [.read] rest le_rfl (hfit _ rfl)
      | succ p =>
        have hgoOn : goOn (p + 1) rest (Command.read.step (p + 1)) =
            ((Mode.paging p).interpret (p + 1) rest).behind [.read, .page] := rfl
        have hreads : ranOf (p + 1) rest .read =
            ⟨false, .read :: .page :: (pages p rest).1, (pages p rest).2⟩ := rfl
        rw [hgoOn, hreads]
        obtain ⟨hnone, heq⟩ | ⟨rest', hsome', hlt', heq, hfits'⟩ := pages_spec (p + 1) p rest
        · rw [hnone, heq]
          rfl
        · set o := (Mode.editing []).interpret (p + 1) rest'
          have hall : (o.behind ((pages p rest).1 ++ [.prompt])).behind [.read, .page] =
              o.behind (.read :: .page :: (pages p rest).1 ++ [.prompt]) := behind_behind _ _ _
          rw [hsome', heq, hall]
          exact hnext _ (.read :: .page :: (pages p rest).1) rest' (Nat.le_of_lt hlt') (hfits' (hfit _ rfl))

/-- **The shell interprets its keys**: as long as there is room for them, `run` shows its prompt and does what
the interpreter does with the keys, from any content of its buffer and whatever the number of prompts of
`cmd_read`. -/
theorem run_eq (prompts : ℕ) (buf : ℤ → BitVec 8) (keys : List Keycode)
    (hfits : (Mode.editing []).fitsAll prompts keys = true) {rounds : ℕ} (hrounds : keys.length < rounds) :
    run prompts buf keys rounds = some (((Mode.editing []).interpret prompts keys).behind [.prompt]) := by
  obtain ⟨n, rfl⟩ : ∃ m, rounds = m + 1 := ⟨rounds - 1, by omega⟩
  exact run_runBody n buf (by omega) hfits

/-- A mistyped `help`, which is corrected, and `read` on a file with two prompts, which is left at the first
one; behind `exit` no key is read. -/
def session : List Keycode :=
  [key 'h', key 'e', key 'k', keyBackspace, key 'l', key 'p', keyReturn, key 'r', key 'e', key 'a', key 'd',
    keyReturn, key 'q', keyTab, key 'e', key 'x', key 'i', key 't', keyReturn, key 'x']

theorem run_eq_session :
    run 2 (fun _ => 0xFF) session 21 = some (((Mode.editing []).interpret 2 session).behind [.prompt]) ∧
      ((Mode.editing []).interpret 2 session).behind [.prompt] =
        ⟨[.prompt, .help, .prompt, .read, .page, .prompt], true⟩ :=
  ⟨run_eq 2 _ session (by decide) (by decide), by decide⟩

end FanOS.Shell

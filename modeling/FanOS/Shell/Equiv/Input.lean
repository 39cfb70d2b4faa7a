import FanOS.Shell.Input
import Mathlib.Data.List.Infix

/-!
# What the command line holds

In a state of the loop in which a line has been edited (`Editing`), `i` is the length of the line and the
line is in the buffer.  Keys for which there is room keep to it.  The others do not: backspace in an empty
line takes `i` below zero, a character that fills the buffer leaves no room for the terminator, backspace in
a full line goes on editing it, and a code like `KEY_ESCAPE`, which is no character, is cut to one.

So `input_cmd` edits a line, whenever return is pressed, if and only if there is room (`enters_iff`).
-/

namespace FanOS.Shell

open Keyboard

variable {len : BitVec 32} {s s' : LineState} {line line' : List (BitVec 8)} {key : Keycode}
  {keys : List Keycode} {c : BitVec 8}

/-! ### Keys -/

/-- Return, backspace, a character, or none of these. -/
theorem stroke_cases (key : Keycode) :
    (key = keyReturn ∧ stroke key = .enter) ∨
    (key = keyBackspace ∧ stroke key = .erase) ∨
    (key ≠ keyReturn ∧ key ≠ keyBackspace ∧ keyboardKeyToAscii key ≠ 0 ∧
      stroke key = .char (keyboardKeyToAscii key)) ∨
    (key ≠ keyReturn ∧ key ≠ keyBackspace ∧ stroke key = .other) := by
  unfold stroke
  split_ifs with hret hbsp hchar
  · exact .inl ⟨hret, rfl⟩
  · exact .inr (.inl ⟨hbsp, rfl⟩)
  · refine .inr (.inr (.inl ⟨hret, hbsp, fun hzero => ?_, rfl⟩))
    have hnat : key.toNat % 2 ^ 8 = 0 := by
      rw [← BitVec.toNat_setWidth, ← keyboardKeyToAscii, hzero]
      rfl
    omega
  · exact .inr (.inr (.inr ⟨hret, hbsp, rfl⟩))

theorem inputKey_of_ne_zero (hret : key ≠ keyReturn) (hbsp : key ≠ keyBackspace)
    (hc : keyboardKeyToAscii key ≠ 0) :
    inputKey key s = .inl { s.store (keyboardKeyToAscii key) with i := s.i + 1 } := by
  rw [inputKey, if_neg hret, if_neg hbsp]
  exact if_pos hc

theorem inputKey_of_eq_zero (hret : key ≠ keyReturn) (hbsp : key ≠ keyBackspace)
    (hc : keyboardKeyToAscii key = 0) : inputKey key s = .inl s := by
  rw [inputKey, if_neg hret, if_neg hbsp]
  exact if_neg (not_not.mpr hc)

/-! ### The loop -/

theorem inputFrom_cons (hlt : s.i.slt len) (h : inputKey key s = .inl s') :
    inputFrom len (key :: keys) s = inputFrom len keys s' := by
  rw [inputFrom, inputLoop, if_pos hlt, h]
  rfl

theorem inputFrom_return (hlt : s.i.slt len) :
    inputFrom len (keyReturn :: keys) s = .returned (s.store 0) := by
  rw [inputFrom, inputLoop, if_pos hlt, inputKey, if_pos rfl]
  rfl

/-- Behind the last byte, the loop is left. -/
theorem inputFrom_of_le (hle : ¬ s.i.slt len) : inputFrom len keys s = .returned (s.store 0) := by
  cases keys <;> rw [inputFrom, inputLoop, if_neg hle] <;> rfl

/-- The same from a state of the loop on, in which a line has been edited. -/
structure EntersFrom (len : BitVec 32) (keys : List Keycode) (s : LineState) (line : List (BitVec 8)) :
    Prop where
  inBuffer : ∀ x ∈ (inputFrom len keys s).state.written, 0 ≤ x ∧ x < len.toInt
  text : ∀ s', inputFrom len keys s = .returned s' →
    ∃ text, Line.edit (len.toNat - 1) (keys.map stroke) line = some text ∧ HoldsText s'.buf text

theorem enters_iff_entersFrom {buf : ℤ → BitVec 8} :
    Enters len keys buf ↔ EntersFrom len keys ⟨buf, 0, []⟩ [] :=
  ⟨fun h => ⟨h.inBuffer, h.text⟩, fun h => ⟨h.inBuffer, h.text⟩⟩

/-- A round that edits the line takes the call from one state to the other. -/
theorem entersFrom_congr (hrun : inputFrom len (key :: keys) s = inputFrom len keys s')
    (hedit : Line.edit (len.toNat - 1) ((key :: keys).map stroke) line =
      Line.edit (len.toNat - 1) (keys.map stroke) line') :
    EntersFrom len (key :: keys) s line ↔ EntersFrom len keys s' line' := by
  constructor
  · rintro ⟨hwritten, htext⟩
    rw [hrun] at hwritten
    rw [hrun, hedit] at htext
    exact ⟨hwritten, htext⟩
  · rintro ⟨hwritten, htext⟩
    rw [← hrun] at hwritten
    rw [← hrun, ← hedit] at htext
    exact ⟨hwritten, htext⟩

/-! ### Lines -/

/-- The line has been edited so far. -/
structure Editing (len : BitVec 32) (s : LineState) (line : List (BitVec 8)) : Prop where
  pos : 0 < len.toInt
  length_lt : line.length < len.toNat
  toInt_i : s.i.toInt = line.length
  ne_zero : ∀ b ∈ line, b ≠ 0
  bytes : ∀ j < line.length, s.buf j = line.getD j 0
  inBuffer : ∀ x ∈ s.written, 0 ≤ x ∧ x < len.toInt

theorem toInt_len (h : 0 < len.toInt) : len.toInt = len.toNat ∧ len.toNat < 2 ^ 31 := by
  have hint := BitVec.toInt_eq_toNat_cond len
  have := len.isLt
  split_ifs at hint <;> omega

/-- The call starts with an empty line. -/
theorem editing_nil (hlen : 0 < len.toInt) (buf : ℤ → BitVec 8) : Editing len ⟨buf, 0, []⟩ [] where
  pos := hlen
  length_lt := by
    have := toInt_len hlen
    rw [List.length_nil]
    omega
  toInt_i := rfl
  ne_zero b hb := absurd hb List.not_mem_nil
  bytes j hj := absurd hj (Nat.not_lt_zero j)
  inBuffer x hx := absurd hx List.not_mem_nil

namespace Editing

theorem slt (h : Editing len s line) : s.i.slt len := by
  have hlen := toInt_len h.pos
  have hlt := h.length_lt
  rw [BitVec.slt, h.toInt_i, decide_eq_true_iff]
  omega

/-- The byte at `i` is in the buffer. -/
theorem inBuffer_store (h : Editing len s line) (b : BitVec 8) :
    ∀ x ∈ (s.store b).written, 0 ≤ x ∧ x < len.toInt := by
  have hlen := toInt_len h.pos
  have hlt := h.length_lt
  intro x hx
  rcases List.mem_append.mp hx with hx | hx
  · exact h.inBuffer x hx
  · rw [List.mem_singleton.mp hx, h.toInt_i]
    omega

/-- A store at `i` does not change the line. -/
theorem bytes_store (h : Editing len s line) (b : BitVec 8) :
    ∀ j < line.length, (s.store b).buf j = line.getD j 0 := by
  intro j hj
  rw [LineState.store, h.toInt_i]
  exact (Function.update_of_ne (by omega) _ _).trans (h.bytes j hj)

theorem store_self (h : Editing len s line) (b : BitVec 8) : (s.store b).buf line.length = b := by
  rw [LineState.store, h.toInt_i]
  exact Function.update_self _ _ _

theorem toInt_add_one (h : Editing len s line) : (s.i + 1).toInt = line.length + 1 := by
  have hlen := toInt_len h.pos
  have hlt := h.length_lt
  rw [BitVec.toInt_add, h.toInt_i, show (1 : BitVec 32).toInt = 1 from rfl]
  exact Int.bmod_eq_of_le (by omega) (by omega)

theorem toInt_sub_one (h : Editing len s line) : (s.i - 1).toInt = line.length - 1 := by
  have hlen := toInt_len h.pos
  have hlt := h.length_lt
  rw [BitVec.toInt_sub, h.toInt_i, show (1 : BitVec 32).toInt = 1 from rfl]
  exact Int.bmod_eq_of_le (by omega) (by omega)

/-- A character is added, -/
theorem char (h : Editing len s line) (hc : c ≠ 0) (hroom : line.length + 1 < len.toNat) :
    Editing len { s.store c with i := s.i + 1 } (line ++ [c]) where
  pos := h.pos
  length_lt := by rwa [List.length_append]
  toInt_i := by
    rw [List.length_append, h.toInt_add_one]
    rfl
  ne_zero b hb := by
    rcases List.mem_append.mp hb with hb | hb
    · exact h.ne_zero b hb
    · rwa [List.mem_singleton.mp hb]
  bytes j hj := by
    rw [List.length_append, List.length_singleton] at hj
    rcases Nat.lt_or_eq_of_le (Nat.le_of_lt_succ hj) with hlt | rfl
    · rw [List.getD_append _ _ _ _ hlt]
      exact h.bytes_store c j hlt
    · rw [List.getD_append_right _ _ _ _ le_rfl, Nat.sub_self]
      exact h.store_self c
  inBuffer := h.inBuffer_store c

/-- and the last one is erased. -/
theorem erase (h : Editing len s line) (hpos : 0 < line.length) :
    Editing len { s.store 0 with i := s.i - 1 } line.dropLast where
  pos := h.pos
  length_lt := by
    have := h.length_lt
    rw [List.length_dropLast]
    omega
  toInt_i := by
    rw [List.length_dropLast, h.toInt_sub_one]
    omega
  ne_zero b hb := h.ne_zero b (List.mem_of_mem_dropLast hb)
  bytes j hj := by
    rw [List.length_dropLast] at hj
    rw [List.dropLast_eq_take, List.getD_eq_getElem?_getD, List.getElem?_take_of_lt hj,
      ← List.getD_eq_getElem?_getD]
    exact h.bytes_store 0 j (by omega)
  inBuffer := h.inBuffer_store 0

/-- The terminator makes it a text. -/
theorem holdsText (h : Editing len s line) : HoldsText (s.store 0).buf line where
  ne_zero := h.ne_zero
  bytes j hj := by
    rcases Nat.lt_or_eq_of_le hj with hlt | rfl
    · exact h.bytes_store 0 j hlt
    · rw [h.store_self 0, List.getD_eq_default _ _ le_rfl]

/-- Waiting for the first key, the call has written to the buffer only. -/
theorem enters_nil (h : Editing len s line) : EntersFrom len [] s line := by
  have hrun : inputFrom len [] s = .waiting s := by
    rw [inputFrom, inputLoop, if_pos h.slt]
    rfl
  constructor
  · rw [hrun]
    exact h.inBuffer
  · rw [hrun]
    exact fun s' heq => nomatch heq

/-- Return enters the line. -/
theorem enters_return (h : Editing len s line) : EntersFrom len (keyReturn :: keys) s line := by
  have hrun : inputFrom len (keyReturn :: keys) s = _ := inputFrom_return h.slt
  constructor
  · rw [hrun]
    exact h.inBuffer_store 0
  · rw [hrun]
    rintro s' ⟨⟩
    exact ⟨line, rfl, h.holdsText⟩

/-! ### Keys without room -/

/-- Backspace in an empty line goes before the buffer. -/
theorem not_enters_erase (h : Editing len s line) (hzero : line.length = 0) :
    ¬ EntersFrom len [keyBackspace, keyReturn] s line := by
  intro henters
  have hminus : (s.i - 1).toInt = -1 := by
    rw [h.toInt_sub_one]
    omega
  have hlt : (s.i - 1).slt len := by
    have := h.pos
    rw [BitVec.slt, hminus, decide_eq_true_iff]
    omega
  have hrun : inputFrom len [keyBackspace, keyReturn] s =
      .returned (LineState.store 0 { s.store 0 with i := s.i - 1 }) :=
    (inputFrom_cons h.slt rfl).trans (inputFrom_return hlt)
  have hmem : (-1 : ℤ) ∈ (inputFrom len [keyBackspace, keyReturn] s).state.written := by
    rw [hrun, ← hminus]
    exact List.mem_append_right _ List.mem_cons_self
  exact absurd (henters.inBuffer _ hmem).1 (by omega)

/-- A full line is still edited. -/
theorem not_enters_erase_full (h : Editing len s line) (hpos : 0 < line.length)
    (hfull : len.toNat ≤ line.length + 1) : ¬ EntersFrom len [keyBackspace, keyReturn] s line := by
  intro henters
  have herase := h.erase hpos
  have hrun : inputFrom len [keyBackspace, keyReturn] s =
      .returned (LineState.store 0 { s.store 0 with i := s.i - 1 }) :=
    (inputFrom_cons h.slt rfl).trans (inputFrom_return herase.slt)
  obtain ⟨text, hedit, hholds⟩ := henters.text _ hrun
  rw [Line.edit_of_le (by omega)] at hedit
  obtain rfl := Option.some.inj hedit
  -- the terminator is where the last character should be
  have hlast := hholds.bytes (line.length - 1) (by omega)
  have hzero := herase.store_self 0
  rw [List.length_dropLast] at hzero
  rw [hzero, List.getD_eq_getElem _ _ (by omega)] at hlast
  exact h.ne_zero _ (List.getElem_mem _) hlast.symm

/-- Behind the last character there is no room for the terminator. -/
theorem not_enters_overflow (h : Editing len s line) (hfull : len.toNat ≤ line.length + 1)
    (hkey : inputKey key s = .inl { s.store c with i := s.i + 1 }) : ¬ EntersFrom len [key] s line := by
  intro henters
  have hlen := toInt_len h.pos
  have hlt := h.length_lt
  have hi : (s.i + 1).toInt = len.toInt := by
    rw [h.toInt_add_one]
    omega
  have hle : ¬ (s.i + 1).slt len := by
    rw [BitVec.slt, hi, decide_eq_true_iff]
    omega
  have hrun : inputFrom len [key] s = .returned (LineState.store 0 { s.store c with i := s.i + 1 }) :=
    (inputFrom_cons h.slt hkey).trans (inputFrom_of_le hle)
  have hmem : len.toInt ∈ (inputFrom len [key] s).state.written := by
    rw [hrun, ← hi]
    exact List.mem_append_right _ List.mem_cons_self
  exact absurd (henters.inBuffer _ hmem).2 (by omega)

/-- A code that is cut to a character is added to the line. -/
theorem not_enters_other (h : Editing len s line) (hroom : line.length + 1 < len.toNat)
    (hstroke : stroke key = .other) (hc : c ≠ 0)
    (hkey : inputKey key s = .inl { s.store c with i := s.i + 1 }) :
    ¬ EntersFrom len [key, keyReturn] s line := by
  intro henters
  have hchar := h.char hc hroom
  have hrun : inputFrom len [key, keyReturn] s =
      .returned (LineState.store 0 { s.store c with i := s.i + 1 }) :=
    (inputFrom_cons h.slt hkey).trans (inputFrom_return hchar.slt)
  obtain ⟨text, hedit, hholds⟩ := henters.text _ hrun
  rw [List.map_cons, hstroke, Line.edit_other] at hedit
  obtain rfl := Option.some.inj hedit
  -- the character is where the terminator should be
  have hend := hholds.bytes line.length le_rfl
  have hbyte := hchar.holdsText.bytes line.length (by rw [List.length_append]; omega)
  rw [List.getD_append_right _ _ _ _ le_rfl, Nat.sub_self] at hbyte
  rw [hbyte, List.getD_eq_default _ _ le_rfl] at hend
  exact hc hend

end Editing

/-! ### When a line is edited -/

/-- Whatever the first keys are, and also if return is pressed behind them, the line is edited. -/
def EntersAll (len : BitVec 32) (keys : List Keycode) (s : LineState) (line : List (BitVec 8)) : Prop :=
  ∀ first, first <+: keys → EntersFrom len first s line ∧ EntersFrom len (first ++ [keyReturn]) s line

theorem entersAll_nil (h : Editing len s line) : EntersAll len [] s line := by
  intro first hfirst
  rw [List.prefix_nil.mp hfirst]
  exact ⟨h.enters_nil, h.enters_return⟩

/-- The first key is passed over, or edits the line. -/
theorem entersAll_cons_iff (h : Editing len s line)
    (hround : ∀ keys, EntersFrom len (key :: keys) s line ↔ EntersFrom len keys s' line') :
    EntersAll len (key :: keys) s line ↔ EntersAll len keys s' line' := by
  constructor
  · intro hall first hfirst
    have hcons := hall (key :: first) (List.cons_prefix_cons.mpr ⟨rfl, hfirst⟩)
    exact ⟨(hround _).mp hcons.1, (hround _).mp hcons.2⟩
  · intro hall first hfirst
    rcases List.prefix_cons_iff.mp hfirst with rfl | ⟨rest, rfl, hrest⟩
    · exact ⟨h.enters_nil, h.enters_return⟩
    · exact ⟨(hround _).mpr (hall rest hrest).1, (hround _).mpr (hall rest hrest).2⟩

/-- In a line with room, a stroke is applied to the line. -/
theorem entersAll_apply_iff (h : Editing len s line) {k : Line.Stroke (BitVec 8)}
    (hstroke : stroke key = k) (hk : k ≠ .enter) (hroom : line.length + 1 < len.toNat)
    (hkey : inputKey key s = .inl s') :
    EntersAll len (key :: keys) s line ↔ EntersAll len keys s' (k.apply line) := by
  refine entersAll_cons_iff h fun keys => entersFrom_congr (inputFrom_cons h.slt hkey) ?_
  rw [List.map_cons, hstroke]
  exact Line.edit_cons hk (by omega)

theorem EntersAll.singleton (h : EntersAll len (key :: keys) s line) :
    EntersFrom len [key] s line ∧ EntersFrom len [key, keyReturn] s line :=
  h [key] (List.cons_prefix_cons.mpr ⟨rfl, List.nil_prefix⟩)

/-- The line is edited from a state of the loop on, if and only if there is room. -/
theorem entersAll_iff (h : Editing len s line) :
    EntersAll len keys s line ↔ Room len keys line.length := by
  induction keys generalizing s line with
  | nil => exact iff_of_true (entersAll_nil h) trivial
  | cons key keys ih =>
    rcases stroke_cases key with ⟨rfl, hstroke⟩ | ⟨rfl, hstroke⟩ | ⟨hret, hbsp, hc, hstroke⟩ |
      ⟨hret, hbsp, hstroke⟩
    · refine iff_of_true (fun first hfirst => ?_) trivial
      rcases List.prefix_cons_iff.mp hfirst with rfl | ⟨rest, rfl, -⟩
      · exact ⟨h.enters_nil, h.enters_return⟩
      · exact ⟨h.enters_return, h.enters_return⟩
    · rw [Room, hstroke]
      by_cases hpos : 0 < line.length
      · by_cases hroom : line.length + 1 < len.toNat
        · have hkey : inputKey keyBackspace s = .inl { s.store 0 with i := s.i - 1 } := rfl
          rw [entersAll_apply_iff h hstroke (fun heq => nomatch heq) hroom hkey, Line.Stroke.apply,
            ih (h.erase hpos), List.length_dropLast]
          exact ⟨fun hrest => ⟨hpos, hroom, hrest⟩, fun hrest => hrest.2.2⟩
        · exact iff_of_false (fun hall => h.not_enters_erase_full hpos (by omega) hall.singleton.2)
            fun hrest => hroom hrest.2.1
      · exact iff_of_false (fun hall => h.not_enters_erase (by omega) hall.singleton.2)
          fun hrest => hpos hrest.1
    · have hkey := inputKey_of_ne_zero (s := s) hret hbsp hc
      rw [Room, hstroke]
      by_cases hroom : line.length + 1 < len.toNat
      · rw [entersAll_apply_iff h hstroke (fun heq => nomatch heq) hroom hkey, Line.Stroke.apply,
          ih (h.char hc hroom), List.length_append]
        exact ⟨fun hrest => ⟨hroom, hrest⟩, fun hrest => hrest.2⟩
      · exact iff_of_false (fun hall => h.not_enters_overflow (by omega) hkey hall.singleton.1)
          fun hrest => hroom hrest.1
    · rw [Room, hstroke]
      by_cases hc : keyboardKeyToAscii key = 0
      · have hround : ∀ keys, EntersFrom len (key :: keys) s line ↔ EntersFrom len keys s line :=
          fun keys => entersFrom_congr (inputFrom_cons h.slt (inputKey_of_eq_zero hret hbsp hc))
            (by rw [List.map_cons, hstroke, Line.edit_other])
        rw [entersAll_cons_iff h hround, ih h]
        exact ⟨fun hrest => ⟨hc, hrest⟩, fun hrest => hrest.2⟩
      · have hkey := inputKey_of_ne_zero (s := s) hret hbsp hc
        refine iff_of_false (fun hall => ?_) fun hrest => hc hrest.1
        by_cases hroom : line.length + 1 < len.toNat
        · exact h.not_enters_other hroom hstroke hc hkey hall.singleton.2
        · exact h.not_enters_overflow (by omega) hkey hall.singleton.1

/-- **`input_cmd` edits a line**, however many of the keys are read and also if return is pressed then, if
and only if there is room for the keys. -/
theorem enters_iff (len : BitVec 32) (hlen : 0 < len.toInt) (keys : List Keycode) (buf : ℤ → BitVec 8) :
    (∀ first, first <+: keys → Enters len first buf ∧ Enters len (first ++ [keyReturn]) buf) ↔
      Room len keys 0 := by
  simp only [enters_iff_entersFrom]
  exact entersAll_iff (editing_nil hlen buf)

/-- The keys of `"hi"`, with a letter in between that is erased. -/
def typed : List Keycode := [0x68, 0x6F, keyBackspace, 0x69]

/-- They are read into a buffer of 99 bytes, before and after return is pressed. -/
theorem enters_typed : Enters 99 typed (fun _ => 0) ∧ Enters 99 (typed ++ [keyReturn]) (fun _ => 0) :=
  (enters_iff 99 (by decide) typed _).mpr ⟨by decide, by decide, by decide, by decide, by decide, trivial⟩
    typed (List.prefix_refl typed)

/-- Backspace and return write to the byte before the buffer. -/
theorem not_enters : ¬ ∀ (len : BitVec 32) (keys : List Keycode) (buf : ℤ → BitVec 8),
    0 < len.toInt → Enters len keys buf := by
  intro hall
  exact (editing_nil (show 0 < (99 : BitVec 32).toInt by decide) fun _ => 0).not_enters_erase rfl
    (enters_iff_entersFrom.mp (hall 99 [keyBackspace, keyReturn] _ (by decide)))

end FanOS.Shell

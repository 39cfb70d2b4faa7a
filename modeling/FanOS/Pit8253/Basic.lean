import Mathlib.Data.Nat.Notation
import Mathlib.Logic.Function.Basic
import Mathlib.Logic.Function.Iterate
import Mathlib.Tactic.Ring
import Mathlib.Tactic.SplitIfs

/-!
# The 8253 timer

Three counters count the clocks of one input down from a number and give a pulse when they come to its end;
in the modes 2 and 3 they start again by themselves, in the others they stop.  A byte to the command port
sets the mode of a counter and stops it until its number has been written, which is one byte or two, the low
one first.  Zero stands for the largest number.

Reading the counters, and what the gates do, is left out.
-/

namespace FanOS.Pit8253

structure Counter where
  /-- Which bytes of the number are written: 1 the low one, 2 the high one, 3 both. -/
  access : BitVec 2
  mode : BitVec 3
  bcd : Bool
  /-- The number that it counts down from. -/
  reload : BitVec 16
  /-- The next byte is the high one. -/
  high : Bool
  /-- The clocks to go, if it has not stopped. -/
  count : Option ℕ
  deriving DecidableEq

/-- The counters, and the command port in place of a fourth. -/
structure Chip where
  counter : BitVec 2 → Counter

namespace Counter

variable (c : Counter)

/-- A decimal number, one digit in four bits. -/
def decimal (r : BitVec 16) : ℕ :=
  r.toNat / 4096 % 16 * 1000 + r.toNat / 256 % 16 * 100 + r.toNat / 16 % 16 * 10 + r.toNat % 16

/-- The number of clocks from one pulse to the next. -/
def period : ℕ :=
  if c.reload = 0 then if c.bcd then 10000 else 65536
  else if c.bcd then decimal c.reload else c.reload.toNat

/-- It starts again by itself. -/
def periodic : Bool := c.mode.getLsbD 1

/-- A byte of the number. -/
def write (b : BitVec 8) : Counter :=
  let start (c : Counter) : Counter :=
    { c with count := if c.periodic ∧ c.count ≠ none then c.count else some c.period }
  if c.access = 1 then start { c with reload := b.setWidth 16 }
  else if c.access = 2 then start { c with reload := b ++ (0 : BitVec 8) }
  else if c.high then start { c with reload := b ++ c.reload.setWidth 8, high := false }
  else { c with reload := (c.reload >>> 8).setWidth 8 ++ b, high := true }

/-- A clock, and whether there is a pulse. -/
def clock : Counter × Bool :=
  match c.count with
  | none => (c, false)
  | some k =>
    if k ≤ 1 then ({ c with count := if c.periodic then some c.period else none }, true)
    else ({ c with count := some (k - 1) }, false)

/-- The pulses in so many clocks. -/
def pulses : ℕ → Counter → ℕ
  | 0, _ => 0
  | n + 1, c => (if c.clock.2 then 1 else 0) + pulses n c.clock.1

end Counter

/-- A byte is written to a port. -/
def Chip.write (port : BitVec 2) (b : BitVec 8) (s : Chip) : Chip :=
  if port = 3 then
    let ch : BitVec 2 := (b >>> 6).setWidth 2
    let access : BitVec 2 := (b >>> 4).setWidth 2
    -- the other commands read
    if ch = 3 ∨ access = 0 then s
    else ⟨Function.update s.counter ch
      ⟨access, (b >>> 1).setWidth 3, b.getLsbD 0, (s.counter ch).reload, access = 2, none⟩⟩
  else ⟨Function.update s.counter port ((s.counter port).write b)⟩

namespace Counter

variable {c : Counter} {k N : ℕ}

/-- Both bytes of a number start a counter that waits for them. -/
theorem write_write (haccess : c.access = 3) (hhigh : c.high = false) (hcount : c.count = none)
    (low high : BitVec 8) :
    (c.write low).write high =
      { c with reload := high ++ low, count := some { c with reload := high ++ low }.period } := by
  obtain ⟨access, mode, bcd, reload, h, count⟩ := c
  obtain rfl : access = 3 := haccess
  obtain rfl : h = false := hhigh
  obtain rfl : count = none := hcount
  have hlow : ((reload >>> 8).setWidth 8 ++ low : BitVec 16).setWidth 8 = low := by
    rw [BitVec.setWidth_append, dif_pos (by omega), BitVec.setWidth_eq]
  have hbyte : (⟨3, mode, bcd, reload, false, none⟩ : Counter).write low =
      ⟨3, mode, bcd, (reload >>> 8).setWidth 8 ++ low, true, none⟩ := rfl
  rw [hbyte, write]
  simp only [show (3 : BitVec 2) ≠ 1 by decide, show (3 : BitVec 2) ≠ 2 by decide, if_false, if_true, hlow,
    not_true_eq_false, ne_eq, and_false]

/-- The access of a counter stays. -/
@[simp] theorem access_write (b : BitVec 8) : (c.write b).access = c.access := by
  unfold write
  split_ifs <;> rfl

/-- It runs: so many clocks are to go, of a period of `N`. -/
structure Runs (N k : ℕ) (c : Counter) : Prop where
  periodic : c.periodic = true
  period : c.period = N
  count : c.count = some k
  pos : 0 < k
  le : k ≤ N

/-- A clock before the last one of a period. -/
theorem Runs.clock_of_lt (h : Runs N k c) (hk : 1 < k) : Runs N (k - 1) c.clock.1 ∧ c.clock.2 = false := by
  have hclock : c.clock = ({ c with count := some (k - 1) }, false) := by
    unfold clock
    rw [h.count]
    exact if_neg (by omega)
  have hle := h.le
  rw [hclock]
  exact ⟨⟨h.periodic, h.period, rfl, by omega, by omega⟩, rfl⟩

/-- The last clock of a period. -/
theorem Runs.clock_last (h : Runs N 1 c) : Runs N N c.clock.1 ∧ c.clock.2 = true := by
  have hclock : c.clock = ({ c with count := some c.period }, true) := by
    unfold clock
    rw [h.count, h.periodic]
    rfl
  rw [hclock]
  exact ⟨⟨h.periodic, h.period, congrArg some h.period, h.le, le_rfl⟩, rfl⟩

theorem Runs.exists_clock (h : Runs N k c) : ∃ k', Runs N k' c.clock.1 := by
  obtain hk | hk : k = 1 ∨ 1 < k := by have := h.pos; omega
  · subst hk
    exact ⟨N, h.clock_last.1⟩
  · exact ⟨k - 1, (h.clock_of_lt hk).1⟩

/-- **The pulses of a counter that runs**: one at the end of each period. -/
theorem Runs.pulses_eq (h : Runs N k c) (n : ℕ) : pulses n c = (n + (N - k)) / N := by
  induction n generalizing k c with
  | zero =>
    have := h.pos
    have := h.le
    exact (Nat.div_eq_of_lt (by omega)).symm
  | succ n ih =>
    have hle := h.le
    have hpos := h.pos
    rw [pulses]
    obtain hk | hk : k = 1 ∨ 1 < k := by omega
    · subst hk
      obtain ⟨hruns, hpulse⟩ := h.clock_last
      rw [hpulse, ih hruns, if_pos rfl, Nat.sub_self, Nat.add_zero,
        show n + 1 + (N - 1) = n + N by omega, Nat.add_div_right n (by omega), Nat.add_comm]
    · obtain ⟨hruns, hpulse⟩ := h.clock_of_lt hk
      rw [hpulse, ih hruns, if_neg Bool.false_ne_true, Nat.zero_add]
      congr 1
      omega

/-- The counter after so many clocks. -/
def after (n : ℕ) (c : Counter) : Counter := (fun c => c.clock.1)^[n] c

theorem after_succ (n : ℕ) (c : Counter) : after (n + 1) c = (after n c).clock.1 :=
  Function.iterate_succ_apply' _ n c

theorem Runs.exists_after (h : Runs N k c) (n : ℕ) : ∃ k', Runs N k' (after n c) := by
  induction n with
  | zero => exact ⟨k, h⟩
  | succ n ih =>
    obtain ⟨k', h'⟩ := ih
    rw [after_succ]
    exact h'.exists_clock

/-- The last clock of several. -/
theorem pulses_succ (n : ℕ) (c : Counter) :
    pulses (n + 1) c = pulses n c + if (after n c).clock.2 then 1 else 0 := by
  induction n generalizing c with
  | zero => exact Nat.add_comm _ _
  | succ n ih =>
    rw [pulses, ih, pulses, ← Nat.add_assoc]
    rfl

end Counter

end FanOS.Pit8253

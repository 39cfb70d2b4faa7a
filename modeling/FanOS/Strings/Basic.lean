import Mathlib.Data.Nat.Bitwise
import Mathlib.Tactic.SplitIfs

/-!
# String functions (`string.c`)

A pointer is modelled by the bytes from it on.  `strchr` tests the first byte before it looks for the
terminator, and so it goes on behind the terminator of an empty string; `strcpy` does not copy the
terminator.  A scan that has not ended after `2 ^ 32` bytes has seen all of memory and never ends.
-/

namespace FanOS.Strings

/-- The bytes from a pointer on. -/
abbrev Bytes := ℕ → BitVec 8

variable {str src dst : Bytes}

/-! ### `strchr` -/

/-- The loop of `strchr`, at the byte `ptr` and with at most so many rounds to go. -/
def strchrLoop (str : Bytes) (c : BitVec 8) : ℕ → ℕ → Option (Option ℕ)
  | 0, _ => none
  | k + 1, ptr =>
    if str ptr = c then some (some ptr)
    else if str (ptr + 1) ≠ 0 then strchrLoop str c k (ptr + 1)
    else some none

/-- `strchr`: how far from `str` the character is, or null. -/
def strchr (str : Bytes) (c : BitVec 8) : Option (Option ℕ) := strchrLoop str c (2 ^ 32) 0

theorem strchrLoop_eq_some {c : BitVec 8} {ptr n k : ℕ} (hn : ptr ≤ n) (hk : n - ptr < k)
    (hne : ∀ i, ptr ≤ i → i < n → str i ≠ c) (hzero : ∀ i, ptr < i → i ≤ n → str i ≠ 0)
    (hat : str n = c) : strchrLoop str c k ptr = some (some n) := by
  induction k generalizing ptr with
  | zero => omega
  | succ k ih =>
    rw [strchrLoop]
    rcases Nat.lt_or_eq_of_le hn with hlt | rfl
    · rw [if_neg (hne ptr (Nat.le_refl ptr) hlt), if_pos (hzero (ptr + 1) (by omega) hlt)]
      exact ih hlt (by omega) (fun i hi => hne i (by omega)) (fun i hi => hzero i (by omega))
    · rw [if_pos hat]

/-- It comes to the terminator, if there is no such character before it. -/
theorem strchrLoop_eq_none {str : Bytes} {c : BitVec 8} {ptr n k : ℕ} (hn : ptr < n) (hk : n - ptr ≤ k)
    (hne : ∀ i, ptr ≤ i → i < n → str i ≠ c) (hzero : ∀ i, ptr < i → i < n → str i ≠ 0)
    (hend : str n = 0) : strchrLoop str c k ptr = some none := by
  induction k generalizing ptr with
  | zero => omega
  | succ k ih =>
    rw [strchrLoop, if_neg (hne ptr le_rfl hn)]
    rcases Nat.lt_or_eq_of_le (Nat.succ_le_of_lt hn) with hlt | heq
    · rw [if_pos (hzero (ptr + 1) (by omega) hlt)]
      exact ih hlt (by omega) (fun i hi => hne i (by omega)) fun i hi => hzero i (by omega)
    · rw [show ptr + 1 = n from heq, if_neg (fun h => h hend)]

/-- `strchr` finds the first such character, even behind a terminator that is the first one. -/
theorem strchr_eq_some {c : BitVec 8} {n : ℕ} (hn : n < 2 ^ 32) (hne : ∀ i < n, str i ≠ c)
    (hzero : ∀ i, 0 < i → i ≤ n → str i ≠ 0) (hat : str n = c) :
    strchr str c = some (some n) :=
  strchrLoop_eq_some (Nat.zero_le n) (by omega) (fun i _ => hne i) hzero hat

/-! ### `strcpy` -/

/-- The loop of `strcpy`, at the byte `i` and with at most so many rounds to go. -/
def strcpyLoop (src : Bytes) : ℕ → ℕ → Bytes → Option Bytes
  | 0, _, _ => none
  | k + 1, i, dst =>
    if src i ≠ 0 then strcpyLoop src k (i + 1) (Function.update dst i (src i)) else some dst

/-- `strcpy`. -/
def strcpy (dst src : Bytes) : Option Bytes := strcpyLoop src (2 ^ 32) 0 dst

/-- The length of a string is `n`: its first `n` bytes are not zero, and the next one is. -/
structure IsLength (str : Bytes) (n : ℕ) : Prop where
  lt : n < 2 ^ 32
  ne_zero : ∀ i < n, str i ≠ 0
  terminator : str n = 0

theorem strcpyLoop_eq {n : ℕ} (h : IsLength src n) {i k : ℕ} (hi : i ≤ n) (hk : n - i < k) :
    strcpyLoop src k i dst = some fun x => if i ≤ x ∧ x < n then src x else dst x := by
  induction k generalizing i dst with
  | zero => omega
  | succ k ih =>
    rw [strcpyLoop]
    rcases Nat.lt_or_eq_of_le hi with hlt | rfl
    · rw [if_pos (h.ne_zero i hlt), ih hlt (by omega)]
      congr 1
      ext x : 1
      rcases Nat.lt_trichotomy x i with hx | rfl | hx
      · rw [if_neg (by omega), if_neg (by omega), Function.update_of_ne (by omega)]
      · rw [if_neg (by omega), if_pos ⟨Nat.le_refl x, hlt⟩, Function.update_self]
      · rw [Function.update_of_ne (by omega)]
        simp only [show (i + 1 ≤ x) = (i ≤ x) from propext ⟨fun _ => by omega, fun _ => by omega⟩]
    · rw [if_neg (by simp [h.terminator])]
      congr 1
      ext x : 1
      rw [if_neg (by omega)]

/-- `strcpy` copies the bytes before the terminator. -/
theorem strcpy_eq {n : ℕ} (h : IsLength src n) :
    strcpy dst src = some fun x => if x < n then src x else dst x := by
  rw [strcpy, strcpyLoop_eq h (Nat.zero_le n) (by have := h.lt; omega)]
  simp

/-! ### `strncmp` and `memcpy` -/

/-- `strncmp`. -/
def strncmp (str1 str2 : Bytes) : ℕ → BitVec 32
  | 0 => 0
  | len + 1 =>
    if str1 0 = str2 0 then strncmp (fun i => str1 (i + 1)) (fun i => str2 (i + 1)) len
    else (str1 0).setWidth 32 - (str2 0).setWidth 32

/-- `strncmp` returns zero for equal bytes only. -/
theorem strncmp_eq_zero_iff {len : ℕ} {str1 str2 : Bytes} :
    strncmp str1 str2 len = 0 ↔ ∀ i < len, str1 i = str2 i := by
  induction len generalizing str1 str2 with
  | zero => simp [strncmp]
  | succ len ih =>
    rw [strncmp]
    split_ifs with h
    · rw [ih]
      constructor
      · intro hall i hi
        cases i with
        | zero => exact h
        | succ i => exact hall i (by omega)
      · exact fun hall i hi => hall (i + 1) (by omega)
    · constructor
      · intro hsub
        refine absurd (BitVec.eq_of_toNat_eq ?_) h
        have h1 := (str1 0).isLt
        have h2 := (str2 0).isLt
        bv_omega
      · exact fun hall => absurd (hall 0 (by omega)) h

/-- `memcpy` to the byte `start` of `dst`. -/
def memcpy (dst : Bytes) (start : ℕ) (src : Bytes) : ℕ → Bytes
  | 0 => dst
  | i + 1 => Function.update (memcpy dst start src i) (start + i) (src i)

theorem memcpy_apply (dst : Bytes) (start : ℕ) (src : Bytes) (count x : ℕ) :
    memcpy dst start src count x =
      if start ≤ x ∧ x < start + count then src (x - start) else dst x := by
  induction count with
  | zero => rw [memcpy, if_neg (by omega)]
  | succ i ih =>
    rw [memcpy]
    by_cases hx : x = start + i
    · subst hx
      rw [Function.update_self, if_pos (by omega), Nat.add_sub_cancel_left]
    · rw [Function.update_of_ne hx, ih]
      congr 1
      exact propext ⟨fun h => by omega, fun h => by omega⟩

end FanOS.Strings

import Mathlib.Data.Nat.Digits.Lemmas

/-!
# Numerals

The digits of a number as it is written: the highest digit first, no leading zeros, and one digit for
zero.  Dividing by the base takes the last digit off (`digits_of_lt`, `digits_of_le`), which is how a loop
makes them: whatever its variable is, the loop has made the digits once it comes to a number below the base
(`loop_foldl`, `loop_eq`).  `value` reads a numeral (`value_digits`).
-/

namespace FanOS.Numeral

universe u v

variable {b n d : ℕ}

/-- The digits of `n` to the base `b`. -/
def digits (b n : ℕ) : List ℕ := if n = 0 then [0] else (Nat.digits b n).reverse

theorem digits_of_lt (h : n < b) : digits b n = [n] := by
  rw [digits]
  split_ifs with h0
  · rw [h0]
  · rw [Nat.digits_of_lt b n h0 h, List.reverse_singleton]

/-- The last digit comes off the end. -/
theorem digits_of_le (hb : 1 < b) (h : b ≤ n) : digits b n = digits b (n / b) ++ [n % b] := by
  have hdiv : n / b ≠ 0 := (Nat.div_pos h (by omega)).ne'
  rw [digits, if_neg (by omega), digits, if_neg hdiv, Nat.digits_def' hb (by omega),
    List.reverse_cons]

/-- A number below `b ^ k` has at most `k` digits. -/
theorem length_digits_le {k : ℕ} (hb : 1 < b) (hk : 0 < k) (h : n < b ^ k) :
    (digits b n).length ≤ k := by
  unfold digits
  split_ifs with h0
  · exact hk
  · rw [List.length_reverse]
    exact (Nat.digits_length_le_iff hb n).mpr h

theorem lt_of_mem_digits (hb : 1 < b) (hd : d ∈ digits b n) : d < b := by
  unfold digits at hd
  split_ifs at hd with h0
  · rw [List.mem_singleton.mp hd]
    omega
  · exact Nat.digits_lt_base hb (List.mem_reverse.mp hd)

theorem digits_ne_nil : digits b n ≠ [] := by
  unfold digits
  split_ifs with h0
  · exact List.cons_ne_nil 0 []
  · exact fun hnil => h0 (Nat.digits_eq_nil_iff_eq_zero.mp (List.reverse_eq_nil_iff.mp hnil))

/-- There is no leading zero. -/
theorem head_digits_ne_zero (hn : n ≠ 0) : (digits b n).head digits_ne_nil ≠ 0 := by
  have hdigits : digits b n = (Nat.digits b n).reverse := if_neg hn
  simp only [hdigits, List.head_reverse]
  exact Nat.getLast_digit_ne_zero b hn

/-- The number that is written. -/
def value (b : ℕ) (ds : List ℕ) : ℕ := ds.foldl (fun n d => n * b + d) 0

/-- A numeral is read as the number that it was made from. -/
theorem value_digits (hb : 1 < b) (n : ℕ) : value b (digits b n) = n := by
  induction n using Nat.strong_induction_on with
  | _ n ih =>
    rcases Nat.lt_or_ge n b with hlt | hle
    · rw [digits_of_lt hlt, value, List.foldl_cons, List.foldl_nil, Nat.zero_mul, Nat.zero_add]
    · rw [digits_of_le hb hle, value, List.foldl_append, ← value,
        ih _ (Nat.div_lt_self (by omega) hb), List.foldl_cons, List.foldl_nil, Nat.mul_comm,
        Nat.div_add_mod]

/-- **A loop that divides** its variable by the base makes the digits, the last one first.  `F k x a` is
the loop with at most `k` rounds to go, `value x` the number in its variable, `push` what a round does with
its digit, and `I` an invariant. -/
theorem loop_foldl {σ : Type u} {α : Type v} {F : ℕ → σ → α → Option α} (value : σ → ℕ)
    (push : α → ℕ → α) (I : σ → Prop) (hb : 1 < b)
    (hgo : ∀ k x a, I x → b ≤ value x →
      ∃ y, I y ∧ value y = value x / b ∧ F (k + 1) x a = F k y (push a (value x % b)))
    (hlast : ∀ k x a, I x → value x < b → F (k + 1) x a = some (push a (value x)))
    {k : ℕ} {x : σ} (hx : I x) (hk : value x < k) (a : α) :
    F k x a = some ((digits b (value x)).reverse.foldl push a) := by
  -- on the rounds: each of them makes the number smaller
  induction k generalizing x a with
  | zero => exact absurd hk (Nat.not_lt_zero _)
  | succ k ih =>
    rcases Nat.lt_or_ge (value x) b with hlt | hle
    · rw [hlast k x a hx hlt, digits_of_lt hlt]
      rfl
    · obtain ⟨y, hy, hvalue, hround⟩ := hgo k x a hx hle
      have hless : value y < k := by
        rw [hvalue]
        exact Nat.lt_of_lt_of_le (Nat.div_lt_self (by omega) hb) (Nat.le_of_lt_succ hk)
      rw [hround, ih hy hless, hvalue, digits_of_le hb hle, List.reverse_append]
      rfl

/-- Such a loop that collects the digits. -/
theorem loop_eq {σ : Type u} {α : Type v} {F : ℕ → σ → List α → Option (List α)} (value : σ → ℕ)
    (digit : ℕ → α) (I : σ → Prop) (hb : 1 < b)
    (hgo : ∀ k x buf, I x → b ≤ value x →
      ∃ y, I y ∧ value y = value x / b ∧ F (k + 1) x buf = F k y (buf ++ [digit (value x % b)]))
    (hlast : ∀ k x buf, I x → value x < b → F (k + 1) x buf = some (buf ++ [digit (value x)]))
    {k : ℕ} {x : σ} (hx : I x) (hk : value x < k) (buf : List α) :
    F k x buf = some (buf ++ ((digits b (value x)).map digit).reverse) := by
  have hpush : ∀ (ds : List ℕ) (buf : List α),
      ds.foldl (fun buf d => buf ++ [digit d]) buf = buf ++ ds.map digit := by
    intro ds
    induction ds with
    | nil => exact fun buf => (List.append_nil buf).symm
    | cons d ds ih =>
      intro buf
      rw [List.foldl_cons, ih, List.append_assoc]
      rfl
  rw [loop_foldl value (fun buf d => buf ++ [digit d]) I hb hgo hlast hx hk, hpush, List.map_reverse]

end FanOS.Numeral

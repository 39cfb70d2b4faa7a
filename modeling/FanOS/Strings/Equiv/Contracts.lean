import FanOS.Strings.Basic
import Mathlib.Data.Nat.Find

/-!
# What `strchr` and `strcpy` promise

`strchr` should return the first such character of a string, or null, without reading behind the
terminator (`FindsFirst`), and `strcpy` should leave a copy of the string (`Copies`).  The loop of `strchr`
is a `do` loop, which does not look whether the first byte is the terminator.  `strcpy` stops at the
terminator without copying it, so the copy ends only if `dst` has a zero there already.

`strchrReads` notes the bytes that `strchr` reads.
-/

namespace FanOS.Strings

variable {str src dst : Bytes} {c : BitVec 8} {n m k ptr : ℕ}

/-- The bytes that the loop of `strchr` reads. -/
def strchrReads (str : Bytes) (c : BitVec 8) : ℕ → ℕ → List ℕ
  | 0, _ => []
  | k + 1, ptr =>
    if str ptr = c then [ptr]
    else ptr :: (ptr + 1) :: if str (ptr + 1) ≠ 0 then strchrReads str c k (ptr + 1) else []

/-! ### Contracts -/

/-- The first `c` of a string of length `n`, or null if there is none. -/
def IsFirst (str : Bytes) (c : BitVec 8) (n : ℕ) : Option ℕ → Prop
  | some i => i < n ∧ str i = c ∧ ∀ j < i, str j ≠ c
  | none => ∀ j < n, str j ≠ c

/-- What `strchr` should do with a string of length `n`. -/
structure FindsFirst (str : Bytes) (c : BitVec 8) (n : ℕ) : Prop where
  found : ∃ r, strchr str c = some r ∧ IsFirst str c n r
  reads_le : ∀ i ∈ strchrReads str c (2 ^ 32) 0, i ≤ n

/-- What `strcpy` should do with a string of length `n`. -/
def Copies (dst src : Bytes) (n : ℕ) : Prop :=
  ∃ dst', strcpy dst src = some dst' ∧ IsLength dst' n ∧ ∀ i < n, dst' i = src i

/-! ### `strchr` -/

/-- From a byte of the string on, nothing behind the terminator is read. -/
theorem le_of_mem_strchrReads (h : IsLength str n) (hptr : ptr < n) {i : ℕ}
    (hi : i ∈ strchrReads str c k ptr) : i ≤ n := by
  induction k generalizing ptr with
  | zero => exact absurd hi List.not_mem_nil
  | succ k ih =>
    rw [strchrReads] at hi
    split_ifs at hi with hat hend
    · rw [List.mem_singleton.mp hi]
      exact hptr.le
    · rcases List.mem_cons.mp hi with rfl | hi
      · exact hptr.le
      · rcases List.mem_cons.mp hi with rfl | hi
        · exact hptr
        · refine ih ?_ hi
          exact lt_of_le_of_ne hptr fun heq => hend (heq ▸ h.terminator)
    · rcases List.mem_cons.mp hi with rfl | hi
      · exact hptr.le
      · rw [List.mem_singleton.mp hi]
        exact hptr

/-- The result in a string that is not empty. -/
theorem exists_strchr_eq (h : IsLength str n) (hn : n ≠ 0) :
    ∃ r, strchr str c = some r ∧ IsFirst str c n r := by
  by_cases hex : ∃ i, i < n ∧ str i = c
  · obtain ⟨hlt, hat⟩ := Nat.find_spec hex
    have hmin : ∀ j < Nat.find hex, str j ≠ c := fun j hj heq =>
      Nat.find_min hex hj ⟨hj.trans hlt, heq⟩
    refine ⟨some (Nat.find hex), ?_, hlt, hat, hmin⟩
    exact strchr_eq_some (hlt.trans h.lt) hmin (fun i _ hi => h.ne_zero i (by omega)) hat
  · have hne : ∀ j < n, str j ≠ c := fun j hj heq => hex ⟨j, hj, heq⟩
    refine ⟨none, ?_, hne⟩
    exact strchrLoop_eq_none (by omega) (by have := h.lt; omega) (fun j _ hj => hne j hj)
      (fun j _ hj => h.ne_zero j hj) h.terminator

/-- In an empty string, the byte behind the terminator is read. -/
theorem one_mem_strchrReads (h : IsLength str 0) (hc : c ≠ 0) :
    1 ∈ strchrReads str c (2 ^ 32) 0 := by
  change 1 ∈ strchrReads str c ((2 ^ 32 - 1) + 1) 0
  rw [strchrReads, if_neg (fun heq => hc (heq.symm.trans h.terminator))]
  exact List.mem_cons_of_mem _ List.mem_cons_self

/-- `strchr` does what it should, unless the string is empty. -/
theorem findsFirst_iff (h : IsLength str n) (hc : c ≠ 0) : FindsFirst str c n ↔ n ≠ 0 := by
  constructor
  · rintro hfinds rfl
    exact absurd (hfinds.reads_le 1 (one_mem_strchrReads h hc)) (by omega)
  · intro hn
    exact ⟨exists_strchr_eq h hn, fun i => le_of_mem_strchrReads h (by omega)⟩

/-! ### `strcpy` -/

/-- `strcpy` does what it should, if `dst` has a zero where the terminator belongs. -/
theorem copies_iff (h : IsLength src n) : Copies dst src n ↔ dst n = 0 := by
  have hcopy : strcpy dst src = _ := strcpy_eq h
  constructor
  · rintro ⟨dst', heq, hlen, -⟩
    have hend := hlen.terminator
    rw [← Option.some.inj (hcopy.symm.trans heq)] at hend
    exact (if_neg (Nat.lt_irrefl n)).symm.trans hend
  · intro hend
    refine ⟨_, hcopy, ⟨h.lt, fun i hi => ?_, ?_⟩, fun i hi => if_pos hi⟩
    · exact (if_pos hi).trans_ne (h.ne_zero i hi)
    · exact (if_neg (Nat.lt_irrefl n)).trans hend

/-! ### Both -/

/-- **The contracts of the string functions** are met if and only if the string that is searched is not
empty and the bytes that are copied to have a zero behind the copy. -/
theorem contracts_iff (hs : IsLength str n) (hc : c ≠ 0) (hsrc : IsLength src m) :
    (FindsFirst str c n ∧ Copies dst src m) ↔ n ≠ 0 ∧ dst m = 0 :=
  and_congr (findsFirst_iff hs hc) (copies_iff hsrc)

/-- The string `"a"`, with zeros behind it. -/
def letter : Bytes := fun i => if i = 0 then 0x61 else 0

theorem isLength_letter : IsLength letter 1 where
  lt := by decide
  ne_zero i hi := by
    rw [Nat.lt_one_iff.mp hi]
    decide
  terminator := rfl

/-- `"a"` is found in `"a"` and copied over zeros. -/
theorem contracts_letter : FindsFirst letter 0x61 1 ∧ Copies (fun _ => 0) letter 1 :=
  (contracts_iff isLength_letter (by decide) isLength_letter).mpr ⟨by decide, rfl⟩

/-- An `a` is looked for in an empty string, and `"a"` is copied over `"bb"`. -/
theorem not_contracts : ¬ ∀ (str src dst : Bytes) (c : BitVec 8) (n m : ℕ),
    IsLength str n → c ≠ 0 → IsLength src m → FindsFirst str c n ∧ Copies dst src m := by
  intro hall
  have hempty : IsLength (fun _ => 0) 0 := ⟨by decide, fun i hi => absurd hi (Nat.not_lt_zero i), rfl⟩
  have hboth := hall _ _ (fun _ => 0x62) 0x61 _ _ hempty (by decide) isLength_letter
  exact (findsFirst_iff hempty (by decide)).mp hboth.1 rfl

end FanOS.Strings

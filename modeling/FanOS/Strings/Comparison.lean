import FanOS.Strings.Basic
import Mathlib.Data.List.Lex

/-!
# Comparing strings (`strcmp`)

`strcmp` subtracts the first bytes that differ, or those behind which one of the strings ends.  So its sign is
the lexicographic order of the strings, bytes taken as unsigned (`strcmp_spec`), and it is zero for equal
strings only.
-/

namespace FanOS.Strings

variable {str1 str2 : Bytes} {s t : List (BitVec 8)} {i k : ℕ}

/-- The loop of `strcmp`, at the byte `i` and with at most so many rounds to go. -/
def strcmpLoop (str1 str2 : Bytes) : ℕ → ℕ → Option (BitVec 32)
  | 0, _ => none
  | k + 1, i =>
    if str1 i ≠ 0 ∧ str1 i = str2 i then strcmpLoop str1 str2 k (i + 1)
    else some ((str1 i).setWidth 32 - (str2 i).setWidth 32)

/-- `strcmp`. -/
def strcmp (str1 str2 : Bytes) : Option (BitVec 32) := strcmpLoop str1 str2 (2 ^ 32) 0

/-- The bytes of a string from the byte `i` on. -/
structure IsText (str : Bytes) (i : ℕ) (s : List (BitVec 8)) : Prop where
  ne_zero : ∀ b ∈ s, b ≠ 0
  bytes : ∀ j ≤ s.length, str (i + j) = s.getD j 0

theorem IsText.nil (h : IsText str1 i []) : str1 i = 0 := h.bytes 0 le_rfl

theorem IsText.head {b : BitVec 8} (h : IsText str1 i (b :: s)) : str1 i = b := h.bytes 0 (Nat.zero_le _)

theorem IsText.tail {b : BitVec 8} (h : IsText str1 i (b :: s)) : IsText str1 (i + 1) s where
  ne_zero c hc := h.ne_zero c (List.mem_cons_of_mem b hc)
  bytes j hj := by
    have hbyte := h.bytes (j + 1) (Nat.succ_le_succ hj)
    rwa [← Nat.add_assoc, Nat.add_right_comm] at hbyte

/-- A result that has the sign of the order of two strings. -/
structure Compares (r : BitVec 32) (s t : List (BitVec 8)) : Prop where
  neg_iff : r.toInt < 0 ↔ s < t
  pos_iff : 0 < r.toInt ↔ t < s
  eq_zero_iff : r = 0 ↔ s = t

theorem toInt_sub_bytes (a b : BitVec 8) :
    (a.setWidth 32 - b.setWidth 32 : BitVec 32).toInt = a.toNat - b.toNat := by
  have hbyte : ∀ c : BitVec 8, (c.setWidth 32 : BitVec 32).toInt = c.toNat := by
    intro c
    have hc := c.isLt
    have htoNat : (c.setWidth 32 : BitVec 32).toNat = c.toNat := BitVec.toNat_setWidth_of_le (by decide)
    rw [BitVec.toInt_eq_toNat_of_lt (by omega), htoNat]
  have ha := a.isLt
  have hb := b.isLt
  rw [BitVec.toInt_sub, hbyte, hbyte]
  exact Int.bmod_eq_of_le (by omega) (by omega)

theorem sub_bytes_eq_zero_iff {a b : BitVec 8} : (a.setWidth 32 - b.setWidth 32 : BitVec 32) = 0 ↔ a = b := by
  have hsub := toInt_sub_bytes a b
  constructor
  · intro hzero
    rw [hzero] at hsub
    have hzero' : (0 : ℤ) = a.toNat - b.toNat := hsub
    exact BitVec.eq_of_toNat_eq (by omega)
  · rintro rfl
    exact BitVec.sub_self _

/-- Two strings whose first bytes differ. -/
theorem compares_of_ne {a b : BitVec 8} (hne : a ≠ b) :
    Compares (a.setWidth 32 - b.setWidth 32) (a :: s) (b :: t) where
  neg_iff := by
    rw [toInt_sub_bytes, List.cons_lt_cons_iff, BitVec.lt_def]
    have hfirst : ¬(a = b ∧ s < t) := fun h => hne h.1
    rw [or_iff_left hfirst]
    omega
  pos_iff := by
    rw [toInt_sub_bytes, List.cons_lt_cons_iff, BitVec.lt_def]
    have hfirst : ¬(b = a ∧ t < s) := fun h => hne h.1.symm
    rw [or_iff_left hfirst]
    omega
  eq_zero_iff := by
    rw [sub_bytes_eq_zero_iff]
    exact ⟨fun h => absurd h hne, fun h => absurd (List.cons.inj h).1 hne⟩

/-- A string and one that has ended, -/
theorem compares_nil_right {a : BitVec 8} (ha : a ≠ 0) :
    Compares (a.setWidth 32 - (0 : BitVec 8).setWidth 32) (a :: s) [] := by
  have hpos : 0 < (a.setWidth 32 - (0 : BitVec 8).setWidth 32 : BitVec 32).toInt := by
    rw [toInt_sub_bytes, show (0 : BitVec 8).toNat = 0 from rfl]
    have hne : a.toNat ≠ 0 := fun h => ha (BitVec.eq_of_toNat_eq h)
    omega
  refine ⟨⟨fun h => absurd h (by omega), fun h => absurd h (List.not_lt_nil _)⟩,
    ⟨fun _ => List.nil_lt_cons _ _, fun _ => hpos⟩, ?_⟩
  rw [sub_bytes_eq_zero_iff]
  exact ⟨fun h => absurd h ha, fun h => nomatch h⟩

/-- and the other way round. -/
theorem compares_nil_left {b : BitVec 8} (hb : b ≠ 0) :
    Compares ((0 : BitVec 8).setWidth 32 - b.setWidth 32) [] (b :: t) := by
  have hneg : ((0 : BitVec 8).setWidth 32 - b.setWidth 32 : BitVec 32).toInt < 0 := by
    rw [toInt_sub_bytes, show (0 : BitVec 8).toNat = 0 from rfl]
    have hne : b.toNat ≠ 0 := fun h => hb (BitVec.eq_of_toNat_eq h)
    omega
  refine ⟨⟨fun _ => List.nil_lt_cons _ _, fun _ => hneg⟩,
    ⟨fun h => absurd h (by omega), fun h => absurd h (List.not_lt_nil _)⟩, ?_⟩
  rw [sub_bytes_eq_zero_iff]
  exact ⟨fun h => absurd h.symm hb, fun h => nomatch h⟩

/-- Equal first bytes are passed. -/
theorem Compares.cons {r : BitVec 32} (h : Compares r s t) (a : BitVec 8) : Compares r (a :: s) (a :: t) where
  neg_iff := by
    rw [h.neg_iff, List.cons_lt_cons_iff, or_iff_right (BitVec.lt_irrefl a), and_iff_right rfl]
  pos_iff := by
    rw [h.pos_iff, List.cons_lt_cons_iff, or_iff_right (BitVec.lt_irrefl a), and_iff_right rfl]
  eq_zero_iff := by rw [h.eq_zero_iff, List.cons_inj_right]

/-- The loop, by induction on the first string. -/
theorem strcmpLoop_spec (hs : IsText str1 i s) (ht : IsText str2 i t) (hk : s.length < k) :
    ∃ r, strcmpLoop str1 str2 k i = some r ∧ Compares r s t := by
  induction s generalizing t i k with
  | nil =>
    obtain ⟨k, rfl⟩ : ∃ n, k = n + 1 := ⟨k - 1, by omega⟩
    have hzero := hs.nil
    refine ⟨_, if_neg fun h => h.1 hzero, ?_⟩
    rw [hzero]
    cases t with
    | nil =>
      rw [ht.nil]
      exact ⟨by decide, by decide, by decide⟩
    | cons b t =>
      rw [ht.head]
      exact compares_nil_left (ht.ne_zero b (List.mem_cons_self ..))
  | cons a s ih =>
    rw [List.length_cons] at hk
    obtain ⟨k, rfl⟩ : ∃ n, k = n + 1 := ⟨k - 1, by omega⟩
    have ha := hs.head
    have hne : a ≠ 0 := hs.ne_zero a (List.mem_cons_self ..)
    rw [strcmpLoop]
    cases t with
    | nil =>
      refine ⟨_, if_neg fun h => hne ?_, ?_⟩
      · rw [← ha, h.2, ht.nil]
      · rw [ha, ht.nil]
        exact compares_nil_right hne
    | cons b t =>
      have hb := ht.head
      by_cases hab : a = b
      · subst hab
        rw [if_pos ⟨ha ▸ hne, ha.trans hb.symm⟩]
        obtain ⟨r, hr, hcompares⟩ := ih hs.tail ht.tail (Nat.lt_of_succ_lt_succ hk)
        exact ⟨r, hr, hcompares.cons a⟩
      · refine ⟨_, if_neg fun h => hab (ha.symm.trans (h.2.trans hb)), ?_⟩
        rw [ha, hb]
        exact compares_of_ne hab

/-- **`strcmp`** has the sign of the lexicographic order of two strings. -/
theorem strcmp_spec (hs : IsText str1 0 s) (ht : IsText str2 0 t) (hlen : s.length < 2 ^ 32) :
    ∃ r, strcmp str1 str2 = some r ∧ Compares r s t :=
  strcmpLoop_spec hs ht hlen

/-- The bytes of a string that is written out. -/
def literal (s : List (BitVec 8)) : Bytes := fun i => s.getD i 0

theorem isText_literal (h : ∀ b ∈ s, b ≠ 0) : IsText (literal s) 0 s where
  ne_zero := h
  bytes j _ := by rw [literal, Nat.zero_add]

/-- `"ab"` and `"b"`: the first bytes decide. -/
theorem strcmp_spec_letters :
    ∃ r, strcmp (literal [0x61, 0x62]) (literal [0x62]) = some r ∧ Compares r [0x61, 0x62] [0x62] :=
  strcmp_spec (isText_literal (by decide)) (isText_literal (by decide)) (by decide)

end FanOS.Strings

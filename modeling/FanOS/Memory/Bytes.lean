import Mathlib.Data.Nat.Bitwise
import Mathlib.Tactic.Ring

/-!
# Byte-addressed memory

A 32-bit little-endian machine sees memory as a map from addresses to bytes.  Everything the
code does to memory is a byte store, a word store (`store32`), a word load (`load32`) or a
`memset`; this file gives each of them one equation per question that is asked of it later:

* which byte a store changes (`store8_apply`, `store32_apply`, `memset_apply`);
* what a load sees after a store to the same word (`load32_store32_self`) and after a store
  that does not touch it (`load32_store32_of_apart`, `load32_congr`).

Addresses are `BitVec 32`, so address arithmetic wraps as it does on the machine.
-/

namespace FanOS

/-- Memory: one byte for each 32-bit address. -/
abbrev Mem := BitVec 32 → BitVec 8

/-- An address or a count that is moved on by one first. -/
theorem add_one_add_ofNat (a : BitVec 32) (n : ℕ) :
    a + 1 + BitVec.ofNat 32 n = a + BitVec.ofNat 32 (n + 1) := by
  rw [BitVec.add_assoc, Nat.add_comm n 1, BitVec.ofNat_add]
  rfl

namespace Mem

/-! ### Loads and stores -/

/-- Store one byte. -/
def store8 (m : Mem) (a : BitVec 32) (v : BitVec 8) : Mem :=
  fun x => if x = a then v else m x

/-- The little-endian word at `a`. -/
def load32 (m : Mem) (a : BitVec 32) : BitVec 32 :=
  m (a + 3) ++ m (a + 2) ++ m (a + 1) ++ m a

/-- Store the word `v` at `a`, little-endian: the byte at `a + i` becomes byte `i` of `v`. -/
def store32 (m : Mem) (a v : BitVec 32) : Mem :=
  fun x => if (x - a).toNat < 4 then v.extractLsb' (8 * (x - a).toNat) 8 else m x

/-- The loop of `memset`: `len` byte stores from `buffer` on. -/
def memset (m : Mem) (buffer : BitVec 32) (byte : BitVec 8) : ℕ → Mem
  | 0 => m
  | i + 1 => (memset m buffer byte i).store8 (buffer + BitVec.ofNat 32 i) byte

theorem store8_apply (m : Mem) (a : BitVec 32) (v : BitVec 8) (x : BitVec 32) :
    m.store8 a v x = if x = a then v else m x := rfl

theorem store32_apply (m : Mem) (a v x : BitVec 32) :
    m.store32 a v x =
      if (x - a).toNat < 4 then v.extractLsb' (8 * (x - a).toNat) 8 else m x := rfl

/-- `memset` writes exactly the `len` bytes from `buffer` on, up to a whole address space. -/
theorem memset_apply (m : Mem) (buffer : BitVec 32) (byte : BitVec 8) {len : ℕ}
    (hlen : len ≤ 2 ^ 32) (x : BitVec 32) :
    m.memset buffer byte len x = if (x - buffer).toNat < len then byte else m x := by
  induction len with
  | zero => simp [memset]
  | succ i ih =>
    rw [memset, store8_apply, ih (by omega)]
    have hx : x = buffer + BitVec.ofNat 32 i ↔ (x - buffer).toNat = i := by
      constructor
      · rintro rfl
        bv_omega
      · intro h
        bv_omega
    by_cases h1 : (x - buffer).toNat = i
    · rw [if_pos (hx.mpr h1), if_pos (by omega)]
    · rw [if_neg (mt hx.mp h1)]
      by_cases h2 : (x - buffer).toNat < i
      · rw [if_pos h2, if_pos (by omega)]
      · rw [if_neg h2, if_neg (by omega)]

/-! ### Words -/

/-- Bit `k` of a loaded word is bit `k % 8` of its byte `k / 8`. -/
theorem getLsbD_load32 (m : Mem) (a : BitVec 32) {k : ℕ} (hk : k < 32) :
    (m.load32 a).getLsbD k = (m (a + BitVec.ofNat 32 (k / 8))).getLsbD (k % 8) := by
  unfold load32
  simp only [BitVec.getLsbD_append]
  rcases (by omega : k / 8 = 0 ∨ k / 8 = 1 ∨ k / 8 = 2 ∨ k / 8 = 3) with h | h | h | h
  · rw [h, show k % 8 = k by omega]
    simp [show k < 8 by omega]
  · rw [h, show k % 8 = k - 8 by omega]
    simp [show ¬ k < 8 by omega, show k - 8 < 8 by omega]
  · rw [h, show k % 8 = k - 8 - 8 by omega]
    simp [show ¬ k < 8 by omega, show ¬ k - 8 < 8 by omega, show k - 8 - 8 < 8 by omega]
  · rw [h, show k % 8 = k - 8 - 8 - 8 by omega]
    simp [show ¬ k < 8 by omega, show ¬ k - 8 < 8 by omega, show ¬ k - 8 - 8 < 8 by omega]

/-- A load depends on its four bytes only. -/
theorem load32_congr {m m' : Mem} {a : BitVec 32}
    (h : ∀ i, i < 4 → m (a + BitVec.ofNat 32 i) = m' (a + BitVec.ofNat 32 i)) :
    m.load32 a = m'.load32 a := by
  apply BitVec.eq_of_getLsbD_eq
  intro k hk
  rw [getLsbD_load32 m a hk, getLsbD_load32 m' a hk, h _ (by omega)]

/-- A load sees the last store to the same word. -/
@[simp] theorem load32_store32_self (m : Mem) (a v : BitVec 32) :
    (m.store32 a v).load32 a = v := by
  apply BitVec.eq_of_getLsbD_eq
  intro k hk
  have hd : (a + BitVec.ofNat 32 (k / 8) - a).toNat = k / 8 := by bv_omega
  rw [getLsbD_load32 _ _ hk, store32_apply, hd, if_pos (by omega), BitVec.getLsbD_extractLsb']
  rw [show 8 * (k / 8) + k % 8 = k by omega]
  simp [show k % 8 < 8 by omega]

/-- Two words are apart when neither reaches into the other. -/
def Apart (a b : BitVec 32) : Prop := 4 ≤ (a - b).toNat ∧ 4 ≤ (b - a).toNat

/-- Words at number addresses are apart as soon as one ends before the other begins. -/
theorem apart_of_add_four_le {x y : ℕ} (hxy : x + 4 ≤ y ∨ y + 4 ≤ x)
    (hx : x + 4 ≤ 2 ^ 32) (hy : y + 4 ≤ 2 ^ 32) :
    Apart (BitVec.ofNat 32 x) (BitVec.ofNat 32 y) := by
  unfold Apart
  constructor <;> bv_omega

/-- A store to a word that is apart from `a` does not change the word at `a`. -/
theorem load32_store32_of_apart (m : Mem) {a b : BitVec 32} (v : BitVec 32) (h : Apart a b) :
    (m.store32 b v).load32 a = m.load32 a := by
  apply load32_congr
  intro i hi
  rw [store32_apply, if_neg]
  obtain ⟨h1, h2⟩ := h
  bv_omega

/-- `memset` leaves a word outside the written bytes alone. -/
theorem load32_memset_of_apart (m : Mem) {a buffer : BitVec 32} (byte : BitVec 8) {len : ℕ}
    (hlen : len ≤ 2 ^ 32) (h : ∀ i, i < 4 → len ≤ (a + BitVec.ofNat 32 i - buffer).toNat) :
    (m.memset buffer byte len).load32 a = m.load32 a := by
  apply load32_congr
  intro i hi
  rw [memset_apply _ _ _ hlen, if_neg (by have := h i hi; omega)]

/-- A word inside a region cleared by `memset` is zero. -/
theorem load32_memset_zero (m : Mem) {a buffer : BitVec 32} {len : ℕ}
    (hlen : len ≤ 2 ^ 32) (h : ∀ i, i < 4 → (a + BitVec.ofNat 32 i - buffer).toNat < len) :
    (m.memset buffer 0 len).load32 a = 0#32 := by
  apply BitVec.eq_of_getLsbD_eq
  intro k hk
  rw [getLsbD_load32 _ _ hk, memset_apply _ _ _ hlen, if_pos (h _ (by omega))]
  simp

end Mem

end FanOS

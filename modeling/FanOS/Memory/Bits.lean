import FanOS.Memory.Bytes

/-!
# Bit arrays in byte-addressed memory

A bit array that starts at address `base` keeps bit `b` in byte `b / 8`, at position `b % 8`
(`Mem.bit`).  Read as 32-bit little-endian words this is bit `b % 32` of word `b / 32`
(`getLsbD_load32_word`), so that or-ing or masking one word changes one bit and no other
(`bit_store32_or`, `bit_store32_and`).  Bit positions are natural numbers below `2 ^ 35`, the
number of bits of a 32-bit address space.
-/

namespace FanOS.Mem

/-- Bit `b` of the bit array at `base`. -/
def bit (m : Mem) (base : BitVec 32) (b : ℕ) : Bool :=
  (m (base + BitVec.ofNat 32 (b / 8))).getLsbD (b % 8)

/-- The address of word `i` of an array at `base`. -/
def word (base : BitVec 32) (i : ℕ) : BitVec 32 := base + BitVec.ofNat 32 (4 * i)

/-- Bit `k` of word `i` is bit `32 * i + k` of the array. -/
theorem getLsbD_load32_word (m : Mem) (base : BitVec 32) (i : ℕ) {k : ℕ} (hk : k < 32) :
    (m.load32 (word base i)).getLsbD k = m.bit base (32 * i + k) := by
  rw [getLsbD_load32 _ _ hk, bit, word]
  rw [show (32 * i + k) / 8 = 4 * i + k / 8 by omega, show (32 * i + k) % 8 = k % 8 by omega,
    BitVec.ofNat_add, BitVec.add_assoc]

/-- A word of ones is the word all of whose bits are set. -/
theorem load32_word_eq_allOnes_iff (m : Mem) (base : BitVec 32) (i : ℕ) :
    m.load32 (word base i) = 0xFFFFFFFF#32 ↔ ∀ k, k < 32 → m.bit base (32 * i + k) = true := by
  constructor
  · intro h k hk
    rw [← getLsbD_load32_word m base i hk, h, show 0xFFFFFFFF#32 = BitVec.allOnes 32 from rfl,
      BitVec.getLsbD_allOnes, decide_eq_true hk]
  · intro h
    apply BitVec.eq_of_getLsbD_eq
    intro k hk
    rw [getLsbD_load32_word m base i hk, h k hk, show 0xFFFFFFFF#32 = BitVec.allOnes 32 from rfl,
      BitVec.getLsbD_allOnes, decide_eq_true hk]

/-- A word store replaces the 32 bits of its word. -/
theorem bit_store32 (m : Mem) (base v : BitVec 32) {i b : ℕ} (hi : i < 2 ^ 30)
    (hb : b < 2 ^ 35) :
    (m.store32 (word base i) v).bit base b =
      if b / 32 = i then v.getLsbD (b % 32) else m.bit base b := by
  have hd : (base + BitVec.ofNat 32 (b / 8) - word base i).toNat < 4 ↔ b / 32 = i := by
    unfold word
    bv_omega
  unfold bit
  rw [store32_apply]
  by_cases h : b / 32 = i
  · have hv : (base + BitVec.ofNat 32 (b / 8) - word base i).toNat = b % 32 / 8 := by
      unfold word
      bv_omega
    rw [if_pos h, if_pos (hd.mpr h), hv, BitVec.getLsbD_extractLsb',
      show 8 * (b % 32 / 8) + b % 8 = b % 32 by omega]
    simp [show b % 8 < 8 by omega]
  · rw [if_neg h, if_neg (mt hd.mp h)]

/-- A word store that changes the bit at position `n % 32` of its word changes bit `n` and no other. -/
theorem bit_store32_of_getLsbD (m : Mem) (base : BitVec 32) {v : BitVec 32} {n b : ℕ} {c : Bool}
    (hv : ∀ k < 32, v.getLsbD k = if k = n % 32 then c else (m.load32 (word base (n / 32))).getLsbD k)
    (hn : n < 2 ^ 35) (hb : b < 2 ^ 35) :
    (m.store32 (word base (n / 32)) v).bit base b = if b = n then c else m.bit base b := by
  rw [bit_store32 m base _ (by omega) hb]
  by_cases h : b / 32 = n / 32
  · have hmod : b % 32 < 32 := Nat.mod_lt _ (by norm_num)
    rw [if_pos h, hv _ hmod, getLsbD_load32_word m base _ hmod, show 32 * (n / 32) + b % 32 = b by omega]
    exact if_congr (by omega) rfl rfl
  · rw [if_neg h, if_neg (by rintro rfl; exact h rfl)]

/-- The bits of `1 << j`. -/
theorem getLsbD_one_shiftLeft {j k : ℕ} (hk : k < 32) : (1#32 <<< j).getLsbD k = decide (k = j) := by
  rw [← BitVec.twoPow_eq, BitVec.getLsbD_twoPow]
  by_cases hkj : k = j
  · subst hkj
    simp [hk]
  · simp [hkj, Ne.symm hkj]

/-- Or-ing a word with `1 << (n % 32)` sets bit `n` and no other. -/
theorem bit_store32_or (m : Mem) (base : BitVec 32) {n b : ℕ} (hn : n < 2 ^ 35)
    (hb : b < 2 ^ 35) :
    (m.store32 (word base (n / 32))
        (m.load32 (word base (n / 32)) ||| (1#32 <<< (n % 32)))).bit base b =
      (decide (b = n) || m.bit base b) := by
  rw [bit_store32_of_getLsbD (c := true) m base ?_ hn hb]
  · by_cases hbn : b = n <;> simp [hbn]
  · intro k hk
    rw [BitVec.getLsbD_or, getLsbD_one_shiftLeft hk]
    by_cases hkn : k = n % 32 <;> simp [hkn]

/-- Masking a word with `~(1 << (n % 32))` clears bit `n` and no other. -/
theorem bit_store32_and (m : Mem) (base : BitVec 32) {n b : ℕ} (hn : n < 2 ^ 35)
    (hb : b < 2 ^ 35) :
    (m.store32 (word base (n / 32))
        (m.load32 (word base (n / 32)) &&& ~~~(1#32 <<< (n % 32)))).bit base b =
      (!decide (b = n) && m.bit base b) := by
  rw [bit_store32_of_getLsbD (c := false) m base ?_ hn hb]
  · by_cases hbn : b = n <;> simp [hbn]
  · intro k hk
    rw [BitVec.getLsbD_and, BitVec.getLsbD_not, getLsbD_one_shiftLeft hk, decide_eq_true hk]
    by_cases hkn : k = n % 32 <;> simp [hkn]

/-- `memset` from the base of the array gives every bit of the first `len` bytes the value it
has in the byte. -/
theorem bit_memset (m : Mem) (base : BitVec 32) (byte : BitVec 8) {len b : ℕ}
    (hlen : len ≤ 2 ^ 32) (hb : b < 2 ^ 35) :
    (m.memset base byte len).bit base b =
      if b < 8 * len then byte.getLsbD (b % 8) else m.bit base b := by
  have hd : (base + BitVec.ofNat 32 (b / 8) - base).toNat = b / 8 := by bv_omega
  unfold bit
  rw [memset_apply _ _ _ hlen, hd]
  by_cases h : b < 8 * len
  · rw [if_pos (by omega), if_pos h]
  · rw [if_neg (by omega), if_neg h]

end FanOS.Mem

import FanOS.Memory.Bytes

/-!
# Blocks of memory

A device delivers its data as a block of bytes (`storeBlock`), and a string instruction copies one
block over another word by word (`movsd`).  Both are described at number addresses, with no
wrap-around: `storeBlock_ofNat` and `movsd_ofNat` say what every byte of memory is afterwards.
-/

namespace FanOS.Mem

variable {x y n base len : ℕ}

/-- Store `len` bytes from `base` on. -/
def storeBlock (m : Mem) (base : BitVec 32) (len : ℕ) (bytes : ℕ → BitVec 8) : Mem :=
  fun x => if (x - base).toNat < len then bytes (x - base).toNat else m x

/-- The little-endian half word at `a`. -/
def load16 (m : Mem) (a : BitVec 32) : BitVec 16 :=
  m (a + 1) ++ m a

/-- `rep movsd`: copy `n` words upwards from `esi` to `edi`. -/
def movsd (m : Mem) (edi esi : BitVec 32) : ℕ → Mem
  | 0 => m
  | n + 1 => movsd (m.store32 edi (m.load32 esi)) (edi + 4) (esi + 4) n

/-- A stored block is what lies at its own addresses, and nothing else changes. -/
theorem storeBlock_ofNat (m : Mem) (bytes : ℕ → BitVec 8) (hx : x < 2 ^ 32)
    (hb : base + len ≤ 2 ^ 32) :
    m.storeBlock (BitVec.ofNat 32 base) len bytes (BitVec.ofNat 32 x) =
      if base ≤ x ∧ x < base + len then bytes (x - base) else m (BitVec.ofNat 32 x) := by
  unfold storeBlock
  by_cases h : base ≤ x ∧ x < base + len
  · have hd : (BitVec.ofNat 32 x - BitVec.ofNat 32 base).toNat = x - base := by bv_omega
    rw [hd, if_pos (by omega), if_pos h]
  · rw [if_neg, if_neg h]
    rcases Nat.eq_zero_or_pos len with h0 | h0
    · omega
    · bv_omega

/-- A half word as a number. -/
theorem toNat_load16 (m : Mem) (a : BitVec 32) :
    (m.load16 a).toNat = (m a).toNat + 256 * (m (a + 1)).toNat := by
  have hlt := (m a).isLt
  rw [load16, BitVec.toNat_append, ← Nat.shiftLeft_add_eq_or_of_lt hlt, Nat.shiftLeft_eq]
  omega

/-- The byte at `a + i` of a word is byte `i` of what `load32` reads at `a`. -/
theorem extractLsb'_load32 (m : Mem) (a : BitVec 32) {i : ℕ} (hi : i < 4) :
    (m.load32 a).extractLsb' (8 * i) 8 = m (a + BitVec.ofNat 32 i) := by
  apply BitVec.eq_of_getLsbD_eq
  intro k hk
  rw [BitVec.getLsbD_extractLsb', getLsbD_load32 m a (by omega),
    show (8 * i + k) / 8 = i by omega, show (8 * i + k) % 8 = k by omega]
  simp [hk]

/-- A word is two half words. -/
theorem toNat_load32 (m : Mem) (a : BitVec 32) :
    (m.load32 a).toNat = (m.load16 a).toNat + 65536 * (m.load16 (a + 2)).toNat := by
  have h0 := (m a).isLt
  have h1 := (m (a + 1)).isLt
  have h2 := (m (a + 2)).isLt
  rw [toNat_load16, toNat_load16, load32, BitVec.toNat_append, BitVec.toNat_append, BitVec.toNat_append,
    ← Nat.shiftLeft_add_eq_or_of_lt h0, ← Nat.shiftLeft_add_eq_or_of_lt h1,
    ← Nat.shiftLeft_add_eq_or_of_lt h2, BitVec.add_assoc, show (2 : BitVec 32) + 1 = 3 from rfl]
  simp only [Nat.shiftLeft_eq]
  omega

/-- A word is stored elsewhere. -/
theorem store32_ofNat_of_ne (m : Mem) (v : BitVec 32) (hx : x < 2 ^ 32) (hy : y + 4 ≤ 2 ^ 32)
    (hxy : x < y ∨ y + 4 ≤ x) :
    m.store32 (BitVec.ofNat 32 y) v (BitVec.ofNat 32 x) = m (BitVec.ofNat 32 x) := by
  rw [store32_apply, if_neg (by bv_omega)]

/-- Copying one word copies its four bytes. -/
theorem store32_load32_ofNat (m : Mem) (hx : x < 2 ^ 32) (hy : y + 4 ≤ 2 ^ 32)
    {esi : ℕ} :
    m.store32 (BitVec.ofNat 32 y) (m.load32 (BitVec.ofNat 32 esi)) (BitVec.ofNat 32 x) =
      if y ≤ x ∧ x < y + 4 then m (BitVec.ofNat 32 (esi + (x - y))) else m (BitVec.ofNat 32 x) := by
  by_cases h : y ≤ x ∧ x < y + 4
  · have hd : (BitVec.ofNat 32 x - BitVec.ofNat 32 y).toNat = x - y := by bv_omega
    rw [store32_apply, hd, if_pos (by omega), if_pos h, extractLsb'_load32 _ _ (by omega),
      ← BitVec.ofNat_add]
  · rw [m.store32_ofNat_of_ne _ hx hy (by omega), if_neg h]

/-- Copying `n` words to a place above them leaves at the destination what was at the source. -/
theorem movsd_ofNat (m : Mem) (edi esi : ℕ) (hx : x < 2 ^ 32) (hle : esi + 4 * n ≤ edi)
    (hlt : edi + 4 * n ≤ 2 ^ 32) :
    m.movsd (BitVec.ofNat 32 edi) (BitVec.ofNat 32 esi) n (BitVec.ofNat 32 x) =
      if edi ≤ x ∧ x < edi + 4 * n then m (BitVec.ofNat 32 (esi + (x - edi)))
      else m (BitVec.ofNat 32 x) := by
  induction n generalizing m edi esi with
  | zero => rw [movsd, if_neg (by omega)]
  | succ n ih =>
    have hword : BitVec.ofNat 32 edi + 4 = BitVec.ofNat 32 (edi + 4) ∧
        BitVec.ofNat 32 esi + 4 = BitVec.ofNat 32 (esi + 4) :=
      ⟨(BitVec.ofNat_add edi 4).symm, (BitVec.ofNat_add esi 4).symm⟩
    rw [movsd, hword.1, hword.2, ih _ _ _ (by omega) (by omega)]
    by_cases h1 : edi + 4 ≤ x ∧ x < edi + 4 + 4 * n
    · -- a later word: its source lies below the word just stored
      rw [if_pos h1, if_pos (by omega), store32_load32_ofNat _ (by omega) (by omega),
        if_neg (by omega), show esi + 4 + (x - (edi + 4)) = esi + (x - edi) by omega]
    · rw [if_neg h1, store32_load32_ofNat _ hx (by omega)]
      by_cases h2 : edi ≤ x ∧ x < edi + 4
      · rw [if_pos h2, if_pos (by omega)]
      · rw [if_neg h2, if_neg (by omega)]

end FanOS.Mem

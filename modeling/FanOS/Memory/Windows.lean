import FanOS.Memory.Bytes

/-!
# Windows below an address

A stack grows down from its top.  `Below top n a` says that `a` is one of the `n` bytes under `top`; the
addresses may wrap.  Two stacks are apart when neither top is within reach of the other
(`disjoint_iff`).
-/

namespace FanOS.Mem

variable {m : Mem} {top top' a w : BitVec 32} {n n' k : ℕ}

/-- One of the `n` bytes under `top`. -/
def Below (top : BitVec 32) (n : ℕ) (a : BitVec 32) : Prop := (top - 1 - a).toNat < n

instance (top : BitVec 32) (n : ℕ) (a : BitVec 32) : Decidable (Below top n a) :=
  inferInstanceAs (Decidable (_ < _))

theorem Below.mono (h : Below top n a) (hn : n ≤ n') : Below top n' a := Nat.lt_of_lt_of_le h hn

/-- A window that begins further down. -/
theorem Below.of_sub (h : Below (top - BitVec.ofNat 32 k) n a) : Below top (n + k) a := by
  unfold Below at *
  have hsum : top - 1 - a = top - BitVec.ofNat 32 k - 1 - a + BitVec.ofNat 32 k := by bv_omega
  have hle : (BitVec.ofNat 32 k).toNat ≤ k := by
    rw [BitVec.toNat_ofNat]
    exact Nat.mod_le k _
  rw [hsum, BitVec.toNat_add]
  exact (Nat.mod_le _ _).trans_lt (by omega)

/-- It does not reach into what is above it. -/
theorem Below.not_of_sub (h : Below (top - BitVec.ofNat 32 k) n a) (hn : n + k ≤ 2 ^ 32) :
    ¬Below top k a := by
  unfold Below at *
  bv_omega

/-- What is below the upper part lies in the rest. -/
theorem Below.sub_of_not (h : Below top n a) (hnot : ¬Below top k a) :
    Below (top - BitVec.ofNat 32 k) (n - k) a := by
  unfold Below at *
  bv_omega

/-- A word that is pushed lies below the top. -/
theorem store32_of_not_below (h : ¬Below top 4 a) : m.store32 (top - 4) w a = m a := by
  rw [store32_apply, if_neg]
  unfold Below at h
  bv_omega

/-- **Windows are disjoint** if and only if each top is out of reach of the other window. -/
theorem disjoint_iff (hn : 0 < n) (hk : 0 < k) :
    (∀ a, Below top n a → ¬Below top' k a) ↔ n ≤ (top - top').toNat ∧ k ≤ (top' - top).toNat := by
  unfold Below
  constructor
  · intro h
    constructor
    · -- the byte under the other top
      by_contra hlt
      refine h (top' - 1) ?_ ?_
      · rwa [show top - 1 - (top' - 1) = top - top' by bv_omega, ← Nat.not_le]
      · rwa [BitVec.sub_self]
    · by_contra hlt
      refine h (top - 1) ?_ ?_
      · rwa [BitVec.sub_self]
      · rwa [show top' - 1 - (top - 1) = top' - top by bv_omega, ← Nat.not_le]
  · rintro ⟨hn', hk'⟩ a ha
    bv_omega

end FanOS.Mem

import FanOS.Memory.Bytes

/-!
# Regions of memory

Addresses as natural numbers below `2 ^ 32`.  `AgreeOn m m' lo hi` says that two memories hold the
same bytes in `[lo, hi)`; a store keeps agreement with every region that it lies outside of, and a
load inside the region sees no difference.
-/

namespace FanOS.Mem

variable {m m' m'' : Mem} {lo hi x y : ℕ}

/-- The memories hold the same bytes in `[lo, hi)`. -/
def AgreeOn (m m' : Mem) (lo hi : ℕ) : Prop :=
  ∀ x, lo ≤ x → x < hi → m (BitVec.ofNat 32 x) = m' (BitVec.ofNat 32 x)

theorem AgreeOn.refl (m : Mem) (lo hi : ℕ) : AgreeOn m m lo hi := fun _ _ _ => rfl

theorem AgreeOn.trans (h : AgreeOn m m' lo hi) (h' : AgreeOn m' m'' lo hi) :
    AgreeOn m m'' lo hi := fun x h1 h2 => (h x h1 h2).trans (h' x h1 h2)

theorem AgreeOn.symm (h : AgreeOn m m' lo hi) : AgreeOn m' m lo hi := fun x h1 h2 => (h x h1 h2).symm

theorem AgreeOn.mono (h : AgreeOn m m' lo hi) {lo' hi' : ℕ} (hlo : lo ≤ lo') (hhi : hi' ≤ hi) :
    AgreeOn m m' lo' hi' := fun x h1 h2 => h x (by omega) (by omega)

/-- A load inside the region sees no difference. -/
theorem AgreeOn.load32 (h : AgreeOn m m' lo hi) (hlo : lo ≤ x) (hhi : x + 4 ≤ hi) :
    m.load32 (BitVec.ofNat 32 x) = m'.load32 (BitVec.ofNat 32 x) := by
  apply load32_congr
  intro i hi4
  rw [← BitVec.ofNat_add]
  exact h _ (by omega) (by omega)

/-- A store outside the region keeps agreement. -/
theorem agreeOn_store32 (m : Mem) (v : BitVec 32) (hx : x + 4 ≤ 2 ^ 32) (hhi : hi ≤ 2 ^ 32)
    (h : x + 4 ≤ lo ∨ hi ≤ x) : AgreeOn (m.store32 (BitVec.ofNat 32 x) v) m lo hi := by
  intro y h1 h2
  rw [store32_apply, if_neg]
  bv_omega

/-- A load after a store, for words that are equal or apart. -/
theorem load32_store32_ofNat (m : Mem) (v : BitVec 32) (hx : x + 4 ≤ 2 ^ 32) (hy : y + 4 ≤ 2 ^ 32)
    (h : x = y ∨ x + 4 ≤ y ∨ y + 4 ≤ x) :
    (m.store32 (BitVec.ofNat 32 x) v).load32 (BitVec.ofNat 32 y) =
      if x = y then v else m.load32 (BitVec.ofNat 32 y) := by
  by_cases hxy : x = y
  · rw [if_pos hxy, hxy, load32_store32_self]
  · rw [if_neg hxy, load32_store32_of_apart _ _ (apart_of_add_four_le (by omega) hy hx)]

end FanOS.Mem

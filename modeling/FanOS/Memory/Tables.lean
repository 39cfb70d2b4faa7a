import FanOS.Memory.Bytes

/-!
# Tables of words in memory

A table is a page-aligned array of 1024 words.  Entries of tables are one index and one table
apart or equal, so a load after a store to an entry (`load32_store32_entry`) or after clearing a
table (`load32_memset_entry`) is a matter of comparing tables and indices.
-/

namespace FanOS.Mem

/-- Update the word at `a` in place. -/
def modify32 (m : Mem) (a : BitVec 32) (f : BitVec 32 → BitVec 32) : Mem :=
  m.store32 a (f (m.load32 a))

/-- The later of two stores to a word is the one that counts. -/
@[simp] theorem store32_store32_self (m : Mem) (a v w : BitVec 32) :
    (m.store32 a v).store32 a w = m.store32 a w := by
  ext x : 1
  simp only [store32_apply]
  split_ifs <;> rfl

@[simp] theorem modify32_modify32_self (m : Mem) (a : BitVec 32) (f g : BitVec 32 → BitVec 32) :
    (m.modify32 a f).modify32 a g = m.modify32 a fun e => g (f e) := by
  simp [modify32]

/-- The table starts on a page boundary. -/
def PageAligned (t : BitVec 32) : Prop := t.toNat % 4096 = 0

instance (t : BitVec 32) : Decidable (PageAligned t) :=
  inferInstanceAs (Decidable (t.toNat % 4096 = 0))

/-- The address of entry `i` of the table at `t`. -/
def entry (t i : BitVec 32) : BitVec 32 := t + 4 * i

section

variable {t u i j : BitVec 32}

theorem apart_entry (ht : PageAligned t) (hu : PageAligned u) (hi : i.toNat < 1024)
    (hj : j.toNat < 1024) (h : t ≠ u ∨ i ≠ j) : Apart (entry u j) (entry t i) := by
  have h' : t.toNat ≠ u.toNat ∨ i.toNat ≠ j.toNat :=
    h.imp (fun h => mt BitVec.eq_of_toNat_eq h) fun h => mt BitVec.eq_of_toNat_eq h
  unfold PageAligned at ht hu
  unfold Apart entry
  constructor <;> bv_omega

/-- A store to an entry changes that entry and no other. -/
theorem load32_store32_entry (m : Mem) (v : BitVec 32) (ht : PageAligned t) (hu : PageAligned u)
    (hi : i.toNat < 1024) (hj : j.toNat < 1024) :
    (m.store32 (entry t i) v).load32 (entry u j) =
      if t = u ∧ i = j then v else m.load32 (entry u j) := by
  by_cases h : t = u ∧ i = j
  · obtain ⟨rfl, rfl⟩ := h
    simp
  · rw [if_neg h, load32_store32_of_apart _ _ (apart_entry ht hu hi hj (by tauto))]

/-- The same for an update in place. -/
theorem load32_modify32_entry (m : Mem) (f : BitVec 32 → BitVec 32) (ht : PageAligned t)
    (hu : PageAligned u) (hi : i.toNat < 1024) (hj : j.toNat < 1024) :
    (m.modify32 (entry t i) f).load32 (entry u j) =
      if t = u ∧ i = j then f (m.load32 (entry u j)) else m.load32 (entry u j) := by
  rw [modify32, load32_store32_entry _ _ ht hu hi hj]
  split_ifs with h
  · rw [h.1, h.2]
  · rfl

/-- Clearing a table clears its entries and no others. -/
theorem load32_memset_entry (m : Mem) (ht : PageAligned t) (hu : PageAligned u)
    (hj : j.toNat < 1024) :
    (m.memset t 0 4096).load32 (entry u j) = if t = u then 0 else m.load32 (entry u j) := by
  unfold PageAligned at ht hu
  by_cases h : t = u
  · subst h
    rw [if_pos rfl, load32_memset_zero _ (by decide)]
    · rfl
    · intro k hk
      unfold entry
      bv_omega
  · rw [if_neg h, load32_memset_of_apart _ _ (by decide)]
    intro k hk
    have h' := mt BitVec.eq_of_toNat_eq h
    unfold entry
    bv_omega

end

end FanOS.Mem

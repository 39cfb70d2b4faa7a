import FanOS.Memory.Windows

/-!
# Stacks of words in memory

`Stacked m sp ws` says that the words `ws` are in memory from `sp` on, the top one first.  Pushing a word
puts it in front (`Stacked.push`), whatever the stack pointer is: the addresses may wrap.  `pushAll` pushes
several.
-/

namespace FanOS.Mem

variable {m m' : Mem} {sp a w : BitVec 32} {ws : List (BitVec 32)}

/-- The words `ws` are in memory from `sp` on. -/
def Stacked (m : Mem) : BitVec 32 → List (BitVec 32) → Prop
  | _, [] => True
  | sp, w :: ws => m.load32 sp = w ∧ Stacked m (sp + 4) ws

/-- A stack depends on its bytes only. -/
theorem Stacked.congr (h : Stacked m sp ws)
    (hag : ∀ i < 4 * ws.length, m' (sp + BitVec.ofNat 32 i) = m (sp + BitVec.ofNat 32 i)) :
    Stacked m' sp ws := by
  induction ws generalizing sp with
  | nil => trivial
  | cons w ws ih =>
    rw [List.length_cons] at hag
    refine ⟨?_, ih h.2 fun i hi => ?_⟩
    · rw [load32_congr fun i hi => hag i (by omega)]
      exact h.1
    · have hbyte := hag (i + 4) (by omega)
      rwa [Nat.add_comm i 4, BitVec.ofNat_add, ← BitVec.add_assoc] at hbyte

/-- A word is pushed, if the stack does not fill the whole memory. -/
theorem Stacked.push (h : Stacked m sp ws) (hlen : ws.length < 2 ^ 30 - 1) (w : BitVec 32) :
    Stacked (m.store32 (sp - 4) w) (sp - 4) (w :: ws) := by
  refine ⟨load32_store32_self _ _ _, ?_⟩
  rw [show sp - 4 + 4 = sp from BitVec.sub_add_cancel sp 4]
  refine h.congr fun i hi => ?_
  rw [store32_apply, if_neg]
  bv_omega

/-- The words `ws` are pushed, the last one first, on the stack at `sp`. -/
def pushAll (m : Mem) (sp : BitVec 32) : List (BitVec 32) → Mem
  | [] => m
  | w :: ws => (pushAll m sp ws).store32 (sp - BitVec.ofNat 32 (4 * ws.length) - 4) w

theorem stacked_pushAll (m : Mem) (sp : BitVec 32) (hlen : ws.length < 2 ^ 30) :
    Stacked (pushAll m sp ws) (sp - BitVec.ofNat 32 (4 * ws.length)) ws := by
  induction ws with
  | nil => trivial
  | cons w ws ih =>
    rw [List.length_cons] at hlen
    have hsp : sp - BitVec.ofNat 32 (4 * (w :: ws).length) =
        sp - BitVec.ofNat 32 (4 * ws.length) - 4 := by
      rw [List.length_cons]
      bv_omega
    rw [hsp, pushAll]
    exact (ih (by omega)).push (by omega) w

/-- Only the window below the stack pointer changes. -/
theorem pushAll_of_not_below (h : ¬Below sp (4 * ws.length) a) : pushAll m sp ws a = m a := by
  induction ws with
  | nil => rfl
  | cons w ws ih =>
    rw [List.length_cons] at h
    rw [pushAll, store32_of_not_below fun hbelow => h ?_, ih fun hbelow => h (hbelow.mono (by omega))]
    exact hbelow.of_sub.mono (by omega)

/-- What is in that window does not matter. -/
theorem pushAll_of_below (hlen : ws.length < 2 ^ 30) (h : Below sp (4 * ws.length) a) (m m' : Mem) :
    pushAll m sp ws a = pushAll m' sp ws a := by
  induction ws with
  | nil => exact absurd h (Nat.not_lt_zero _)
  | cons w ws ih =>
    rw [List.length_cons] at h hlen
    rw [pushAll, pushAll, store32_apply, store32_apply]
    by_cases hword : (a - (sp - BitVec.ofNat 32 (4 * ws.length) - 4)).toNat < 4
    · rw [if_pos hword, if_pos hword]
    · rw [if_neg hword, if_neg hword]
      refine ih (by omega) ?_
      unfold Below at *
      bv_omega

end FanOS.Mem

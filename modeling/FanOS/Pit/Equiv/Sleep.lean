import FanOS.Pit.Basic
import Mathlib.Data.Nat.Bitwise
import Mathlib.Tactic.SplitIfs

/-!
# When `sleep` returns

The counter is `count` and the interrupts since the call, up to multiples of `2 ^ 32`, and what `sleep` waits
for is what it was at some interrupt, and `ms` (`Inv`).  If that sum wraps round, `sleep` returns at once.
After `ms` interrupts it may do so, but the counter may be read after fewer.  So `sleep` never returns early
if and only if twice the delay can be added to the counter (`neverEarly_iff`).
-/

namespace FanOS.Pit

variable {ms count : BitVec 32} {s : Sleep} {k : ℕ}

/-- What is known of the counter and of `ticks`. -/
structure Inv (ms count : BitVec 32) (s : Sleep) : Prop where
  pitTicks : s.pitTicks = count + BitVec.ofNat 32 s.irqs
  poll : ∀ ticks, s.place = .poll ticks → ∃ k ≤ s.irqs, ticks = ms + (count + BitVec.ofNat 32 k)
  returned : s.place = .returned → ms.toNat ≤ s.irqs

theorem inv_start : Inv ms count ⟨count, .start, 0⟩ where
  pitTicks := (BitVec.add_zero count).symm
  poll _ h := nomatch h
  returned h := nomatch h

/-- Twice the delay can be added to the counter. -/
def HasRoom (ms count : BitVec 32) : Prop := ms = 0 ∨ count.toNat + 2 * ms.toNat ≤ 2 ^ 32

/-- Once the counter has come to the sum, there have been enough interrupts. -/
theorem le_irqs_of_le (hroom : HasRoom ms count) {n : ℕ} (hk : k ≤ n)
    (hle : ¬ ms + (count + BitVec.ofNat 32 k) > count + BitVec.ofNat 32 n) : ms.toNat ≤ n := by
  rcases hroom with rfl | hroom
  · exact Nat.zero_le n
  · rcases Nat.lt_or_ge k ms.toNat with hlt | hge
    · -- the sum has not wrapped round; if the counter has, that took even more interrupts
      have hsum : (ms + (count + BitVec.ofNat 32 k)).toNat = ms.toNat + count.toNat + k := by
        simp only [BitVec.toNat_add, BitVec.toNat_ofNat]
        omega
      have hcount : (count + BitVec.ofNat 32 n).toNat = (count.toNat + n) % 2 ^ 32 := by
        simp only [BitVec.toNat_add, BitVec.toNat_ofNat]
        omega
      have hle' : (ms + (count + BitVec.ofNat 32 k)).toNat ≤ (count + BitVec.ofNat 32 n).toNat :=
        Nat.not_lt.mp hle
      omega
    · exact hge.trans hk

theorem Inv.irq (h : Inv ms count s) : Inv ms count (timerIrq0Handler s) where
  pitTicks := by
    show s.pitTicks + 1 = count + BitVec.ofNat 32 (s.irqs + 1)
    rw [h.pitTicks, BitVec.ofNat_add, BitVec.add_assoc]
    rfl
  poll ticks hplace := by
    obtain ⟨k, hk, hticks⟩ := h.poll ticks hplace
    exact ⟨k, hk.trans (Nat.le_succ _), hticks⟩
  returned hplace := (h.returned hplace).trans (Nat.le_succ _)

theorem Inv.sleep (hroom : HasRoom ms count) (h : Inv ms count s) :
    Inv ms count (sleepStep ms s) := by
  unfold sleepStep
  cases hplace : s.place with
  | start =>
    refine ⟨h.pitTicks, ?_, fun heq => nomatch heq⟩
    rintro ticks ⟨⟩
    exact ⟨s.irqs, le_rfl, by rw [getTickCount, h.pitTicks]⟩
  | poll ticks =>
    obtain ⟨k, hk, hticks⟩ := h.poll ticks hplace
    dsimp only
    split_ifs with hgt
    · exact h
    · refine ⟨h.pitTicks, fun _ heq => (nomatch heq), fun _ => ?_⟩
      rw [getTickCount, hticks, h.pitTicks] at hgt
      exact le_irqs_of_le hroom hk hgt
  | returned => exact h

theorem inv_of_reachable (hroom : HasRoom ms count) (h : (sleepSystem ms count).Reachable s) :
    Inv ms count s := by
  refine h.invariant (I := Inv ms count) ?_ ?_
  · rintro _ rfl
    exact inv_start
  · rintro s e _ hinv rfl
    cases e with
    | irq => exact hinv.irq
    | sleep => exact hinv.sleep hroom

/-! ### Returning early -/

/-- Interrupts may come before the counter is read. -/
theorem reachable_irqs (ms count : BitVec 32) (k : ℕ) :
    (sleepSystem ms count).Reachable ⟨count + BitVec.ofNat 32 k, .start, k⟩ := by
  induction k with
  | zero =>
    rw [BitVec.add_zero]
    exact .init rfl
  | succ k ih =>
    apply ih.step (a := .irq)
    show _ = timerIrq0Handler _
    rw [timerIrq0Handler, BitVec.ofNat_add, ← BitVec.add_assoc]
    rfl

/-- A sum that is not above the counter makes `sleep` return at once. -/
theorem reachable_returned (h : ¬ ms + (count + BitVec.ofNat 32 k) > count + BitVec.ofNat 32 k) :
    (sleepSystem ms count).Reachable ⟨count + BitVec.ofNat 32 k, .returned, k⟩ := by
  have hpoll : (sleepSystem ms count).Reachable
      ⟨count + BitVec.ofNat 32 k, .poll (ms + (count + BitVec.ofNat 32 k)), k⟩ :=
    (reachable_irqs ms count k).step (a := .sleep) rfl
  exact hpoll.step (a := .sleep) (if_neg h).symm

theorem not_neverEarly_of_not_hasRoom (h : ¬ HasRoom ms count) : ¬ NeverEarly ms count := by
  intro hnever
  obtain ⟨hms, hlt⟩ := not_or.mp h
  have hpos : 0 < ms.toNat := Nat.pos_of_ne_zero fun hzero => hms (BitVec.eq_of_toNat_eq hzero)
  have hms' := ms.isLt
  have hcount := count.isLt
  -- so many interrupts take the counter to where `ms` more wrap it round
  obtain ⟨k, hk⟩ : ∃ k, k = 2 ^ 32 - ms.toNat - count.toNat := ⟨_, rfl⟩
  have hwrap : ¬ ms + (count + BitVec.ofNat 32 k) > count + BitVec.ofNat 32 k := by
    apply Nat.not_lt.mpr
    simp only [BitVec.toNat_add, BitVec.toNat_ofNat]
    omega
  have hearly := hnever _ (reachable_returned hwrap) rfl
  dsimp only at hearly
  omega

/-- **`sleep` never returns early** if and only if its delay is zero or can be added to the counter twice. -/
theorem neverEarly_iff (ms count : BitVec 32) :
    NeverEarly ms count ↔ ms = 0 ∨ count.toNat + 2 * ms.toNat ≤ 2 ^ 32 := by
  constructor
  · intro hnever
    by_contra hroom
    exact not_neverEarly_of_not_hasRoom hroom hnever
  · exact fun hroom s hs => (inv_of_reachable hroom hs).returned

/-- Close to the end of the counter, `sleep(20)` returns at once. -/
theorem not_neverEarly : ¬ ∀ ms count : BitVec 32, NeverEarly ms count := by
  intro hall
  have hwrap : ¬ (20 : BitVec 32) + (0xFFFFFFF0 + BitVec.ofNat 32 0) > 0xFFFFFFF0 + BitVec.ofNat 32 0 := by
    decide
  exact absurd (hall 20 0xFFFFFFF0 _ (reachable_returned hwrap) rfl) (by decide)

end FanOS.Pit

import FanOS.Pit.Equiv.Sleep
import FanOS.Pit.Timer

/-!
# The timer runs at the frequency that is asked for

The command byte is for the channel if and only if the mode does not reach into its bits
(`channel_command_eq_iff`), and then two bytes give the counter its number.  That is the quotient that is
meant if and only if the frequency is between 19 and 65535 (`div_eq_iff`): above, the divisor is cut, and
below, the quotient is.  So the channel is set if and only if all this is so (`sets_iff`).

With the number that the kernel sets, the interrupts that `sleep(ms)` waits for take all but two of `ms`
periods at least (`clocks_of_sleep`).
-/

namespace FanOS.Pit

open Pit8253 (Chip Counter)

variable {channel mode : BitVec 8} {freq : BitVec 32} {s : Timer}

/-! ### The command -/

/-- The byte that is written to the command port. -/
def command (channel mode : BitVec 8) : BitVec 8 :=
  ((0 &&& ~~~pitOcwMaskChannel ||| pitOcwChannel channel) &&& ~~~pitOcwMaskMode ||| mode) &&&
    ~~~pitOcwMaskRl ||| pitOcwRlData

theorem channel_cases (h : ¬channel > 2) : channel = 0 ∨ channel = 1 ∨ channel = 2 := by
  have hcases : channel.toNat = 0 ∨ channel.toNat = 1 ∨ channel.toNat = 2 := by bv_omega
  exact hcases.imp (fun h => BitVec.eq_of_toNat_eq h)
    (Or.imp (fun h => BitVec.eq_of_toNat_eq h) fun h => BitVec.eq_of_toNat_eq h)

/-- What the command says of a counter. -/
theorem command_fields (mode : BitVec 8) (h : ¬channel > 2) :
    ((command channel mode) >>> 4).setWidth 2 = (3 : BitVec 2) ∧
    ((command channel mode) >>> 1).setWidth 3 = ((mode >>> 1).setWidth 3 : BitVec 3) ∧
    (command channel mode).getLsbD 0 = mode.getLsbD 0 := by
  obtain rfl | rfl | rfl := channel_cases h <;> revert mode <;> decide +kernel

/-- It is for the channel if and only if the mode does not reach into the bits of the channel. -/
theorem channel_command_eq_iff (h : ¬channel > 2) :
    ((command channel mode) >>> 6).setWidth 2 = (channel.setWidth 2 : BitVec 2) ↔
      mode &&& pitOcwMaskChannel ||| pitOcwChannel channel = pitOcwChannel channel := by
  obtain rfl | rfl | rfl := channel_cases h <;> revert mode <;> decide +kernel

/-! ### The number -/

/-- Where both are cut to 16 bits, the quotient is the one that is meant between these bounds only. -/
theorem div_eq_iff {f : ℕ} (hf : f % 2 ^ 16 ≠ 0) :
    1193181 / (f % 2 ^ 16) % 2 ^ 16 = 1193181 / f ↔ 19 ≤ f ∧ f ≤ 65535 := by
  have hsmall : ∀ r : Fin 19, r.val ≠ 0 → 18 < 1193181 / r.val % 2 ^ 16 := by decide
  constructor
  · intro heq
    have hlt := Nat.mod_lt (1193181 / (f % 2 ^ 16)) (show 0 < 2 ^ 16 by decide)
    have hlow : ¬f ≤ 18 := by
      intro hle
      have hquot : 1193181 / 18 ≤ 1193181 / f := Nat.div_le_div_left hle (by omega)
      omega
    refine ⟨by omega, ?_⟩
    by_contra hhigh
    have hquot : 1193181 / f ≤ 1193181 / 65536 := Nat.div_le_div_left (by omega) (by decide)
    by_cases hr : f % 2 ^ 16 ≤ 18
    · have := hsmall ⟨f % 2 ^ 16, by omega⟩ hf
      dsimp only at this
      omega
    · -- the divisor is above 18, so the quotient is not cut, and it is 18 at least
      have hupper : 1193181 / (f % 2 ^ 16) ≤ 1193181 / 19 := Nat.div_le_div_left (by omega) (by decide)
      have hlower : 1193181 / 65535 ≤ 1193181 / (f % 2 ^ 16) := Nat.div_le_div_left (by omega) (by omega)
      have hmul : 18 ≤ 1193181 / f := by omega
      have hf' : 18 * f ≤ 1193181 := (Nat.le_div_iff_mul_le (by omega)).mp hmul
      have hlast : 1193181 / 751 ≤ 1193181 / (f % 2 ^ 16) := Nat.div_le_div_left (by omega) (by omega)
      omega
  · rintro ⟨hlow, hhigh⟩
    have hquot : 1193181 / f ≤ 1193181 / 19 := Nat.div_le_div_left hlow (by decide)
    rw [Nat.mod_eq_of_lt (show f < 2 ^ 16 by omega), Nat.mod_eq_of_lt (by omega)]

/-- The number that is written. -/
def divisor (freq : BitVec 32) : BitVec 16 :=
  ((1193181 : BitVec 32) / (freq.setWidth 16 : BitVec 16).setWidth 32).setWidth 16

theorem toNat_divisor : (divisor freq).toNat = 1193181 / (freq.toNat % 2 ^ 16) % 2 ^ 16 := by
  unfold divisor
  rw [BitVec.toNat_setWidth, BitVec.toNat_udiv, BitVec.toNat_setWidth_of_le (by decide),
    BitVec.toNat_setWidth]
  rfl

theorem append_bytes (d : BitVec 16) : ((d >>> 8).setWidth 8 ++ d.setWidth 8 : BitVec 16) = d := by
  apply BitVec.eq_of_toNat_eq
  simp only [BitVec.toNat_append, BitVec.toNat_setWidth, BitVec.toNat_ushiftRight, Nat.shiftRight_eq_div_pow]
  rw [← Nat.shiftLeft_add_eq_or_of_lt (by omega), Nat.shiftLeft_eq]
  omega

/-! ### Setting a channel -/

/-- The writes of `pit_set_channel_mode_frequency`. -/
def setting (channel : BitVec 8) (freq : BitVec 32) (mode : BitVec 8) (chip : Chip) : Chip :=
  ((chip.write 3 (command channel mode)).write (channel.setWidth 2) ((divisor freq).setWidth 8)).write
    (channel.setWidth 2) ((divisor freq >>> 8).setWidth 8)

theorem pitSet_eq (hch : ¬channel > 2) (hlow : (freq.setWidth 16 : BitVec 16) ≠ 0) :
    pitSetChannelModeFrequency channel freq mode s = some ⟨setting channel freq mode s.chip, 0⟩ := by
  have hfreq : freq ≠ 0 := by
    rintro rfl
    exact hlow rfl
  unfold pitSetChannelModeFrequency
  rw [if_neg (not_or.mpr ⟨hch, hfreq⟩)]
  dsimp only
  rw [if_neg hlow]
  rfl

theorem channel_ne_three (hch : ¬channel > 2) : (channel.setWidth 2 : BitVec 2) ≠ 3 := by
  obtain rfl | rfl | rfl := channel_cases hch <;> decide

/-- The counter of a channel for which the command is. -/
theorem counter_setting (hch : ¬channel > 2)
    (hcommand : ((command channel mode) >>> 6).setWidth 2 = (channel.setWidth 2 : BitVec 2)) (chip : Chip) :
    setting channel freq mode chip = ⟨Function.update chip.counter (channel.setWidth 2)
      (let c : Counter := ⟨3, (mode >>> 1).setWidth 3, mode.getLsbD 0, divisor freq, false, none⟩
       { c with count := some c.period })⟩ := by
  obtain ⟨haccess, hmode, hbcd⟩ := command_fields mode hch
  have hthree := channel_ne_three hch
  have hwrite : chip.write 3 (command channel mode) = ⟨Function.update chip.counter (channel.setWidth 2)
      ⟨3, (mode >>> 1).setWidth 3, mode.getLsbD 0, (chip.counter (channel.setWidth 2)).reload, false,
        none⟩⟩ := by
    unfold Chip.write
    rw [if_pos rfl]
    dsimp only
    rw [haccess, hcommand, hmode, hbcd, if_neg (not_or.mpr ⟨hthree, by decide⟩)]
    rfl
  unfold setting
  rw [hwrite]
  unfold Chip.write
  simp only [if_neg hthree, Function.update_self, Function.update_idem]
  rw [Counter.write_write rfl rfl rfl, append_bytes]

/-- A command for another channel does not change how the counter is written. -/
theorem access_setting (freq : BitVec 32) (hch : ¬channel > 2)
    (hcommand : ((command channel mode) >>> 6).setWidth 2 ≠ (channel.setWidth 2 : BitVec 2)) (chip : Chip) :
    ((setting channel freq mode chip).counter (channel.setWidth 2)).access =
      (chip.counter (channel.setWidth 2)).access := by
  have hthree := channel_ne_three hch
  have hwrite : (chip.write 3 (command channel mode)).counter (channel.setWidth 2) =
      chip.counter (channel.setWidth 2) := by
    unfold Chip.write
    rw [if_pos rfl]
    dsimp only
    split_ifs
    · rfl
    · exact Function.update_of_ne hcommand.symm _ _
  unfold setting
  rw [← hwrite]
  generalize chip.write 3 (command channel mode) = written
  unfold Chip.write
  simp only [if_neg hthree, Function.update_self, Counter.access_write]

/-- **A channel is set** if and only if there is such a channel, the frequency is between 19 and 65535, and
the mode does not reach into the bits of the channel. -/
theorem sets_iff (channel : BitVec 8) (freq : BitVec 32) (mode : BitVec 8) :
    Sets channel freq mode ↔ channel ≤ 2 ∧ 19 ≤ freq.toNat ∧ freq.toNat ≤ 65535 ∧
      mode &&& pitOcwMaskChannel ||| pitOcwChannel channel = pitOcwChannel channel := by
  have htoNat : (freq.setWidth 16).toNat = freq.toNat % 2 ^ 16 := BitVec.toNat_setWidth 16 freq
  constructor
  · intro hall
    -- a timer of which something has to change
    obtain ⟨s', heq, hset⟩ := hall ⟨⟨fun _ => ⟨1, 0, false, 0, false, none⟩⟩, 1⟩
    have hcases : ¬(channel > 2 ∨ freq = 0) := by
      intro hskip
      rw [pitSetChannelModeFrequency, if_pos hskip] at heq
      rw [← Option.some.inj heq] at hset
      exact absurd hset.pitTicks (by decide)
    obtain ⟨hch, hfreq⟩ := not_or.mp hcases
    have hlow : (freq.setWidth 16 : BitVec 16) ≠ 0 := by
      intro hzero
      rw [pitSetChannelModeFrequency, if_neg hcases] at heq
      dsimp only at heq
      rw [if_pos hzero] at heq
      cases heq
    rw [pitSet_eq hch hlow] at heq
    rw [← Option.some.inj heq] at hset
    have hcommand : ((command channel mode) >>> 6).setWidth 2 = (channel.setWidth 2 : BitVec 2) := by
      by_contra hother
      have haccess := (access_setting freq hch hother _).symm.trans hset.access
      exact absurd (show (1 : BitVec 2) = 3 from haccess) (by decide)
    have hreload := hset.reload
    dsimp only at hreload
    rw [counter_setting hch hcommand] at hreload
    dsimp only at hreload
    rw [Function.update_self] at hreload
    have hmod : freq.toNat % 2 ^ 16 ≠ 0 := fun h => hlow (BitVec.eq_of_toNat_eq (htoNat.trans h))
    obtain ⟨hlower, hupper⟩ := (div_eq_iff hmod).mp (toNat_divisor.symm.trans hreload)
    exact ⟨BitVec.not_lt.mp hch, hlower, hupper, (channel_command_eq_iff hch).mp hcommand⟩
  · rintro ⟨hle, hlower, hupper, hmask⟩ s
    have hch : ¬channel > 2 := BitVec.not_lt.mpr hle
    have hmod : freq.toNat % 2 ^ 16 ≠ 0 := by omega
    have hlow : (freq.setWidth 16 : BitVec 16) ≠ 0 := by
      intro hzero
      rw [← htoNat, hzero] at hmod
      exact hmod rfl
    refine ⟨_, pitSet_eq hch hlow, ?_⟩
    rw [counter_setting hch ((channel_command_eq_iff hch).mpr hmask)]
    refine ⟨?_, ?_, ?_, ?_, ?_, fun ch hne => Function.update_of_ne hne _ _, rfl, ?_⟩ <;> dsimp only <;>
      rw [Function.update_self]
    · exact toNat_divisor.trans ((div_eq_iff hmod).mpr ⟨hlower, hupper⟩)
    · rfl

/-! ### `sleep` and the clock -/

variable {ms count : BitVec 32} {counter : Counter} {pending : Bool} {s : Clocked} {N k : ℕ}

/-- The request that has not been served. -/
def waiting (pending : Bool) : ℕ := if pending then 1 else 0

/-- No interrupt comes without a pulse. -/
structure ClockInv (ms count : BitVec 32) (counter : Counter) (pending : Bool) (s : Clocked) : Prop where
  sleep : (sleepSystem ms count).Reachable s.sleep
  after : s.counter = counter.after s.clocks
  irqs : s.sleep.irqs + waiting s.pending ≤ waiting pending + counter.pulses s.clocks

theorem irqs_sleepStep (ms : BitVec 32) (s : Sleep) : (sleepStep ms s).irqs = s.irqs := by
  unfold sleepStep
  split
  · rfl
  · split_ifs <;> rfl
  · rfl

theorem ClockInv.next (h : ClockInv ms count counter pending s) (e : ClockEvent) :
    ClockInv ms count counter pending (s.next ms e) := by
  have hirqs := h.irqs
  cases e with
  | clock =>
    refine ⟨h.sleep, ?_, ?_⟩
    · change s.counter.clock.1 = _
      rw [h.after]
      exact (Counter.after_succ _ _).symm
    · change s.sleep.irqs + waiting (s.pending || s.counter.clock.2) ≤ _ + counter.pulses (s.clocks + 1)
      rw [Counter.pulses_succ, ← h.after]
      have hrequest : waiting (s.pending || s.counter.clock.2) ≤
          waiting s.pending + if s.counter.clock.2 then 1 else 0 := by
        cases s.pending <;> cases s.counter.clock.2 <;> decide
      omega
  | irq =>
    change ClockInv ms count counter pending s.irq
    unfold Clocked.irq
    split_ifs with hpending
    · refine ⟨h.sleep.step (a := .irq) rfl, h.after, ?_⟩
      rw [hpending] at hirqs
      exact hirqs
    · exact h
  | sleep =>
    refine ⟨h.sleep.step (a := .sleep) rfl, h.after, ?_⟩
    change (sleepStep ms s.sleep).irqs + waiting s.pending ≤ _
    rw [irqs_sleepStep]
    exact hirqs

theorem clockInv_of_reachable (h : (clockedSystem ms count counter pending).Reachable s) :
    ClockInv ms count counter pending s := by
  refine h.invariant ?_ ?_
  · rintro _ rfl
    exact ⟨.init rfl, rfl, by simp⟩
  · rintro s e _ hinv rfl
    exact hinv.next e

/-- While `sleep(ms)` runs, all but two of `ms` periods pass at least. -/
theorem lt_clocks_of_returned (hroom : HasRoom ms count) (hruns : counter.Runs N k)
    (h : (clockedSystem ms count counter pending).Reachable s) (hreturned : s.sleep.place = .returned) :
    N * ms.toNat < s.clocks + 2 * N := by
  have hinv := clockInv_of_reachable h
  have hms : ms.toNat ≤ s.sleep.irqs := (inv_of_reachable hroom hinv.sleep).returned hreturned
  have hirqs := hinv.irqs
  rw [hruns.pulses_eq] at hirqs
  have hpending : waiting pending ≤ 1 := by
    unfold waiting
    split_ifs <;> decide
  have hpos := hruns.pos
  have hle := hruns.le
  have hquot : ms.toNat - 1 ≤ (s.clocks + (N - k)) / N := by
    rw [Nat.sub_le_iff_le_add']
    exact hms.trans ((Nat.le_add_right _ _).trans (hirqs.trans (Nat.add_le_add_right hpending _)))
  have hmul := (Nat.le_div_iff_mul_le (show 0 < N by omega)).mp hquot
  obtain hzero | ⟨n, hn⟩ : ms.toNat = 0 ∨ ∃ n, ms.toNat = n + 1 :=
    (Nat.eq_zero_or_eq_succ_pred _).imp_right fun h => ⟨_, h⟩
  · rw [hzero]
    omega
  · rw [hn, Nat.add_sub_cancel] at hmul
    rw [hn, Nat.mul_succ, Nat.mul_comm]
    omega

/-- The counter of channel 0 runs with the period that the kernel sets. -/
theorem runs_setting (chip : Chip) :
    ((setting 0 1000 pitOcwModeRategen chip).counter 0).Runs 1193 1193 := by
  rw [counter_setting (by decide) (by decide)]
  dsimp only
  rw [show (0 : BitVec 8).setWidth 2 = (0 : BitVec 2) from rfl, Function.update_self]
  exact ⟨by decide, by decide, by decide, by decide, le_rfl⟩

/-- **The timer and `sleep`**: from any state, `pit_set_channel_mode_frequency(0, 1000, PIT_OCW_MODE_RATEGEN)`
sets the timer so that, at any later time and however its interrupts are delayed, `sleep(ms)` returns only
after more clocks than `ms - 2` periods have, unless its sum wraps round. -/
theorem sleep_clocks (t : Timer) : ∃ t', pitSetChannelModeFrequency 0 1000 pitOcwModeRategen t = some t' ∧
    ∀ (n : ℕ) (pending : Bool) (ms count : BitVec 32), ms = 0 ∨ count.toNat + 2 * ms.toNat ≤ 2 ^ 32 →
      ∀ s, (clockedSystem ms count ((t'.chip.counter 0).after n) pending).Reachable s →
        s.sleep.place = .returned → 1193 * ms.toNat < s.clocks + 2 * 1193 := by
  refine ⟨_, pitSet_eq (by decide) (by decide), fun n pending ms count hroom s hs hreturned => ?_⟩
  obtain ⟨k, hruns⟩ := (runs_setting t.chip).exists_after n
  exact lt_clocks_of_returned hroom hruns hs hreturned

/-- `sleep(1)` with an interrupt that has been requested before: no clock has to pass. -/
theorem sleep_clocks_pending :
    ∃ t', pitSetChannelModeFrequency 0 1000 pitOcwModeRategen ⟨⟨fun _ => ⟨0, 0, false, 0, false, none⟩⟩, 0⟩ =
        some t' ∧
      ∃ s, (clockedSystem 1 0 ((t'.chip.counter 0).after 0) true).Reachable s ∧ s.sleep.place = .returned ∧
        1193 * (1 : BitVec 32).toNat < s.clocks + 2 * 1193 := by
  obtain ⟨t', ht', hall⟩ := sleep_clocks ⟨⟨fun _ => ⟨0, 0, false, 0, false, none⟩⟩, 0⟩
  have hreachable : (clockedSystem 1 0 ((t'.chip.counter 0).after 0) true).Reachable
      ⟨⟨1, .returned, 1⟩, (t'.chip.counter 0).after 0, false, 0⟩ :=
    .step (a := .sleep) (.step (a := .irq) (.step (a := .sleep) (.init rfl) rfl) rfl) rfl
  exact ⟨t', ht', _, hreachable, rfl, hall 0 true 1 0 (Or.inr (by decide)) _ hreachable rfl⟩

end FanOS.Pit

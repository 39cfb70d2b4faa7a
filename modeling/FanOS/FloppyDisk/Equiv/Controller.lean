import FanOS.FloppyDisk.Controller

/-!
# Errors of the floppy disk

An attempt to seek is six transfers, the last of which gives the cylinder (`sought_seekAttempt`), and the
loop stops at the first cylinder that the driver takes for its own, or gives up after nine
(`fdSeekLoop_spec`).  Then the buffer is returned and the motor is off, whatever the result bytes say
(`fdReadSector_of_taken`); or null is returned and the motor is still on (`fdReadSector_of_not_taken`).  So
errors are handled if and only if there is none (`handlesErrors_iff`).
-/

namespace FanOS.FloppyDisk

variable {ρ : Responses} {cy1 head : BitVec 32} {s s' s'' : Fdc}

/-! ### Motor -/

/-- The value that turns the motor off has no motor bit. -/
theorem dor_fdControlMotor_false (hd : ¬s.currentDrive > 3) :
    (fdControlMotor false s).dor &&& motorMask = 0 := by
  simp only [fdControlMotor, if_neg hd, Bool.false_eq_true, if_false, fdWriteDor]
  decide

/-- The value that turns it on has the bit of the drive. -/
theorem dor_fdControlMotor_true (hd : ¬s.currentDrive > 3) :
    (fdControlMotor true s).dor &&& motorMask ≠ 0 := by
  simp only [fdControlMotor, if_neg hd, if_true, fdWriteDor]
  split_ifs <;> decide

/-- Only the digital output register changes. -/
theorem fdControlMotor_eq (on : Bool) (s : Fdc) :
    fdControlMotor on s = { s with dor := (fdControlMotor on s).dor } := by
  unfold fdControlMotor fdWriteDor
  split_ifs <;> rfl

theorem dmaBuffer_ne_zero : dmaBuffer ≠ 0 := by decide

/-! ### Seeking -/

/-- What `k` attempts to seek do. -/
structure Sought (ρ : Responses) (s s' : Fdc) (k : ℕ) : Prop where
  transfers : s'.transfers = s.transfers + 6 * k
  cylinders : s'.cylinders = s.cylinders ++ (List.range k).map (ρ.cylinder s.transfers)
  dor : s'.dor = s.dor
  currentDrive : s'.currentDrive = s.currentDrive
  results : s'.results = s.results

theorem Sought.refl (ρ : Responses) (s : Fdc) : Sought ρ s s 0 where
  transfers := rfl
  cylinders := (List.append_nil _).symm
  dor := rfl
  currentDrive := rfl
  results := rfl

theorem sought_seekAttempt (ρ : Responses) (cy1 head : BitVec 32) (s : Fdc) :
    Sought ρ s (seekAttempt ρ cy1 head s).2 1 where
  transfers := rfl
  cylinders := rfl
  dor := rfl
  currentDrive := rfl
  results := rfl

/-- What is a later attempt from the start is an earlier one from then on. -/
theorem cylinder_add (ρ : Responses) (t j i : ℕ) :
    ρ.cylinder (t + 6 * j) i = ρ.cylinder t (j + i) := by
  unfold Responses.cylinder
  congr 1
  omega

theorem taken_add {t j i : ℕ} : ρ.Taken (t + 6 * j) cy1 i ↔ ρ.Taken t cy1 (j + i) := by
  rw [Responses.Taken, Responses.Taken, cylinder_add]

theorem Sought.trans {j k : ℕ} (h : Sought ρ s s' j) (h' : Sought ρ s' s'' k) :
    Sought ρ s s'' (j + k) where
  transfers := by rw [h'.transfers, h.transfers]; omega
  cylinders := by
    rw [h'.cylinders, h.cylinders, h.transfers, List.range_add, List.map_append, List.map_map,
      List.append_assoc]
    congr 2
    exact List.map_congr_left fun i _ => cylinder_add ρ s.transfers j i
  dor := h'.dor.trans h.dor
  currentDrive := h'.currentDrive.trans h.currentDrive
  results := h'.results.trans h.results

/-- An attempt gives the cylinder of the answer. -/
theorem fst_seekAttempt (ρ : Responses) (cy1 head : BitVec 32) (s : Fdc) :
    (seekAttempt ρ cy1 head s).1 = ((ρ.cylinder s.transfers 0).getD 0).setWidth 32 := rfl

theorem fdSeekLoop_succ (ρ : Responses) (cy1 head : BitVec 32) (n : ℕ) (s : Fdc) :
    fdSeekLoop ρ cy1 head (n + 1) s =
      if cy1 = (seekAttempt ρ cy1 head s).1 then (0, (seekAttempt ρ cy1 head s).2)
      else fdSeekLoop ρ cy1 head n (seekAttempt ρ cy1 head s).2 := rfl

/-- The loop stops at the first cylinder that the driver takes for its own, or gives up. -/
theorem fdSeekLoop_spec (ρ : Responses) (cy1 head : BitVec 32) (n : ℕ) (s : Fdc) :
    (∃ k < n, (∀ i < k, ¬ρ.Taken s.transfers cy1 i) ∧ ρ.Taken s.transfers cy1 k ∧
      (fdSeekLoop ρ cy1 head n s).1 = 0 ∧ Sought ρ s (fdSeekLoop ρ cy1 head n s).2 (k + 1)) ∨
    ((∀ i < n, ¬ρ.Taken s.transfers cy1 i) ∧ (fdSeekLoop ρ cy1 head n s).1 = -1 ∧
      Sought ρ s (fdSeekLoop ρ cy1 head n s).2 n) := by
  induction n generalizing s with
  | zero => exact Or.inr ⟨fun i hi => absurd hi (Nat.not_lt_zero i), rfl, Sought.refl ρ s⟩
  | succ n ih =>
    have hs := sought_seekAttempt ρ cy1 head s
    rw [fdSeekLoop_succ, fst_seekAttempt]
    by_cases h0 : ρ.Taken s.transfers cy1 0
    · rw [if_pos (Eq.symm h0)]
      exact Or.inl ⟨0, n.succ_pos, fun i hi => absurd hi (Nat.not_lt_zero i), h0, rfl, hs⟩
    rw [if_neg (fun h => h0 (Eq.symm h))]
    -- The attempts that follow are the later ones from the start.
    have hlater : ∀ i, ρ.Taken (seekAttempt ρ cy1 head s).2.transfers cy1 i ↔
        ρ.Taken s.transfers cy1 (1 + i) := fun i => by rw [hs.transfers, taken_add]
    have hmissed : ∀ m, (∀ i < m, ¬ρ.Taken (seekAttempt ρ cy1 head s).2.transfers cy1 i) →
        ∀ i < m + 1, ¬ρ.Taken s.transfers cy1 i := by
      intro m h i hi
      cases i with
      | zero => exact h0
      | succ i => rw [Nat.add_comm, ← hlater]; exact h i (by omega)
    obtain ⟨k, hk, hmiss, htaken, hret, hsought⟩ | ⟨hmiss, hret, hsought⟩ :=
      ih (seekAttempt ρ cy1 head s).2
    · refine Or.inl ⟨k + 1, by omega, hmissed k hmiss, ?_, hret, ?_⟩
      · rwa [Nat.add_comm, ← hlater]
      · rw [Nat.add_comm (k + 1)]
        exact hs.trans hsought
    · refine Or.inr ⟨hmissed n hmiss, hret, ?_⟩
      rw [Nat.add_comm]
      exact hs.trans hsought

/-! ### Reading -/

theorem foldl_fdSendCommand (ρ : Responses) (l : List (BitVec 8)) (s : Fdc) :
    ∃ c, l.foldl (fun s b => fdSendCommand ρ b s) s =
      { s with commands := c, transfers := s.transfers + l.length } := by
  induction l generalizing s with
  | nil => exact ⟨s.commands, rfl⟩
  | cons b l ih =>
    obtain ⟨c, hc⟩ := ih (fdSendCommand ρ b s)
    refine ⟨c, ?_⟩
    rw [List.foldl_cons, hc, List.length_cons, Nat.add_comm l.length, ← Nat.add_assoc]
    rfl

theorem readResults_eq (ρ : Responses) (n : ℕ) (s : Fdc) :
    readResults ρ n s =
      { s with
        transfers := s.transfers + n
        results := s.results ++ (List.range n).map fun i => ρ.received (s.transfers + i) } := by
  induction n generalizing s with
  | zero => rw [List.range_zero, List.map_nil, List.append_nil]; rfl
  | succ n ih =>
    rw [readResults]
    dsimp only [fdReadData]
    rw [ih, List.range_succ_eq_map, List.map_cons, List.map_map, List.append_assoc,
      List.singleton_append, Nat.add_zero, Nat.add_comm n, ← Nat.add_assoc]
    congr 3
    exact List.map_congr_left fun i _ => congrArg ρ.received (by dsimp only; omega)

/-- The command is nine bytes, and the result bytes come after it. -/
theorem readSectorImpl_spec (ρ : Responses) (a : SectorAddress) (s : Fdc) :
    (readSectorImpl ρ a s).currentDrive = s.currentDrive ∧
    (readSectorImpl ρ a s).cylinders = s.cylinders ∧
    (readSectorImpl ρ a s).results =
      s.results ++ (List.range 7).map fun i => ρ.received (s.transfers + 9 + i) := by
  unfold readSectorImpl
  obtain ⟨c, hc⟩ := foldl_fdSendCommand ρ (fdReadSectorImpl s.currentDrive a)
    { s with dma := Hal.dmaSetRead Hal.fdcDmaChannel s.dma }
  dsimp only
  rw [hc, readResults_eq]
  exact ⟨rfl, rfl, rfl⟩

/-! ### Errors -/

/-- The driver with the motor on, before it seeks. -/
def Fdc.started (s : Fdc) : Fdc := fdControlMotor true { s with cylinders := [], results := [] }

theorem started_eq (s : Fdc) :
    s.started = { s with cylinders := [], results := [], dor := s.started.dor } :=
  fdControlMotor_eq true { s with cylinders := [], results := [] }

theorem fdReadSector_eq (ρ : Responses) (lba : BitVec 32) (hd : ¬s.currentDrive > 3) :
    fdReadSector ρ lba s =
      let seek := fdSeekLoop ρ (fdLbaToChs lba).track (fdLbaToChs lba).head 9 s.started
      if seek.1 ≠ 0 then (0, seek.2)
      else (dmaBuffer, fdControlMotor false (readSectorImpl ρ (fdLbaToChs lba).bytes seek.2)) := by
  have hs : ¬s.started.currentDrive > 3 := by rwa [started_eq]
  have hseek : fdSeek ρ (fdLbaToChs lba).track (fdLbaToChs lba).head s.started =
      fdSeekLoop ρ (fdLbaToChs lba).track (fdLbaToChs lba).head 9 s.started := if_neg hs
  rw [← hseek]
  exact if_neg hd

/-- Either the driver takes the head to be at the cylinder and returns the buffer, with the motor off; or it
does not in nine attempts and returns null, with the motor on. -/
theorem fdReadSector_spec (ρ : Responses) (lba : BitVec 32) (hd : ¬s.currentDrive > 3) :
    (∃ k < 9, (∀ i < k, ¬ρ.Taken s.transfers (fdLbaToChs lba).track i) ∧
      ρ.Taken s.transfers (fdLbaToChs lba).track k ∧
      (fdReadSector ρ lba s).1 = dmaBuffer ∧
      (fdReadSector ρ lba s).2.cylinders = (List.range (k + 1)).map (ρ.cylinder s.transfers) ∧
      (fdReadSector ρ lba s).2.results.head? = some (ρ.received (s.transfers + 6 * k + 15)) ∧
      (fdReadSector ρ lba s).2.dor &&& motorMask = 0) ∨
    ((∀ i < 9, ¬ρ.Taken s.transfers (fdLbaToChs lba).track i) ∧ (fdReadSector ρ lba s).1 = 0 ∧
      (fdReadSector ρ lba s).2.dor &&& motorMask ≠ 0) := by
  have htransfers : s.started.transfers = s.transfers := by rw [started_eq]
  have hcylinders : s.started.cylinders = [] := by rw [started_eq]
  have hresults : s.started.results = [] := by rw [started_eq]
  have hdrive : s.started.currentDrive = s.currentDrive := by rw [started_eq]
  have hspec := fdSeekLoop_spec ρ (fdLbaToChs lba).track (fdLbaToChs lba).head 9 s.started
  rw [htransfers] at hspec
  rw [fdReadSector_eq ρ lba hd]
  obtain ⟨k, hk, hmiss, htaken, hret, hsought⟩ | ⟨hmiss, hret, hsought⟩ := hspec
  · left
    simp only [hret, ne_eq, not_true_eq_false, if_false]
    obtain ⟨h1, h2, h3⟩ := readSectorImpl_spec ρ (fdLbaToChs lba).bytes
      (fdSeekLoop ρ (fdLbaToChs lba).track (fdLbaToChs lba).head 9 s.started).2
    refine ⟨k, hk, hmiss, htaken, trivial, ?_, ?_, dor_fdControlMotor_false ?_⟩
    · rw [fdControlMotor_eq]
      dsimp only
      rw [h2, hsought.cylinders, hcylinders, htransfers, List.nil_append]
    · rw [fdControlMotor_eq]
      dsimp only
      rw [h3, hsought.results, hresults, hsought.transfers, htransfers, List.nil_append,
        List.range_succ_eq_map, List.map_cons, List.head?_cons]
      rfl
    · rwa [h1, hsought.currentDrive, hdrive]
  · right
    simp only [hret, ne_eq]
    refine ⟨hmiss, rfl, ?_⟩
    rw [if_pos (by decide), hsought.dor]
    exact dor_fdControlMotor_true hd

/-- The cylinders that the controller has given hold the one sought just when the last one is it. -/
theorem exists_cylinder_iff {t k : ℕ} (hmiss : ∀ i < k, ¬ρ.Taken t cy1 i) :
    (∃ c, some c ∈ (List.range (k + 1)).map (ρ.cylinder t) ∧ c.setWidth 32 = cy1) ↔
      ∃ c, ρ.cylinder t k = some c ∧ c.setWidth 32 = cy1 := by
  constructor
  · rintro ⟨c, hc, heq⟩
    obtain ⟨i, hi, hci⟩ := List.mem_map.mp hc
    have htaken : ρ.Taken t cy1 i := by rw [Responses.Taken, hci]; exact heq
    have hik : i = k := by
      by_contra hne
      exact hmiss i (by have := List.mem_range.mp hi; omega) htaken
    exact ⟨c, hik ▸ hci, heq⟩
  · rintro ⟨c, hc, heq⟩
    exact ⟨c, List.mem_map.mpr ⟨k, List.mem_range.mpr k.lt_succ_self, hc⟩, heq⟩

/-- Errors are handled if and only if the head gets to the cylinder and the command ends normally, or, when
there is no such drive, the motors are off before. -/
theorem handlesErrors_iff (ρ : Responses) (lba : BitVec 32) (s : Fdc) :
    HandlesErrors ρ lba s ↔
      if s.currentDrive > 3 then s.dor &&& motorMask = 0
      else ∃ n < 9, ρ.ReadsAfter s.transfers (fdLbaToChs lba).track n := by
  split_ifs with hd
  · have heq : fdReadSector ρ lba s = (0, { s with cylinders := [], results := [] }) := by
      rw [fdReadSector, if_pos (by exact hd)]
    refine ⟨fun h => by simpa only [heq] using h.motorOff, fun h => ⟨?_, by simpa only [heq] using h⟩⟩
    simp [heq, Fdc.Reached]
  · obtain ⟨k, hk, hmiss, htaken, hret, hcyl, hres, hdor⟩ | ⟨hmiss, hret, hdor⟩ :=
      fdReadSector_spec ρ lba hd
    · have hreturns : HandlesErrors ρ lba s ↔
          (∃ c, ρ.cylinder s.transfers k = some c ∧ c.setWidth 32 = (fdLbaToChs lba).track) ∧
            NormalEnd (ρ.received (s.transfers + 6 * k + 15)) := by
        rw [← exists_cylinder_iff hmiss, ← hcyl]
        constructor
        · intro h
          obtain ⟨hreached, b, hb, hend⟩ := h.returns.mp (hret ▸ dmaBuffer_ne_zero)
          exact ⟨hreached, by rwa [← Option.some.inj (hres.symm.trans hb)] at hend⟩
        · rintro ⟨hreached, hend⟩
          exact ⟨⟨fun _ => ⟨hreached, _, hres, hend⟩, fun _ => hret ▸ dmaBuffer_ne_zero⟩, hdor⟩
      rw [hreturns]
      constructor
      · rintro ⟨hcylinder, hend⟩
        exact ⟨k, hk, hmiss, hcylinder, hend⟩
      · rintro ⟨n, -, hmiss', ⟨c, hc, heq⟩, hend⟩
        have htaken' : ρ.Taken s.transfers (fdLbaToChs lba).track n := by
          rw [Responses.Taken, hc]
          exact heq
        -- The attempts before each of the two miss, so they are the same.
        obtain hlt | rfl | hlt := Nat.lt_trichotomy n k
        · exact absurd htaken' (hmiss n hlt)
        · exact ⟨⟨c, hc, heq⟩, hend⟩
        · exact absurd htaken (hmiss' k hlt)
    · refine iff_of_false (fun h => hdor h.motorOff) ?_
      rintro ⟨n, hn, -, ⟨c, hc, heq⟩, -⟩
      exact hmiss n hn (by rw [Responses.Taken, hc]; exact heq)

/-- A controller that is always ready, and whose read command ends abnormally. -/
def refusing : Responses where
  status _ _ := 0x80
  data t := if t = 15 then 0x40 else 0

/-- The driver before its first transfer. -/
def idle : Fdc where
  currentDrive := 0
  dor := 0x0C
  commands := []
  dma := Hal.afterReset
  transfers := 0
  cylinders := []
  results := []

/-- A read command that fails still gives the buffer; a seek that fails leaves the motor on. -/
theorem not_handlesErrors : ¬HandlesErrors refusing 0 idle ∧ ¬HandlesErrors refusing 36 idle := by
  refine ⟨fun h => ?_, fun h => absurd h.motorOff (by decide)⟩
  obtain ⟨-, b, hb, hend⟩ := h.returns.mp (by decide)
  have hst0 : some 0x40 = b := Option.some.inj hb
  obtain ⟨st0, heq, hzero⟩ := hend
  rw [← Option.some.inj (hst0.trans heq)] at hzero
  exact absurd hzero (by decide)

end FanOS.FloppyDisk

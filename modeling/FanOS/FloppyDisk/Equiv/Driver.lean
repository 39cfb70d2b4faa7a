import FanOS.FloppyDisk.Driver
import FanOS.FloppyDisk.Equiv.Controller

/-!
# The driver and the controller stay in step

The program of `fd_read_sector` does what the model of `Controller` records (`exec_fdReadSector`).

Every function of the driver takes an idle controller to an idle controller (`Rest`), whatever the answers
are, and keeps what all of them keep of the other devices (`Keeps`).  So `fd_init` and any reads after it are
safe from any controller that is not busy, and by the run rule this is so in every interleaving with the
interrupts of the controller (`driver_orderly`).

After the command that reads a sector no interrupt waits to be asked for, so `fd_check_int` is refused there:
the controller has one byte to give and not two.  The second read finds nothing, and the controller is idle
all the same.
-/

namespace FanOS.FloppyDisk.Driver

open Fdc82077 hiding Program
open Fdc82077.Program (Safe.bind safe_sends safe_execute sends)

/-! ### The accesses to the registers -/

section

variable (ρ : Responses) (x : Devices)

/-- A program with the answers of a controller, as `Fdc` records it. -/
def exec {α : Type} : Program α → Fdc → α × Fdc
  | .ret a, s => (a, s)
  | .dor val next, s => exec next (FloppyDisk.fdWriteDor val s)
  | .ccr _ next, s => exec next s
  | .send b next, s => exec next (FloppyDisk.fdSendCommand ρ b s)
  | .recv next, s => exec (next ((FloppyDisk.fdReadData ρ s).1.getD 0)) (FloppyDisk.fdReadData ρ s).2
  | .wait next, s => exec next s
  | .update f next, s => exec next { s with dma := (f { x with dma := s.dma }).dma }
  | .look next, s => exec (next { x with dma := s.dma }) s

theorem exec_bind {α β : Type} (p : Program α) (f : α → Program β) (s : Fdc) :
    exec ρ x (p >>= f) s = exec ρ x (f (exec ρ x p s).1) (exec ρ x p s).2 := by
  change exec ρ x (Fdc82077.Program.bind p f) s = _
  induction p generalizing s with
  | ret a => rfl
  | dor val next ih => exact ih _
  | ccr val next ih => exact ih _
  | send b next ih => exact ih _
  | recv next ih => exact ih _ _
  | wait next ih => exact ih _
  | update g next ih => exact ih _
  | look next ih => exact ih _ _

/-- The driver without what `Fdc` records beside it. -/
def bare (s : Fdc) : Fdc := { s with cylinders := [], results := [] }

variable {ρ x} {s : Fdc}

theorem exec_fdControlMotor (on : Bool) :
    exec ρ x (fdControlMotor s.currentDrive on) (bare s) =
      ((), bare (FloppyDisk.fdControlMotor on s)) := by
  unfold fdControlMotor FloppyDisk.fdControlMotor
  split_ifs <;> rfl

theorem exec_fdSeekLoop (cy1 head : BitVec 32) (n : ℕ) :
    exec ρ x (fdSeekLoop s.currentDrive cy1 head n) (bare s) =
      ((FloppyDisk.fdSeekLoop ρ cy1 head n s).1, bare (FloppyDisk.fdSeekLoop ρ cy1 head n s).2) := by
  induction n generalizing s with
  | zero => rfl
  | succ n ih =>
    have hstep : exec ρ x (fdSeekLoop s.currentDrive cy1 head (n + 1)) (bare s) =
        exec ρ x (if cy1 = (seekAttempt ρ cy1 head s).1 then pure 0
          else fdSeekLoop s.currentDrive cy1 head n) (bare (seekAttempt ρ cy1 head s).2) := rfl
    rw [hstep, FloppyDisk.fdSeekLoop]
    dsimp only
    split_ifs
    · rfl
    · exact ih (s := (seekAttempt ρ cy1 head s).2)

theorem exec_sendAll (bs : List (BitVec 8)) :
    exec ρ x (sendAll bs) (bare s) =
      ((), bare (bs.foldl (fun s b => FloppyDisk.fdSendCommand ρ b s) s)) := by
  induction bs generalizing s with
  | nil => rfl
  | cons b bs ih => exact ih (s := FloppyDisk.fdSendCommand ρ b s)

theorem exec_readResults (n : ℕ) :
    exec ρ x (readResults n) (bare s) = ((), bare (FloppyDisk.readResults ρ n s)) := by
  induction n generalizing s with
  | zero => rfl
  | succ n ih =>
    exact ih (s := { (FloppyDisk.fdReadData ρ s).2 with
      results := (FloppyDisk.fdReadData ρ s).2.results ++ [(FloppyDisk.fdReadData ρ s).1] })

/-- The answer to `fd_check_int` is not looked at. -/
theorem exec_fdCheckInt :
    exec ρ x (fdCheckInt >>= fun _ => pure ()) (bare s) = ((), bare (FloppyDisk.fdCheckInt ρ s).2.2) := rfl

theorem exec_readSectorImpl (a : SectorAddress) :
    exec ρ x (readSectorImpl s.currentDrive a) (bare s) = ((), bare (FloppyDisk.readSectorImpl ρ a s)) := by
  obtain ⟨s₁, hs₁⟩ : ∃ s₁ : Fdc, s₁ = { s with dma := Hal.dmaSetRead Hal.fdcDmaChannel s.dma } := ⟨_, rfl⟩
  have hdma : exec ρ x (readSectorImpl s.currentDrive a) (bare s) =
      exec ρ x (sendAll (fdReadSectorImpl s.currentDrive a) >>= fun _ =>
        .wait (readResults 7 >>= fun _ => fdCheckInt >>= fun _ => pure ())) (bare s₁) := by
    rw [hs₁]
    rfl
  rw [hdma, exec_bind, exec_sendAll, exec, exec_bind, exec_readResults, exec_fdCheckInt,
    FloppyDisk.readSectorImpl, hs₁]

/-- The program does what `fd_read_sector` does, whatever the controller answers. -/
theorem exec_fdReadSector (lba : BitVec 32) :
    exec ρ x (fdReadSector s.currentDrive lba) (bare s) =
      ((FloppyDisk.fdReadSector ρ lba s).1, bare (FloppyDisk.fdReadSector ρ lba s).2) := by
  by_cases hd : s.currentDrive > 3
  · unfold fdReadSector FloppyDisk.fdReadSector
    simp only [if_pos hd]
    rfl
  rw [fdReadSector_eq ρ lba hd]
  dsimp only
  set a := fdLbaToChs lba
  have hstarted : s.started.currentDrive = s.currentDrive := by rw [started_eq]
  have hsought : (FloppyDisk.fdSeekLoop ρ a.track a.head 9 s.started).2.currentDrive = s.currentDrive := by
    obtain ⟨k, -, -, -, -, h⟩ | ⟨-, -, h⟩ := fdSeekLoop_spec ρ a.track a.head 9 s.started
    · exact h.currentDrive.trans hstarted
    · exact h.currentDrive.trans hstarted
  -- the motor
  have hmotor : exec ρ x (fdControlMotor s.currentDrive true) (bare s) = ((), bare s.started) :=
    exec_fdControlMotor (s := { s with cylinders := [], results := [] }) true
  have hseek := exec_fdSeekLoop (ρ := ρ) (x := x) (s := s.started) a.track a.head 9
  rw [hstarted] at hseek
  unfold fdReadSector
  rw [if_neg hd]
  dsimp only
  rw [exec_bind, hmotor, exec_bind, fdSeek, if_neg hd, hseek]
  by_cases hr : (FloppyDisk.fdSeekLoop ρ a.track a.head 9 s.started).1 ≠ 0
  · rw [if_pos hr, if_pos hr]
    rfl
  · rw [if_neg hr, if_neg hr]
    set s₁ := (FloppyDisk.fdSeekLoop ρ a.track a.head 9 s.started).2
    have hread := exec_readSectorImpl (ρ := ρ) (x := x) (s := s₁) a.bytes
    have hkept : (FloppyDisk.readSectorImpl ρ a.bytes s₁).currentDrive = s.currentDrive :=
      (readSectorImpl_spec ρ a.bytes s₁).1.trans hsought
    have hoff := exec_fdControlMotor (ρ := ρ) (x := x) (s := FloppyDisk.readSectorImpl ρ a.bytes s₁) false
    rw [hsought] at hread
    rw [hkept] at hoff
    rw [exec_bind, hread, exec_bind, hoff]
    rfl

end

variable {B : Behaviour Devices} {I : Devices → Prop} {c : Chip} {x : Devices} {d : BitVec 8}

/-- The controller is idle, no interrupt waits to be asked for, and it is not held in reset. -/
structure Rest (c : Chip) : Prop where
  idle : c.Idle
  sense : c.sense = []
  enabled : c.dor.getLsbD 2 = true

theorem Rest.irqEnabled (h : Rest c) (hirq : c.dor.getLsbD 3 = true) : c.irqEnabled = true := by
  rw [Chip.irqEnabled, h.enabled, hirq, Bool.and_self]

/-- What is so of the other devices stays so. -/
structure Keeps (B : Behaviour Devices) (I : Devices → Prop) : Prop where
  /-- The controller has started, or has moved the head. -/
  move : ∀ c x data x', (∀ cmd, c.phase = .executing cmd → (cmd.headD 0 &&& 0x1F).toNat ≠ 6) → I x →
    B.completes c x data x' → I x'
  /-- The controller has read, as it was told behind `dma_set_read`. -/
  read : ∀ c x data x', I x →
    B.completes c { x with dma := Hal.dmaSetRead Hal.fdcDmaChannel x.dma } data x' → I x'

/-! ### Commands without execution -/

/-- `fd_check_int` takes an interrupt. -/
theorem safe_fdCheckInt_cons {Q : BitVec 32 × BitVec 32 → Chip → Devices → Prop} {st0 cylinder : BitVec 8}
    {sense : List (BitVec 8 × BitVec 8)} (hidle : c.Idle) (hsense : c.sense = (st0, cylinder) :: sense)
    (hQ : Q (st0.setWidth 32, cylinder.setWidth 32) { c with sense := sense } x) :
    fdCheckInt.Safe B Q c x := by
  have hphase : c.phase = .command [] := hidle
  obtain ⟨phase, dor, ccr, _⟩ := c
  obtain rfl : phase = .command [] := hphase
  obtain rfl := hsense
  refine ⟨⟨[], rfl⟩, ?_⟩
  exact Or.inr ⟨st0, [cylinder], rfl, Or.inr ⟨cylinder, [], rfl, hQ⟩⟩

/-- With none waiting it is refused: there is one byte, and then a read of nothing. -/
theorem safe_fdCheckInt_nil {Q : BitVec 32 × BitVec 32 → Chip → Devices → Prop} (hidle : c.Idle)
    (hsense : c.sense = []) (hQ : ∀ r, Q r c x) : fdCheckInt.Safe B Q c x := by
  have hphase : c.phase = .command [] := hidle
  obtain ⟨phase, dor, ccr, sense⟩ := c
  obtain rfl : phase = .command [] := hphase
  obtain rfl : sense = [] := hsense
  refine ⟨⟨[], rfl⟩, ?_⟩
  exact Or.inr ⟨0x80, [], rfl, Or.inl ⟨rfl, fun b => hQ _⟩⟩

theorem safe_checkInts {Q : Unit → Chip → Devices → Prop} (n : ℕ) (hidle : c.Idle)
    (hQ : Q () { c with sense := c.sense.drop n } x) : (checkInts n).Safe B Q c x := by
  induction n generalizing c with
  | zero => exact hQ
  | succ n ih =>
    refine Safe.bind ?_
    cases hsense : c.sense with
    | nil =>
      refine safe_fdCheckInt_nil hidle hsense fun r => ih hidle ?_
      rw [hsense, List.drop_nil] at hQ ⊢
      exact hQ
    | cons first sense =>
      refine safe_fdCheckInt_cons hidle hsense (ih hidle ?_)
      rw [hsense] at hQ
      exact hQ

theorem safe_fdDriveData {Q : Unit → Chip → Devices → Prop} (stepr loadt unloadt : BitVec 32) (dma : Bool)
    (hidle : c.Idle) (hQ : Q () c x) : (fdDriveData stepr loadt unloadt dma).Safe B Q c x := by
  change (sends [0x03, ((stepr &&& 0xF) <<< 4 ||| unloadt &&& 0xF).setWidth 8,
    (loadt <<< 1 ||| if dma then 1 else 0).setWidth 8]).Safe B Q c x
  refine safe_sends hidle (List.cons_ne_nil _ _) (show 3 = commandLength 0x03 by decide) ?_
  have hcmd : ((0x03 : BitVec 8) &&& 0x1F).toNat = 3 := by decide
  rw [hidle.dispatch_specify]
  · exact hQ
  · exact hcmd

/-- `fd_control_motor`. -/
theorem safe_fdControlMotor {Q : Unit → Chip → Devices → Prop} (on : Bool) (hd : ¬d > 3) (h : Rest c)
    (hQ : ∀ dor : BitVec 8, dor.getLsbD 2 = true → dor.getLsbD 3 = on → Q () { c with dor := dor } x) :
    (fdControlMotor d on).Safe B Q c x := by
  have hphase : c.phase = .command [] := h.idle
  have hwrite : ∀ dor : BitVec 8, dor.getLsbD 2 = true → c.writeDor dor = { c with dor := dor } := by
    intro dor hdor
    rw [Chip.writeDor, hdor, hphase]
    rfl
  unfold fdControlMotor
  rw [if_neg hd]
  cases on with
  | false =>
    refine ⟨h.idle.not_busy, ?_⟩
    rw [hwrite 4 (by decide)]
    exact hQ 4 (by decide) (by decide)
  | true =>
    refine ⟨h.idle.not_busy, ?_⟩
    split_ifs <;> rw [hwrite _ (by decide)] <;> exact hQ _ (by decide) (by decide)

/-! ### Commands that are executed -/

/-- A command that moves the head, and `fd_check_int` after it. -/
theorem safe_move {α : Type} {Q : α → Chip → Devices → Prop} {cmd : List (BitVec 8)}
    {f : BitVec 32 × BitVec 32 → Program α} (h : Rest c) (hirq : c.dor.getLsbD 3 = true) (hne : cmd ≠ [])
    (hlen : cmd.length = commandLength (cmd.headD 0))
    (hcmd : (cmd.headD 0 &&& 0x1F).toNat = 7 ∨ (cmd.headD 0 &&& 0x1F).toNat = 15)
    (hQ : ∀ data x', B.completes { c with phase := .executing cmd } x data x' →
      (f ((data 0).setWidth 32, (data 1).setWidth 32)).Safe B Q c x') :
    (sends cmd >>= fun _ => .wait (fdCheckInt >>= f)).Safe B Q c x := by
  refine safe_execute h.idle hne hlen (c.dispatch_execute (Or.inr hcmd)) (h.irqEnabled hirq)
    fun data x' hx => ?_
  rw [c.complete_move data (by omega)]
  refine Safe.bind (safe_fdCheckInt_cons rfl rfl ?_)
  -- nothing more waits to be asked for
  have hsame : ({ c with phase := .command [], sense := [] } : Chip) = c := by
    rw [← h.sense]
    exact h.idle.with_command
  exact hsame.symm ▸ hQ data x' hx

theorem safe_fdCalibrateLoop {Q : BitVec 32 → Chip → Devices → Prop} (hkeeps : Keeps B I) (drive : BitVec 32)
    (n : ℕ) (hd : ¬d > 3) (h : Rest c) (hirq : c.dor.getLsbD 3 = true) (hx : I x)
    (hQ : ∀ r x, I x → ∀ dor : BitVec 8, dor.getLsbD 2 = true → Q r { c with dor := dor } x) :
    (fdCalibrateLoop d drive n).Safe B Q c x := by
  induction n generalizing x with
  | zero =>
    exact Safe.bind (safe_fdControlMotor false hd h fun dor hdor _ => hQ _ x hx dor hdor)
  | succ n ih =>
    change (sends [0x07, drive.setWidth 8] >>= fun _ => .wait (fdCheckInt >>= fun r =>
      if r.2 = 0 then (fdControlMotor d false >>= fun _ => pure 0)
      else fdCalibrateLoop d drive n)).Safe B Q c x
    have hkind : ((0x07 : BitVec 8) &&& 0x1F).toNat = 7 := by decide
    have hread : ((0x07 : BitVec 8) &&& 0x1F).toNat ≠ 6 := by decide
    refine safe_move h hirq (List.cons_ne_nil _ _) (show 2 = commandLength 0x07 by decide) (Or.inl hkind)
      fun data x' hx' => ?_
    have hkept : I x' := by
      refine hkeeps.move _ _ _ _ ?_ hx hx'
      rintro cmd ⟨⟩
      exact hread
    split_ifs
    · exact Safe.bind (safe_fdControlMotor false hd h fun dor hdor _ => hQ _ x' hkept dor hdor)
    · exact ih hkept

/-- An attempt of `fd_seek`, and what follows. -/
theorem safe_fdSeekLoop_succ {Q : BitVec 32 → Chip → Devices → Prop} {cy1 head : BitVec 32} {n : ℕ}
    (h : Rest c) (hirq : c.dor.getLsbD 3 = true)
    (hQ : ∀ data x', B.completes { c with
        phase := .executing [0x0F, (head <<< 2 ||| d.setWidth 32).setWidth 8, cy1.setWidth 8] } x data x' →
      if cy1 = (data 1).setWidth 32 then Q 0 c x' else (fdSeekLoop d cy1 head n).Safe B Q c x') :
    (fdSeekLoop d cy1 head (n + 1)).Safe B Q c x := by
  change (sends [0x0F, (head <<< 2 ||| d.setWidth 32).setWidth 8, cy1.setWidth 8] >>= fun _ =>
    .wait (fdCheckInt >>= fun r => if cy1 = r.2 then pure 0 else fdSeekLoop d cy1 head n)).Safe B Q c x
  refine safe_move h hirq (List.cons_ne_nil _ _) (show 3 = commandLength 0x0F by decide)
    (Or.inr (show ((0x0F : BitVec 8) &&& 0x1F).toNat = 15 by decide)) fun data x' hx' => ?_
  have hnext := hQ data x' hx'
  split_ifs at hnext ⊢ <;> exact hnext

theorem safe_fdSeekLoop {Q : BitVec 32 → Chip → Devices → Prop} (hkeeps : Keeps B I) (cy1 head : BitVec 32)
    (n : ℕ) (h : Rest c) (hirq : c.dor.getLsbD 3 = true) (hx : I x) (hQ : ∀ r x, I x → Q r c x) :
    (fdSeekLoop d cy1 head n).Safe B Q c x := by
  induction n generalizing x with
  | zero => exact hQ _ x hx
  | succ n ih =>
    refine safe_fdSeekLoop_succ h hirq fun data x' hx' => ?_
    have hkind : ((0x0F : BitVec 8) &&& 0x1F).toNat ≠ 6 := by decide
    have hkept : I x' := by
      refine hkeeps.move _ _ _ _ ?_ hx hx'
      rintro cmd ⟨⟩
      exact hkind
    split_ifs
    · exact hQ 0 x' hkept
    · exact ih hkept

theorem sendAll_eq (bs : List (BitVec 8)) : sendAll bs = sends bs := by
  induction bs with
  | nil => rfl
  | cons b bs ih =>
    change Fdc82077.Program.send b (sendAll bs) = _
    rw [ih]
    rfl

/-- A result is taken as a whole, and then the controller is idle. -/
theorem safe_readResults {Q : Unit → Chip → Devices → Prop} {bytes : List (BitVec 8)}
    (hphase : c.phase = .result bytes) (hne : bytes ≠ []) (hQ : Q () { c with phase := .command [] } x) :
    (readResults bytes.length).Safe B Q c x := by
  induction bytes generalizing c with
  | nil => exact absurd rfl hne
  | cons b bs ih =>
    refine Or.inr ⟨b, bs, hphase, ?_⟩
    rw [Chip.afterRead, hphase]
    cases bs with
    | nil => exact hQ
    | cons b' bs => exact ih rfl (List.cons_ne_nil _ _) hQ

/-- After the seven bytes nothing waits to be asked for, and `fd_check_int` is refused. -/
theorem safe_readSectorImpl {Q : Unit → Chip → Devices → Prop} (a : SectorAddress) (h : Rest c)
    (hirq : c.dor.getLsbD 3 = true)
    (hQ : ∀ data x', B.completes { c with phase := .executing (fdReadSectorImpl d a) }
      { x with dma := Hal.dmaSetRead Hal.fdcDmaChannel x.dma } data x' → Q () c x') :
    (readSectorImpl d a).Safe B Q c x := by
  have hhead : (((fdReadSectorImpl d a).headD 0) &&& 0x1F).toNat = 6 := by
    change ((0x06 ||| 0x80 ||| 0x20 ||| 0x40 : BitVec 8) &&& 0x1F).toNat = 6
    decide
  refine ⟨h.idle.not_busy, ?_⟩
  change (sendAll (fdReadSectorImpl d a) >>= fun _ => .wait (readResults 7 >>= fun _ =>
    fdCheckInt >>= fun _ => pure ())).Safe B Q c _
  rw [sendAll_eq]
  refine safe_execute h.idle (List.cons_ne_nil _ _)
    (show 9 = commandLength (0x06 ||| 0x80 ||| 0x20 ||| 0x40) by decide)
    (c.dispatch_execute (Or.inl hhead)) (h.irqEnabled hirq) fun data x' hx' => ?_
  rw [c.complete_read data hhead]
  have hlen : ((List.range 7).map data).length = 7 := by rw [List.length_map, List.length_range]
  rw [← hlen]
  refine Safe.bind (safe_readResults rfl (by simp) ?_)
  have hsame : ({ c with phase := .command [] } : Chip) = c := h.idle.with_command
  refine Safe.bind (safe_fdCheckInt_nil rfl h.sense fun r => ?_)
  exact hsame.symm ▸ hQ data x' hx'

/-! ### The driver -/

theorem safe_fdReadSector {Q : BitVec 32 → Chip → Devices → Prop} (hkeeps : Keeps B I) (lba : BitVec 32)
    (h : Rest c) (hx : I x) (hQ : ∀ r c x, Rest c → I x → Q r c x) : (fdReadSector d lba).Safe B Q c x := by
  unfold fdReadSector
  by_cases hd : d > 3
  · rw [if_pos hd]
    exact hQ _ _ _ h hx
  · rw [if_neg hd]
    refine Safe.bind (safe_fdControlMotor true hd h fun dor hdor hirq => ?_)
    have hrest : Rest { c with dor := dor } := ⟨h.idle, h.sense, hdor⟩
    refine Safe.bind ?_
    rw [fdSeek, if_neg hd]
    refine safe_fdSeekLoop hkeeps _ _ _ hrest hirq hx fun r x hx => ?_
    by_cases hr : r ≠ 0
    · rw [if_pos hr]
      exact hQ _ _ _ hrest hx
    · rw [if_neg hr]
      refine Safe.bind (safe_readSectorImpl _ hrest hirq fun data x' hx' => ?_)
      have hkept := hkeeps.read _ _ _ _ hx hx'
      refine Safe.bind (safe_fdControlMotor false hd hrest fun dor hdor _ => ?_)
      exact hQ _ _ _ ⟨h.idle, h.sense, hdor⟩ hkept

theorem safe_fdReset {Q : Unit → Chip → Devices → Prop} (hkeeps : Keeps B I) (h : ¬c.Busy) (hx : I x)
    (hQ : ∀ c x, Rest c → I x → Q () c x) : (fdReset d).Safe B Q c x := by
  change (Fdc82077.Program.dor 0 (.dor 0x0C (.wait (checkInts 4 >>= fun _ => .ccr 0
    (fdDriveData 3 16 240 true >>= fun _ =>
      fdCalibrate d (d.setWidth 32) >>= fun _ => pure ()))))).Safe B Q c x
  -- the controller is held in reset and let go
  have hreset : c.writeDor 0 = { c with phase := .reset, dor := 0, sense := [] } := rfl
  have hstart : (c.writeDor 0).writeDor 0x0C = { c with phase := .starting, dor := 0x0C, sense := [] } := rfl
  have hbusy : ¬(c.writeDor 0).Busy := by
    rw [hreset]
    rintro (h' | ⟨_, h'⟩) <;> cases h'
  refine ⟨h, hbusy, ?_⟩
  rw [hstart]
  have hirq : ((0x0C : BitVec 8).getLsbD 2 && (0x0C : BitVec 8).getLsbD 3) = true := by decide
  refine ⟨Or.inl rfl, hirq, fun data x' hx' => ?_⟩
  have hkept : I x' := by
    refine hkeeps.move _ _ _ _ ?_ hx hx'
    rintro cmd ⟨⟩
  -- its four interrupts are asked for
  have hready : ({ c with phase := .starting, dor := 0x0C, sense := [] } : Chip).complete data =
      { c with phase := .command [], dor := 0x0C, sense := (List.range 4).map fun i => (data i, 0) } := rfl
  rw [hready]
  refine Safe.bind (safe_checkInts 4 ?_ ?_)
  · rfl
  refine ⟨Chip.Idle.not_busy rfl, ?_⟩
  refine Safe.bind (safe_fdDriveData _ _ _ _ ?_ ?_)
  · rfl
  -- the head is moved to the first cylinder
  have hrest : Rest { c with phase := .command [], dor := 0x0C, ccr := 0, sense := [] } :=
    ⟨rfl, rfl, by decide⟩
  refine Safe.bind ?_
  unfold fdCalibrate
  split_ifs with hdrive
  · exact hQ _ _ hrest hkept
  · have hd : ¬d > 3 := by
      intro hgt
      have htoNat : (d.setWidth 32).toNat = d.toNat := BitVec.toNat_setWidth_of_le (by decide)
      bv_omega
    refine Safe.bind (safe_fdControlMotor true hd hrest fun dor hdor hirq => ?_)
    refine safe_fdCalibrateLoop hkeeps _ _ hd ⟨rfl, rfl, hdor⟩ hirq hkept fun r x hx dor hdor => ?_
    exact hQ _ _ ⟨rfl, rfl, hdor⟩ hx

theorem safe_fdInit {Q : BitVec 8 → Chip → Devices → Prop} (hkeeps : Keeps B I) (drive : BitVec 32)
    (h : ¬c.Busy) (hx : I { x with dma := Hal.dmaInitFloppy dmaBuffer 512 x.dma })
    (hQ : ∀ c x, Rest c → I x → Q (fdSetWorkingDrive (drive.setWidth 8) d) c x) :
    (fdInit d drive).Safe B Q c x := by
  refine ⟨h, ?_⟩
  change (fdReset (fdSetWorkingDrive (drive.setWidth 8) d) >>= fun _ => fdDriveData 13 1 0xF true >>= fun _ =>
    pure (fdSetWorkingDrive (drive.setWidth 8) d)).Safe B Q c _
  refine Safe.bind (safe_fdReset hkeeps h hx fun c x hrest hx => ?_)
  exact Safe.bind (safe_fdDriveData _ _ _ _ hrest.idle (hQ _ _ hrest hx))

/-- Sectors that are read one after the other, when each of them is read as `S` says. -/
theorem safe_readAll {S : BitVec 32 → List (BitVec 8) → Prop} {lbas : List (BitVec 32)}
    (hread : ∀ lba ∈ lbas, ∀ c x, Rest c → I x → (fdReadSector d lba).Safe B
      (fun buffer c x => Rest c ∧ I x ∧ S lba (sectorAt x.mem buffer)) c x) (h : Rest c) (hx : I x) :
    (readAll d lbas).Safe B (fun sectors c x => Rest c ∧ I x ∧ List.Forall₂ S lbas sectors) c x := by
  induction lbas generalizing c x with
  | nil => exact ⟨h, hx, .nil⟩
  | cons lba lbas ih =>
    refine Safe.bind ((hread lba (List.mem_cons_self ..) c x h hx).mono ?_)
    rintro buffer c x ⟨h, hx, hS⟩
    refine ⟨h.idle.not_busy, ?_⟩
    change (readAll d lbas >>= fun sectors => pure (sectorAt x.mem buffer :: sectors)).Safe B _ c x
    refine Safe.bind ?_
    refine (ih (fun lba hlba => hread lba (List.mem_cons_of_mem _ hlba)) h hx).mono ?_
    rintro sectors c x ⟨h, hx, hall⟩
    exact ⟨h, hx, .cons hS hall⟩

/-- **The driver and the controller**: `fd_init` and any reads after it, from any controller that is not busy,
in every interleaving with its interrupts.  No byte is sent to a controller that takes none, `fd_wait_irq6` is
never left waiting, `fd_irq6_stat` is never set by another command than the one that is waited for, at the end
the controller is idle with no interrupt unasked, and the end can always be reached. -/
theorem driver_orderly (c : Chip) (x : Devices) (currentDrive : BitVec 8) (drive : BitVec 32)
    (lbas : List (BitVec 32)) (hc : ¬c.Busy) {s : Bus Devices (List (List (BitVec 8)))}
    (h : (system (anything Devices) (session currentDrive drive lbas) c x).Reachable s) :
    Orderly (fun _ c _ => Rest c) s ∧
      Ends (anything Devices) (session currentDrive drive lbas) c x s := by
  have hkeeps : Keeps (anything Devices) fun _ => True :=
    ⟨fun _ _ _ _ _ _ _ => trivial, fun _ _ _ _ _ _ => trivial⟩
  have hsafe : (session currentDrive drive lbas).Safe (anything Devices)
      (fun _ c _ => Rest c) c x := by
    refine Safe.bind (safe_fdInit hkeeps drive hc trivial fun c x hrest _ => ?_)
    refine (safe_readAll (I := fun _ => True) (S := fun _ _ => True) (fun lba _ c x h hx => ?_) hrest
      trivial).mono fun _ _ _ h => h.1
    exact safe_fdReadSector hkeeps lba h hx fun _ _ _ h hx => ⟨h, hx, trivial⟩
  have hQ : ∀ (_ : List (List (BitVec 8))) (c : Chip) (_ : Devices), Rest c → ¬c.Busy :=
    fun _ _ _ h => h.idle.not_busy
  exact ⟨invariant_of_safe hQ hsafe h, ends_of_safe hQ hsafe h⟩

/-- The other devices after a reset, with nothing in memory. -/
def devices₀ : Devices := ⟨Hal.afterReset, fun _ => 0, 0⟩

/-- The controller while it starts after the reset, and the driver while it waits for it. -/
theorem driver_orderly_starting :
    ∃ s, (system (anything Devices) (session 0 0 [19]) ⟨.command [], 0, 0, []⟩
        devices₀).Reachable s ∧
      s.chip.phase = .starting ∧ Orderly (fun _ c _ => Rest c) s ∧
      Ends (anything Devices) (session 0 0 [19]) ⟨.command [], 0, 0, []⟩ devices₀ s := by
  have h : (system (anything Devices) (session 0 0 [19]) ⟨.command [], 0, 0, []⟩
      devices₀).Reachable (((Bus.run ⟨⟨.command [], 0, 0, []⟩, devices₀, false,
        session 0 0 [19], 0⟩ 0).run 0).run 0) :=
    .step (a := .program 0) (.step (a := .program 0) (.step (a := .program 0) (.init rfl) rfl) rfl) rfl
  have hc : ¬(⟨.command [], 0, 0, []⟩ : Chip).Busy := Chip.Idle.not_busy rfl
  exact ⟨_, h, rfl, driver_orderly _ devices₀ 0 0 [19] hc h⟩

end FanOS.FloppyDisk.Driver

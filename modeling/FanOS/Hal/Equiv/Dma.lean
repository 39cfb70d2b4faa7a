import FanOS.Hal.Dma

/-!
# Transfers of the floppy disk

After `dma_init_floppy` and `dma_set_read`, channel 2 is unmasked and has the lower 16 bits of the address
and the count, whatever the controllers were like before (`channel_dmaSetRead`): the reset clears the
flip-flop, and two bytes at a time leave it clear.  The page register of the channel is not written.  So the
transfers go to the buffer if and only if that register has its upper byte already (`programmed_iff`).
-/

namespace FanOS.Hal

open Dma8237 (Channel putByte)

variable {buffer length : BitVec 32} {s : DmaState}

/-- The physical addresses that channel 2 transfers, in order. -/
def transfers (s : DmaState) : List ℕ :=
  (s.dma0.channel 2).offsets.map fun o => (s.page dmaPageChan2Addrbyte2).toNat * 2 ^ 16 + o.toNat

/-- Channel 2 is ready to transfer the bytes of the buffer. -/
structure Programmed (buffer length : BitVec 32) (s : DmaState) : Prop where
  unmasked : (s.dma0.channel 2).masked = false
  transfers_eq : transfers s = List.range' buffer.toNat length.toNat

/-- What the calls leave in channel 2. -/
theorem channel_dmaSetRead (buffer length : BitVec 32) (s : DmaState) :
    (dmaSetRead fdcDmaChannel (dmaInitFloppy buffer length s)).dma0.channel 2 =
      { address := (buffer >>> 8).setWidth 8 ++ buffer.setWidth 8
        count := ((length - 1) >>> 8).setWidth 8 ++ (length - 1).setWidth 8
        mode := 0x56
        masked := false } := by
  rw [← Dma8237.putByte_putByte _ _ (s.dma0.channel 2).address,
    ← Dma8237.putByte_putByte _ _ (s.dma0.channel 2).count]
  rfl

theorem page_dmaSetRead (buffer length : BitVec 32) (s : DmaState) :
    (dmaSetRead fdcDmaChannel (dmaInitFloppy buffer length s)).page = s.page := rfl

/-- The two bytes make up the lower half of a word. -/
theorem append_setWidth (x : BitVec 32) :
    ((x >>> 8).setWidth 8 ++ x.setWidth 8 : BitVec 16) = x.setWidth 16 := by
  apply BitVec.eq_of_toNat_eq
  simp only [BitVec.toNat_append, BitVec.toNat_setWidth, BitVec.toNat_ushiftRight,
    Nat.shiftRight_eq_div_pow]
  rw [← Nat.shiftLeft_add_eq_or_of_lt (by omega), Nat.shiftLeft_eq]
  omega

/-- The buffer is not empty, and does not cross a boundary of 64 KiB. -/
structure Fits (buffer length : BitVec 32) : Prop where
  below : buffer.toNat < 2 ^ 24
  pos : 1 ≤ length.toNat
  length_le : length.toNat ≤ 2 ^ 16
  inside : buffer.toNat % 2 ^ 16 + length.toNat ≤ 2 ^ 16

/-- The addresses start with what the page register says. -/
theorem transfers_dmaSetRead (h : Fits buffer length) (s : DmaState) :
    transfers (dmaSetRead fdcDmaChannel (dmaInitFloppy buffer length s)) =
      List.range' ((s.page dmaPageChan2Addrbyte2).toNat * 2 ^ 16 + buffer.toNat % 2 ^ 16)
        length.toNat := by
  obtain ⟨-, hpos, hle, hinside⟩ := h
  have haddress : (buffer.setWidth 16).toNat = buffer.toNat % 2 ^ 16 := BitVec.toNat_setWidth 16 buffer
  have hcount : ((length - 1).setWidth 16).toNat = length.toNat - 1 := by
    rw [BitVec.toNat_setWidth]
    bv_omega
  have hoffsets := Dma8237.offsets_of_le (r := ⟨buffer.setWidth 16, (length - 1).setWidth 16, 0x56, false⟩)
    (show (0x56 : BitVec 8).getLsbD 5 = false from rfl) (by rw [haddress, hcount]; omega)
  rw [haddress, hcount, Nat.sub_add_cancel hpos] at hoffsets
  rw [transfers, page_dmaSetRead, channel_dmaSetRead, append_setWidth, append_setWidth,
    ← List.map_add_range', ← hoffsets, List.map_map]
  rfl

/-- **Channel 2 is programmed for the buffer** if and only if its page register has the upper byte of the
address before. -/
theorem programmed_iff (buffer length : BitVec 32) (s : DmaState) (h : Fits buffer length) :
    Programmed buffer length (dmaSetRead fdcDmaChannel (dmaInitFloppy buffer length s)) ↔
      (s.page dmaPageChan2Addrbyte2).toNat = buffer.toNat / 2 ^ 16 := by
  have htransfers := transfers_dmaSetRead h s
  have hpos := h.pos
  constructor
  · rintro ⟨-, hall⟩
    have hhead := congrArg List.head? (htransfers.symm.trans hall)
    obtain ⟨n, hn⟩ := Nat.exists_eq_add_of_le' hpos
    rw [hn, List.range'_succ, List.range'_succ] at hhead
    have := Option.some.inj hhead
    omega
  · intro hpage
    refine ⟨?_, ?_⟩
    · rw [channel_dmaSetRead]
    · rw [htransfers, hpage]
      congr 1
      omega

/-- The buffer of the driver, at `0x1000`. -/
theorem programmed_sector :
    Programmed 0x1000 512 (dmaSetRead fdcDmaChannel (dmaInitFloppy 0x1000 512 afterReset)) :=
  (programmed_iff 0x1000 512 afterReset ⟨by decide, by decide, by decide, by decide⟩).mpr (by decide)

/-- A buffer above 64 KiB, when the page register is zero. -/
theorem not_programmed : ¬ ∀ (buffer length : BitVec 32) (s : DmaState), Fits buffer length →
    Programmed buffer length (dmaSetRead fdcDmaChannel (dmaInitFloppy buffer length s)) := by
  intro hall
  have hfits : Fits 0x10000 1 := ⟨by decide, by decide, by decide, by decide⟩
  have htransfers := transfers_dmaSetRead hfits afterReset
  exact absurd (htransfers.symm.trans (hall 0x10000 1 afterReset hfits).transfers_eq) (by decide)

end FanOS.Hal

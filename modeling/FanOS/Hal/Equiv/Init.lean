import FanOS.Hal.Equiv.Pic
import FanOS.Hal.Init

/-!
# The processor as `kmain` sets it up

Every entry of the interrupt descriptor table is written, and read by the processor as the last call for it
says (`gate_setup`); the segments are read as `gdt_init` means them (`segment_setup`).  User code comes into
the kernel with `int` at the vector of the system calls and at no other (`protection_set_up`).
-/

namespace FanOS.Hal

open Ia32 LastWrite Pic8259 DescriptorCall

variable {address : Handler → BitVec 32} {v : ℕ}

/-! ### Gates -/

/-- A loop over vectors sets the gate of each of them. -/
theorem lastWrite_gate_range' {f : ℕ → DescriptorCall} {lo n : ℕ} {g : GateDescriptor}
    (hv : lo ≤ v ∧ v < lo + n) (hself : (f v).gateAt v = some g)
    (hother : ∀ i, i ≠ v → i < lo + n → (f i).gateAt v = none) :
    lastWrite (gateAt v) ((List.range' lo n).map f) = some g := by
  induction n with
  | zero => omega
  | succ n ih =>
    rw [List.range'_concat, List.map_append, List.map_singleton, lastWrite_concat, Nat.one_mul]
    by_cases hlast : v = lo + n
    · rw [← hlast, hself]
      rfl
    · rw [hother (lo + n) (Ne.symm hlast) (by omega), Option.none_or]
      exact ih ⟨hv.1, by omega⟩ fun i hi hlt => hother i hi (by omega)

/-- The call that sets the gate of a vector. -/
theorem gateAt_gate_ofNat {i : ℕ} (hi : i < 2 ^ 32) (irq : BitVec 32) (flags : BitVec 16) :
    (gate (BitVec.ofNat 32 i) irq flags).gateAt v =
      if i = v ∧ irq ≠ 0 then some ⟨irq, 0x08, flags.setWidth 8⟩ else none := by
  rw [gateAt, BitVec.toNat_ofNat, Nat.mod_eq_of_lt hi]

theorem lastWrite_append (hit : DescriptorCall → Option GateDescriptor) (ws ws' : List DescriptorCall) :
    lastWrite hit (ws ++ ws') = (lastWrite hit ws').or (lastWrite hit ws) := by
  rw [lastWrite, List.reverse_append, List.findSome?_append]
  rfl

/-- What `idt_init` leaves at a vector. -/
theorem lastWrite_idtInitCalls (haddress : ∀ h, address h ≠ 0) (hv : v < 256) :
    lastWrite (gateAt v) (idtInitCalls address) = some
      ⟨address (if v < 32 then if v ∈ errCodeVectors then .defaultExcpErrCode else .defaultExcp
        else .defaultInt), 0x08, if v < 32 then 0x8F else 0x8E⟩ := by
  rw [idtInitCalls, lastWrite_append]
  by_cases h32 : v < 32
  · have hnone : lastWrite (gateAt v) ((List.range' 32 224).map fun entry =>
        gate (BitVec.ofNat 32 entry) (address .defaultInt) intGateFlags) = none := by
      refine lastWrite_eq_none.mpr fun c hc => ?_
      obtain ⟨entry, hentry, rfl⟩ := List.mem_map.mp hc
      have hrange := List.mem_range'_1.mp hentry
      rw [gateAt_gate_ofNat (by omega), if_neg (by omega)]
    rw [hnone, Option.none_or, if_pos h32, if_pos h32, List.range_eq_range']
    refine lastWrite_gate_range' (by omega) ?_ fun i hi hlt => ?_
    · rw [gateAt_gate_ofNat (by omega), if_pos ⟨rfl, haddress _⟩]
      rfl
    · rw [gateAt_gate_ofNat (by omega), if_neg fun h => hi h.1]
  · have hsome := lastWrite_gate_range' (show 32 ≤ v ∧ v < 32 + 224 by omega)
      (f := fun entry => gate (BitVec.ofNat 32 entry) (address .defaultInt) intGateFlags)
      (g := ⟨address .defaultInt, 0x08, 0x8E⟩)
      (by rw [gateAt_gate_ofNat (by omega), if_pos ⟨rfl, haddress _⟩]; rfl)
      fun i hi hlt => by rw [gateAt_gate_ofNat (by omega), if_neg fun h => hi h.1]
    rw [hsome, if_neg h32, if_neg h32]
    rfl

/-- What `setup_interrupt_handlers` changes there. -/
theorem lastWrite_setupCalls (haddress : ∀ h, address h ≠ 0) (v : ℕ) :
    lastWrite (gateAt v) (setupCalls address) =
      if v = 14 ∨ v = 0x80 ∨ v = 0x20 ∨ v = 0x21 ∨ v = 0x26 then
        some ⟨address (handlerAt v), 0x08, flagsAt v⟩
      else none := by
  simp only [lastWrite, setupCalls, List.reverse_cons, List.reverse_nil, List.nil_append, List.cons_append,
    List.findSome?_cons, List.findSome?_nil, gateAt, haddress, ne_eq, not_false_eq_true, and_true,
    BitVec.reduceToNat]
  by_cases h26 : 0x26 = v
  · subst h26; rfl
  by_cases h21 : 0x21 = v
  · subst h21; rfl
  by_cases h20 : 0x20 = v
  · subst h20; rfl
  by_cases h80 : 0x80 = v
  · subst h80; rfl
  by_cases h14 : 14 = v
  · subst h14; rfl
  rw [if_neg h26, if_neg h21, if_neg h20, if_neg h80, if_neg h14, if_neg (by omega)]

/-- **Gates**: the processor reads at each vector the handler that should be there. -/
theorem gate_setup (haddress : ∀ h, address h ≠ 0) (tss : BitVec 32) (s : Processor) (hv : v < 256) :
    (setupInterruptHandlers address (halInit address tss s)).tables.gate v =
      ⟨address (handlerAt v), 0x08, flagsAt v⟩ := by
  have hv' : v < idtSize.toNat := hv.trans_eq (show 256 = idtSize.toNat from rfl)
  have hsetup := (keepsWrites_foldl (setupCalls address) (halInit address tss s).tables).gate v hv'
  have hinit := (keepsWrites_foldl (idtInitCalls address)
    { gdtInitCalls.foldl run s.tables with idt := clearIdt (gdtInitCalls.foldl run s.tables).idt }).gate v hv'
  rw [lastWrite_idtInitCalls haddress hv, Option.getD_some] at hinit
  have hidt : (halInit address tss s).tables.idt = (initTables address s.tables).idt := by
    unfold halInit
    dsimp only
  have hhal : (halInit address tss s).tables.gate v = (initTables address s.tables).gate v := by
    rw [DescriptorTables.gate, hidt, DescriptorTables.gate]
  rw [setupInterruptHandlers, hsetup, hhal, initTables, hinit, lastWrite_setupCalls haddress]
  by_cases hset : v = 14 ∨ v = 0x80 ∨ v = 0x20 ∨ v = 0x21 ∨ v = 0x26
  · rw [if_pos hset, Option.getD_some]
  · rw [if_neg hset, Option.getD_none, handlerAt, flagsAt, if_neg (show v ≠ 14 by omega)]
    by_cases h32 : v < 32
    · simp only [if_pos h32]
    · simp only [if_neg h32, if_neg (show v ≠ 0x20 by omega), if_neg (show v ≠ 0x21 by omega),
        if_neg (show v ≠ 0x26 by omega), if_neg (show v ≠ 0x80 by omega)]

/-! ### Segments -/

/-- The calls for the interrupt descriptor table set no segment. -/
theorem segmentAt_of_gate {j : ℕ} {calls : List DescriptorCall}
    (h : ∀ c ∈ calls, ∃ i irq flags, c = gate i irq flags) : lastWrite (segmentAt j) calls = none := by
  refine lastWrite_eq_none.mpr fun c hc => ?_
  obtain ⟨i, irq, flags, rfl⟩ := h c hc
  rfl

/-- The segments of the kernel and of user programs stay as `gdt_init` has set them. -/
theorem gdt_setup (address : Handler → BitVec 32) (tss : BitVec 32) (s : Processor) {j : ℕ} (hj : j ≠ 5) :
    (setupInterruptHandlers address (halInit address tss s)).tables.gdt j =
      (gdtInitCalls.foldl run s.tables).gdt j := by
  have hsetup := (keepsWrites_foldl (setupCalls address) (halInit address tss s).tables).gdt_of_none j
    (segmentAt_of_gate (by simp [setupCalls]))
  have hinit := (keepsWrites_foldl (idtInitCalls address)
    { gdtInitCalls.foldl run s.tables with
      idt := clearIdt (gdtInitCalls.foldl run s.tables).idt }).gdt_of_none j (segmentAt_of_gate (by
        intro c hc
        obtain hc | hc := List.mem_append.mp hc <;> obtain ⟨entry, -, rfl⟩ := List.mem_map.mp hc <;>
          exact ⟨_, _, _, rfl⟩))
  have hhal : (halInit address tss s).tables.gdt j = (initTables address s.tables).gdt j := by
    unfold halInit tssInit flushTss
    dsimp only
    rw [gdtSetDescriptor_of_ne]
    exact hj
  rw [setupInterruptHandlers, hsetup, hhal, initTables, hinit]

/-- Code and data of the kernel, and of user programs. -/
def accessAt (j : ℕ) : BitVec 8 :=
  if j = 1 then 0x9A else if j = 2 then 0x92 else if j = 3 then 0xFA else 0xF2

/-- What `gdt_init` sets. -/
theorem segment_gdtInitCalls (t : DescriptorTables) {j : ℕ} (hj : j < 5) (hpos : 0 < j) :
    (gdtInitCalls.foldl run t).segment j = ⟨0, .allOnes 20, accessAt j, 0xC⟩ := by
  have hsize : gdtSize.toNat = 6 := rfl
  rw [(keepsWrites_foldl gdtInitCalls t).segment j (by omega)]
  obtain rfl | rfl | rfl | rfl : j = 1 ∨ j = 2 ∨ j = 3 ∨ j = 4 := by omega
  all_goals rfl

/-! ### Interrupt controllers -/

/-- The controllers are the same whatever they were before, but for the lines that are served. -/
theorem pic_setup (address : Handler → BitVec 32) (tss : BitVec 32) (s : Processor) (h : Ready s.pic) :
    (setupInterruptHandlers address (halInit address tss s)).pic =
      { master := ⟨.ready, 0, 0xB8, s.pic.master.isr, 0x20, 0x04, false⟩
        slave := ⟨.ready, 0, 0xFF, s.pic.slave.isr, 0x28, 0x02, false⟩ } := by
  have hfirst : Ready (outb pic1Data 0xFF s.pic) := by
    rw [outb_pic1Data h]
    exact ⟨h.master, h.slave⟩
  have hdisable : disablePic s.pic =
      ⟨{ s.pic.master with imr := 0xFF }, { s.pic.slave with imr := 0xFF }⟩ := by
    rw [disablePic, outb_pic2Data hfirst, outb_pic1Data h]
  have hinit : (halInit address tss s).pic = picInit (disablePic s.pic) := rfl
  -- each call clears one bit of the mask of the first controller
  have hclear : ∀ (irq imr isr₁ isr₂ : BitVec 8), ¬irq ≥ 8 →
      clearIrqMask irq
          ⟨⟨.ready, 0, imr, isr₁, 0x20, 0x04, false⟩, ⟨.ready, 0, 0xFF, isr₂, 0x28, 0x02, false⟩⟩ =
        ⟨⟨.ready, 0, imr &&& ~~~((1 : BitVec 32) <<< irq.toNat).setWidth 8, isr₁, 0x20, 0x04, false⟩,
          ⟨.ready, 0, 0xFF, isr₂, 0x28, 0x02, false⟩⟩ := by
    intro irq imr isr₁ isr₂ hirq
    unfold clearIrqMask changeMask
    simp only [if_neg hirq]
    rw [outb_pic1Data ⟨rfl, rfl⟩]
    rfl
  rw [setupInterruptHandlers, hinit, hdisable, picInit_eq]
  dsimp only
  rw [hclear 0 _ _ _ (by decide), hclear 1 _ _ _ (by decide), hclear 2 _ _ _ (by decide),
    hclear 6 _ _ _ (by decide)]
  rfl

/-! ### Protection -/

/-- A segment with everything in it, at a privilege level. -/
structure AllMemory (d : SegmentDescriptor) (dpl : BitVec 2) : Prop where
  present : d.present = true
  flat : d.flat
  dpl : d.dpl = dpl

/-- The tables keep user programs out of the kernel, but for the system calls. -/
structure Protected (address : Handler → BitVec 32) (t : DescriptorTables) : Prop where
  /-- Every vector leads to its handler, in the code segment of the kernel. -/
  handler : ∀ v < 256, (t.gate v).offset = address (handlerAt v) ∧ (t.gate v).selector = 0x08
  /-- A user program comes through one gate. -/
  user : ∀ v < 256, (t.gate v).Admits 3 ↔ v = 0x80
  /-- Exceptions leave interrupts enabled, everything else disables them. -/
  masking : ∀ v < 256, (t.gate v).trap = decide (v < 32) ∧ (t.gate v).interrupt = decide (32 ≤ v)
  kernelCode : AllMemory (t.segment (selectorIndex 0x08)) 0 ∧ (t.segment (selectorIndex 0x08)).code = true
  kernelData : AllMemory (t.segment (selectorIndex 0x10)) 0 ∧ (t.segment (selectorIndex 0x10)).data = true
  /-- The selectors of `jmp_userspace`. -/
  userCode : AllMemory (t.segment (selectorIndex 0x1B)) (selectorRpl 0x1B) ∧
    (t.segment (selectorIndex 0x1B)).code = true
  userData : AllMemory (t.segment (selectorIndex 0x23)) (selectorRpl 0x23) ∧
    (t.segment (selectorIndex 0x23)).data = true

/-- **Protection**: whatever the tables held before, and wherever the handlers lie. -/
theorem protection_set_up (address : Handler → BitVec 32) (tss : BitVec 32) (s : Processor)
    (haddress : ∀ h, address h ≠ 0) :
    Protected address (setupInterruptHandlers address (halInit address tss s)).tables := by
  have hsegment : ∀ j, 0 < j → j < 5 →
      (setupInterruptHandlers address (halInit address tss s)).tables.segment j =
        ⟨0, .allOnes 20, accessAt j, 0xC⟩ := fun j hpos hj => by
    rw [DescriptorTables.segment, gdt_setup address tss s (by omega)]
    exact segment_gdtInitCalls s.tables hj hpos
  refine ⟨fun v hv => ?_, fun v hv => ?_, fun v hv => ?_, ?_, ?_, ?_, ?_⟩
  · rw [gate_setup haddress tss s hv]
    exact ⟨rfl, rfl⟩
  · rw [gate_setup haddress tss s hv, GateDescriptor.Admits, GateDescriptor.dpl, flagsAt]
    dsimp only
    split_ifs with h32 h80
    · exact ⟨fun h => absurd h (by decide), fun h => by omega⟩
    · exact ⟨fun _ => h80, fun _ => by decide⟩
    · exact ⟨fun h => absurd h (by decide), fun h => absurd h h80⟩
  · rw [gate_setup haddress tss s hv, GateDescriptor.trap, GateDescriptor.interrupt, flagsAt]
    dsimp only
    by_cases h32 : v < 32
    · rw [if_pos h32, decide_eq_true h32, decide_eq_false (show ¬32 ≤ v by omega)]
      decide
    · rw [if_neg h32, decide_eq_false h32, decide_eq_true (show 32 ≤ v by omega)]
      split_ifs <;> decide
  · rw [show selectorIndex 0x08 = 1 from rfl, hsegment 1 (by decide) (by decide)]
    exact ⟨⟨rfl, ⟨rfl, rfl, rfl⟩, rfl⟩, rfl⟩
  · rw [show selectorIndex 0x10 = 2 from rfl, hsegment 2 (by decide) (by decide)]
    exact ⟨⟨rfl, ⟨rfl, rfl, rfl⟩, rfl⟩, rfl⟩
  · rw [show selectorIndex 0x1B = 3 from rfl, hsegment 3 (by decide) (by decide)]
    exact ⟨⟨rfl, ⟨rfl, rfl, rfl⟩, rfl⟩, rfl⟩
  · rw [show selectorIndex 0x23 = 4 from rfl, hsegment 4 (by decide) (by decide)]
    exact ⟨⟨rfl, ⟨rfl, rfl, rfl⟩, rfl⟩, rfl⟩

/-- Tables and controllers with nothing in them, and handlers at different addresses. -/
theorem protection_set_up_empty_tables :
    (∀ h, (fun h : Handler => (if h = .syscallDispatcher then 0x101000 else 0x102000 : BitVec 32)) h ≠ 0) ∧
      Protected (fun h => if h = .syscallDispatcher then 0x101000 else 0x102000)
        (setupInterruptHandlers (fun h => if h = .syscallDispatcher then 0x101000 else 0x102000)
          (halInit (fun h => if h = .syscallDispatcher then 0x101000 else 0x102000) 0x106000
            ⟨⟨fun _ => ⟨0, 0, 0, 0, 0, 0⟩, fun _ => ⟨0, 0, 0, 0, 0⟩⟩, {}, 0, idlePair⟩)).tables := by
  have haddress : ∀ h : Handler,
      (if h = .syscallDispatcher then 0x101000 else 0x102000 : BitVec 32) ≠ 0 := by
    intro h
    split_ifs <;> decide
  exact ⟨haddress, protection_set_up _ _ _ haddress⟩

end FanOS.Hal

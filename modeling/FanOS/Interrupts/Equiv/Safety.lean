import FanOS.Hal.Equiv.Init
import FanOS.Interrupts.Basic

/-!
# Interrupts are neither lost nor mixed up

At most one handler of a device runs, innermost and with interrupts disabled, and until it sends the end of
the interrupt its line is the only one that is being served (`Inv`).  So a line that asks is held up by
nothing but the interrupt flag, its vector leads to its own handler, and every time that it asked is
accounted for: its interrupt was taken, or it was asking already, or it still asks.
-/

namespace FanOS.Interrupts

open Hal Pic8259

variable {s s' : Machine} {f : Frame} {rest : List Frame} {i line : ℕ}

/-! ### The invariant -/

/-- The line that a handler serves. -/
def Frame.serves (f : Frame) : Option ℕ :=
  if f.place = .body ∨ f.place = .eoi then lineOf f.handler else none

/-- The lines that are being served. -/
def serving (frames : List Frame) : BitVec 8 :=
  match frames.head?.bind Frame.serves with
  | some line => withLine 0 line
  | none => 0

/-- The innermost handler has not counted its tick yet. -/
def ticking (frames : List Frame) : ℕ :=
  match frames with
  | f :: _ => if f.handler = .timerIrq0 ∧ f.place = .body then 1 else 0
  | [] => 0

/-- Where a handler of a device can be. -/
inductive PlaceOk : Handler → Place → Prop
  | device {h : Handler} {line : ℕ} {place : Place} (hline : lineOf h = some line)
    (hplace : place = .body ∨ place = .eoi ∨ place = .iret) : PlaceOk h place
  | body : PlaceOk .defaultInt .body
  | poll (ticks : BitVec 32) : PlaceOk .defaultInt (.poll ticks)
  | iret : PlaceOk .defaultInt .iret

/-- What is known of the innermost handler. -/
def FrameOk (ifl : Bool) (f : Frame) : Prop :=
  f.handler = .syscallDispatcher ∨ ifl = false ∧ f.savedIf = true ∧ PlaceOk f.handler f.place

structure Inv (s : Machine) : Prop where
  imr : s.pic.master.imr = 0xB8
  base : s.pic.master.base = 0x20
  cascade : s.pic.master.cascade = 0x04
  autoEoi : s.pic.master.autoEoi = false
  line2 : s.pic.master.irr.getLsbD 2 = false
  slave : s.pic.slave.imr = 0xFF
  served : s.pic.master.isr = serving s.frames
  inner : ∀ f rest, s.frames = f :: rest → FrameOk s.ifl f
  outer : ∀ f ∈ s.frames.tail, f.handler = .syscallDispatcher
  counted : ∀ line < 8, s.raised line =
    s.taken line + s.merged line + if s.pic.master.irr.getLsbD line then 1 else 0
  ticks : s.pitTicks + BitVec.ofNat 32 (ticking s.frames) = BitVec.ofNat 32 (s.taken 0)

/-! ### What is not being served -/

theorem serving_syscall (h : f.handler = .syscallDispatcher) : serving (f :: rest) = 0 := by
  simp [serving, Frame.serves, h, lineOf]

theorem serves_of_place (h : f.place = .body ∨ f.place = .eoi) : f.serves = lineOf f.handler := if_pos h

theorem serving_of_serves (h : f.serves = some line) : serving (f :: rest) = withLine 0 line := by
  rw [serving, List.head?_cons, Option.bind_some, h]

theorem serving_of_none (h : f.serves = none) : serving (f :: rest) = 0 := by
  rw [serving, List.head?_cons, Option.bind_some, h]

theorem ticking_syscall (h : f.handler = .syscallDispatcher) : ticking (f :: rest) = 0 := by
  simp [ticking, h]

/-- System calls serve no line. -/
theorem serving_of_syscalls {frames : List Frame} (h : ∀ f ∈ frames, f.handler = .syscallDispatcher) :
    serving frames = 0 ∧ ticking frames = 0 := by
  cases frames with
  | nil => exact ⟨rfl, rfl⟩
  | cons f rest => exact ⟨serving_syscall (h f List.mem_cons_self), ticking_syscall (h f List.mem_cons_self)⟩

theorem place_of_line (h : PlaceOk f.handler f.place) (hline : lineOf f.handler = some line) :
    f.place = .body ∨ f.place = .eoi ∨ f.place = .iret := by
  obtain ⟨handler, place, savedIf⟩ := f
  cases h with
  | device _ hplace => exact hplace
  | body => cases hline
  | poll ticks => cases hline
  | iret => cases hline

/-- With interrupts enabled, or outside a handler of a device, every handler is a system call. -/
theorem Inv.syscalls (h : Inv s) (hidle : s.ifl = true ∨ s.deviceFrame = none) :
    ∀ f ∈ s.frames, f.handler = .syscallDispatcher := by
  cases hframes : s.frames with
  | nil => simp
  | cons f rest =>
    have hf : f.handler = .syscallDispatcher := by
      obtain hf | ⟨hifl, -, -⟩ := h.inner f rest hframes
      · exact hf
      · obtain hidle | hidle := hidle
        · rw [hifl] at hidle
          cases hidle
        · by_contra hne
          rw [Machine.deviceFrame, hframes] at hidle
          simp only [if_neg hne] at hidle
          cases hidle
    have houter := h.outer
    rw [hframes, List.tail_cons] at houter
    exact fun g hg => (List.mem_cons.mp hg).elim (fun h => h ▸ hf) (houter g)

/-! ### What is passed on -/

/-- The second controller does not ask. -/
theorem Inv.request_eq (h : Inv s) : s.pic.request = s.pic.master.request := by
  have hnone : s.pic.slave.request = none :=
    Chip.request_of_masked fun i hi => by
      rw [h.slave]
      exact (by decide : ∀ i < 8, (0xFF : BitVec 8).getLsbD i = true) i hi
  rw [Pair.request, Pair.masterInput, hnone]
  rfl

/-- Three lines have no mask and a device. -/
theorem line_of_unmasked (hi : i < 8) (himr : (0xB8 : BitVec 8).getLsbD i = false) (h2 : i ≠ 2) :
    i = 0 ∨ i = 1 ∨ i = 6 := by
  have hall : ∀ i < 8, (0xB8 : BitVec 8).getLsbD i = false → i = 0 ∨ i = 1 ∨ i = 2 ∨ i = 6 := by decide
  have := hall i hi himr
  omega

/-- The line that is passed on is one of them, and nothing else is being served. -/
theorem Inv.of_request (h : Inv s) (hreq : s.pic.request = some i) :
    (i = 0 ∨ i = 1 ∨ i = 6) ∧ s.pic.master.irr.getLsbD i = true ∧
      s.pic.acknowledge = (0x20 + BitVec.ofNat 8 i, { s.pic with master := s.pic.master.acknowledge i }) := by
  have hmaster := hreq
  rw [h.request_eq, Chip.request_eq_some] at hmaster
  obtain ⟨hirr, himr, hlt, -, -⟩ := hmaster
  have h2 : i ≠ 2 := by
    rintro rfl
    rw [h.line2] at hirr
    cases hirr
  rw [h.imr] at himr
  have hline := line_of_unmasked hlt himr h2
  refine ⟨hline, hirr, ?_⟩
  have hcascade : (0x04 : BitVec 8).getLsbD i = false := by
    obtain rfl | rfl | rfl := hline <;> decide
  rw [Pair.acknowledge, hreq]
  simp only [h.cascade, hcascade, Bool.false_eq_true, false_and, if_false, h.base]

/-- The vector of a line leads to its handler. -/
theorem lineOf_handlerAt (hi : i = 0 ∨ i = 1 ∨ i = 6) :
    lineOf (handlerAt (0x20 + BitVec.ofNat 8 i).toNat) = some i := by
  obtain rfl | rfl | rfl := hi <;> rfl

/-! ### Steps -/

theorem Inv.raise (h : Inv s) (hlt : line < 16) (h2 : line ≠ 2) : Inv (s.raise line) := by
  by_cases h8 : line < 8
  · have hpic : s.pic.raise line = { s.pic with master := s.pic.master.raise line } := if_pos h8
    refine ⟨?_, ?_, ?_, ?_, ?_, ?_, ?_, h.inner, h.outer, fun l hl => ?_, h.ticks⟩
    all_goals simp only [Machine.raise, hpic, Chip.raise]
    · exact h.imr
    · exact h.base
    · exact h.cascade
    · exact h.autoEoi
    · rw [getLsbD_withLine (by decide), h.line2, decide_eq_false (Ne.symm h2)]
      rfl
    · exact h.slave
    · exact h.served
    · have hcount := h.counted l hl
      rw [getLsbD_withLine hl]
      by_cases heq : l = line
      · subst heq
        cases hirr : s.pic.master.irr.getLsbD l <;> simp [hirr] at hcount ⊢ <;> omega
      · simp only [heq, decide_false, Bool.or_false, Function.update_of_ne heq]
        split_ifs <;> simp_all
  · have hpic : s.pic.raise line = { s.pic with slave := s.pic.slave.raise (line - 8) } := if_neg h8
    refine ⟨?_, ?_, ?_, ?_, ?_, ?_, ?_, h.inner, h.outer, fun l hl => ?_, h.ticks⟩
    all_goals simp only [Machine.raise, hpic]
    · exact h.imr
    · exact h.base
    · exact h.cascade
    · exact h.autoEoi
    · exact h.line2
    · exact h.slave
    · exact h.served
    · have hcount := h.counted l hl
      rw [BitVec.getLsbD_of_ge s.pic.master.irr line (by omega)]
      simpa [Function.update_of_ne (show l ≠ line by omega)] using hcount

/-- Entering a handler above system calls. -/
theorem inner_enter {handler : Handler} {savedIf : Bool} (h : FrameOk false ⟨handler, .body, savedIf⟩)
    {frames : List Frame} : ∀ f rest, ⟨handler, .body, savedIf⟩ :: frames = f :: rest → FrameOk false f := by
  rintro f rest heq
  rwa [← (List.cons.inj heq).1]

/-- The processor takes an interrupt. -/
theorem Inv.take (h : Inv s) (hifl : s.ifl = true) (hreq : s.pic.request = some i) : Inv (s.take i) := by
  obtain ⟨hi, hirr, hack⟩ := h.of_request hreq
  have hsys := h.syscalls (Or.inl hifl)
  obtain ⟨hserving, hticking⟩ := serving_of_syscalls hsys
  have hline : lineOf (handlerAt (0x20 + BitVec.ofNat 8 i).toNat) = some i := lineOf_handlerAt hi
  have hframe : FrameOk false ⟨handlerAt (0x20 + BitVec.ofNat 8 i).toNat, .body, s.ifl⟩ :=
    Or.inr ⟨rfl, hifl, .device hline (Or.inl rfl)⟩
  have hlt : i < 8 := by omega
  have htake : s.take i = { s with
      pic := { s.pic with master := s.pic.master.acknowledge i }
      taken := Function.update s.taken i (s.taken i + 1)
      frames := ⟨handlerAt (0x20 + BitVec.ofNat 8 i).toNat, .body, s.ifl⟩ :: s.frames
      ifl := false } := by
    rw [Machine.take, hack]
    rfl
  rw [htake]
  refine ⟨h.imr, h.base, h.cascade, h.autoEoi, ?_, h.slave, ?_, inner_enter hframe, hsys, fun l hl => ?_, ?_⟩
  · change (withoutLine s.pic.master.irr i).getLsbD 2 = false
    rw [getLsbD_withoutLine (by decide), h.line2]
    rfl
  · change (if s.pic.master.autoEoi = true then s.pic.master.isr else withLine s.pic.master.isr i) = _
    rw [h.autoEoi, h.served, hserving, serving_of_serves ((serves_of_place (Or.inl rfl)).trans hline)]
    rfl
  · have hcount := h.counted l hl
    change s.raised l = Function.update s.taken i (s.taken i + 1) l + s.merged l +
      if (withoutLine s.pic.master.irr i).getLsbD l = true then 1 else 0
    rw [getLsbD_withoutLine hl]
    by_cases heq : l = i
    · subst heq
      rw [hirr] at hcount
      simp at hcount ⊢
      omega
    · simpa [heq, Function.update_of_ne heq] using hcount
  · have hcount := h.ticks
    rw [hticking, BitVec.add_zero] at hcount
    change s.pitTicks + BitVec.ofNat 32 (ticking _) =
      BitVec.ofNat 32 (Function.update s.taken i (s.taken i + 1) 0)
    rw [hcount]
    obtain rfl | rfl | rfl := hi
    · rw [Function.update_self, BitVec.ofNat_add]
      rfl
    · rw [Function.update_of_ne (by decide)]
      exact BitVec.add_zero _
    · rw [Function.update_of_ne (by decide)]
      exact BitVec.add_zero _

/-- A handler is entered that serves no line. -/
theorem Inv.enter (h : Inv s) {v : ℕ} (hsys : ∀ f ∈ s.frames, f.handler = .syscallDispatcher)
    (hline : lineOf (handlerAt v) = none) (hframe : FrameOk false ⟨handlerAt v, .body, s.ifl⟩) :
    Inv (s.enter v) := by
  obtain ⟨hserving, hticking⟩ := serving_of_syscalls hsys
  refine ⟨h.imr, h.base, h.cascade, h.autoEoi, h.line2, h.slave, ?_, inner_enter hframe, hsys, h.counted, ?_⟩
  · change s.pic.master.isr = serving (⟨handlerAt v, .body, s.ifl⟩ :: s.frames)
    rw [h.served, hserving, serving_of_none ((serves_of_place (Or.inl rfl)).trans hline)]
  · have htimer : handlerAt v ≠ .timerIrq0 := by
      intro heq
      rw [heq] at hline
      cases hline
    have hcount := h.ticks
    rw [hticking] at hcount
    change s.pitTicks + BitVec.ofNat 32 (ticking (⟨handlerAt v, .body, s.ifl⟩ :: s.frames)) = _
    rw [ticking, if_neg fun hand => htimer hand.1]
    exact hcount

/-- A handler returns. -/
theorem Inv.ret (h : Inv s) (hframes : s.frames = f :: rest) (hserves : f.serves = none)
    (htick : ticking (f :: rest) = 0) : Inv { s with frames := rest, ifl := f.savedIf } := by
  have hrest : ∀ g ∈ rest, g.handler = .syscallDispatcher := by
    have houter := h.outer
    rwa [hframes, List.tail_cons] at houter
  obtain ⟨hserving, hticking⟩ := serving_of_syscalls hrest
  refine ⟨h.imr, h.base, h.cascade, h.autoEoi, h.line2, h.slave, ?_, fun g gs hg => ?_, fun g hg => ?_,
    h.counted, ?_⟩
  · change s.pic.master.isr = serving rest
    rw [h.served, hframes, hserving, serving_of_none hserves]
  · change rest = g :: gs at hg
    exact Or.inl (hrest g (by rw [hg]; exact List.mem_cons_self))
  · exact hrest g (List.mem_of_mem_tail hg)
  · have hcount := h.ticks
    rw [hframes, htick] at hcount
    change s.pitTicks + BitVec.ofNat 32 (ticking rest) = _
    rw [hticking]
    exact hcount

/-- A handler goes on to another place, where it serves the same line. -/
theorem Inv.move (h : Inv s) (hframes : s.frames = f :: rest) (hf : f.handler ≠ .syscallDispatcher)
    {place : Place} (hplace : PlaceOk f.handler place)
    (hserves : serving ({ f with place := place } :: rest) = serving (f :: rest)) {ticks : BitVec 32}
    (hticks : ticks + BitVec.ofNat 32 (ticking ({ f with place := place } :: rest)) =
      s.pitTicks + BitVec.ofNat 32 (ticking (f :: rest))) (stat : BitVec 8) :
    Inv { s with pitTicks := ticks, fdIrq6Stat := stat, frames := { f with place := place } :: rest } := by
  obtain hsys | ⟨hifl, hsaved, -⟩ := h.inner f rest hframes
  · exact absurd hsys hf
  refine ⟨h.imr, h.base, h.cascade, h.autoEoi, h.line2, h.slave, ?_, fun g gs hg => ?_, ?_, h.counted, ?_⟩
  · change s.pic.master.isr = serving ({ f with place := place } :: rest)
    rw [h.served, hframes, hserves]
  · obtain ⟨rfl, -⟩ := List.cons.inj hg
    exact Or.inr ⟨hifl, hsaved, hplace⟩
  · have houter := h.outer
    rwa [hframes] at houter
  · have hcount := h.ticks
    rw [hframes] at hcount
    exact hticks.trans hcount

/-- The end of an interrupt. -/
theorem Inv.eoi (h : Inv s) (hframes : s.frames = f :: rest) (hline : lineOf f.handler = some line)
    (hplace : f.place = .eoi) :
    Inv { s with
      pic := sendPicEoi (BitVec.ofNat 8 line) s.pic
      frames := { f with place := .iret } :: rest } := by
  have hi : line = 0 ∨ line = 1 ∨ line = 6 := by
    obtain ⟨handler, place, savedIf⟩ := f
    cases handler <;> simp_all [lineOf]
  obtain hsys | ⟨hifl, hsaved, -⟩ := h.inner f rest hframes
  · rw [hsys] at hline
    cases hline
  -- the line of the handler is the one that the controller finds
  have hisr : s.pic.master.isr = withLine 0 line := by
    rw [h.served, hframes, serving_of_serves ((serves_of_place (Or.inr hplace)).trans hline)]
  obtain ⟨isr, hwrite, -, hhighest⟩ := writeCommand_picEoi s.pic.master
  have hzero : isr = 0 := by
    rw [hhighest line (by rw [hisr]; exact highest_withLine_zero (by omega)), hisr, withoutLine_withLine_zero]
  have hsend : sendPicEoi (BitVec.ofNat 8 line) s.pic =
      { s.pic with master := { s.pic.master with isr := 0 } } := by
    have hlow : ¬BitVec.ofNat 8 line ≥ 8 := by obtain rfl | rfl | rfl := hi <;> decide
    rw [← hzero, ← hwrite]
    exact congrArg (outb pic1Cmd picEoi) (if_neg hlow)
  rw [hsend]
  refine ⟨h.imr, h.base, h.cascade, h.autoEoi, h.line2, h.slave, ?_, fun g gs hg => ?_, ?_, h.counted, ?_⟩
  · simp [serving, Frame.serves]
  · obtain ⟨rfl, -⟩ := List.cons.inj hg
    exact Or.inr ⟨hifl, hsaved, .device hline (Or.inr (Or.inr rfl))⟩
  · have houter := h.outer
    rwa [hframes] at houter
  · have hcount := h.ticks
    rw [hframes] at hcount
    simpa [ticking, hplace] using hcount

/-- The next statement of a handler of a device. -/
theorem Inv.runFrame (h : Inv s) (hframes : s.frames = f :: rest) (hf : f.handler ≠ .syscallDispatcher) :
    Inv (s.runFrame f rest) := by
  obtain hsys | ⟨-, -, hplace⟩ := h.inner f rest hframes
  · exact absurd hsys hf
  obtain ⟨handler, place, savedIf⟩ := f
  dsimp only at hplace hf
  cases hplace with
  | device hline hwhere =>
    obtain rfl | rfl | rfl := hwhere
    · -- each handler does its own, and none has sent the end of the interrupt yet
      have hnext : PlaceOk handler .eoi := .device hline (Or.inr (Or.inl rfl))
      have hsame : ∀ gs,
          serving (⟨handler, .eoi, savedIf⟩ :: gs) = serving (⟨handler, .body, savedIf⟩ :: gs) := fun _ => rfl
      cases handler with
      | timerIrq0 =>
        have hticks : s.pitTicks + 1 + 0 = s.pitTicks + 1 := BitVec.add_zero _
        exact h.move hframes hf hnext (hsame _) hticks _
      | keyboardIrq1 => exact h.move hframes hf hnext (hsame _) rfl _
      | fdIrq6 => exact h.move hframes hf hnext (hsame _) rfl _
      | _ => cases hline
    · rename_i line
      have heoi := h.eoi hframes hline rfl
      rw [Machine.runFrame]
      simpa only [hline, Option.getD_some] using heoi
    · exact h.ret hframes rfl (by simp [ticking])
  | body => exact h.move hframes hf (.poll _) rfl rfl _
  | poll ticks =>
    rw [Machine.runFrame]
    dsimp only
    split_ifs
    · exact h
    · exact h.move hframes hf .iret rfl rfl _
  | iret => exact h.ret hframes rfl rfl

/-- **Step**: every event keeps the invariant. -/
theorem Inv.next (h : Inv s) {e : Event} (hstep : s.next e = some s') : Inv s' := by
  cases e with
  | raise line =>
    rw [Machine.next] at hstep
    split_ifs at hstep with hline
    rw [← Option.some.inj hstep]
    exact h.raise hline.1 hline.2
  | take =>
    rw [Machine.next] at hstep
    split_ifs at hstep with hifl
    obtain ⟨i, hreq, rfl⟩ := Option.map_eq_some_iff.mp hstep
    exact h.take hifl hreq
  | spurious =>
    rw [Machine.next] at hstep
    split_ifs at hstep with hspurious
    obtain ⟨hifl, hreq⟩ := hspurious
    have hvector : s.pic.acknowledge.1 = 0x20 + 7 := by
      rw [Pair.acknowledge, hreq, ← h.base]
    rw [hvector] at hstep
    rw [← Option.some.inj hstep]
    exact h.enter (h.syscalls (Or.inl hifl)) rfl (Or.inr ⟨rfl, hifl, .body⟩)
  | handler =>
    obtain ⟨⟨f, rest⟩, hdevice, rfl⟩ := Option.map_eq_some_iff.mp hstep
    rw [Machine.deviceFrame] at hdevice
    split at hdevice
    · rename_i g gs hframes
      split_ifs at hdevice with hg
      obtain ⟨rfl, rfl⟩ := Prod.mk.inj (Option.some.inj hdevice)
      exact h.runFrame hframes hg
    · cases hdevice
  | syscall =>
    rw [Machine.next] at hstep
    split_ifs at hstep with hempty
    rw [← Option.some.inj hstep]
    exact h.enter (by rw [hempty]; simp) rfl (Or.inl rfl)
  | sysret =>
    rw [Machine.next] at hstep
    split at hstep
    · rename_i f rest hframes
      split_ifs at hstep with hf
      rw [← Option.some.inj hstep]
      have hserves : f.serves = none := by simp [Frame.serves, hf, lineOf]
      exact h.ret hframes hserves (ticking_syscall hf)
    · cases hstep
  | setIf b =>
    rw [Machine.next] at hstep
    split_ifs at hstep with hnone
    rw [← Option.some.inj hstep]
    have hsys := h.syscalls (Or.inr hnone)
    refine ⟨h.imr, h.base, h.cascade, h.autoEoi, h.line2, h.slave, h.served, fun f rest hf => ?_, h.outer,
      h.counted, h.ticks⟩
    exact Or.inl (hsys f (by rw [show s.frames = f :: rest from hf]; exact List.mem_cons_self))

/-- Every run keeps it. -/
theorem inv_of_reachable (h : interrupts.Reachable s) : Inv s := by
  refine h.invariant ?_ fun s e s' hs hstep => hs.next hstep
  rintro s ⟨address, tss, processor, hready, hmaster, hslave, rfl⟩
  rw [pic_setup address tss processor hready, hmaster]
  exact ⟨rfl, rfl, rfl, rfl, by simp, rfl, rfl, nofun, nofun, fun _ _ => by simp, rfl⟩

/-! ### Safety -/

/-- What a maintainer may rely on. -/
structure Safe (s : Machine) : Prop where
  /-- A handler of a device runs with interrupts disabled, and nothing but system calls is below it. -/
  single : ∀ f rest, s.frames = f :: rest → f.handler ≠ .syscallDispatcher →
    s.ifl = false ∧ ∀ g ∈ rest, g.handler = .syscallDispatcher
  /-- The line of the running handler is being served until the end of the interrupt is sent, and no other. -/
  served : s.pic.master.isr = serving s.frames
  /-- An interrupt that is taken is that of a line that asks, and enters its handler. -/
  dispatched : ∀ i, s.pic.request = some i →
    s.pic.master.irr.getLsbD i = true ∧ lineOf (handlerAt s.pic.acknowledge.1.toNat) = some i
  /-- A line with a device is passed on, or one before it, when no handler is in its way. -/
  passed : ∀ line, line = 0 ∨ line = 1 ∨ line = 6 → s.pic.master.irr.getLsbD line = true →
    serving s.frames = 0 → ∃ i ≤ line, s.pic.request = some i
  /-- Whenever a line asked, its interrupt was taken, or it was asking already, or it asks now. -/
  counted : ∀ line < 8, s.raised line =
    s.taken line + s.merged line + if s.pic.master.irr.getLsbD line then 1 else 0
  /-- The timer counts the interrupts that were taken, but for one that has just been. -/
  ticks : s.pitTicks + BitVec.ofNat 32 (ticking s.frames) = BitVec.ofNat 32 (s.taken 0)

/-- **Safety of interrupts**, in every run. -/
theorem interrupts_safe (s : Machine) (h : interrupts.Reachable s) : Safe s := by
  have hinv := inv_of_reachable h
  refine ⟨fun f rest hframes hf => ?_, hinv.served, fun i hreq => ?_, fun line hline hirr hserving => ?_,
    hinv.counted, hinv.ticks⟩
  · obtain hsys | ⟨hifl, -, -⟩ := hinv.inner f rest hframes
    · exact absurd hsys hf
    · have houter := hinv.outer
      rw [hframes, List.tail_cons] at houter
      exact ⟨hifl, houter⟩
  · obtain ⟨hi, hirr, hack⟩ := hinv.of_request hreq
    rw [hack]
    exact ⟨hirr, lineOf_handlerAt hi⟩
  · have himr : s.pic.master.imr.getLsbD line = false := by
      rw [hinv.imr]
      obtain rfl | rfl | rfl := hline <;> rfl
    rw [hinv.request_eq]
    exact Chip.exists_request (by rw [hinv.served, hserving]) hirr himr

/-- The controllers of a kernel that has just started. -/
def idleProcessor : Processor :=
  ⟨⟨fun _ => ⟨0, 0, 0, 0, 0, 0⟩, fun _ => ⟨0, 0, 0, 0, 0⟩⟩, {}, 0, idlePair⟩

/-- The kernel, in which no interrupt was taken yet. -/
def idleMachine : Machine where
  pic := (setupInterruptHandlers (fun _ => 0x101000) (halInit (fun _ => 0x101000) 0x106000 idleProcessor)).pic
  ifl := true
  frames := []
  pitTicks := 0
  fdIrq6Stat := 0
  raised := fun _ => 0
  merged := fun _ => 0
  taken := fun _ => 0

theorem reachable_idleMachine : interrupts.Reachable idleMachine :=
  .init ⟨_, _, idleProcessor, ⟨rfl, rfl⟩, rfl, rfl, rfl⟩

/-- The timer asks, and its handler is entered. -/
theorem reachable_timer : interrupts.Reachable ((idleMachine.raise 0).take 0) :=
  (reachable_idleMachine.step (show interrupts.step _ (.raise 0) _ from rfl)).step
    (show interrupts.step _ .take _ from rfl)

theorem interrupts_safe_timer : Safe ((idleMachine.raise 0).take 0) := interrupts_safe _ reachable_timer

/-! ### Returning -/

/-- A handler of a device goes on. -/
theorem next_handler (hframes : s.frames = f :: rest) (hf : f.handler ≠ .syscallDispatcher) :
    s.next .handler = some (s.runFrame f rest) := by
  rw [Machine.next, Machine.deviceFrame, hframes]
  simp only [if_neg hf, Option.map_some]

/-- So many statements of handlers. -/
def Machine.handlerSteps (s : Machine) (n : ℕ) : Option Machine :=
  (List.replicate n Event.handler).foldlM Machine.next s

theorem handlerSteps_succ (hframes : s.frames = f :: rest) (hf : f.handler ≠ .syscallDispatcher) (n : ℕ) :
    s.handlerSteps (n + 1) = (s.runFrame f rest).handlerSteps n := by
  rw [Machine.handlerSteps, List.replicate_succ, List.foldlM_cons, next_handler hframes hf]
  rfl

/-- A handler has returned, and the same lines ask. -/
structure Returned (s : Machine) (f : Frame) (rest : List Frame) (s' : Machine) : Prop where
  frames : s'.frames = rest
  ifl : s'.ifl = f.savedIf
  irr : s'.pic.master.irr = s.pic.master.irr

theorem returned_of_iret (hframes : s.frames = f :: rest) (hf : f.handler ≠ .syscallDispatcher)
    (hplace : f.place = .iret) : ∃ s', s.handlerSteps 1 = some s' ∧ Returned s f rest s' := by
  rw [handlerSteps_succ hframes hf, Machine.runFrame, hplace]
  exact ⟨_, rfl, rfl, rfl, rfl⟩

theorem returned_of_eoi (hframes : s.frames = f :: rest) (hf : f.handler ≠ .syscallDispatcher)
    (hplace : f.place = .eoi) : ∃ s', s.handlerSteps 2 = some s' ∧ Returned s f rest s' := by
  rw [handlerSteps_succ hframes hf, Machine.runFrame, hplace]
  obtain ⟨isr₁, isr₂, hsend⟩ := sendPicEoi_frame (BitVec.ofNat 8 ((lineOf f.handler).getD 0)) s.pic
  obtain ⟨s', hsteps, hreturned⟩ := returned_of_iret (s := { s with
    pic := sendPicEoi (BitVec.ofNat 8 ((lineOf f.handler).getD 0)) s.pic
    frames := { f with place := .iret } :: rest }) rfl hf rfl
  refine ⟨s', hsteps, hreturned.frames, hreturned.ifl, hreturned.irr.trans ?_⟩
  rw [hsend]

theorem returned_of_body (hframes : s.frames = f :: rest) (hf : f.handler ≠ .syscallDispatcher)
    (hline : lineOf f.handler = some line) (hplace : f.place = .body) :
    ∃ s', s.handlerSteps 3 = some s' ∧ Returned s f rest s' := by
  obtain ⟨handler, place, savedIf⟩ := f
  obtain rfl : place = .body := hplace
  obtain ⟨s₁, hrun, hframes₁, hpic⟩ : ∃ s₁, s.runFrame ⟨handler, .body, savedIf⟩ rest = s₁ ∧
      s₁.frames = ⟨handler, .eoi, savedIf⟩ :: rest ∧ s₁.pic = s.pic := by
    cases handler with
    | timerIrq0 | keyboardIrq1 | fdIrq6 => exact ⟨_, rfl, rfl, rfl⟩
    | _ => cases hline
  obtain ⟨s', hsteps, hreturned⟩ := returned_of_eoi hframes₁ hf rfl
  rw [handlerSteps_succ hframes hf, hrun]
  exact ⟨s', hsteps, hreturned.frames, hreturned.ifl, by rw [hreturned.irr, hpic]⟩

theorem reachable_handlerSteps (h : interrupts.Reachable s) {n : ℕ} (hsteps : s.handlerSteps n = some s') :
    interrupts.Reachable s' := by
  induction n generalizing s with
  | zero =>
    obtain rfl : s = s' := Option.some.inj hsteps
    exact h
  | succ n ih =>
    rw [Machine.handlerSteps, List.replicate_succ, List.foldlM_cons, Option.bind_eq_bind,
      Option.bind_eq_some_iff] at hsteps
    obtain ⟨s₁, hnext, hrest⟩ := hsteps
    exact ih (h.step hnext) hrest

/-- **Handlers return**: after at most three statements the handler of a device has returned with interrupts
enabled, and then a line that asks is passed on, or one before it. -/
theorem handler_returns (s : Machine) (f : Frame) (rest : List Frame) (line : ℕ) (h : interrupts.Reachable s)
    (hframes : s.frames = f :: rest) (hline : lineOf f.handler = some line) :
    ∃ n ≤ 3, ∃ s', s.handlerSteps n = some s' ∧ s'.frames = rest ∧ s'.ifl = true ∧
      ∀ l, l = 0 ∨ l = 1 ∨ l = 6 → s.pic.master.irr.getLsbD l = true → ∃ i ≤ l, s'.pic.request = some i := by
  have hf : f.handler ≠ .syscallDispatcher := by
    intro heq
    rw [heq] at hline
    cases hline
  have hinv := inv_of_reachable h
  obtain hsys | ⟨-, hsaved, hplace⟩ := hinv.inner f rest hframes
  · exact absurd hsys hf
  obtain ⟨n, hn, s', hsteps, hreturned⟩ :
      ∃ n ≤ 3, ∃ s', s.handlerSteps n = some s' ∧ Returned s f rest s' := by
    obtain hbody | heoi | hiret := place_of_line hplace hline
    · exact ⟨3, le_rfl, returned_of_body hframes hf hline hbody⟩
    · exact ⟨2, by decide, returned_of_eoi hframes hf heoi⟩
    · exact ⟨1, by decide, returned_of_iret hframes hf hiret⟩
  have hifl : s'.ifl = true := hreturned.ifl.trans hsaved
  have hinv' := inv_of_reachable (reachable_handlerSteps h hsteps)
  have hserving := (serving_of_syscalls (hinv'.syscalls (Or.inl hifl))).1
  refine ⟨n, hn, s', hsteps, hreturned.frames, hifl, fun l hl hirr => ?_⟩
  have himr : s'.pic.master.imr.getLsbD l = false := by
    rw [hinv'.imr]
    obtain rfl | rfl | rfl := hl <;> rfl
  rw [hinv'.request_eq]
  exact Chip.exists_request (by rw [hinv'.served, hserving]) (by rw [hreturned.irr, hirr]) himr

theorem handler_returns_timer :
    ∃ n ≤ 3, ∃ s', ((idleMachine.raise 0).take 0).handlerSteps n = some s' ∧ s'.frames = [] ∧ s'.ifl = true ∧
      ∀ l, l = 0 ∨ l = 1 ∨ l = 6 → ((idleMachine.raise 0).take 0).pic.master.irr.getLsbD l = true →
        ∃ i ≤ l, s'.pic.request = some i :=
  handler_returns _ ⟨.timerIrq0, .body, true⟩ [] 0 reachable_timer rfl rfl

/-! ### An interrupt that no line asks for -/

/-- `default_int_handler` has started its `sleep`. -/
structure Waiting (t p : BitVec 32) (taken : ℕ → ℕ) (rest : List Frame) (s : Machine) : Prop where
  frames : s.frames = ⟨.defaultInt, .poll t, true⟩ :: rest
  ifl : s.ifl = false
  pitTicks : s.pitTicks = p
  taken : s.taken = taken

/-- With interrupts disabled the timer does not count, so the loop goes on, and nothing else does. -/
theorem Waiting.next {t p : BitVec 32} {taken : ℕ → ℕ} (h : Waiting t p taken rest s) (ht : t > p) {e : Event}
    (hstep : s.next e = some s') : Waiting t p taken rest s' := by
  have hdevice : s.deviceFrame = some (⟨.defaultInt, .poll t, true⟩, rest) := by
    rw [Machine.deviceFrame, h.frames]
    rfl
  cases e with
  | raise line =>
    rw [Machine.next] at hstep
    split_ifs at hstep
    rw [← Option.some.inj hstep]
    exact ⟨h.frames, h.ifl, h.pitTicks, h.taken⟩
  | take =>
    rw [Machine.next, h.ifl] at hstep
    cases hstep
  | spurious =>
    rw [Machine.next, h.ifl, if_neg fun hand => Bool.false_ne_true hand.1] at hstep
    cases hstep
  | handler =>
    have hpoll : s.runFrame ⟨.defaultInt, .poll t, true⟩ rest = s := if_pos (h.pitTicks ▸ ht)
    rw [next_handler h.frames nofun, hpoll] at hstep
    rwa [← Option.some.inj hstep]
  | syscall =>
    rw [Machine.next, h.frames, if_neg (List.cons_ne_nil _ _)] at hstep
    cases hstep
  | sysret =>
    rw [Machine.next, h.frames] at hstep
    cases hstep
  | setIf b =>
    rw [Machine.next, hdevice, if_neg (Option.some_ne_none _)] at hstep
    cases hstep

/-- **An interrupt that no line asks for stops the kernel**: its handler waits 200 ticks with interrupts
disabled.  It never returns, and no interrupt is taken any more, unless the sum overflows. -/
theorem spurious_hangs_iff (s s₁ s₂ : Machine) (h : interrupts.Reachable s)
    (hspurious : s.next .spurious = some s₁) (hbody : s₁.next .handler = some s₂) :
    (∀ s', (interrupts.startedIn s₂).Reachable s' → s'.frames = s₂.frames ∧ s'.ifl = false ∧
      s'.taken = s.taken) ↔ s.pitTicks.toNat + 200 < 2 ^ 32 := by
  have hinv := inv_of_reachable h
  rw [Machine.next] at hspurious
  split_ifs at hspurious with hidle
  obtain ⟨hifl, hreq⟩ := hidle
  have hvector : s.pic.acknowledge.1.toNat = 0x27 := by
    rw [Pair.acknowledge, hreq, hinv.base]
    rfl
  rw [hvector] at hspurious
  obtain rfl := Option.some.inj hspurious
  rw [next_handler (show _ = ⟨.defaultInt, .body, s.ifl⟩ :: s.frames from rfl) nofun] at hbody
  obtain rfl := Option.some.inj hbody
  constructor
  · intro hall
    by_contra hwrap
    -- the loop is left at once
    have hle : ¬(200 + s.pitTicks : BitVec 32) > s.pitTicks := by bv_omega
    have hleft := next_handler (s := (s.enter 0x27).runFrame ⟨.defaultInt, .body, s.ifl⟩ s.frames)
      (show _ = ⟨.defaultInt, .poll (200 + s.pitTicks), s.ifl⟩ :: s.frames from rfl) nofun
    have hframes := (hall _ ((System.Reachable.init rfl).step hleft)).1
    have hmoved : ((s.enter 0x27).runFrame ⟨.defaultInt, .body, s.ifl⟩ s.frames).runFrame
        ⟨.defaultInt, .poll (200 + s.pitTicks), s.ifl⟩ s.frames =
          { (s.enter 0x27).runFrame ⟨.defaultInt, .body, s.ifl⟩ s.frames with
            frames := ⟨.defaultInt, .iret, s.ifl⟩ :: s.frames } := if_neg hle
    rw [hmoved] at hframes
    cases (List.cons.inj hframes).1
  · intro hfit s' hs'
    have ht : (200 + s.pitTicks : BitVec 32) > s.pitTicks := by bv_omega
    have hwaiting : Waiting (200 + s.pitTicks) s.pitTicks s.taken s.frames s' := by
      refine hs'.invariant ?_ fun a e b ha hstep => ha.next ht hstep
      rintro a rfl
      exact ⟨by rw [← hifl]; rfl, rfl, rfl, rfl⟩
    exact ⟨by rw [hwaiting.frames, ← hifl]; rfl, hwaiting.ifl, hwaiting.taken⟩

/-- It can happen before the first interrupt. -/
theorem spurious_hangs_at_once : ∃ s₁ s₂, idleMachine.next .spurious = some s₁ ∧
    s₁.next .handler = some s₂ ∧
      ∀ s', (interrupts.startedIn s₂).Reachable s' → s'.frames = s₂.frames ∧ s'.ifl = false ∧
        s'.taken = idleMachine.taken :=
  ⟨_, _, rfl, rfl, (spurious_hangs_iff idleMachine _ _ reachable_idleMachine rfl rfl).mpr (by decide)⟩

end FanOS.Interrupts

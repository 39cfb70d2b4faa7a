import FanOS.Ia32.Descriptors
import FanOS.Memory.Stack

/-!
# Changing the privilege level

An interrupt that takes the IA-32 processor from an outer ring to ring 0 saves the context of the program on
the stack of ring 0, and `iret` brings it back from there.  `iret_enter`: it is the same context, as long as
the words in which it is saved stay as they are.
-/

namespace FanOS.Ia32

/-- What the processor saves when it leaves a program. -/
structure Context where
  eip : BitVec 32
  cs : BitVec 16
  eflags : BitVec 32
  esp : BitVec 32
  ss : BitVec 16
  deriving DecidableEq

namespace Context

variable (c : Context)

/-- The words in which it is saved, the top one first; selectors are padded. -/
def words : List (BitVec 32) := [c.eip, c.cs.setWidth 32, c.eflags, c.esp, c.ss.setWidth 32]

/-- The flags that an interrupt gate clears: trace, interrupts, nested task, resume and virtual 8086 mode. -/
def clearedFlags : BitVec 32 := 0x00034300

/-- An interrupt through an interrupt gate, with the stack of ring 0. -/
def enter (g : GateDescriptor) (ss0 : BitVec 16) (esp0 : BitVec 32) (m : Mem) : Context × Mem :=
  ({ eip := g.offset
     cs := g.selector
     eflags := c.eflags &&& ~~~clearedFlags
     esp := esp0 - 20
     ss := ss0 },
    m.pushAll esp0 c.words)

/-- `iret`: to another ring it takes the stack from the words too. -/
def iret (m : Mem) : Context :=
  let eip := m.load32 c.esp
  let cs := (m.load32 (c.esp + 4)).setWidth 16
  let eflags := m.load32 (c.esp + 8)
  if selectorRpl cs = selectorRpl c.cs then
    { eip := eip, cs := cs, eflags := eflags, esp := c.esp + 12, ss := c.ss }
  else
    { eip := eip
      cs := cs
      eflags := eflags
      esp := m.load32 (c.esp + 12)
      ss := (m.load32 (c.esp + 16)).setWidth 16 }

variable {c} {c' : Context} {g : GateDescriptor} {ss0 : BitVec 16} {esp0 a : BitVec 32} {m m' : Mem}

/-- `iret` to an outer ring finds the context in the words on the stack. -/
theorem iret_of_stacked (h : m.Stacked c'.esp c.words) (hring : selectorRpl c.cs ≠ selectorRpl c'.cs) :
    c'.iret m = c := by
  simp only [words, Mem.Stacked, BitVec.add_assoc, BitVec.reduceAdd] at h
  obtain ⟨heip, hcs, heflags, hesp, hss, -⟩ := h
  have heflags' : m.load32 (c'.esp + 8) = c.eflags := heflags
  have hesp' : m.load32 (c'.esp + 12) = c.esp := hesp
  have hcs' : (c.cs.setWidth 32).setWidth 16 = c.cs := by
    rw [BitVec.setWidth_setWidth_of_le _ (by omega), BitVec.setWidth_eq]
  have hss' : (m.load32 (c'.esp + 16)).setWidth 16 = c.ss := by
    rw [show m.load32 (c'.esp + 16) = c.ss.setWidth 32 from hss,
      BitVec.setWidth_setWidth_of_le _ (by omega), BitVec.setWidth_eq]
  rw [iret, heip, hcs, heflags', hesp', hcs', hss']
  exact if_neg hring

/-- **There and back**: `iret` brings the program back, if its words are as they were. -/
theorem iret_enter (hring : selectorRpl c.cs ≠ selectorRpl c'.cs) (hesp : c'.esp = esp0 - 20)
    (hm : ∀ a, Mem.Below esp0 20 a → m' a = (c.enter g ss0 esp0 m).2 a) : c'.iret m' = c := by
  have hstacked : (c.enter g ss0 esp0 m).2.Stacked (esp0 - 20) c.words :=
    Mem.stacked_pushAll m esp0 (by simp [words])
  refine iret_of_stacked (hesp ▸ hstacked.congr fun i hi => hm _ ?_) hring
  have hlen : c.words.length = 5 := rfl
  unfold Mem.Below
  bv_omega

/-- The interrupt changes nothing but these words. -/
theorem enter_of_not_below (h : ¬Mem.Below esp0 20 a) : (c.enter g ss0 esp0 m).2 a = m a :=
  Mem.pushAll_of_not_below h

/-- They do not depend on what was there. -/
theorem enter_of_below (h : Mem.Below esp0 20 a) (m m' : Mem) :
    (c.enter g ss0 esp0 m).2 a = (c.enter g ss0 esp0 m').2 a :=
  Mem.pushAll_of_below (by simp [words]) h m m'

end Context

end FanOS.Ia32

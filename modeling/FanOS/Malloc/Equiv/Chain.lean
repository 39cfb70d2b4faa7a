import FanOS.Malloc.Basic
import FanOS.Memory.Regions
import FanOS.Tiling.Basic

/-!
# Chains of headers in memory

`Header m a b next` says that memory has the header of block `b` at address `a`, with `next` behind
it; `Chain m a bs last` that it has those of the blocks `bs`, laid out from `a` on, the last one
pointing to `last`.  Chains split with the list (`chain_append`) and depend only on the memory of
their own blocks (`Chain.congr`), so an operation on one block concerns that block alone
(`Chain.replace`).
-/

namespace FanOS.Malloc

open Mem (AgreeOn)
open Tiling (Block span)

variable {m m' : Mem} {a lo hi n next last : ℕ} {b : Block} {bs xs ys : List Block}

/-! ### One header -/

/-- The header of `b` is at `a`, followed by `next`. -/
structure Header (m : Mem) (a : ℕ) (b : Block) (next : ℕ) : Prop where
  size : nodeSize m (BitVec.ofNat 32 a) = BitVec.ofNat 32 b.size
  free : nodeFree m (BitVec.ofNat 32 a) = if b.free then 1 else 0
  next : nodeNext m (BitVec.ofNat 32 a) = BitVec.ofNat 32 next

theorem ofNat_add_four (a : ℕ) : BitVec.ofNat 32 a + 4 = BitVec.ofNat 32 (a + 4) :=
  (BitVec.ofNat_add a 4).symm

theorem ofNat_add_eight (a : ℕ) : BitVec.ofNat 32 a + 8 = BitVec.ofNat 32 (a + 8) :=
  (BitVec.ofNat_add a 8).symm

/-- A header depends on its twelve bytes only. -/
theorem Header.congr (h : Header m a b next) (hag : AgreeOn m' m a (a + 12)) :
    Header m' a b next := by
  obtain ⟨h1, h2, h3⟩ := h
  simp only [nodeSize, nodeFree, nodeNext, ofNat_add_four, ofNat_add_eight] at h1 h2 h3
  refine ⟨?_, ?_, ?_⟩
  · rw [nodeSize, hag.load32 (by omega) (by omega), h1]
  · rw [nodeFree, ofNat_add_four, hag.load32 (by omega) (by omega), h2]
  · rw [nodeNext, ofNat_add_eight, hag.load32 (by omega) (by omega), h3]

/-- Write a whole header, field by field. -/
def setHeader (m : Mem) (node : VirtualAddr) (size : BitVec 32) (free : Bool)
    (next : VirtualAddr) : Mem :=
  setNext (setFree (setSize m node size) node free) node next

theorem agreeOn_setSize (m : Mem) (v : BitVec 32) (ha : a + 12 ≤ 2 ^ 32) (hhi : hi ≤ 2 ^ 32)
    (h : a + 12 ≤ lo ∨ hi ≤ a) : AgreeOn (setSize m (BitVec.ofNat 32 a) v) m lo hi :=
  Mem.agreeOn_store32 m v (by omega) hhi (by omega)

theorem agreeOn_setFree (m : Mem) (f : Bool) (ha : a + 12 ≤ 2 ^ 32) (hhi : hi ≤ 2 ^ 32)
    (h : a + 12 ≤ lo ∨ hi ≤ a) : AgreeOn (setFree m (BitVec.ofNat 32 a) f) m lo hi := by
  rw [setFree, ofNat_add_four]
  exact Mem.agreeOn_store32 m _ (by omega) hhi (by omega)

theorem agreeOn_setNext (m : Mem) (v : BitVec 32) (ha : a + 12 ≤ 2 ^ 32) (hhi : hi ≤ 2 ^ 32)
    (h : a + 12 ≤ lo ∨ hi ≤ a) : AgreeOn (setNext m (BitVec.ofNat 32 a) v) m lo hi := by
  rw [setNext, ofNat_add_eight]
  exact Mem.agreeOn_store32 m _ (by omega) hhi (by omega)

theorem agreeOn_setHeader (m : Mem) (s : BitVec 32) (f : Bool) (v : BitVec 32)
    (ha : a + 12 ≤ 2 ^ 32) (hhi : hi ≤ 2 ^ 32) (h : a + 12 ≤ lo ∨ hi ≤ a) :
    AgreeOn (setHeader m (BitVec.ofNat 32 a) s f v) m lo hi :=
  ((agreeOn_setNext _ v ha hhi h).trans (agreeOn_setFree _ f ha hhi h)).trans
    (agreeOn_setSize m s ha hhi h)

@[simp] theorem nodeSize_setSize (m : Mem) (node v : BitVec 32) :
    nodeSize (setSize m node v) node = v := Mem.load32_store32_self _ _ _

@[simp] theorem nodeFree_setFree (m : Mem) (node : BitVec 32) (f : Bool) :
    nodeFree (setFree m node f) node = if f then 1 else 0 := Mem.load32_store32_self _ _ _

@[simp] theorem nodeNext_setNext (m : Mem) (node v : BitVec 32) :
    nodeNext (setNext m node v) node = v := Mem.load32_store32_self _ _ _

section Fields

variable (m) (v : BitVec 32) (f : Bool) (ha : a + 12 ≤ 2 ^ 32)
include ha

theorem nodeFree_setSize :
    nodeFree (setSize m (BitVec.ofNat 32 a) v) (BitVec.ofNat 32 a) =
      nodeFree m (BitVec.ofNat 32 a) := by
  rw [nodeFree, setSize, ofNat_add_four,
    Mem.load32_store32_ofNat _ _ (by omega) (by omega) (by omega), if_neg (by omega), nodeFree,
    ofNat_add_four]

theorem nodeNext_setSize :
    nodeNext (setSize m (BitVec.ofNat 32 a) v) (BitVec.ofNat 32 a) =
      nodeNext m (BitVec.ofNat 32 a) := by
  rw [nodeNext, setSize, ofNat_add_eight,
    Mem.load32_store32_ofNat _ _ (by omega) (by omega) (by omega), if_neg (by omega), nodeNext,
    ofNat_add_eight]

theorem nodeSize_setFree :
    nodeSize (setFree m (BitVec.ofNat 32 a) f) (BitVec.ofNat 32 a) =
      nodeSize m (BitVec.ofNat 32 a) := by
  rw [nodeSize, setFree, ofNat_add_four,
    Mem.load32_store32_ofNat _ _ (by omega) (by omega) (by omega), if_neg (by omega), nodeSize]

theorem nodeNext_setFree :
    nodeNext (setFree m (BitVec.ofNat 32 a) f) (BitVec.ofNat 32 a) =
      nodeNext m (BitVec.ofNat 32 a) := by
  rw [nodeNext, setFree, ofNat_add_four, ofNat_add_eight,
    Mem.load32_store32_ofNat _ _ (by omega) (by omega) (by omega), if_neg (by omega), nodeNext,
    ofNat_add_eight]

theorem nodeSize_setNext :
    nodeSize (setNext m (BitVec.ofNat 32 a) v) (BitVec.ofNat 32 a) =
      nodeSize m (BitVec.ofNat 32 a) := by
  rw [nodeSize, setNext, ofNat_add_eight,
    Mem.load32_store32_ofNat _ _ (by omega) (by omega) (by omega), if_neg (by omega), nodeSize]

theorem nodeFree_setNext :
    nodeFree (setNext m (BitVec.ofNat 32 a) v) (BitVec.ofNat 32 a) =
      nodeFree m (BitVec.ofNat 32 a) := by
  rw [nodeFree, setNext, ofNat_add_eight, ofNat_add_four,
    Mem.load32_store32_ofNat _ _ (by omega) (by omega) (by omega), if_neg (by omega), nodeFree,
    ofNat_add_four]

end Fields

/-- A header that has just been written. -/
theorem header_setHeader (m : Mem) (b : Block) (next : ℕ) (ha : a + 12 ≤ 2 ^ 32) :
    Header (setHeader m (BitVec.ofNat 32 a) (BitVec.ofNat 32 b.size) b.free (BitVec.ofNat 32 next))
      a b next := by
  refine ⟨?_, ?_, ?_⟩
  · rw [setHeader, nodeSize_setNext _ _ ha, nodeSize_setFree _ _ ha, nodeSize_setSize]
  · rw [setHeader, nodeFree_setNext _ _ ha, nodeFree_setFree]
  · rw [setHeader, nodeNext_setNext]

theorem Header.setFree (h : Header m a b next) (f : Bool) (ha : a + 12 ≤ 2 ^ 32) :
    Header (setFree m (BitVec.ofNat 32 a) f) a ⟨b.size, f⟩ next :=
  ⟨(nodeSize_setFree m f ha).trans h.size, nodeFree_setFree m _ f,
    (nodeNext_setFree m f ha).trans h.next⟩

theorem Header.setSize (h : Header m a b next) (n : ℕ) (ha : a + 12 ≤ 2 ^ 32) :
    Header (setSize m (BitVec.ofNat 32 a) (BitVec.ofNat 32 n)) a ⟨n, b.free⟩ next :=
  ⟨nodeSize_setSize m _ _, (nodeFree_setSize m _ ha).trans h.free,
    (nodeNext_setSize m _ ha).trans h.next⟩

theorem Header.setNext (h : Header m a b next) (n : ℕ) (ha : a + 12 ≤ 2 ^ 32) :
    Header (setNext m (BitVec.ofNat 32 a) (BitVec.ofNat 32 n)) a b n :=
  ⟨(nodeSize_setNext m _ ha).trans h.size, (nodeFree_setNext m _ ha).trans h.free,
    nodeNext_setNext m _ _⟩

/-! ### Chains -/

/-- The headers of the blocks are in memory from `a` on; the last one points to `last`. -/
def Chain (m : Mem) : ℕ → List Block → ℕ → Prop
  | _, [], _ => True
  | a, b :: bs, last =>
    Header m a b (if bs = [] then last else a + 12 + b.size) ∧ Chain m (a + 12 + b.size) bs last

theorem chain_singleton : Chain m a [b] last ↔ Header m a b last := by simp [Chain]

theorem chain_cons_of_ne_nil (h : bs ≠ []) :
    Chain m a (b :: bs) last ↔
      Header m a b (a + 12 + b.size) ∧ Chain m (a + 12 + b.size) bs last := by
  rw [Chain, if_neg h]

/-- A chain splits with its list. -/
theorem chain_append (h : ys ≠ []) :
    Chain m a (xs ++ ys) last ↔
      Chain m a xs (a + span 12 xs) ∧ Chain m (a + span 12 xs) ys last := by
  induction xs generalizing a with
  | nil => simp [Chain]
  | cons b xs ih =>
    rw [List.cons_append, chain_cons_of_ne_nil (by simp [h]), ih, Chain, Tiling.span_cons, and_assoc,
      show a + 12 + b.size + span 12 xs = a + (12 + b.size + span 12 xs) by omega]
    by_cases hxs : xs = []
    · subst hxs
      simp [Chain, Nat.add_assoc]
    · rw [if_neg hxs]

/-- A chain depends on the memory of its blocks only. -/
theorem Chain.congr (h : Chain m a bs last) (hag : AgreeOn m' m a (a + span 12 bs)) :
    Chain m' a bs last := by
  induction bs generalizing a with
  | nil => trivial
  | cons b bs ih =>
    rw [Tiling.span_cons] at hag
    exact ⟨h.1.congr (hag.mono le_rfl (by omega)), ih h.2 (hag.mono (by omega) (by omega))⟩

/-- Replace one block of a chain: the memory of the others is untouched and the new blocks lead on
to where the old one did. -/
theorem Chain.replace {mid : List Block} {b : Block} (h : Chain m a (xs ++ b :: ys) last)
    (hmid : mid ≠ []) (hpre : AgreeOn m' m a (a + span 12 xs))
    (hpost : ys ≠ [] → span 12 mid = 12 + b.size ∧ AgreeOn m' m (a + span 12 xs + 12 + b.size)
      (a + span 12 xs + 12 + b.size + span 12 ys))
    (hnew : Chain m' (a + span 12 xs) mid (if ys = [] then last else a + span 12 xs + 12 + b.size)) :
    Chain m' a (xs ++ mid ++ ys) last := by
  rw [chain_append (by simp)] at h
  rw [List.append_assoc, chain_append (by simp [hmid])]
  refine ⟨h.1.congr hpre, ?_⟩
  by_cases hys : ys = []
  · subst hys
    rw [if_pos rfl] at hnew
    rwa [List.append_nil]
  · obtain ⟨hspan, hag⟩ := hpost hys
    rw [if_neg hys] at hnew
    rw [chain_append hys, hspan, ← Nat.add_assoc]
    exact ⟨hnew, h.2.2.congr hag⟩

end FanOS.Malloc

import Mathlib.Data.List.Induction
import Mathlib.Tactic.SplitIfs
import Mathlib.Logic.Function.Basic
import Mathlib.Order.Basic

/-!
# Compaction

Elements are written one after the other to a row of slots, each to the slot behind those that are kept.
An element that is not kept is overwritten by the next one.  In the end the slots hold the elements that are
kept, in order (`slot_fill_of_lt`), and behind them the last element, if it is not kept (`slot_fill_next`).
-/

namespace FanOS.Compaction

universe u

/-- Slots, and the number of those in use. -/
structure Slots (α : Type u) where
  slot : ℕ → Option α
  next : ℕ

variable {α : Type u} (p : α → Bool)

/-- No slot has been written. -/
def Slots.empty : Slots α := ⟨fun _ => none, 0⟩

/-- An element is written. -/
def Slots.put (s : Slots α) (a : α) : Slots α where
  slot := Function.update s.slot s.next (some a)
  next := if p a then s.next + 1 else s.next

/-- The elements of a list are written. -/
def fill (l : List α) : Slots α := l.foldl (Slots.put p) Slots.empty

variable {p} {l : List α} {s : Slots α} {a : α} {i : ℕ}

@[simp] theorem slot_put_self : (s.put p a).slot s.next = some a := Function.update_self ..

theorem slot_put_of_ne (hi : i ≠ s.next) : (s.put p a).slot i = s.slot i := Function.update_of_ne hi ..

theorem fill_concat (l : List α) (a : α) : fill p (l ++ [a]) = (fill p l).put p a :=
  List.foldl_append

theorem filter_concat (l : List α) (a : α) :
    (l ++ [a]).filter p = if p a then l.filter p ++ [a] else l.filter p := by
  rw [List.filter_append, List.filter_cons, List.filter_nil]
  split_ifs
  · rfl
  · exact List.append_nil _

/-- The slots in use are as many as the elements that are kept. -/
theorem next_fill (l : List α) : (fill p l).next = (l.filter p).length := by
  induction l using List.reverseRecOn with
  | nil => rfl
  | append_singleton l a ih =>
    rw [fill_concat, filter_concat, Slots.put, ih]
    split_ifs
    · rw [List.length_append, List.length_singleton]
    · rfl

/-- They hold these elements in order. -/
theorem slot_fill_of_lt (hi : i < (l.filter p).length) : (fill p l).slot i = (l.filter p)[i]? := by
  induction l using List.reverseRecOn with
  | nil => exact absurd hi (Nat.not_lt_zero i)
  | append_singleton l a ih =>
    rw [fill_concat]
    rw [filter_concat] at hi ⊢
    by_cases hlt : i < (l.filter p).length
    · rw [slot_put_of_ne (by rw [next_fill]; omega), ih hlt]
      split_ifs
      · exact (List.getElem?_append_left hlt).symm
      · rfl
    · -- the slot is the one that has just been written
      split_ifs at hi ⊢ with ha
      · rw [List.length_append, List.length_singleton] at hi
        have heq : i = (fill p l).next := by rw [next_fill]; omega
        rw [heq, slot_put_self, next_fill, List.getElem?_append_right (Nat.le_refl _), Nat.sub_self]
        rfl
      · exact absurd hi hlt

/-- The slots further on have not been written. -/
theorem slot_fill_of_gt (hi : (l.filter p).length < i) : (fill p l).slot i = none := by
  induction l using List.reverseRecOn with
  | nil => rfl
  | append_singleton l a ih =>
    have hle : (l.filter p).length ≤ ((l ++ [a]).filter p).length := by
      rw [List.filter_append, List.length_append]
      exact Nat.le_add_right _ _
    rw [fill_concat, slot_put_of_ne (by rw [next_fill]; omega)]
    exact ih (by omega)

/-- Behind the elements that are kept is the last element, if it is not kept. -/
theorem slot_fill_next (l : List α) :
    (fill p l).slot (fill p l).next = l.getLast?.filter fun a => !p a := by
  induction l using List.reverseRecOn with
  | nil => rfl
  | append_singleton l a _ =>
    rw [fill_concat, List.getLast?_concat]
    by_cases ha : p a = true
    · have hnext : ((fill p l).put p a).next = (fill p l).next + 1 := if_pos ha
      rw [hnext, slot_put_of_ne (Nat.succ_ne_self _),
        slot_fill_of_gt (by rw [next_fill]; exact Nat.lt_succ_self _), Option.filter_some, ha]
      rfl
    · have hnext : ((fill p l).put p a).next = (fill p l).next := if_neg ha
      rw [hnext, slot_put_self, Option.filter_some, if_pos (by simpa using ha)]

end FanOS.Compaction

import Mathlib.Data.List.Basic

/-!
# Tilings

A sequence of blocks laid out one after the other from an address on, each a header of `hdr` cells
followed by its payload.  `span` is the length of the whole, `placed` the blocks with their
addresses.  Everything that is said about addresses follows from `mem_placed_append` (where the
blocks of a concatenation are), `mem_placed_bounds` (they lie inside the span) and
`placed_eq_or_apart` (two of them are equal or apart).
-/

namespace FanOS.Tiling

/-- A block: the size of its payload, and whether it is free. -/
structure Block where
  size : ℕ
  free : Bool
  deriving DecidableEq

variable (hdr : ℕ)

/-- The number of cells that the blocks take up. -/
def span : List Block → ℕ
  | [] => 0
  | b :: bs => hdr + b.size + span bs

@[simp] theorem span_nil : span hdr [] = 0 := rfl
@[simp] theorem span_cons (b : Block) (bs : List Block) :
    span hdr (b :: bs) = hdr + b.size + span hdr bs := rfl

@[simp] theorem span_append (xs ys : List Block) :
    span hdr (xs ++ ys) = span hdr xs + span hdr ys := by
  induction xs with
  | nil => simp
  | cons b xs ih =>
    rw [List.cons_append, span_cons, span_cons, ih]
    omega

/-- The blocks with their addresses, the first being at `a`. -/
def placed : ℕ → List Block → List (ℕ × Block)
  | _, [] => []
  | a, b :: bs => (a, b) :: placed (a + hdr + b.size) bs

variable {hdr} {a x y : ℕ} {b c : Block} {xs ys : List Block}

@[simp] theorem placed_nil : placed hdr a [] = [] := rfl
@[simp] theorem placed_cons :
    placed hdr a (b :: xs) = (a, b) :: placed hdr (a + hdr + b.size) xs := rfl

theorem mem_placed_append {p : ℕ × Block} :
    p ∈ placed hdr a (xs ++ ys) ↔ p ∈ placed hdr a xs ∨ p ∈ placed hdr (a + span hdr xs) ys := by
  induction xs generalizing a with
  | nil => simp
  | cons d xs ih =>
    rw [List.cons_append, placed_cons, placed_cons, List.mem_cons, List.mem_cons, ih, span_cons,
      or_assoc, show a + hdr + d.size + span hdr xs = a + (hdr + d.size + span hdr xs) by omega]

/-- A placed block lies inside the span. -/
theorem mem_placed_bounds (h : (x, b) ∈ placed hdr a xs) :
    a ≤ x ∧ x + hdr + b.size ≤ a + span hdr xs := by
  induction xs generalizing a with
  | nil => simp at h
  | cons d xs ih =>
    rw [placed_cons, List.mem_cons] at h
    rw [span_cons]
    rcases h with h | h
    · obtain ⟨rfl, rfl⟩ := Prod.mk.inj h
      omega
    · have := ih h
      omega

/-- Two placed blocks are the same or apart. -/
theorem placed_eq_or_apart (hx : (x, b) ∈ placed hdr a xs) (hy : (y, c) ∈ placed hdr a xs) :
    (x = y ∧ b = c) ∨ x + hdr + b.size ≤ y ∨ y + hdr + c.size ≤ x := by
  induction xs generalizing a with
  | nil => simp at hx
  | cons d xs ih =>
    rw [placed_cons, List.mem_cons] at hx hy
    rcases hx with hx | hx <;> rcases hy with hy | hy
    · obtain ⟨rfl, rfl⟩ := Prod.mk.inj hx
      obtain ⟨rfl, rfl⟩ := Prod.mk.inj hy
      exact Or.inl ⟨rfl, rfl⟩
    · obtain ⟨rfl, rfl⟩ := Prod.mk.inj hx
      exact Or.inr (Or.inl (mem_placed_bounds hy).1)
    · obtain ⟨rfl, rfl⟩ := Prod.mk.inj hy
      exact Or.inr (Or.inr (mem_placed_bounds hx).1)
    · exact ih hx hy

/-- A placed block stands behind the blocks before it. -/
theorem exists_append_of_mem_placed (h : (x, b) ∈ placed hdr a xs) :
    ∃ pre post, xs = pre ++ b :: post ∧ x = a + span hdr pre := by
  induction xs generalizing a with
  | nil => simp at h
  | cons d xs ih =>
    rw [placed_cons, List.mem_cons] at h
    rcases h with h | h
    · obtain ⟨rfl, rfl⟩ := Prod.mk.inj h
      exact ⟨[], xs, rfl, rfl⟩
    · obtain ⟨pre, post, rfl, rfl⟩ := ih h
      refine ⟨d :: pre, post, rfl, ?_⟩
      rw [span_cons]
      omega

end FanOS.Tiling

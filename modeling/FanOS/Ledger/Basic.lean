import Mathlib.Algebra.GroupWithZero.Nat
import Mathlib.Data.Finset.Card
import Mathlib.Data.List.Perm.Basic

/-!
# Ledgers of owned sets

A ledger is a list of finite sets, each owned by one party.  What matters about it is that the
sets are pairwise disjoint; then the sizes of the sets add up to the size of their union
(`card_owned`), a new set may be entered when it meets none of the others, and removing an entry
leaves sets that do not meet it (`disjoint_of_mem_erase`).
-/

namespace FanOS.Ledger

variable {α : Type*}

section Owned

variable [DecidableEq α]

/-- Everything that is owned. -/
def owned (l : List (Finset α)) : Finset α := l.foldr (· ∪ ·) ∅

@[simp] theorem owned_nil : owned ([] : List (Finset α)) = ∅ := rfl
@[simp] theorem owned_cons (r : Finset α) (l : List (Finset α)) :
    owned (r :: l) = r ∪ owned l := rfl

theorem mem_owned {l : List (Finset α)} {x : α} : x ∈ owned l ↔ ∃ r ∈ l, x ∈ r := by
  induction l with
  | nil => simp
  | cons r l ih => simp [ih]

/-- In a ledger of pairwise disjoint sets the sizes add up to the size of the union. -/
theorem card_owned {l : List (Finset α)} (h : l.Pairwise Disjoint) :
    (owned l).card = (l.map Finset.card).sum := by
  induction l with
  | nil => simp
  | cons r l ih =>
    rw [List.pairwise_cons] at h
    have hdisj : Disjoint r (owned l) := by
      rw [Finset.disjoint_left]
      intro x hx hxl
      obtain ⟨t, ht, hxt⟩ := mem_owned.mp hxl
      exact Finset.disjoint_left.mp (h.1 t ht) hx hxt
    rw [owned_cons, Finset.card_union_of_disjoint hdisj, ih h.2, List.map_cons, List.sum_cons]

/-- Disjoint sets inside a given set have at most its size together. -/
theorem sum_card_le {l : List (Finset α)} (h : l.Pairwise Disjoint) {t : Finset α}
    (ht : ∀ r ∈ l, r ⊆ t) : (l.map Finset.card).sum ≤ t.card := by
  rw [← card_owned h]
  refine Finset.card_le_card fun x hx => ?_
  obtain ⟨r, hr, hxr⟩ := mem_owned.mp hx
  exact ht r hr hxr

end Owned

/-- An entry of a disjoint ledger does not meet the entries that stay when it is removed.  The
entries are given by their owners `β`, each owning the set `f`. -/
theorem disjoint_of_mem_erase {β : Type*} [BEq β] [LawfulBEq β] {f : β → Finset α} {l : List β}
    (h : (l.map f).Pairwise Disjoint) {r t : β} (hr : r ∈ l) (ht : t ∈ l.erase r) :
    Disjoint (f r) (f t) := by
  have hp : ((r :: l.erase r).map f).Pairwise Disjoint :=
    ((List.perm_cons_erase hr).map f).pairwise h fun h => h.symm
  rw [List.map_cons, List.pairwise_cons] at hp
  exact hp.1 _ (List.mem_map_of_mem ht)

/-- Removing an entry keeps a ledger disjoint. -/
theorem pairwise_erase {β : Type*} [BEq β] [LawfulBEq β] {f : β → Finset α} {l : List β}
    (h : (l.map f).Pairwise Disjoint) (r : β) : ((l.erase r).map f).Pairwise Disjoint :=
  h.sublist (List.erase_sublist.map f)

/-- Removing an entry takes its weight out of a sum over the ledger. -/
theorem sum_erase_add {β : Type*} [BEq β] [LawfulBEq β] (w : β → ℕ) {l : List β} {r : β} (hr : r ∈ l) :
    ((l.erase r).map w).sum + w r = (l.map w).sum := by
  rw [((List.perm_cons_erase hr).map w).sum_nat, List.map_cons, List.sum_cons, Nat.add_comm]

end FanOS.Ledger

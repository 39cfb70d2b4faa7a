import Mathlib.Data.List.Induction

/-!
# The last write wins

A cell is read with `read`, and writes `ω` are done one after the other with `write`.  `hit w` is what the
write `w` puts into the cell, if it reaches the cell at all.  After any list of writes the cell holds what
the last write that reaches it has put there (`read_foldl`).
-/

namespace FanOS.LastWrite

universe u v w

variable {σ : Type u} {ω : Type v} {α : Type w} {hit : ω → Option α}

/-- What the last write that reaches the cell puts there. -/
def lastWrite (hit : ω → Option α) (ws : List ω) : Option α := ws.reverse.findSome? hit

theorem lastWrite_concat (ws : List ω) (w : ω) :
    lastWrite hit (ws ++ [w]) = (hit w).or (lastWrite hit ws) := by
  rw [lastWrite, List.reverse_concat, List.findSome?_cons, lastWrite]
  cases hit w <;> rfl

theorem lastWrite_eq_none {ws : List ω} : lastWrite hit ws = none ↔ ∀ w ∈ ws, hit w = none := by
  simp [lastWrite]

/-- **Run rule**: what one write does to the cell says what any list of writes does to it. -/
theorem read_foldl (read : σ → α) (write : σ → ω → σ)
    (hwrite : ∀ s w, read (write s w) = (hit w).getD (read s)) (ws : List ω) (s : σ) :
    read (ws.foldl write s) = (lastWrite hit ws).getD (read s) := by
  -- on the last write, since that is the one that decides
  induction ws using List.reverseRecOn with
  | nil => rfl
  | append_singleton ws w ih =>
    rw [List.foldl_append, List.foldl_cons, List.foldl_nil, hwrite, ih, lastWrite_concat]
    cases hit w <;> rfl

/-- The same among states that meet an invariant, for writes that keep it. -/
theorem read_foldl_of_invariant (read : σ → α) (write : σ → ω → σ) {Inv : σ → Prop} {Ok : ω → Prop}
    (hinv : ∀ s w, Inv s → Ok w → Inv (write s w))
    (hwrite : ∀ s w, Inv s → Ok w → read (write s w) = (hit w).getD (read s)) {ws : List ω}
    (hws : ∀ w ∈ ws, Ok w) {s : σ} (hs : Inv s) :
    Inv (ws.foldl write s) ∧ read (ws.foldl write s) = (lastWrite hit ws).getD (read s) := by
  induction ws using List.reverseRecOn with
  | nil => exact ⟨hs, rfl⟩
  | append_singleton ws w ih =>
    obtain ⟨hinv', hread⟩ := ih fun v hv => hws v (List.mem_append_left _ hv)
    have hok : Ok w := hws w (List.mem_append_right _ (List.mem_singleton_self w))
    rw [List.foldl_append, List.foldl_cons, List.foldl_nil, hwrite _ w hinv' hok, hread, lastWrite_concat]
    refine ⟨hinv _ w hinv' hok, ?_⟩
    cases hit w <;> rfl

/-- So it is for writes that may fail, if none of them does. -/
theorem read_foldlM_of_invariant (read : σ → α) (write : σ → ω → Option σ) {Inv : σ → Prop} {Ok : ω → Prop}
    (hwrite : ∀ s w s', Inv s → Ok w → write s w = some s' → Inv s' ∧ read s' = (hit w).getD (read s))
    {ws : List ω} (hws : ∀ w ∈ ws, Ok w) {s s' : σ} (hs : Inv s) (h : ws.foldlM write s = some s') :
    Inv s' ∧ read s' = (lastWrite hit ws).getD (read s) := by
  induction ws using List.reverseRecOn generalizing s' with
  | nil =>
    obtain rfl := Option.some.inj h
    exact ⟨hs, rfl⟩
  | append_singleton ws w ih =>
    rw [List.foldlM_append, Option.bind_eq_bind, Option.bind_eq_some_iff] at h
    obtain ⟨s₁, hfirst, hlast⟩ := h
    rw [List.foldlM_cons, Option.bind_eq_bind, Option.bind_eq_some_iff] at hlast
    obtain ⟨s₂, hstep, heq⟩ := hlast
    obtain rfl := Option.some.inj heq
    obtain ⟨hinv, hread⟩ := ih (fun v hv => hws v (List.mem_append_left _ hv)) hfirst
    obtain ⟨hinv', hread'⟩ :=
      hwrite _ w _ hinv (hws w (List.mem_append_right _ (List.mem_singleton_self w))) hstep
    refine ⟨hinv', ?_⟩
    rw [hread', hread, lastWrite_concat]
    cases hit w <;> rfl

/-- **Frame rule**: what only the writes that reach the cell change is unchanged if none of them does. -/
theorem read_foldl_of_none {β : Type*} (read : σ → β) (write : σ → ω → σ)
    (hframe : ∀ s w, hit w = none → read (write s w) = read s) {ws : List ω}
    (hws : lastWrite hit ws = none) (s : σ) : read (ws.foldl write s) = read s := by
  rw [lastWrite_eq_none] at hws
  induction ws generalizing s with
  | nil => rfl
  | cons w ws ih =>
    have htail : ∀ v ∈ ws, hit v = none := fun v hv => hws v (List.mem_cons_of_mem w hv)
    rw [List.foldl_cons, ih htail, hframe s w (hws w List.mem_cons_self)]

end FanOS.LastWrite

import Mathlib.Logic.Function.Iterate

/-!
# Loops

The body of a loop takes a state to the next one (`.inl`) or leaves the loop with a result
(`.inr`).  `run body n` is the loop cut off after `n` rounds; `Returns body s a` says that the loop,
entered in `s`, is left with `a` after some number of rounds, and `Terminates body s` that it is left
at all.

`Terminates` is the property of a walk: a loop that goes from `s` to `f s` unless `s` is a state to
stop at terminates if and only if `s`, `f s`, `f (f s)`, … comes to such a state
(`terminates_iff_iterate`).
-/

namespace FanOS.Loop

universe u v

variable {σ : Type u} {α : Type v} {body : σ → σ ⊕ α} {s s' : σ} {a : α}

/-- At most `n` rounds of a loop. -/
def run (body : σ → σ ⊕ α) : ℕ → σ → Option α
  | 0, _ => none
  | n + 1, s =>
    match body s with
    | .inl s' => run body n s'
    | .inr a => some a

/-- The loop is left with the result `a`. -/
inductive Returns (body : σ → σ ⊕ α) : σ → α → Prop
  | exit {s : σ} {a : α} (h : body s = .inr a) : Returns body s a
  | round {s s' : σ} {a : α} (h : body s = .inl s') (hr : Returns body s' a) : Returns body s a

/-- The loop is left. -/
def Terminates (body : σ → σ ⊕ α) (s : σ) : Prop := ∃ a, Returns body s a

theorem returns_iff_run : Returns body s a ↔ ∃ n, run body n s = some a := by
  constructor
  · intro h
    induction h with
    | exit h => exact ⟨1, by rw [run, h]⟩
    | round h _ ih =>
      obtain ⟨n, hn⟩ := ih
      exact ⟨n + 1, by simp only [run, h, hn]⟩
  · rintro ⟨n, hn⟩
    induction n generalizing s with
    | zero => exact absurd hn (by simp [run])
    | succ n ih =>
      rw [run] at hn
      cases hb : body s with
      | inl s' =>
        rw [hb] at hn
        exact .round hb (ih hn)
      | inr b =>
        rw [hb] at hn
        exact .exit (by rw [hb, Option.some.inj hn])

/-- There is one result. -/
theorem Returns.unique {b : α} (ha : Returns body s a) (hb : Returns body s b) : a = b := by
  induction ha with
  | exit h =>
    cases hb with
    | exit h' => exact Sum.inr.inj (h.symm.trans h')
    | round h' _ => exact absurd (h.symm.trans h') (by simp)
  | round h _ ih =>
    cases hb with
    | exit h' => exact absurd (h.symm.trans h') (by simp)
    | round h' hr =>
      obtain rfl := Sum.inl.inj (h.symm.trans h')
      exact ih hr

/-- A round does not change whether the loop terminates. -/
theorem terminates_iff_of_round (h : body s = .inl s') :
    Terminates body s ↔ Terminates body s' := by
  constructor
  · rintro ⟨a, ha⟩
    cases ha with
    | exit h' => exact absurd (h.symm.trans h') (by simp)
    | round h' hr =>
      obtain rfl := Sum.inl.inj (h.symm.trans h')
      exact ⟨a, hr⟩
  · rintro ⟨a, ha⟩
    exact ⟨a, .round h ha⟩

/-- **Walks**: a loop that goes on from `s` to `f s` until it may stop, in states that keep to the
invariant `I`, terminates if and only if the walk comes to a state where it stops. -/
theorem terminates_iff_iterate (f : σ → σ) (stop I : σ → Prop) (hI : ∀ s, I s → I (f s))
    (hstop : ∀ s, stop s → ∃ a, body s = .inr a)
    (hgo : ∀ s, I s → ¬ stop s → body s = .inl (f s)) (hs : I s) :
    Terminates body s ↔ ∃ k, stop (f^[k] s) := by
  constructor
  · -- on the rounds of the loop: each of them is a step of the walk
    rintro ⟨a, ha⟩
    induction ha with
    | @exit s a h =>
      refine ⟨0, ?_⟩
      by_contra hns
      exact absurd ((hgo s hs hns).symm.trans h) (by simp)
    | @round s s' a h _ ih =>
      by_cases hns : stop s
      · exact ⟨0, hns⟩
      · obtain rfl := Sum.inl.inj ((hgo s hs hns).symm.trans h)
        obtain ⟨k, hk⟩ := ih (hI s hs)
        exact ⟨k + 1, hk⟩
  · rintro ⟨k, hk⟩
    induction k generalizing s with
    | zero =>
      obtain ⟨a, ha⟩ := hstop s hk
      exact ⟨a, .exit ha⟩
    | succ k ih =>
      -- the loop may stop before the walk has come to state `k + 1`
      by_cases hns : stop s
      · obtain ⟨a, ha⟩ := hstop s hns
        exact ⟨a, .exit ha⟩
      · exact (terminates_iff_of_round (hgo s hs hns)).mpr (ih (hI s hs) hk)

/-- A loop terminates if and only if enough rounds of it give a result. -/
theorem terminates_iff_run : Terminates body s ↔ ∃ n, (run body n s).isSome = true := by
  constructor
  · rintro ⟨a, ha⟩
    obtain ⟨n, hn⟩ := returns_iff_run.mp ha
    exact ⟨n, by rw [hn, Option.isSome_some]⟩
  · rintro ⟨n, hn⟩
    obtain ⟨a, ha⟩ := Option.isSome_iff_exists.mp hn
    exact ⟨a, returns_iff_run.mpr ⟨n, ha⟩⟩

end FanOS.Loop

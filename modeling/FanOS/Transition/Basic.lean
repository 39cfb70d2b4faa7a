import Mathlib.Logic.Basic

/-!
# Transition systems

A `System` has initial states and, for every action, a step relation.  `Reachable` is the
closure; `Reachable.invariant` is the induction every safety proof goes through: an invariant
that holds initially and is kept by each step holds in every reachable state.

`System.restrict P` keeps only the steps whose action meets the condition `P` in the state it is
taken from.  A property that fails on some runs of a system is stated for the runs that avoid
the failing steps as a property of the reachable states of a restriction.
-/

namespace FanOS

universe u v

/-- A transition system over states `σ` and actions `α`. -/
structure System (σ : Type u) (α : Type v) where
  /-- The initial states. -/
  init : σ → Prop
  /-- `step s a s'`: action `a`, taken in `s`, may lead to `s'`. -/
  step : σ → α → σ → Prop

namespace System

variable {σ : Type u} {α : Type v}

/-- The states a run of the system can be in. -/
inductive Reachable (S : System σ α) : σ → Prop
  | init {s : σ} (h : S.init s) : Reachable S s
  | step {s s' : σ} {a : α} (h : Reachable S s) (hs : S.step s a s') : Reachable S s'

/-- The system whose steps are those that meet `P` in the state they are taken from. -/
def restrict (S : System σ α) (P : σ → α → Prop) : System σ α where
  init := S.init
  step s a s' := P s a ∧ S.step s a s'

/-- The system started in one state. -/
def startedIn (S : System σ α) (s₀ : σ) : System σ α where
  init s := s = s₀
  step := S.step

/-- What can be reached from a state of a run is in a run too. -/
theorem Reachable.trans {S : System σ α} {s₀ s : σ} (h₀ : S.Reachable s₀)
    (h : (S.startedIn s₀).Reachable s) : S.Reachable s := by
  induction h with
  | init h => rwa [h]
  | step _ hstep ih => exact ih.step hstep

/-- What can be reached after a step can be reached before it. -/
theorem Reachable.of_step {S : System σ α} {s₀ s₁ s : σ} {a : α} (hstep : S.step s₀ a s₁)
    (h : (S.startedIn s₁).Reachable s) : (S.startedIn s₀).Reachable s := by
  have h₁ : (S.startedIn s₀).Reachable s₁ := .step (.init rfl) hstep
  exact h₁.trans h

/-- A restriction reaches no state that the system does not reach. -/
theorem Reachable.of_restrict {S : System σ α} {P : σ → α → Prop} {s : σ}
    (h : (S.restrict P).Reachable s) : S.Reachable s := by
  induction h with
  | init h => exact .init h
  | step _ hstep ih => exact ih.step hstep.2

/-- **Invariant rule**: what holds initially and is kept by every step holds in every reachable
state. -/
theorem Reachable.invariant {S : System σ α} {I : σ → Prop} (h0 : ∀ s, S.init s → I s)
    (hs : ∀ s a s', I s → S.step s a s' → I s') {s : σ} (h : S.Reachable s) : I s := by
  induction h with
  | init h => exact h0 _ h
  | step _ hstep ih => exact hs _ _ _ ih hstep

end System

end FanOS

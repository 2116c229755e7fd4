import Mathlib.Data.List.Basic

/-!
# Runs — sequences of steps of a partial machine

A machine is a function that takes a state and an event to the next state, or to nothing where the
event cannot happen.

* `Runs.invariant` — what every step keeps, a run keeps
* `Runs.history` — the same for what is said of a state and the events before it
-/

namespace ObjyDb

/-- The events lead from one state to the other. -/
inductive Runs {σ ε : Type} (step : σ → ε → Option σ) : σ → List ε → σ → Prop
  | nil (s : σ) : Runs step s [] s
  | cons {s t u : σ} {e : ε} {es : List ε} (hstep : step s e = some t) (hruns : Runs step t es u) :
      Runs step s (e :: es) u

namespace Runs

variable {σ ε : Type} {step : σ → ε → Option σ} {s t u : σ} {e : ε} {es es' : List ε}

theorem invariant {P : σ → Prop} (hstep : ∀ s e t, P s → step s e = some t → P t)
    (h : Runs step s es t) (hs : P s) : P t := by
  induction h with
  | nil => exact hs
  | cons hs' _ ih => exact ih (hstep _ _ _ hs hs')

theorem history {P : List ε → σ → Prop}
    (hstep : ∀ before s e t, P before s → step s e = some t → P (before ++ [e]) t)
    (h : Runs step s es t) {before : List ε} (hs : P before s) : P (before ++ es) t := by
  induction h generalizing before with
  | nil => rwa [List.append_nil]
  | cons hs' _ ih =>
      rw [List.append_cons]
      exact ih (hstep _ _ _ _ hs hs')

theorem history_nil {P : List ε → σ → Prop}
    (hstep : ∀ before s e t, P before s → step s e = some t → P (before ++ [e]) t)
    (h : Runs step s es t) (hs : P [] s) : P es t := by
  have hrun : P ([] ++ es) t := history hstep h hs
  exact hrun

/-- A run goes through the state after the first events. -/
theorem split (h : Runs step s (es ++ es') u) : ∃ t, Runs step s es t ∧ Runs step t es' u := by
  induction es generalizing s with
  | nil => exact ⟨s, .nil s, h⟩
  | cons e es ih =>
      cases h with
      | cons hstep hruns =>
          rcases ih hruns with ⟨t, hfirst, hrest⟩
          exact ⟨t, .cons hstep hfirst, hrest⟩

theorem append (h : Runs step s es t) (h' : Runs step t es' u) : Runs step s (es ++ es') u := by
  induction h with
  | nil => exact h'
  | cons hstep _ ih => exact .cons hstep (ih h')

/-- The same events lead to the same state. -/
theorem unique (h : Runs step s es t) (h' : Runs step s es u) : t = u := by
  induction h with
  | nil =>
      cases h'
      rfl
  | cons hstep _ ih =>
      cases h' with
      | cons hstep' hruns' =>
          rw [hstep] at hstep'
          cases hstep'
          exact ih hruns'

/-- What holds after an event holds to the end of the run, if every step keeps it. -/
theorem after {P : σ → Prop} (hkeep : ∀ s e t, P s → step s e = some t → P t)
    (h : Runs step s (es ++ e :: es') u) (ht : Runs step s es t)
    (hevent : ∀ t', step t e = some t' → P t') : P u := by
  rcases h.split with ⟨t', hfirst, hrest⟩
  cases hfirst.unique ht
  cases hrest with
  | cons hstep hruns => exact hruns.invariant hkeep (hevent _ hstep)

end Runs

end ObjyDb

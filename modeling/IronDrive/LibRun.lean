import Mathlib.Data.List.Basic

/-! Runs of a labelled transition system: what holds at the start and is kept by every step of a run holds at
its end, and a run that meets a condition at each of its steps is a run of the system so restricted. -/

namespace Lib

universe u v

variable {σ : Type u} {Λ : Type v}

/-- A run from a state to another, with the labels of its steps. -/
inductive Run (step : σ → Λ → σ → Prop) (start : σ) : List Λ → σ → Prop
  | nil : Run step start [] start
  | snoc {labels : List Λ} {label : Λ} {s s' : σ} :
      Run step start labels s → step s label s' → Run step start (labels ++ [label]) s'

namespace Run

variable {step : σ → Λ → σ → Prop} {start s : σ} {labels : List Λ}

/-- The rule of invariants that may speak of the labels so far. -/
theorem history {I : List Λ → σ → Prop} (h : Run step start labels s) (hstart : I [] start)
    (hstep : ∀ labels s label s', I labels s → step s label s' → I (labels ++ [label]) s') : I labels s := by
  induction h with
  | nil => exact hstart
  | snoc _ hlast ih => exact hstep _ _ _ _ ih hlast

/-- The rule of invariants. -/
theorem invariant {I : σ → Prop} (h : Run step start labels s) (hstart : I start)
    (hstep : ∀ s label s', I s → step s label s' → I s') : I s :=
  h.history (I := fun _ s => I s) hstart fun _ => hstep

/-- A run of a finer system. -/
theorem mono {step' : σ → Λ → σ → Prop} (h : Run step start labels s)
    (hstep : ∀ s label s', step s label s' → step' s label s') : Run step' start labels s := by
  induction h with
  | nil => exact nil
  | snoc _ hlast ih => exact snoc ih (hstep _ _ _ hlast)

end Run

end Lib

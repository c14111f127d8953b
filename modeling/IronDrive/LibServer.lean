import Mathlib.Data.List.Forall2

/-! Servers: machines that answer each request and go to a next state. One server simulates another when related
states give related answers and related states; then every run of requests is answered alike. -/

namespace Lib

universe u v w x y

variable {σ : Type u} {τ : Type v} {Λ : Type w} {ρ : Type x} {κ : Type y}

/-- Serve requests one after the other: the answers, and the state after the last. -/
def serveAll (step : Λ → σ → ρ × σ) : List Λ → σ → List ρ × σ
  | [], s => ([], s)
  | request :: rest, s =>
      ((step request s).1 :: (serveAll step rest (step request s).2).1, (serveAll step rest (step request s).2).2)

@[simp] theorem serveAll_nil (step : Λ → σ → ρ × σ) (s : σ) : serveAll step [] s = ([], s) := rfl

@[simp] theorem serveAll_cons (step : Λ → σ → ρ × σ) (request : Λ) (rest : List Λ) (s : σ) :
    serveAll step (request :: rest) s =
      ((step request s).1 :: (serveAll step rest (step request s).2).1,
        (serveAll step rest (step request s).2).2) := rfl

/-- The rule of invariants. -/
theorem serveAll_invariant {step : Λ → σ → ρ × σ} {I : σ → Prop} (requests : List Λ)
    (hstep : ∀ request ∈ requests, ∀ s, I s → I (step request s).2) : ∀ {s : σ}, I s →
      I (serveAll step requests s).2 := by
  induction requests with
  | nil =>
      intro s hs
      exact hs
  | cons request rest ih =>
      intro s hs
      have hnext := hstep request (List.mem_cons_self ..) s hs
      exact ih (fun later hlater => hstep later (List.mem_cons_of_mem _ hlater)) hnext

/-- The rule of simulation. -/
theorem serveAll_simulates {step : Λ → σ → ρ × σ} {step' : Λ → τ → κ × τ} {R : σ → τ → Prop} {A : ρ → κ → Prop}
    (requests : List Λ) (hstep : ∀ request ∈ requests, ∀ s t, R s t →
      A (step request s).1 (step' request t).1 ∧ R (step request s).2 (step' request t).2) :
    ∀ {s : σ} {t : τ}, R s t →
      List.Forall₂ A (serveAll step requests s).1 (serveAll step' requests t).1 ∧
        R (serveAll step requests s).2 (serveAll step' requests t).2 := by
  induction requests with
  | nil =>
      intro s t h
      exact ⟨.nil, h⟩
  | cons request rest ih =>
      intro s t h
      obtain ⟨hanswer, hnext⟩ := hstep request (List.mem_cons_self ..) s t h
      obtain ⟨hanswers, hlast⟩ := ih (fun later hlater => hstep later (List.mem_cons_of_mem _ hlater)) hnext
      exact ⟨.cons hanswer hanswers, hlast⟩

end Lib

/-
  DirSurveiller.Lib.Trace — machines that answer every input.

  A machine is a function from a state and an input to an answer and the next state.  `trace` feeds
  it a list of inputs and collects the answers.  Two machines whose states are related, and stay
  related, answer every list of inputs alike (`trace_simulates`): this is what it means that one of
  them implements the other.
-/
import Mathlib.Data.List.Basic

namespace Trace

variable {σ τ ι ω : Type*}

/-- The answers to a list of inputs, and the state after them. -/
def trace (step : σ → ι → ω × σ) : σ → List ι → List ω × σ
  | s, [] => ([], s)
  | s, i :: is =>
      let next := step s i
      let rest := trace step next.2 is
      (next.1 :: rest.1, rest.2)

@[simp] theorem trace_nil (step : σ → ι → ω × σ) (s : σ) : trace step s [] = ([], s) := rfl

@[simp] theorem trace_cons (step : σ → ι → ω × σ) (s : σ) (i : ι) (is : List ι) :
    trace step s (i :: is)
      = ((step s i).1 :: (trace step (step s i).2 is).1, (trace step (step s i).2 is).2) := rfl

/-- **Simulation**: a relation between the states that every input keeps, with equal answers. -/
theorem trace_simulates {step : σ → ι → ω × σ} {step' : τ → ι → ω × τ} {R : σ → τ → Prop}
    (hstep : ∀ s t i, R s t → (step s i).1 = (step' t i).1 ∧ R (step s i).2 (step' t i).2)
    (is : List ι) : ∀ s t, R s t →
      (trace step s is).1 = (trace step' t is).1 ∧ R (trace step s is).2 (trace step' t is).2 := by
  -- the relation is carried over the inputs, one at a time
  induction is with
  | nil => intro s t h; exact ⟨rfl, h⟩
  | cons i is ih =>
      intro s t h
      obtain ⟨hanswer, hnext⟩ := hstep s t i h
      obtain ⟨hanswers, hlast⟩ := ih _ _ hnext
      rw [trace_cons, trace_cons]
      exact ⟨by rw [hanswer, hanswers], hlast⟩

end Trace

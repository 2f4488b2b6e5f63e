import Mathlib.Data.List.Basic

namespace Machine

variable {S T I O : Type}

/-- A run feeds the inputs to the step in order and returns the last state. -/
def run (step : S → I → S × O) : S → List I → S
  | state, [] => state
  | state, input :: rest => run step (step state input).1 rest

/-- The outputs of a run appear in the order of its inputs. -/
def outputs (step : S → I → S × O) : S → List I → List O
  | _, [] => []
  | state, input :: rest => (step state input).2 :: outputs step (step state input).1 rest

@[simp] theorem outputs_cons (step : S → I → S × O) (state : S) (input : I) (rest : List I) :
    outputs step state (input :: rest) =
      (step state input).2 :: outputs step (step state input).1 rest := rfl

/-- Each input of an admitted run is allowed in the state that receives it. -/
def Admitted (allowed : S → I → Prop) (step : S → I → S × O) : S → List I → Prop
  | _, [] => True
  | state, input :: rest => allowed state input ∧ Admitted allowed step (step state input).1 rest

/-- Every run is admitted when every input is allowed. -/
theorem admitted_of_forall {allowed : S → I → Prop} (always : ∀ state input, allowed state input)
    (step : S → I → S × O) (state : S) (inputs : List I) : Admitted allowed step state inputs := by
  induction inputs generalizing state with
  | nil => trivial
  | cons input rest ih => exact ⟨always state input, ih _⟩

/-- Two conditions admit the same runs when they agree in every good state and lead to good states. -/
theorem admitted_iff_of_invariant {good : S → Prop} {first second : S → I → Prop}
    {step : S → I → S × O} (agree : ∀ state input, good state → (first state input ↔ second state input))
    (keeps : ∀ state input, good state → first state input → good (step state input).1)
    (state : S) (inputs : List I) (start : good state) :
    Admitted first step state inputs ↔ Admitted second step state inputs := by
  induction inputs generalizing state with
  | nil => exact Iff.rfl
  | cons input rest ih =>
      constructor
      · rintro ⟨now, later⟩
        exact ⟨(agree state input start).mp now, (ih _ (keeps state input start now)).mp later⟩
      · rintro ⟨now, later⟩
        have allowed := (agree state input start).mpr now
        exact ⟨allowed, (ih _ (keeps state input start allowed)).mpr later⟩

/-- A property that every step keeps holds at the end of every run. -/
theorem run_invariant {good : S → Prop} {step : S → I → S × O}
    (keeps : ∀ state input, good state → good (step state input).1)
    (state : S) (inputs : List I) (start : good state) : good (run step state inputs) := by
  induction inputs generalizing state with
  | nil => exact start
  | cons input rest ih => exact ih _ (keeps state input start)

/-- One step of the machine matches one allowed step of its model. -/
def Matches (relation : S → T → Prop) (allowed : T → I → Prop) (step : S → I → S × O)
    (model : T → I → T × O) : Prop :=
  ∀ state image input, relation state image → allowed image input →
    relation (step state input).1 (model image input).1 ∧
      (step state input).2 = (model image input).2

/-- Matching steps give equal outputs over every admitted run. -/
theorem simulation {relation : S → T → Prop} {allowed : T → I → Prop} {step : S → I → S × O}
    {model : T → I → T × O} (matching : Matches relation allowed step model)
    (state : S) (image : T) (inputs : List I) (start : relation state image)
    (admitted : Admitted allowed model image inputs) :
    relation (run step state inputs) (run model image inputs) ∧
      outputs step state inputs = outputs model image inputs := by
  induction inputs generalizing state image with
  | nil => exact ⟨start, rfl⟩
  | cons input rest ih =>
      obtain ⟨related, same⟩ := matching state image input start admitted.1
      obtain ⟨final, equal⟩ := ih _ _ related admitted.2
      exact ⟨final, by rw [outputs_cons, outputs_cons, same, equal]⟩

end Machine

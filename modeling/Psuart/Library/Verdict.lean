import Psuart.Library.Replay

namespace Machine

variable {S I : Type}

/-- The first input that the step rejects. -/
def rejected (step : S → I → S × Bool) : S → List I → Option I
  | _, [] => none
  | state, input :: rest => if (step state input).2 then rejected step (step state input).1 rest else some input

theorem rejected_append (step : S → I → S × Bool) (state : S) (first second : List I) :
    rejected step state (first ++ second) =
      (rejected step state first).or (rejected step (run step state first) second) := by
  induction first generalizing state with
  | nil => rfl
  | cons input rest ih =>
      rw [List.cons_append, rejected, rejected]
      split
      · exact ih _
      · rfl

theorem run_singleton (step : S → I → S × Bool) (state : S) (input : I) :
    run step state [input] = (step state input).1 := rfl

/-- The inputs in front of the first rejected one are accepted. -/
theorem rejected_eq_some_iff {step : S → I → S × Bool} {state : S} {inputs : List I} {input : I} :
    rejected step state inputs = some input ↔
      ∃ front back, inputs = front ++ input :: back ∧ rejected step state front = none ∧
        (step (run step state front) input).2 = false := by
  constructor
  · intro found
    induction inputs generalizing state with
    | nil => cases found
    | cons first rest ih =>
        rw [rejected] at found
        split at found
        · rename_i accepted
          obtain ⟨front, back, rfl, passed, fails⟩ := ih found
          refine ⟨first :: front, back, rfl, ?_, fails⟩
          rw [rejected, if_pos accepted]
          exact passed
        · rename_i fails
          obtain rfl := Option.some.inj found
          exact ⟨[], rest, rfl, rfl, Bool.eq_false_iff.mpr fails⟩
  · rintro ⟨front, back, rfl, passed, fails⟩
    rw [rejected_append, passed, Option.none_or, rejected, fails]
    rfl

theorem mem_of_rejected {step : S → I → S × Bool} {state : S} {inputs : List I} {input : I}
    (found : rejected step state inputs = some input) : input ∈ inputs := by
  obtain ⟨front, back, rfl, _⟩ := rejected_eq_some_iff.mp found
  simp

end Machine

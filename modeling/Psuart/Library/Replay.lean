import Psuart.Library.Machine
import Psuart.Library.Trace

namespace Machine

variable {S I O : Type}

theorem run_append (step : S → I → S × O) (state : S) (first second : List I) :
    run step state (first ++ second) = run step (run step state first) second := by
  induction first generalizing state with
  | nil => rfl
  | cons input rest ih => exact ih _

theorem outputs_append (step : S → I → S × O) (state : S) (first second : List I) :
    outputs step state (first ++ second) =
      outputs step state first ++ outputs step (run step state first) second := by
  induction first generalizing state with
  | nil => rfl
  | cons input rest ih => exact congrArg (_ :: ·) (ih _)

end Machine

namespace Trace

variable {S T E O : Type} {moves : S → E → S → Prop}

/-- The events of a trace in their order. -/
def events (trace : List (Transition S E)) : List E := trace.map Transition.event

/-- Every move of the system is a step of the model with the output of its event. -/
def Replays (relation : S → T → Prop) (moves : S → E → S → Prop) (model : T → E → T × O)
    (output : E → O) : Prop :=
  ∀ before event after image, relation before image → moves before event after →
    relation after (model image event).1 ∧ (model image event).2 = output event

/-- The model replays the events of a path and gives their outputs. -/
theorem Path.replays {relation : S → T → Prop} {model : T → E → T × O} {output : E → O}
    (matching : Replays relation moves model output) {start : S} {image : T} (first : relation start image)
    {world : World S E} (path : Path moves ⟨start, []⟩ world) :
    relation world.state (Machine.run model image (events world.trace)) ∧
      Machine.outputs model image (events world.trace) = (events world.trace).map output := by
  induction path with
  | refl => exact ⟨first, rfl⟩
  | @snoc world event after _ move ih =>
      obtain ⟨related, same⟩ := ih
      obtain ⟨next, last⟩ := matching _ event after _ related move
      have split : events (world.step event after).trace = events world.trace ++ [event] :=
        List.map_append
      refine ⟨?_, ?_⟩
      · rw [split, Machine.run_append]
        exact next
      · rw [split, Machine.outputs_append, List.map_append, same]
        exact congrArg (_ ++ [·]) last

/-- The last transition is a start, or it keeps what holds since an earlier one. -/
theorem since_snoc_iff {start : List (Transition S E) → Transition S E → Prop} {keeps : Transition S E → Prop}
    {trace : List (Transition S E)} {last : Transition S E} :
    Since start keeps (trace ++ [last]) ↔ start trace last ∨ (Since start keeps trace ∧ keeps last) := by
  constructor
  · rintro ⟨past, first, later, equal, begins, kept⟩
    rcases List.eq_nil_or_concat later with rfl | ⟨front, final, rfl⟩
    · obtain ⟨rfl, single⟩ := List.append_inj' equal rfl
      obtain ⟨rfl, _⟩ := List.cons.inj single
      exact Or.inl begins
    · rw [List.concat_eq_append] at equal kept
      have split : trace ++ [last] = (past ++ first :: front) ++ [final] := by
        rw [equal]
        simp
      obtain ⟨rfl, single⟩ := List.append_inj' split rfl
      obtain ⟨rfl, _⟩ := List.cons.inj single
      exact Or.inr ⟨⟨past, first, front, rfl, begins, fun other member =>
        kept other (List.mem_append_left _ member)⟩, kept last (by simp)⟩
  · rintro (begins | ⟨since, kept⟩)
    · exact .begin begins
    · exact since.snoc kept

theorem since_nil {start : List (Transition S E) → Transition S E → Prop} {keeps : Transition S E → Prop} :
    ¬Since start keeps [] := by
  rintro ⟨past, first, later, equal, _⟩
  simp at equal

section Answered

variable {A : Type} {starts : A → Prop} {answers : A → A → Prop}

/-- Each starting value is followed at once by its answer. -/
def Answered (starts : A → Prop) (answers : A → A → Prop) (list : List A) : Prop :=
  ∀ past value future, list = past ++ value :: future → starts value →
    ∃ next rest, future = next :: rest ∧ answers value next

theorem answered_of_none {list : List A} (none : ∀ value ∈ list, ¬starts value) : Answered starts answers list := by
  rintro past value future rfl begins
  exact absurd begins (none value (by simp))

theorem answered_pair {value next : A} (answer : answers value next) (calm : ¬starts next) :
    Answered starts answers [value, next] := by
  intro past other future equal begins
  cases past with
  | nil =>
      obtain ⟨rfl, rfl⟩ := List.cons.inj equal
      exact ⟨next, [], rfl, answer⟩
  | cons first rest =>
      have last : other ∈ [next] := by
        rw [(List.cons.inj equal).2]
        simp
      rw [List.mem_singleton.mp last] at begins
      exact absurd begins calm

theorem Answered.append {first second : List A} (front : Answered starts answers first)
    (back : Answered starts answers second) : Answered starts answers (first ++ second) := by
  intro past value future equal begins
  rcases List.append_eq_append_iff.mp equal with ⟨more, rfl, split⟩ | ⟨more, rfl, split⟩
  · exact back more value future split begins
  · cases more with
    | nil => exact back [] value future split.symm begins
    | cons head tail =>
        obtain ⟨rfl, rfl⟩ := List.cons.inj split
        obtain ⟨next, rest, rfl, answer⟩ := front past value tail rfl begins
        exact ⟨next, rest ++ second, rfl, answer⟩

end Answered

end Trace

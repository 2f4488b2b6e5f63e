import Mathlib.Data.List.Basic

namespace Settings

variable {O V : Type}

/-- The value of the latest operation that sets one. -/
def latest (setting : O → Option V) (start : V) (operations : List O) : V :=
  (operations.reverse.findSome? setting).getD start

/-- The first operation of a run sets the value for the rest. -/
theorem latest_cons (setting : O → Option V) (start : V) (operation : O) (rest : List O) :
    latest setting start (operation :: rest) = latest setting ((setting operation).getD start) rest := by
  rw [latest, latest, List.reverse_cons, List.findSome?_append]
  cases rest.reverse.findSome? setting with
  | some value => rfl
  | none =>
      rw [Option.none_or, List.findSome?_singleton]
      rfl

/-- A run continues with the value of the run before it. -/
theorem latest_append (setting : O → Option V) (start : V) (first second : List O) :
    latest setting start (first ++ second) = latest setting (latest setting start first) second := by
  induction first generalizing start with
  | nil => rfl
  | cons operation rest ih => rw [List.cons_append, latest_cons, latest_cons, ih]

/-- The last operation of a run sets the value, or it keeps the value of the run. -/
theorem latest_snoc (setting : O → Option V) (start : V) (front : List O) (last : O) :
    latest setting start (front ++ [last]) = (setting last).getD (latest setting start front) := by
  rw [latest_append, latest_cons]
  rfl

/-- Every operation of a run reports under the operations before it. -/
def transcript {R : Type} (report : List O → O → List R) : List O → List O → List R
  | _, [] => []
  | before, operation :: rest => report before operation ++ transcript report (before ++ [operation]) rest

theorem transcript_snoc {R : Type} (report : List O → O → List R) (before front : List O) (last : O) :
    transcript report before (front ++ [last]) =
      transcript report before front ++ report (before ++ front) last := by
  induction front generalizing before with
  | nil => rw [List.nil_append, transcript, transcript, transcript, List.append_nil, List.nil_append, List.append_nil]
  | cons operation rest ih =>
      rw [List.cons_append, transcript, ih, transcript, List.append_assoc, List.append_assoc, List.singleton_append]

end Settings

import Mathlib.Data.List.Basic

namespace Trace

variable {S E : Type}

/-- A transition records one event with the states around it. -/
structure Transition (S E : Type) where
  before : S
  event : E
  after : S

/-- A world carries its current state and every transition that led to it. -/
structure World (S E : Type) where
  state : S
  trace : List (Transition S E)

/-- The world moves to a new state and records the event. -/
def World.step (world : World S E) (event : E) (after : S) : World S E :=
  ⟨after, world.trace ++ [⟨world.state, event, after⟩]⟩

@[simp] theorem World.step_state (world : World S E) (event : E) (after : S) :
    (world.step event after).state = after := rfl

@[simp] theorem World.step_trace (world : World S E) (event : E) (after : S) :
    (world.step event after).trace = world.trace ++ [⟨world.state, event, after⟩] := rfl

/-- The places of a list are its first one and those of its rest. -/
theorem forall_places_cons {A : Type} {good : List A → A → List A → Prop} {first : A} {rest : List A} :
    (∀ front value back, first :: rest = front ++ value :: back → good front value back) ↔
      good [] first rest ∧
        ∀ front value back, rest = front ++ value :: back → good (first :: front) value back := by
  constructor
  · intro each
    exact ⟨each [] first rest rfl, fun front value back split => each (first :: front) value back (by rw [split]; rfl)⟩
  · rintro ⟨now, later⟩ front value back split
    rcases List.cons_eq_append_iff.mp split with ⟨rfl, same⟩ | ⟨tail, rfl, same⟩
    · obtain ⟨rfl, rfl⟩ := List.cons.inj same
      exact now
    · exact later tail value back same

theorem forall_places_nil {A : Type} {good : List A → A → List A → Prop} (front : List A) (value : A)
    (back : List A) (split : [] = front ++ value :: back) : good front value back := by
  simp at split

/-- The property holds for each transition together with the transitions before it. -/
def Always (good : List (Transition S E) → Transition S E → Prop)
    (trace : List (Transition S E)) : Prop :=
  ∀ past transition future, trace = past ++ transition :: future → good past transition

theorem always_nil (good : List (Transition S E) → Transition S E → Prop) : Always good [] :=
  forall_places_nil

/-- A trace grows by one good transition. -/
theorem Always.snoc {good : List (Transition S E) → Transition S E → Prop}
    {trace : List (Transition S E)} {last : Transition S E} (always : Always good trace)
    (next : good trace last) : Always good (trace ++ [last]) := by
  intro past transition future equal
  rcases List.eq_nil_or_concat future with empty | ⟨front, final, full⟩
  · subst empty
    obtain ⟨same, single⟩ := List.append_inj' equal rfl
    obtain ⟨rfl, _⟩ := List.cons.inj single
    exact same ▸ next
  · subst full
    have split : trace ++ [last] = (past ++ transition :: front) ++ [final] := by
      rw [equal]; simp
    exact always past transition front (List.append_inj' split rfl).1

theorem Always.mem {good : Transition S E → Prop} {trace : List (Transition S E)}
    (always : Always (fun _ => good) trace) (transition : Transition S E)
    (member : transition ∈ trace) : good transition := by
  obtain ⟨past, future, equal⟩ := List.append_of_mem member
  exact always past transition future equal

/-- The only marked value splits a list in one way. -/
theorem split_unique {A : Type} (marked : A → Prop) {front back left right : List A} {middle value : A}
    (before : ∀ value ∈ front, ¬marked value) (behind : ∀ value ∈ back, ¬marked value)
    (mark : marked value) (equal : front ++ middle :: back = left ++ value :: right) :
    front = left ∧ middle = value ∧ back = right := by
  induction front generalizing left with
  | nil =>
      cases left with
      | nil =>
          obtain ⟨first, rest⟩ := List.cons.inj equal
          exact ⟨rfl, first, rest⟩
      | cons other others =>
          obtain ⟨_, rest⟩ := List.cons.inj equal
          exact absurd mark (behind value (by rw [rest]; simp))
  | cons first rest ih =>
      cases left with
      | nil =>
          obtain ⟨same, _⟩ := List.cons.inj equal
          exact absurd mark (same ▸ before first List.mem_cons_self)
      | cons other others =>
          obtain ⟨same, tails⟩ := List.cons.inj equal
          obtain ⟨fronts, middles, backs⟩ :=
            ih (fun value member => before value (List.mem_cons_of_mem _ member)) tails
          exact ⟨by rw [same, fronts], middles, backs⟩

/-- Parts add up to their wholes exactly when every part is whole. -/
theorem flatMap_eq_iff_of_prefix {A B : Type} (list : List A) (part whole : A → List B)
    (prefixes : ∀ value ∈ list, part value <+: whole value) :
    list.flatMap part = list.flatMap whole ↔ ∀ value ∈ list, part value = whole value := by
  have bounded (rest : List A) (parts : ∀ value ∈ rest, part value <+: whole value) :
      (rest.flatMap part).length ≤ (rest.flatMap whole).length := by
    induction rest with
    | nil => exact Nat.le_refl _
    | cons value rest ih =>
        have first := (parts value List.mem_cons_self).length_le
        have others := ih fun other member => parts other (List.mem_cons_of_mem _ member)
        simp only [List.flatMap_cons, List.length_append]
        omega
  constructor
  · induction list with
    | nil => exact fun _ _ member => by cases member
    | cons value rest ih =>
        intro equal
        have first := prefixes value List.mem_cons_self
        have others := fun other member => prefixes other (List.mem_cons_of_mem _ member)
        have lengths := congrArg List.length equal
        have below := bounded rest others
        have short := first.length_le
        simp only [List.flatMap_cons, List.length_append] at lengths
        have same : part value = whole value := first.eq_of_length (by omega)
        simp only [List.flatMap_cons, same, List.append_cancel_left_eq] at equal
        intro other member
        rcases List.mem_cons.mp member with rfl | later
        · exact same
        · exact ih others equal other later
  · intro each
    exact List.flatMap_congr each

/-- A path extends a world by moves of the relation. -/
inductive Path (moves : S → E → S → Prop) (start : World S E) : World S E → Prop where
  | refl : Path moves start start
  | snoc {world : World S E} {event : E} {after : S} (path : Path moves start world)
      (move : moves world.state event after) : Path moves start (world.step event after)

theorem Path.single {moves : S → E → S → Prop} {world : World S E} {event : E} {after : S}
    (move : moves world.state event after) : Path moves world (world.step event after) :=
  .snoc .refl move

theorem Path.trans {moves : S → E → S → Prop} {first second third : World S E}
    (front : Path moves first second) (back : Path moves second third) : Path moves first third := by
  induction back with
  | refl => exact front
  | snoc _ move ih => exact .snoc ih move

/-- A larger relation has the same paths. -/
theorem Path.mono {moves others : S → E → S → Prop}
    (larger : ∀ before event after, moves before event after → others before event after)
    {first second : World S E} (path : Path moves first second) : Path others first second := by
  induction path with
  | refl => exact .refl
  | snoc _ move ih => exact .snoc ih (larger _ _ _ move)

/-- A property that every move preserves holds at the end of a path. -/
theorem Path.invariant {moves : S → E → S → Prop} (good : World S E → Prop)
    (keeps : ∀ world event after, good world → moves world.state event after →
      good (world.step event after))
    {first second : World S E} (path : Path moves first second) (start : good first) : good second := by
  induction path with
  | refl => exact start
  | snoc _ move ih => exact keeps _ _ _ ih move

/-- Every transition of a path from the start is a move. -/
theorem Path.mem_moves {moves : S → E → S → Prop} {start : S} {world : World S E}
    (path : Path moves ⟨start, []⟩ world) (transition : Transition S E)
    (member : transition ∈ world.trace) : moves transition.before transition.event transition.after := by
  induction path with
  | refl => cases member
  | snoc _ move ih =>
      rw [World.step_trace, List.mem_append, List.mem_singleton] at member
      rcases member with old | rfl
      · exact ih old
      · exact move

/-- A property of states that every move preserves holds around every transition of a path. -/
theorem Path.mem_invariant {moves : S → E → S → Prop} (good : S → Prop)
    (keeps : ∀ before event after, good before → moves before event after → good after) {start : S}
    {world : World S E} (path : Path moves ⟨start, []⟩ world) (first : good start) :
    good world.state ∧ ∀ transition ∈ world.trace, good transition.before := by
  induction path with
  | refl => exact ⟨first, fun _ member => by cases member⟩
  | snoc _ move ih =>
      refine ⟨keeps _ _ _ ih.1 move, ?_⟩
      intro transition member
      rw [World.step_trace, List.mem_append, List.mem_singleton] at member
      rcases member with old | rfl
      · exact ih.2 transition old
      · exact ih.1

/-- A path only adds transitions, and each of them is a move. -/
theorem Path.added {moves : S → E → S → Prop} {first second : World S E} (path : Path moves first second) :
    ∃ added, second.trace = first.trace ++ added ∧
      ∀ transition ∈ added, moves transition.before transition.event transition.after := by
  induction path with
  | refl => exact ⟨[], by simp, fun _ member => by cases member⟩
  | @snoc world event after _ move ih =>
      obtain ⟨added, equal, each⟩ := ih
      refine ⟨added ++ [⟨world.state, event, after⟩], by rw [World.step_trace, equal, List.append_assoc], ?_⟩
      intro transition member
      rw [List.mem_append, List.mem_singleton] at member
      rcases member with old | rfl
      · exact each transition old
      · exact move

section Since

variable {B : Type} {start : List (Transition S E) → Transition S E → Prop}
  {keeps : Transition S E → Prop} {values : Transition S E → List B}

/-- A start lies in the trace, and every later transition keeps the property. -/
def Since (start : List (Transition S E) → Transition S E → Prop) (keeps : Transition S E → Prop)
    (trace : List (Transition S E)) : Prop :=
  ∃ past first later, trace = past ++ first :: later ∧ start past first ∧
    ∀ transition ∈ later, keeps transition

/-- The values behind the start add up to the collected list. -/
def Collected (start : List (Transition S E) → Transition S E → Prop) (keeps : Transition S E → Prop)
    (values : Transition S E → List B) (trace : List (Transition S E)) (total : List B) : Prop :=
  ∃ past first later, trace = past ++ first :: later ∧ start past first ∧
    (∀ transition ∈ later, keeps transition) ∧ later.flatMap values = total

theorem Since.begin {trace : List (Transition S E)} {last : Transition S E} (first : start trace last) :
    Since start keeps (trace ++ [last]) :=
  ⟨trace, last, [], rfl, first, by simp⟩

theorem Since.snoc {trace : List (Transition S E)} {last : Transition S E}
    (since : Since start keeps trace) (next : keeps last) : Since start keeps (trace ++ [last]) := by
  obtain ⟨past, first, later, equal, begins, kept⟩ := since
  refine ⟨past, first, later ++ [last], by simp [equal], begins, ?_⟩
  intro transition member
  rcases List.mem_append.mp member with old | new
  · exact kept transition old
  · rw [List.mem_singleton.mp new]
    exact next

theorem Collected.begin {trace : List (Transition S E)} {last : Transition S E}
    (first : start trace last) : Collected start keeps values (trace ++ [last]) [] :=
  ⟨trace, last, [], rfl, first, by simp, rfl⟩

theorem Collected.snoc {trace : List (Transition S E)} {last : Transition S E} {total : List B}
    (collected : Collected start keeps values trace total) (next : keeps last) :
    Collected start keeps values (trace ++ [last]) (total ++ values last) := by
  obtain ⟨past, first, later, equal, begins, kept, sum⟩ := collected
  refine ⟨past, first, later ++ [last], by simp [equal], begins, ?_, by simp [sum]⟩
  intro transition member
  rcases List.mem_append.mp member with old | new
  · exact kept transition old
  · rw [List.mem_singleton.mp new]
    exact next

end Since

end Trace

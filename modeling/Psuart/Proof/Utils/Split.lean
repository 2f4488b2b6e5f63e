import Psuart.Spec.Arguments

namespace Psuart

variable {spliter : Byte} {field rest ps : List Byte} {left : Nat}

/-- The round skips one separator at its start. -/
def skipSpliter (spliter : Byte) (ps : List Byte) : List Byte :=
  if ps.head? = some spliter then ps.tail else ps

theorem skipSpliter_visible (free : spliter ∉ field) (visible : field ≠ []) (rest : List Byte) :
    skipSpliter spliter (field ++ rest) = field ++ rest := by
  rw [skipSpliter, if_neg]
  intro head
  rw [List.head?_append_of_ne_nil _ visible] at head
  exact free (List.mem_of_mem_head? head)

/-- A round stores the field in front of the next separator. -/
theorem splitArguments_field (free : spliter ∉ field) (short : field.length ≤ 511)
    (skips : skipSpliter spliter ps = field ++ spliter :: rest) :
    splitArguments spliter (left + 1) ps = field :: splitArguments spliter left rest := by
  have start : (if ps.head? = some spliter then ps.tail else ps) = field ++ spliter :: rest := skips
  rw [splitArguments]
  simp only [start, Scan.takeWhile_ne_stop free, List.drop_left]
  rw [List.take_of_length_le (show field.length ≤ maxArgLen - 1 from short)]

/-- The last round stores what is left. -/
theorem splitArguments_last (free : spliter ∉ field) (short : field.length ≤ 511) (visible : field ≠ [])
    (skips : skipSpliter spliter ps = field) : splitArguments spliter (left + 1) ps = [field] := by
  have whole : field.takeWhile (· ≠ spliter) = field := Scan.takeWhile_ne_self free
  have start : (if ps.head? = some spliter then ps.tail else ps) = field := skips
  rw [splitArguments]
  simp only [start, whole, List.drop_length, if_neg visible]
  rw [List.take_of_length_le (show field.length ≤ maxArgLen - 1 from short)]

theorem joinFields_single (spliter : Byte) (field : List Byte) : joinFields spliter [field] = field :=
  List.intercalate_singleton

theorem joinFields_cons (spliter : Byte) (field second : List Byte) (more : List (List Byte)) :
    joinFields spliter (field :: second :: more) = field ++ spliter :: joinFields spliter (second :: more) := by
  rw [joinFields, List.intercalate_cons_cons, List.append_assoc]
  rfl

/-- The fields that can be joined and split again. -/
structure Fields (spliter : Byte) (fields : List (List Byte)) : Prop where
  free : ∀ field ∈ fields, spliter ∉ field
  short : ∀ field ∈ fields, field.length ≤ 511
  last : fields.getLast? ≠ some []

theorem Fields.behind {field : List Byte} {more : List (List Byte)} (fields : Fields spliter (field :: more)) :
    Fields spliter more where
  free other member := fields.free other (List.mem_cons_of_mem _ member)
  short other member := fields.short other (List.mem_cons_of_mem _ member)
  last := by
    have last := fields.last
    cases more with
    | nil => exact fun none => by cases none
    | cons second more => rwa [List.getLast?_cons_cons] at last

/-- An empty field is dropped together with the separator behind it. -/
def collapsed : List (List Byte) → List (List Byte)
  | [] :: second :: more => second :: collapsed more
  | field :: more => field :: collapsed more
  | [] => []

theorem collapsed_visible {field : List Byte} (visible : field ≠ []) (more : List (List Byte)) :
    collapsed (field :: more) = field :: collapsed more := by
  cases field with
  | nil => exact absurd rfl visible
  | cons c text => rfl

/-- A round that starts in front of a field stores it. -/
theorem splitArguments_join {field : List Byte} {more : List (List Byte)} (fields : Fields spliter (field :: more))
    (skips : skipSpliter spliter ps = joinFields spliter (field :: more)) :
    splitArguments spliter (left + 1) ps = field :: splitArguments spliter left (joinFields spliter more) := by
  have free := fields.free field (List.mem_cons_self ..)
  have short := fields.short field (List.mem_cons_self ..)
  cases more with
  | nil =>
      rw [joinFields_single] at skips
      have visible : field ≠ [] := fun empty => fields.last (by rw [empty]; rfl)
      rw [splitArguments_last free short visible skips]
      cases left with
      | zero => rfl
      | succ left => rfl
  | cons second more =>
      rw [joinFields_cons] at skips
      exact splitArguments_field free short skips

theorem joinFields_skip (free : spliter ∉ field) (visible : field ≠ []) (more : List (List Byte)) :
    skipSpliter spliter (joinFields spliter (field :: more)) = joinFields spliter (field :: more) := by
  cases more with
  | nil =>
      have same := skipSpliter_visible free visible []
      rwa [List.append_nil, ← joinFields_single spliter field] at same
  | cons second more =>
      rw [joinFields_cons]
      exact skipSpliter_visible free visible _

/-- The slots receive the fields without the dropped ones. -/
theorem splitArguments_collapsed {fields : List (List Byte)} (sound : Fields spliter fields) (maxsize : Nat) :
    splitArguments spliter maxsize (joinFields spliter fields) = (collapsed fields).take maxsize := by
  induction maxsize generalizing fields with
  | zero => rw [splitArguments, List.take_zero]
  | succ left ih =>
      cases fields with
      | nil => rfl
      | cons field more =>
          by_cases empty : field = []
          · cases more with
            | nil => exact absurd (congrArg some empty) sound.last
            | cons second more =>
                have skips : skipSpliter spliter (joinFields spliter (field :: second :: more)) =
                    joinFields spliter (second :: more) := by
                  rw [joinFields_cons, empty]
                  exact if_pos rfl
                rw [splitArguments_join sound.behind skips, empty, collapsed, List.take_succ_cons,
                  ih sound.behind.behind]
          · have skips := joinFields_skip (sound.free field (List.mem_cons_self ..)) empty more
            rw [splitArguments_join sound skips, collapsed_visible empty more, List.take_succ_cons, ih sound.behind]

theorem collapsed_append {front : List (List Byte)} (visible : ∀ field ∈ front, field ≠ [])
    (more : List (List Byte)) : collapsed (front ++ more) = front ++ collapsed more := by
  induction front with
  | nil => rfl
  | cons field front ih =>
      obtain ⟨first, others⟩ := List.forall_mem_cons.mp visible
      rw [List.cons_append, collapsed_visible first, ih others, List.cons_append]

/-- Half of a run of empty fields is dropped. -/
theorem collapsed_run {field : List Byte} (visible : field ≠ []) (more : List (List Byte)) (run : Nat) :
    collapsed (List.replicate run [] ++ field :: more) =
      List.replicate (run / 2) [] ++ field :: collapsed more := by
  induction run using Nat.twoStepInduction with
  | zero => exact collapsed_visible visible more
  | one => rfl
  | more run ih _ =>
      rw [List.replicate_succ, List.replicate_succ, List.cons_append, List.cons_append, collapsed, ih,
        show (run + 2) / 2 = run / 2 + 1 by omega, List.replicate_succ, List.cons_append]

/-- The first run of empty fields stands between fields with text. -/
structure EmptyRun (fields front : List (List Byte)) (run : Nat) (field : List Byte)
    (more : List (List Byte)) : Prop where
  shape : fields = front ++ (List.replicate run [] ++ field :: more)
  visible : ∀ other ∈ front, other ≠ []
  text : field ≠ []
  begun : 0 < run
  before : fieldsBeforeEmpty fields = front.length
  length : emptyFieldRun fields = run

theorem emptyRun_of_mem {fields : List (List Byte)} (empty : [] ∈ fields) (last : fields.getLast? ≠ some []) :
    ∃ front run field more, EmptyRun fields front run field more := by
  have split := List.takeWhile_append_dropWhile (p := fun field : List Byte => decide (field ≠ [])) (l := fields)
  have inner := List.takeWhile_append_dropWhile (p := fun field : List Byte => decide (field = []))
    (l := fields.dropWhile (· ≠ []))
  have run : (fields.dropWhile (· ≠ [])).takeWhile (· = []) =
      List.replicate (emptyFieldRun fields) [] :=
    List.eq_replicate_of_mem fun field member => by simpa using List.mem_takeWhile_imp member
  have visible : ∀ other ∈ fields.takeWhile (· ≠ []), other ≠ [] :=
    fun other member => by simpa using List.mem_takeWhile_imp member
  have started : 0 < emptyFieldRun fields := by
    have head := List.head?_dropWhile_not (fun field : List Byte => decide (field ≠ [])) fields
    cases back : fields.dropWhile (· ≠ []) with
    | nil =>
        rw [back, List.append_nil] at split
        rw [← split] at empty
        exact absurd rfl (visible [] empty)
    | cons field more =>
        rw [back, List.head?_cons] at head
        have first : field = [] := by simpa using head
        rw [emptyFieldRun, back, first]
        exact Nat.succ_pos _
  cases back : (fields.dropWhile (· ≠ [])).dropWhile (· = []) with
  | nil =>
      -- The run would reach the last field.
      rw [back, List.append_nil, run] at inner
      rw [← split, ← inner, List.getLast?_append, List.getLast?_replicate, if_neg (by omega)] at last
      exact absurd rfl last
  | cons field more =>
      have head := List.head?_dropWhile_not (fun field : List Byte => decide (field = []))
        (fields.dropWhile (· ≠ []))
      rw [back, List.head?_cons] at head
      refine ⟨fields.takeWhile (· ≠ []), emptyFieldRun fields, field, more, ?_, visible, ?_, started, rfl, rfl⟩
      · rw [← back, ← run, inner, split]
      · simpa using head

/-- The middle of the run of empty fields receives the field behind it. -/
theorem EmptyRun.slots {fields front more : List (List Byte)} {run : Nat} {field : List Byte}
    (shape : EmptyRun fields front run field more) :
    ∃ lead back rest, lead.length = front.length + run / 2 ∧ fields = lead ++ [] :: back ∧
      collapsed fields = lead ++ field :: rest := by
  have halves : List.replicate run ([] : List Byte) =
      List.replicate (run / 2) [] ++ [] :: List.replicate (run - run / 2 - 1) [] := by
    have positive := shape.begun
    rw [← List.replicate_succ, ← List.replicate_add]
    congr 1
    omega
  refine ⟨front ++ List.replicate (run / 2) [], List.replicate (run - run / 2 - 1) [] ++ field :: more,
    collapsed more, ?_, ?_, ?_⟩
  · rw [List.length_append, List.length_replicate]
  · rw [shape.shape, halves]
    simp only [List.append_assoc, List.cons_append]
  · rw [shape.shape, collapsed_append shape.visible, collapsed_run shape.text, List.append_assoc]

/-- Both lists differ behind a common start when the first difference is taken. -/
theorem EmptyRun.differ {fields front more : List (List Byte)} {run : Nat} {field : List Byte}
    (shape : EmptyRun fields front run field more) {maxsize : Nat} (above : front.length + run / 2 < maxsize) :
    ∃ index, index < maxsize ∧ ((collapsed fields).take maxsize)[index]? = some field ∧
      fields[index]? = some [] := by
  obtain ⟨lead, back, rest, length, split, slots⟩ := shape.slots
  refine ⟨lead.length, length ▸ above, ?_, ?_⟩
  · rw [List.getElem?_take_of_lt (length ▸ above), slots, List.getElem?_append_right (Nat.le_refl _),
      Nat.sub_self, List.getElem?_cons_zero]
  · rw [split, List.getElem?_append_right (Nat.le_refl _), Nat.sub_self, List.getElem?_cons_zero]

/-- The slots keep the positions up to the middle of the first run of empty fields. -/
theorem collapsed_take_of_behind {fields : List (List Byte)} (last : fields.getLast? ≠ some []) {maxsize : Nat}
    (behind : EmptyFieldsBehind maxsize fields) : (collapsed fields).take maxsize = fields.take maxsize := by
  by_cases empty : [] ∈ fields
  · obtain ⟨front, run, field, more, shape⟩ := emptyRun_of_mem empty last
    obtain ⟨lead, back, rest, length, split, slots⟩ := shape.slots
    have below := behind.resolve_left (not_not.mpr empty)
    rw [shape.before, shape.length, ← length] at below
    rw [slots, split, List.take_append_of_le_length below, List.take_append_of_le_length below]
  · have same := collapsed_append (fun field member => ne_of_mem_of_not_mem member empty) []
    rw [List.append_nil, collapsed, List.append_nil] at same
    rw [same]

theorem differ_of_not_behind {fields : List (List Byte)} (last : fields.getLast? ≠ some []) {maxsize : Nat}
    (before : ¬EmptyFieldsBehind maxsize fields) :
    ∃ index field, index < maxsize ∧ ((collapsed fields).take maxsize)[index]? = some field ∧ field ≠ [] ∧
      fields[index]? = some [] := by
  rw [EmptyFieldsBehind, not_or, not_not, Nat.not_le] at before
  obtain ⟨front, run, field, more, shape⟩ := emptyRun_of_mem before.1 last
  have above := before.2
  rw [shape.before, shape.length] at above
  obtain ⟨index, inside, slot, missing⟩ := shape.differ above
  exact ⟨index, field, inside, slot, shape.text, missing⟩

/-- The switch of `com_open` takes each parameter from its slot. -/
theorem comOpenPort_slots (dev : List Byte) :
    comOpenPort dev = positionalPort (splitArguments (charByte ',') 5 dev) := by
  rw [comOpenPort]
  generalize splitArguments (charByte ',') 5 dev = arg
  rcases arg with _ | ⟨com, _ | ⟨s, _ | ⟨p, _ | ⟨b, _ | ⟨d, more⟩⟩⟩⟩⟩ <;> rfl

/-- Equal parameters come from equal fields. -/
theorem positionalPort_field {first second : List (List Byte)} (same : positionalPort first = positionalPort second)
    {index : Nat} (inside : index < 5) {one two : List Byte} (left : first[index]? = some one)
    (right : second[index]? = some two) : one = two := by
  obtain ⟨com, s, p, b, d⟩ := ComPort.mk.inj same
  simp only [List.getD_eq_getElem?_getD] at com s p b d
  interval_cases index
  · simpa only [left, right, Option.getD_some] using com
  · simpa only [left, right, Option.getD_some] using s
  · simpa only [left, right, Option.getD_some] using p
  · simpa only [left, right, Option.getD_some] using b
  · simpa only [left, right, Option.getD_some] using d

theorem positionalPort_take (fields : List (List Byte)) :
    positionalPort (fields.take 5) = positionalPort fields := by
  simp [positionalPort, List.getElem?_take_of_lt]

/-- Splitting keeps the positions exactly when the empty fields stand behind the slots, and so does the
serial port. -/
theorem splitArguments_positional_iff (spliter : Byte) (maxsize : Nat) (fields : List (List Byte))
    (free : ∀ field ∈ fields, spliter ∉ field) (short : ∀ field ∈ fields, field.length ≤ 511)
    (last : fields.getLast? ≠ some []) :
    (SplitsPositional spliter maxsize fields ↔ EmptyFieldsBehind maxsize fields) ∧
      (spliter = charByte ',' →
        (comOpenPort (joinFields spliter fields) = positionalPort fields ↔ EmptyFieldsBehind 5 fields)) := by
  have sound : Fields spliter fields := ⟨free, short, last⟩
  constructor
  · constructor
    · intro positional
      by_contra before
      obtain ⟨index, field, inside, slot, text, missing⟩ := differ_of_not_behind last before
      have within := (List.getElem?_eq_some_iff.mp missing).1
      have same := positional.slots index (Nat.lt_min.mpr ⟨within, inside⟩)
      rw [splitArguments_collapsed sound, slot, missing] at same
      exact text (Option.some.inj same)
    · intro behind
      have slots := splitArguments_collapsed sound maxsize
      rw [collapsed_take_of_behind last behind] at slots
      refine ⟨by rw [slots, List.length_take, Nat.min_comm], fun index inside => ?_⟩
      rw [slots, List.getElem?_take_of_lt (Nat.lt_min.mp inside).2]
  · rintro rfl
    rw [comOpenPort_slots, splitArguments_collapsed sound]
    constructor
    · intro same
      by_contra before
      obtain ⟨index, field, inside, slot, text, missing⟩ := differ_of_not_behind last before
      exact text (positionalPort_field same inside slot missing)
    · intro behind
      rw [collapsed_take_of_behind last behind, positionalPort_take]

/-- The empty parity stands behind two slots. -/
theorem splitArguments_positional_port :
    SplitsPositional (charByte ',') 2 [stringBytes "/dev/ttyS1", stringBytes "9600", [], stringBytes "2"] :=
  (splitArguments_positional_iff (charByte ',') 2 [stringBytes "/dev/ttyS1", stringBytes "9600", [], stringBytes "2"]
    (by decide) (by decide) (by decide)).1.mpr (Or.inr (by decide))

/-- The parity is read as the speed when the speed is left empty. -/
theorem splitArguments_shifts :
    ¬SplitsPositional (charByte ',') 5 [stringBytes "/dev/ttyS1", [], stringBytes "E"] ∧
      joinFields (charByte ',') [stringBytes "/dev/ttyS1", [], stringBytes "E"] = stringBytes "/dev/ttyS1,,E" ∧
        (comOpenPort (stringBytes "/dev/ttyS1,,E")).s = stringBytes "E" := by
  refine ⟨fun positional => ?_, by decide, by decide⟩
  have count := positional.count
  revert count
  decide

end Psuart

import Mathlib.Data.List.Basic
import Mathlib.Data.List.Infix

namespace Framing

variable {A B : Type}

/-- The parser takes exactly the encoded messages from the front of a stream. -/
structure Delimits (valid : B → Prop) (encode : B → List A) (parse : List A → Option (B × List A)) : Prop where
  exact : ∀ stream message rest,
    parse stream = some (message, rest) ↔ valid message ∧ stream = encode message ++ rest
  visible : ∀ message, valid message → encode message ≠ []

/-- The receiver takes messages from a stream until none is whole. The number bounds the messages. -/
def split (parse : List A → Option (B × List A)) : Nat → List A → List B × List A
  | 0, stream => ([], stream)
  | left + 1, stream =>
      match parse stream with
      | none => ([], stream)
      | some (message, rest) => (message :: (split parse left rest).1, (split parse left rest).2)

/-- A stream of some length has at most as many messages. -/
def splitAll (parse : List A → Option (B × List A)) (stream : List A) : List B × List A :=
  split parse stream.length stream

variable {valid : B → Prop} {encode : B → List A} {parse : List A → Option (B × List A)}

theorem split_incomplete {stream : List A} (incomplete : parse stream = none) (left : Nat) :
    split parse left stream = ([], stream) := by
  cases left with
  | zero => rfl
  | succ left => rw [split, incomplete]

section Delimits

variable (delimits : Delimits valid encode parse)

include delimits

/-- The front of a message is no message. -/
theorem Delimits.parse_part {message : B} (legal : valid message) {part rest : List A}
    (equal : encode message = part ++ rest) (missing : rest ≠ []) : parse part = none := by
  by_contra found
  obtain ⟨⟨other, back⟩, parsed⟩ := Option.ne_none_iff_exists'.mp found
  obtain ⟨proper, shape⟩ := (delimits.exact _ _ _).mp parsed
  have whole := (delimits.exact (encode message) message []).mpr ⟨legal, (List.append_nil _).symm⟩
  have longer := (delimits.exact (encode message) other (back ++ rest)).mpr
    ⟨proper, by rw [equal, shape, List.append_assoc]⟩
  rw [whole] at longer
  obtain ⟨_, none⟩ := Prod.mk.inj (Option.some.inj longer)
  exact missing (List.append_eq_nil_iff.mp none.symm).2

/-- The receiver finds the messages in front of an incomplete rest. -/
theorem Delimits.split_flatMap {messages : List B} (legal : ∀ message ∈ messages, valid message)
    {rest : List A} (incomplete : parse rest = none) {left : Nat} (enough : messages.length ≤ left) :
    split parse left (messages.flatMap encode ++ rest) = (messages, rest) := by
  induction messages generalizing left with
  | nil => exact split_incomplete incomplete left
  | cons message others ih =>
      obtain ⟨left, rfl⟩ : ∃ count, left = count + 1 := ⟨left - 1, by simp at enough; omega⟩
      have parsed := (delimits.exact _ message (others.flatMap encode ++ rest)).mpr
        ⟨legal message List.mem_cons_self, rfl⟩
      have later := ih (fun other member => legal other (List.mem_cons_of_mem _ member))
        (Nat.le_of_succ_le_succ enough)
      rw [List.flatMap_cons, List.append_assoc, split, parsed]
      simp only [later]

theorem Delimits.length_le {messages : List B} (legal : ∀ message ∈ messages, valid message) :
    messages.length ≤ (messages.flatMap encode).length := by
  induction messages with
  | nil => exact Nat.zero_le _
  | cons message others ih =>
      have some := List.length_pos_iff.mpr (delimits.visible message (legal message List.mem_cons_self))
      have rest := ih fun other member => legal other (List.mem_cons_of_mem _ member)
      simp only [List.flatMap_cons, List.length_append, List.length_cons]
      omega

/-- A part of a stream is some whole messages and the front of the next one. -/
theorem Delimits.cut {messages : List B} (legal : ∀ message ∈ messages, valid message) {arrived : List A}
    (part : arrived <+: messages.flatMap encode) :
    ∃ count rest, arrived = (messages.take count).flatMap encode ++ rest ∧ parse rest = none := by
  have silent : parse [] = none := by
    by_contra found
    obtain ⟨⟨message, back⟩, parsed⟩ := Option.ne_none_iff_exists'.mp found
    obtain ⟨proper, shape⟩ := (delimits.exact _ _ _).mp parsed
    exact delimits.visible message proper (List.append_eq_nil_iff.mp shape.symm).1
  induction messages generalizing arrived with
  | nil =>
      rw [List.flatMap_nil, List.prefix_nil] at part
      exact ⟨0, [], part, silent⟩
  | cons message others ih =>
      rw [List.flatMap_cons] at part
      rcases List.prefix_or_prefix_of_prefix part (List.prefix_append _ _) with ⟨back, equal⟩ | ⟨more, rfl⟩
      · by_cases whole : back = []
        · exact ⟨1, [], by simpa [whole] using equal, silent⟩
        · exact ⟨0, arrived, rfl, delimits.parse_part (legal message List.mem_cons_self) equal.symm whole⟩
      · obtain ⟨count, rest, shape, incomplete⟩ :=
          ih (fun other member => legal other (List.mem_cons_of_mem _ member))
            ((List.prefix_append_right_inj _).mp part)
        refine ⟨count + 1, rest, ?_, incomplete⟩
        rw [List.take_succ_cons, List.flatMap_cons, shape, List.append_assoc]

/-- From every part of a stream the receiver takes exactly the whole messages in it. -/
theorem Delimits.splitAll_part {messages : List B} (legal : ∀ message ∈ messages, valid message)
    {arrived : List A} (part : arrived <+: messages.flatMap encode) :
    ∃ count rest, splitAll parse arrived = (messages.take count, rest) ∧
      arrived = (messages.take count).flatMap encode ++ rest ∧ parse rest = none := by
  obtain ⟨count, rest, shape, incomplete⟩ := delimits.cut legal part
  have front : ∀ message ∈ messages.take count, valid message :=
    fun message member => legal message (List.mem_of_mem_take member)
  refine ⟨count, rest, ?_, shape, incomplete⟩
  have bound := delimits.length_le front
  rw [splitAll, shape]
  apply delimits.split_flatMap front incomplete
  rw [List.length_append]
  omega

end Delimits

end Framing

import Psuart.Spec.IniFile

namespace Psuart

variable {sec key : List Byte}

theorem newline_leftBrace : newline (charByte '[') = false := by decide

theorem isspace_equals : isspace (charByte '=') = false := by decide

theorem endOfString_newline {stop : Byte} (ends : newline stop = true) : endOfString stop = false := by
  revert stop
  decide

theorem isspace_newline {stop : Byte} (ends : newline stop = true) : isspace stop = true := by
  revert stop
  decide

/-- The bytes of a closed text are checked one by one. -/
theorem textBytes_of_all {text : List Byte} (check : text.all (fun c => decide (TextByte c)) = true) :
    ∀ c ∈ text, TextByte c :=
  fun c member => of_decide_eq_true (List.all_eq_true.mp check c member)

/-- A line of any text has no line end and no terminator inside. -/
def LineByte (c : Byte) : Prop := newline c = false ∧ c ≠ 0

/-- A line stops at a line end or at the terminator. -/
def lineStop (c : Byte) : Bool := newline c || endOfString c

theorem TextByte.line {c : Byte} (plain : TextByte c) : LineByte c := ⟨plain.1, plain.2.1⟩

theorem LineByte.visible {c : Byte} (plain : LineByte c) : endOfString c = false := by
  simp only [endOfString, decide_eq_false_iff_not]
  exact Ne.symm plain.2

theorem TextByte.visible {c : Byte} (plain : TextByte c) : endOfString c = false := plain.line.visible

theorem lineStop_newline {stop : Byte} (ends : newline stop = true) : lineStop stop = true := by
  rw [lineStop, ends, Bool.true_or]

theorem lineStop_equals : lineStop (charByte '=') = false := by decide

/-- An entry line is read by the keys that its name begins. -/
theorem entryOf_line {name : List Byte} (free : charByte '=' ∉ name) (named : name ≠ [])
    (comment : name.head? ≠ some (charByte ';')) (value : List Byte) :
    entryOf key (name ++ charByte '=' :: value) =
      if name <+: key then some (name ++ [charByte '='], value) else none := by
  have word : (name ++ charByte '=' :: value).takeWhile (· ≠ charByte '=') = name :=
    Scan.takeWhile_ne_stop free value
  unfold entryOf
  simp only [word]
  rw [List.head?_append_of_ne_nil _ named]
  by_cases begins : name <+: key
  · rw [if_pos begins, if_neg (by simp [comment, named, begins])]
    simp
  · rw [if_neg begins, if_pos (Or.inr (Or.inr (Or.inr begins)))]

/-- A hit is an entry with a key that begins the requested one. -/
theorem entryOf_some {text lead value : List Byte} :
    entryOf key text = some (lead, value) ↔
      ∃ name, lead = name ++ [charByte '='] ∧ text = name ++ charByte '=' :: value ∧
        charByte '=' ∉ name ∧ name ≠ [] ∧ name.head? ≠ some (charByte ';') ∧ name <+: key := by
  constructor
  · intro hit
    unfold entryOf at hit
    dsimp only at hit
    split at hit
    · cases hit
    · rename_i found
      simp only [not_or, not_not] at found
      obtain ⟨comment, some, short, begins⟩ := found
      obtain ⟨rfl, rfl⟩ := Prod.mk.inj (Option.some.inj hit)
      have whole := List.takeWhile_append_dropWhile (p := (· ≠ charByte '=')) (l := text)
      generalize nameEq : text.takeWhile (· ≠ charByte '=') = name at *
      have marker := List.head?_dropWhile_not (· ≠ charByte '=') text
      cases restEq : text.dropWhile (· ≠ charByte '=') with
      | nil =>
          rw [restEq, List.append_nil] at whole
          exact absurd (congrArg List.length whole) short
      | cons c tail =>
          rw [restEq, List.head?_cons] at marker
          have equals : c = charByte '=' := by simpa using marker
          rw [restEq, equals] at whole
          refine ⟨name, rfl, ?_, ?_, some, ?_, begins⟩
          · rw [← whole, List.drop_append, List.drop_of_length_le (by omega)]
            simp
          · intro member
            rw [← nameEq] at member
            exact absurd (List.mem_takeWhile_imp member) (by simp)
          · intro head
            apply comment
            rw [← whole, List.head?_append_of_ne_nil _ some, head]
  · rintro ⟨name, rfl, rfl, free, some, comment, begins⟩
    rw [entryOf_line free some comment, if_pos begins]

/-- A hit splits its text behind the `=`. -/
theorem entryOf_text {text lead value : List Byte} (hit : entryOf key text = some (lead, value)) :
    lead ++ value = text ∧ lead ≠ [] := by
  obtain ⟨name, rfl, rfl, _⟩ := entryOf_some.mp hit
  exact ⟨by simp, by simp⟩

theorem entryOf_nil : entryOf key [] = none := by
  simp [entryOf]

end Psuart

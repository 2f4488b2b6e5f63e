import Psuart.Proof.Ini.Reads

namespace Psuart

variable {sec key buf : List Byte} {loc : Location} {limit : Nat}

theorem cutOpening_cons (opens : Bool) (c : Byte) (rest : List Byte) :
    cutOpening opens (c :: rest) =
      if opens = true ∧ c = charByte '[' then ([], c :: rest)
      else (c :: (cutOpening (newline c) rest).1, (cutOpening (newline c) rest).2) := by
  simp only [cutOpening, Scan.cutAt, decide_eq_true_eq]

/-- A text without a brace at a line start. -/
def NoOpening (opens : Bool) (text : List Byte) : Prop := (cutOpening opens text).2 = []

theorem noOpening_cons {opens : Bool} {c : Byte} {rest : List Byte} :
    NoOpening opens (c :: rest) ↔ ¬(opens = true ∧ c = charByte '[') ∧ NoOpening (newline c) rest := by
  rw [NoOpening, cutOpening_cons]
  split
  · rename_i opening
    exact iff_of_false (List.cons_ne_nil _ _) fun both => both.1 opening
  · rename_i inner
    exact (and_iff_right inner).symm

theorem NoOpening.behind {opens : Bool} {first back : List Byte} {last : Byte}
    (closed : NoOpening opens (first ++ last :: back)) : NoOpening (newline last) back := by
  induction first generalizing opens with
  | nil => exact (noOpening_cons.mp closed).2
  | cons c first ih => exact ih (noOpening_cons.mp closed).2

theorem NoOpening.head {opens : Bool} {text first : List Byte} (closed : NoOpening opens text)
    (begins : first <+: text) : ¬(opens = true ∧ first.head? = some (charByte '[')) := by
  obtain ⟨back, rfl⟩ := begins
  cases first with
  | nil => exact fun both => by cases both.2
  | cons c first => exact fun both => (noOpening_cons.mp closed).1 ⟨both.1, Option.some.inj both.2⟩

theorem cutOpening_append (opens : Bool) (text : List Byte) :
    (cutOpening opens text).1 ++ (cutOpening opens text).2 = text := Scan.cutAt_append _ _ _ _

theorem cutOpening_closed (opens : Bool) (text : List Byte) : NoOpening opens (cutOpening opens text).1 := by
  induction text generalizing opens with
  | nil => rfl
  | cons c rest ih =>
      rw [cutOpening_cons]
      split
      · rfl
      · rename_i inner
        exact noOpening_cons.mpr ⟨inner, ih _⟩

/-- The cut stands at the end of the text or at a brace that opens a line. -/
theorem cutOpening_opens {opens : Bool} {front : List Byte} (start : opens = true → OpensLine front)
    (text : List Byte) :
    (cutOpening opens text).2 = [] ∨
      (cutOpening opens text).2.head? = some (charByte '[') ∧ OpensLine (front ++ (cutOpening opens text).1) := by
  induction text generalizing opens front with
  | nil => exact Or.inl rfl
  | cons c rest ih =>
      rw [cutOpening_cons]
      split
      · rename_i opening
        refine Or.inr ⟨congrArg some opening.2, ?_⟩
        rw [List.append_nil]
        exact start opening.1
      · have later := ih (opensLine_append front c).mpr
        rwa [List.append_assoc, List.singleton_append] at later

/-- Text that opens no section is read and passed. -/
theorem sectionReadsFrom_text {opens : Bool} {front text back : List Byte} (shape : buf = front ++ (text ++ back))
    (visible : 0 ∉ text) (closed : NoOpening opens text) (start : OpensLine front → opens = true)
    (inside : (front ++ text).length ≤ limit) :
    Inside limit (sectionReadsFrom sec key buf front.length) ↔
      Inside limit (sectionReadsFrom sec key buf (front ++ text).length) := by
  induction text generalizing front opens with
  | nil => rw [List.append_nil]
  | cons c rest ih =>
      obtain ⟨inner, further⟩ := noOpening_cons.mp closed
      rw [List.mem_cons, not_or] at visible
      have shown : endOfString c = false := decide_eq_false visible.1
      have before : front.length ≤ limit := by
        rw [List.length_append] at inside
        omega
      rw [List.append_cons] at inside ⊢
      rw [sectionReadsFrom_char (by rw [shape, List.cons_append]) shown
        (fun opening equal => inner ⟨start opening, equal⟩) before]
      exact ih (by rw [shape, List.append_cons, List.cons_append]; simp) visible.2 further
        (opensLine_append front c).mp inside

/-- A text is one line, or its first line ends inside. -/
theorem firstLine_cases (text : List Byte) :
    (∀ c ∈ text, newline c = false) ∨
      ∃ line stop more, text = line ++ stop :: more ∧ (∀ c ∈ line, newline c = false) ∧
        newline stop = true := by
  induction text with
  | nil => exact Or.inl fun c member => absurd member List.not_mem_nil
  | cons first rest ih =>
      cases ends : newline first with
      | true => exact Or.inr ⟨[], first, rest, rfl, fun c member => absurd member List.not_mem_nil, ends⟩
      | false =>
          rcases ih with plain | ⟨line, stop, more, split, plain, closing⟩
          · exact Or.inl (List.forall_mem_cons.mpr ⟨ends, plain⟩)
          · refine Or.inr ⟨first :: line, stop, more, by rw [split, List.cons_append], ?_, closing⟩
            exact List.forall_mem_cons.mpr ⟨ends, plain⟩

theorem hasEntry_line {text : List Byte} (plain : ∀ c ∈ text, newline c = false) :
    HasEntry key text ↔ entryOf key text ≠ none := by
  rw [HasEntry, List.splitOnP_eq_singleton plain]
  simp

theorem hasEntry_more {line more : List Byte} {stop : Byte} (plain : ∀ c ∈ line, newline c = false)
    (ends : newline stop = true) :
    HasEntry key (line ++ stop :: more) ↔ entryOf key line ≠ none ∨ HasEntry key more := by
  rw [HasEntry, List.splitOnP_append_cons_of_forall_mem plain stop ends]
  simp [HasEntry]

/-- The last line of a text is empty. -/
def LastEnded (text : List Byte) : Prop := ∀ last ∈ text.getLast?, newline last = true

theorem lastEnded_more {line more : List Byte} {stop : Byte} (ends : newline stop = true) :
    LastEnded (line ++ stop :: more) ↔ LastEnded more := by
  rw [LastEnded, List.getLast?_append_cons]
  cases more with
  | nil =>
      refine iff_of_true ?_ fun last member => by cases member
      intro last member
      rwa [← Option.some.inj member]
  | cons c rest => rw [List.getLast?_cons_cons, LastEnded]

/-- The loop over the lines of a text finds an entry, ends behind the text, or runs over its end. -/
inductive LinesEnd (key text : List Byte) (place : Nat) : Nat × Bool → Prop
  | found {i : Nat} (entry : HasEntry key text) (inside : i ≤ place) : LinesEnd key text place (i, true)
  | ended (absent : ¬HasEntry key text) (last : LastEnded text) : LinesEnd key text place (place, false)
  | overruns {i : Nat} {found : Bool} (absent : ¬HasEntry key text) (last : ¬LastEnded text) (beyond : place < i) :
      LinesEnd key text place (i, found)

theorem LinesEnd.more {line more : List Byte} {stop : Byte} {place : Nat} {result : Nat × Bool}
    (plain : ∀ c ∈ line, newline c = false) (ends : newline stop = true) (miss : entryOf key line = none)
    (later : LinesEnd key more place result) : LinesEnd key (line ++ stop :: more) place result := by
  have entry : HasEntry key (line ++ stop :: more) ↔ HasEntry key more := by
    rw [hasEntry_more plain ends, or_iff_right (not_not.mpr miss)]
  cases later with
  | found present inside => exact .found (entry.mpr present) inside
  | ended absent last => exact .ended (mt entry.mp absent) ((lastEnded_more ends).mpr last)
  | overruns absent last beyond => exact .overruns (mt entry.mp absent) (mt (lastEnded_more ends).mp last) beyond

/-- The text ends at the terminator, or at a brace that opens a line. -/
def EndsText (front back : List Byte) : Prop :=
  endOfString (back.headD 0) = true ∨ back.head? = some (charByte '[') ∧ OpensLine front

/-- A visible text without a line end lies at the terminator. -/
theorem EndsText.terminated {front text back : List Byte} (behind : EndsText (front ++ text) back)
    (filled : text ≠ []) (plain : ∀ c ∈ text, newline c = false) : endOfString (back.headD 0) = true := by
  rcases behind with ends | ⟨_, opens⟩
  · exact ends
  · rcases List.eq_nil_or_concat' text with empty | ⟨body, last, rfl⟩
    · exact absurd empty filled
    · have inner := plain last (List.mem_append_right _ (List.mem_singleton_self _))
      rw [← List.append_assoc, opensLine_append, inner] at opens
      cases opens

section Lines

variable {front text back : List Byte} {last : Byte}

/-- The loop over the lines ends at the end of its text. -/
theorem linesFrom_empty (shape : buf = front ++ [last] ++ back) (behind : EndsText (front ++ [last]) back) :
    linesFrom key buf (front ++ [last]).length loc = (loc, (front ++ [last]).length, false) := by
  rcases behind with ends | ⟨brace, opens⟩
  · exact parseLines_end _ (by rwa [bufAt_front shape])
  · obtain ⟨rest, rfl⟩ := List.head?_eq_some_iff.mp brace
    exact linesFrom_brace shape opens (List.append_ne_nil_of_right_ne_nil _ (List.cons_ne_nil _ _))

/-- No line of a section is taken for the start of another one. -/
theorem NoOpening.line {first : List Byte} (closed : NoOpening (newline last) text) (begins : first <+: text)
    (shape : buf = front ++ [last] ++ back) :
    ¬(newline (bufAt buf ((front ++ [last]).length - 1)) = true ∧ first.head? = some (charByte '[')) := by
  rw [bufAt_last (by rw [shape, List.append_assoc, List.singleton_append])]
  exact closed.head begins

/-- The loop over the lines of a text without a line end. -/
theorem linesFrom_last (shape : buf = front ++ [last] ++ (text ++ back)) (visible : 0 ∉ text)
    (closed : NoOpening (newline last) text) (behind : EndsText (front ++ [last] ++ text) back)
    (plain : ∀ c ∈ text, newline c = false) (loc : Location) :
    LinesEnd key text (front ++ [last] ++ text).length (linesFrom key buf (front ++ [last]).length loc).2 := by
  have entry : HasEntry key text ↔ entryOf key text ≠ none := hasEntry_line plain
  have body := closed.line List.prefix_rfl shape
  have line : ∀ c ∈ text, LineByte c := fun c member => ⟨plain c member, fun zero => visible (zero ▸ member)⟩
  cases text with
  | nil =>
      rw [List.append_nil] at behind ⊢
      rw [linesFrom_empty shape behind]
      exact .ended (by rw [entry, entryOf_nil]; exact not_not.mpr rfl) fun last member => by cases member
  | cons c rest =>
      have ends : lineStop (back.headD 0) = true := by
        rw [lineStop, behind.terminated (List.cons_ne_nil c rest) plain, Bool.or_true]
      cases hit : entryOf key (c :: rest) with
      | some found =>
          rw [linesFrom_hit shape line ends body loc (show _ = some (found.1, found.2) from hit)]
          exact .found (entry.mpr (by rw [hit]; exact Option.some_ne_none found)) (Nat.le_refl _)
      | none =>
          have shown : endOfString ((c :: rest ++ back).headD 0) = false := (line c (List.mem_cons_self ..)).visible
          rw [linesFrom_pass shape line ends shown body loc hit]
          refine .overruns (by rw [entry, hit]; exact not_not.mpr rfl) (fun ended => ?_) (parseLines_ge _ _)
          have final := ended _ (List.getLast?_eq_some_getLast (List.cons_ne_nil c rest))
          rw [plain _ (List.getLast_mem _)] at final
          cases final

end Lines

/-- The loop over the lines of a section. -/
theorem linesFrom_text {front text back : List Byte} {last : Byte}
    (shape : buf = front ++ [last] ++ (text ++ back)) (visible : 0 ∉ text) (closed : NoOpening (newline last) text)
    (behind : EndsText (front ++ [last] ++ text) back) (loc : Location) :
    LinesEnd key text (front ++ [last] ++ text).length (linesFrom key buf (front ++ [last]).length loc).2 := by
  induction length : text.length using Nat.strong_induction_on generalizing front text last with
  | _ length ih =>
      rcases firstLine_cases text with plain | ⟨line, stop, more, rfl, plain, ends⟩
      · exact linesFrom_last shape visible closed behind plain loc
      · have first : buf = front ++ [last] ++ (line ++ stop :: (more ++ back)) := by
          rw [shape, List.append_assoc line, List.cons_append]
        have whole : front ++ [last] ++ (line ++ stop :: more) = front ++ [last] ++ line ++ [stop] ++ more := by simp
        have body := closed.line (List.prefix_append line _) shape
        rw [List.mem_append, List.mem_cons, not_or, not_or] at visible
        have bytes : ∀ c ∈ line, LineByte c :=
          fun c member => ⟨plain c member, fun zero => visible.1 (zero ▸ member)⟩
        cases hit : entryOf key line with
        | some found =>
            rw [linesFrom_hit first bytes (lineStop_newline ends) body loc (show _ = some (found.1, found.2) from hit)]
            refine .found ((hasEntry_more plain ends).mpr (Or.inl (by rw [hit]; exact Option.some_ne_none found))) ?_
            simp
        | none =>
            rw [whole] at behind ⊢
            rw [linesFrom_miss first bytes ends body loc hit]
            refine LinesEnd.more plain ends hit (ih more.length ?_ ?_ visible.2.2 closed.behind behind rfl)
            · rw [← length, List.length_append, List.length_cons]
              omega
            · rw [shape, ← List.append_assoc, whole, List.append_assoc]

/-- The white space of a section and its brace end in front of its lines. -/
theorem section_start {body : List Byte} (closed : NoOpening false body) :
    ∃ blank last, charByte ']' :: body.takeWhile isspace = blank ++ [last] ∧
      NoOpening (newline last) (body.dropWhile isspace) := by
  have whole := List.takeWhile_append_dropWhile (p := isspace) (l := body)
  rcases List.eq_nil_or_concat' (body.takeWhile isspace) with empty | ⟨blank, last, split⟩
  · rw [empty, List.nil_append] at whole
    exact ⟨[], charByte ']', by rw [empty]; rfl, by rwa [whole]⟩
  · rw [split, List.append_assoc, List.singleton_append] at whole
    rw [← whole] at closed
    exact ⟨charByte ']' :: blank, last, by rw [split]; rfl, closed.behind⟩

theorem EndsText.visible {front back : List Byte} (behind : EndsText front back) : isspace (back.headD 0) = false := by
  rcases behind with ends | ⟨brace, _⟩
  · rw [(of_decide_eq_true ends).symm]
    rfl
  · obtain ⟨rest, rfl⟩ := List.head?_eq_some_iff.mp brace
    rfl

/-- The lines of a section start behind its white space. -/
theorem enterSection_text {front body back : List Byte} (shape : buf = front ++ charByte ']' :: (body ++ back))
    (visible : 0 ∉ body) (closed : NoOpening false body) (behind : EndsText (front ++ charByte ']' :: body) back)
    (sectionStart : Nat) (loc : Location) :
    LinesEnd key (body.dropWhile isspace) (front ++ charByte ']' :: body).length
      (enterSection key buf sectionStart front.length loc).2 := by
  have whole := List.takeWhile_append_dropWhile (p := isspace) (l := body)
  obtain ⟨blank, last, start, lines⟩ := section_start closed
  have outside : isspace ((body.dropWhile isspace ++ back).headD 0) = false := by
    have first := List.head?_dropWhile_not isspace body
    cases rest : body.dropWhile isspace with
    | nil => exact behind.visible
    | cons c more =>
        rw [rest] at first
        exact first
  have prefixed : front ++ blank ++ [last] = front ++ [charByte ']'] ++ body.takeWhile isspace := by
    rw [List.append_assoc, ← start, List.append_cons, List.append_assoc]
  have all : front ++ blank ++ [last] ++ body.dropWhile isspace = front ++ charByte ']' :: body := by
    rw [prefixed, List.append_assoc, whole, List.append_assoc, List.singleton_append]
  have split : buf = front ++ blank ++ [last] ++ (body.dropWhile isspace ++ back) := by
    rw [← List.append_assoc, all, shape, List.append_assoc, List.cons_append]
  have scanned : Scan.scanWhile isspace buf (front.length + 1) = (front ++ blank ++ [last]).length := by
    have between := Scan.scanWhile_between 0 (front ++ [charByte ']'])
      (fun c (member : c ∈ body.takeWhile isspace) => List.mem_takeWhile_imp member) outside
    rwa [← prefixed, ← List.append_assoc, ← prefixed, ← split, List.length_append,
      List.length_singleton] at between
  have subset : 0 ∉ body.dropWhile isspace := fun member => visible (List.dropWhile_subset _ member)
  have ended : LinesEnd key _ _ _ := linesFrom_text split subset lines (by rwa [all])
    { loc with secS := sectionStart, secE := Scan.scanWhile isspace buf (front.length + 1) }
  rw [all] at ended
  rw [enterSection, scanned]
  rwa [scanned] at ended

/-- A section is ended when its lines are. -/
theorem ended_iff (name body : List Byte) :
    (IniSection.mk name body).Ended ↔ LastEnded (body.dropWhile isspace) := by
  have whole := List.takeWhile_append_dropWhile (p := isspace) (l := body)
  have blank : body.all isspace = true ↔ body.dropWhile isspace = [] := by
    rw [List.all_eq_true, List.dropWhile_eq_nil_iff]
  rw [IniSection.Ended, blank]
  by_cases empty : body.dropWhile isspace = []
  · refine iff_of_true (Or.inl empty) ?_
    rw [empty]
    exact fun last member => by cases member
  · have final : body.getLast? = (body.dropWhile isspace).getLast? := by
      conv_lhs => rw [← whole]
      exact List.getLast?_append_of_ne_nil _ empty
    rw [or_iff_right empty, final, LastEnded, List.getLast?_eq_some_getLast empty]
    simp

/-- A section in front of another one is ended. -/
theorem OpensLine.ended {front body : List Byte} {name : List Byte} (opens : OpensLine (front ++ body)) :
    (IniSection.mk name body).Ended := by
  rcases List.eq_nil_or_concat' body with rfl | ⟨first, last, rfl⟩
  · exact Or.inl rfl
  · rw [← List.append_assoc, opensLine_append] at opens
    exact Or.inr ⟨last, List.getLast?_concat, opens⟩

/-- The name of a section stands in front of its first closing brace. -/
theorem cutName_split {rest : List Byte} (closes : charByte ']' ∈ rest) :
    rest = (cutName rest).1 ++ charByte ']' :: (cutName rest).2 ∧ charByte ']' ∉ (cutName rest).1 := by
  obtain ⟨name, behind, rfl, absent⟩ := List.eq_append_cons_of_mem closes
  have inside : ∀ c ∈ name, decide (c ≠ charByte ']') = true := fun c member =>
    decide_eq_true fun equal => absent (equal ▸ member)
  have first : cutName (name ++ charByte ']' :: behind) = (name, behind) := by
    rw [cutName, Scan.takeWhile_stop inside (by simp), List.dropWhile_append_of_pos inside,
      List.dropWhile_cons_of_neg (by simp), List.tail_cons]
  rw [first]
  exact ⟨rfl, absent⟩

section Closed

variable {front name body more past : List Byte}
  (shape : buf = front ++ charByte '[' :: (name ++ charByte ']' :: (body ++ (more ++ past))))
  (visible : 0 ∉ name ++ body) (closed : charByte ']' ∉ name) (inner : NoOpening false body)
  (opens : OpensLine front)
  (behind : EndsText (front ++ charByte '[' :: name ++ charByte ']' :: body) (more ++ past))
  (terminated : endOfString (bufAt buf limit) = true)
  (inside : (front ++ charByte '[' :: name ++ charByte ']' :: body).length ≤ limit)

include shape visible closed inner opens behind terminated inside

/-- A closed section is left when it holds the key, or when it is passed to its end. -/
theorem sectionReadsFrom_closed (final : ¬(IniSection.mk name body).Ended →
      limit = (front ++ charByte '[' :: name ++ charByte ']' :: body).length) :
    Inside limit (sectionReadsFrom sec key buf front.length) ↔
      name <+: sec ∧ (IniSection.mk name body).HoldsKey key ∨
        (name <+: sec → (IniSection.mk name body).Ended) ∧
          Inside limit (sectionReadsFrom sec key buf
            (front ++ charByte '[' :: name ++ charByte ']' :: body).length) := by
  rw [List.mem_append, not_or] at visible
  have brace : buf = front ++ charByte '[' :: name ++ charByte ']' :: (body ++ (more ++ past)) := by
    rw [shape, List.append_assoc, List.cons_append]
  have before : (front ++ charByte '[' :: name).length ≤ limit := by
    rw [List.length_append] at inside
    omega
  rw [sectionReadsFrom_header shape visible.1 closed rfl opens before]
  by_cases begins : name <+: sec
  · rw [if_pos begins, enterSectionReads_inside terminated (front.length + 1) {} before]
    have ended : LinesEnd key _ _ _ := enterSection_text brace visible.2 inner behind (front.length + 1) {}
    generalize (enterSection key buf (front.length + 1) (front ++ charByte '[' :: name).length {}).2 = result
      at ended ⊢
    cases ended with
    | found entry inner =>
        refine iff_of_true ⟨Nat.le_trans inner inside, fun none => by cases none⟩ (Or.inl ⟨begins, entry⟩)
    | ended absent last =>
        rw [and_iff_right inside, imp_iff_right rfl, or_iff_right (fun both => absent both.2),
          and_iff_right fun _ => (ended_iff name body).mpr last]
    | overruns absent last beyond =>
        have unended := mt (ended_iff name body).mp last
        refine iff_of_false (fun both => ?_) ?_
        · have := both.1
          have := final unended
          omega
        · rintro (both | both)
          · exact absent both.2
          · exact unended (both.1 begins)
  · have text : NoOpening true (charByte ']' :: body) := noOpening_cons.mpr ⟨by decide, inner⟩
    have hidden : 0 ∉ charByte ']' :: body := by
      rw [List.mem_cons, not_or]
      exact ⟨by decide, visible.2⟩
    rw [if_neg begins, or_iff_right fun both => begins both.1, and_iff_right fun both => absurd both begins]
    have passed : buf = front ++ charByte '[' :: name ++ (charByte ']' :: body ++ (more ++ past)) := by
      rw [brace, List.cons_append]
    exact sectionReadsFrom_text passed hidden text (fun _ => rfl) inside

end Closed

section Unclosed

variable {front name past : List Byte} (shape : buf = front ++ charByte '[' :: (name ++ past)) (visible : 0 ∉ name)
  (closed : charByte ']' ∉ name) (opens : OpensLine front) (ends : endOfString (past.headD 0) = true)
include shape visible closed opens ends

/-- A brace without a closing one is passed when its text does not begin the section. -/
theorem sectionReadsFrom_unclosed :
    Inside (front ++ charByte '[' :: name).length (sectionReadsFrom sec key buf front.length) ↔ ¬name <+: sec := by
  have whole : buf = front ++ charByte '[' :: name ++ past := by rw [shape, List.append_assoc, List.cons_append]
  have terminated : endOfString (bufAt buf (front ++ charByte '[' :: name).length) = true := by rwa [bufAt_front whole]
  have closing : (isRightBrace (past.headD 0) || endOfString (past.headD 0)) = true := by rw [ends, Bool.or_true]
  rw [sectionReadsFrom_header shape visible closed closing opens (Nat.le_refl _)]
  by_cases begins : name <+: sec
  · rw [if_pos begins, enterSectionReads_inside terminated (front.length + 1) {} (Nat.le_refl _)]
    refine iff_of_false (fun both => ?_) (not_not.mpr begins)
    exact Nat.not_le_of_lt (enterSection_ge _ _) both.1
  · rw [if_neg begins, sectionReadsFrom_end terminated]
    exact iff_of_true (Nat.le_refl _) begins

end Unclosed

/-- Only the last section of a text has a last line without a line end. -/
theorem leavesSections_cons {entered : IniSection} {sections : List IniSection} {unclosed : Option (List Byte)}
    (final : ¬entered.Ended → sections = []) :
    LeavesSections sec key (entered :: sections, unclosed) ↔
      entered.name <+: sec ∧ entered.HoldsKey key ∨
        (entered.name <+: sec → entered.Ended) ∧ LeavesSections sec key (sections, unclosed) := by
  by_cases ended : entered.Ended
  · simp only [LeavesSections, List.mem_cons, exists_eq_or_imp, forall_eq_or_imp, ended, implies_true, true_and,
      or_assoc]
  · by_cases begins : entered.name <+: sec
    · simp [LeavesSections, ended, begins, final ended]
    · simp [LeavesSections, ended, begins]

/-- The sections of a text are left inside of it exactly when they meet the condition. -/
theorem sectionReadsFrom_sections {front text past : List Byte} (shape : buf = front ++ (text ++ past))
    (visible : 0 ∉ text) (ends : endOfString (past.headD 0) = true)
    (opens : text = [] ∨ text.head? = some (charByte '[') ∧ OpensLine front) :
    Inside (front ++ text).length (sectionReadsFrom sec key buf front.length) ↔
      LeavesSections sec key (sectionsOf text) := by
  induction text using sectionsOf.induct generalizing front with
  | case1 =>
      rw [List.nil_append] at shape
      rw [sectionReadsFrom_end (by rwa [bufAt_front shape]), List.append_nil, sectionsOf]
      exact iff_of_true (Nat.le_refl _) (by simp [LeavesSections])
  | case2 brace rest closes ih =>
      obtain ⟨first, start⟩ := opens.resolve_left (List.cons_ne_nil _ _)
      obtain rfl : brace = charByte '[' := Option.some.inj first
      obtain ⟨split, closed⟩ := cutName_split closes
      have cut := cutOpening_append false (cutName rest).2
      have inner := cutOpening_closed false (cutName rest).2
      have next : _ ∨ _ ∧ OpensLine (front ++ charByte '[' :: (cutName rest).1 ++ [charByte ']'] ++ _) :=
        cutOpening_opens (fun absurd : false = true => by cases absurd) (cutName rest).2
      rw [sectionsOf, if_pos closes]
      generalize (cutName rest).1 = name at *
      generalize cutOpening false (cutName rest).2 = parts at *
      obtain ⟨body, more⟩ := parts
      generalize (cutName rest).2 = behind at *
      subst split
      subst cut
      have place : front ++ charByte '[' :: name ++ [charByte ']'] ++ body =
          front ++ charByte '[' :: name ++ charByte ']' :: body := by
        rw [List.append_assoc _ [charByte ']'], List.singleton_append]
      have whole : front ++ charByte '[' :: (name ++ charByte ']' :: (body ++ more)) =
          front ++ charByte '[' :: name ++ charByte ']' :: body ++ more := by simp
      have here : buf = front ++ charByte '[' :: (name ++ charByte ']' :: (body ++ (more ++ past))) := by
        rw [shape]
        simp
      have further : buf = front ++ charByte '[' :: name ++ charByte ']' :: body ++ (more ++ past) := by
        rw [here]
        simp
      simp only [List.mem_cons, List.mem_append, not_or] at visible
      obtain ⟨_, nameVisible, _, bodyVisible, moreVisible⟩ := visible
      have final : ¬(IniSection.mk name body).Ended → more = [] := fun unended =>
        next.resolve_right fun both => unended both.2.ended
      rw [place] at next
      have behind : EndsText (front ++ charByte '[' :: name ++ charByte ']' :: body) (more ++ past) := by
        rcases next with empty | ⟨head, opening⟩
        · exact Or.inl (by rwa [show more = [] from empty, List.nil_append])
        · exact Or.inr ⟨by rw [List.head?_append_of_ne_nil _ (by rintro rfl; cases head)]; exact head, opening⟩
      have terminated : endOfString (bufAt buf
          (front ++ charByte '[' :: name ++ charByte ']' :: body ++ more).length) = true := by
        rwa [bufAt_front (further.trans (List.append_assoc _ more past).symm)]
      have plain : 0 ∉ name ++ body := by
        rw [List.mem_append, not_or]
        exact ⟨nameVisible, bodyVisible⟩
      have later := ih further moreVisible next
      rw [whole, sectionReadsFrom_closed here plain closed inner start behind terminated
        (by simp) (fun unended => by rw [final unended, List.append_nil]), later,
        leavesSections_cons fun unended => by rw [final unended, sectionsOf]]
  | case3 brace rest unclosed =>
      obtain ⟨first, start⟩ := opens.resolve_left (List.cons_ne_nil _ _)
      obtain rfl : brace = charByte '[' := Option.some.inj first
      rw [sectionsOf, if_neg unclosed,
        sectionReadsFrom_unclosed shape (List.not_mem_of_not_mem_cons visible) unclosed start ends]
      simp [LeavesSections]

end Psuart

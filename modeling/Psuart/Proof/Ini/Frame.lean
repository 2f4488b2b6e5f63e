import Psuart.Proof.Ini.ReadAfterWrite

namespace Psuart

variable {sec key value askedSec askedKey : List Byte} {lines : List IniLine}

/-- A read of a section and a key meets the entry that a write stores. -/
inductive Reaches (sec key askedSec askedKey : List Byte) (lines : List IniLine) : Prop
  | appended (nowhere : insertion sec lines = none) (opens : sec <+: askedSec) (begins : key <+: askedKey)
      (earlier : locate askedSec askedKey .outside lines = none)
  | inserted {front : List IniLine} {line : IniLine} {back : List IniLine}
      (split : lines = front ++ line :: back) (opened : line.content.opens sec = true)
      (last : ∀ other ∈ back, other.content.opens sec = false)
      (absent : locate sec key .outside lines = none) (opens : line.content.opens askedSec = true)
      (begins : key <+: askedKey) (earlier : locate askedSec askedKey .outside front = none)
  | replaced {front : List IniLine} {line : IniLine} {back : List IniLine} {lead old : List Byte}
      (split : lines = front ++ line :: back) (absent : locate sec key .outside front = none)
      (hit : line.content.hit key (readAll sec .outside front) = some (lead, old))
      (earlier : locate askedSec askedKey .outside front = none)
      (meets : line.content.hit askedKey (readAll askedSec .outside front) = some (lead, old))

/-- The rest behind a new entry holds no format directive and keeps its first line. -/
def KeepsRest (sec key : List Byte) (lines : List IniLine) : Prop :=
  ∀ before after, locate sec key .outside lines = none → insertion sec lines = some (before, after) →
    charByte '%' ∉ after ∧ (after.head? = some (charByte '[') → OpensLine before)

theorem valueOf_append (mode : Reading) (first second : List IniLine) :
    valueOf sec key mode (first ++ second) =
      (valueOf sec key mode first).or (valueOf sec key (readAll sec mode first) second) := by
  rw [valueOf, locate_append, valueOf, valueOf]
  cases locate sec key mode first with
  | some found => rfl
  | none =>
      rw [Option.map_none, Option.none_or, Option.map_map]
      rfl

theorem valueOf_cons (mode : Reading) (line : IniLine) (rest : List IniLine) :
    valueOf sec key mode (line :: rest) =
      ((line.content.hit key mode).map Prod.snd).or
        (valueOf sec key (line.content.next sec mode) rest) := by
  rw [valueOf, locate]
  cases line.content.hit key mode with
  | some entry => rfl
  | none =>
      rw [Option.map_none, Option.none_or, Option.map_map]
      rfl

theorem valueOf_none {mode : Reading} :
    valueOf sec key mode lines = none ↔ locate sec key mode lines = none := Option.map_eq_none_iff

theorem valueOf_absent {mode : Reading} (absent : locate sec key mode lines = none) :
    valueOf sec key mode lines = none := valueOf_none.mpr absent

/-- Two lines that split one list are the same, or one stands behind the other. -/
theorem split_cases {A : Type} {front back other rest : List A} {line last : A}
    (equal : front ++ line :: back = other ++ last :: rest) :
    (front = other ∧ line = last ∧ back = rest) ∨
      (∃ between, other = front ++ line :: between ∧ back = between ++ last :: rest) ∨
      ∃ between, front = other ++ last :: between ∧ rest = between ++ line :: back := by
  rcases List.append_eq_append_iff.mp equal with ⟨between, rfl, tail⟩ | ⟨between, rfl, tail⟩
  · cases between with
    | nil =>
        obtain ⟨rfl, rfl⟩ := List.cons.inj tail
        exact Or.inl ⟨(List.append_nil _).symm, rfl, rfl⟩
    | cons _ between =>
        obtain ⟨rfl, rfl⟩ := List.cons.inj tail
        exact Or.inr (Or.inl ⟨between, rfl, rfl⟩)
  · cases between with
    | nil =>
        obtain ⟨rfl, rfl⟩ := List.cons.inj tail
        exact Or.inl ⟨List.append_nil _, rfl, rfl⟩
    | cons _ between =>
        obtain ⟨rfl, rfl⟩ := List.cons.inj tail
        exact Or.inr (Or.inr ⟨between, rfl, rfl⟩)

/-- The last header that matches splits a file in one way. -/
theorem last_unique {front back other rest : List IniLine} {line last : IniLine}
    (equal : front ++ line :: back = other ++ last :: rest) (opened : line.content.opens sec = true)
    (closed : ∀ line ∈ back, line.content.opens sec = false) (opens : last.content.opens sec = true)
    (ends : ∀ line ∈ rest, line.content.opens sec = false) : front = other ∧ line = last ∧ back = rest := by
  rcases split_cases equal with same | ⟨between, _, rfl⟩ | ⟨between, _, rfl⟩
  · exact same
  · rw [closed last (by simp)] at opens
    cases opens
  · rw [ends line (by simp)] at opened
    cases opened

/-- The first entry that matches splits a file in one way. -/
theorem first_unique {mode : Reading} {front back other rest : List IniLine} {line last : IniLine}
    {entry found : List Byte × List Byte} (equal : front ++ line :: back = other ++ last :: rest)
    (absent : locate sec key mode front = none)
    (hit : line.content.hit key (readAll sec mode front) = some entry)
    (nothing : locate sec key mode other = none)
    (meets : last.content.hit key (readAll sec mode other) = some found) :
    front = other ∧ line = last ∧ back = rest := by
  rcases split_cases equal with same | ⟨between, rfl, _⟩ | ⟨between, rfl, _⟩
  · exact same
  · rw [locate_hit absent hit] at nothing
    cases nothing
  · rw [locate_hit nothing meets] at absent
    cases absent

section Paths

variable {front back : List IniLine} {line : IniLine}

/-- A new section is reached by the reads that find no earlier entry. -/
theorem reaches_appended (nowhere : insertion sec lines = none) :
    Reaches sec key askedSec askedKey lines ↔
      (sec <+: askedSec ∧ key <+: askedKey) ∧ locate askedSec askedKey .outside lines = none := by
  constructor
  · rintro (⟨_, opens, begins, earlier⟩ | ⟨split, opened⟩ | ⟨split, absent, hit⟩)
    · exact ⟨⟨opens, begins⟩, earlier⟩
    · rw [insertion_none.mp nowhere _ (by simp [split])] at opened
      cases opened
    · have located := locate_nowhere key nowhere
      rw [split, locate_hit absent hit] at located
      cases located
  · rintro ⟨⟨opens, begins⟩, earlier⟩
    exact .appended nowhere opens begins earlier

/-- A new entry is reached by the reads that its header opens. -/
theorem reaches_inserted (split : lines = front ++ line :: back)
    (located : locate sec key .outside lines = none) (opened : line.content.opens sec = true)
    (last : ∀ other ∈ back, other.content.opens sec = false) :
    Reaches sec key askedSec askedKey lines ↔
      (line.content.opens askedSec = true ∧ key <+: askedKey) ∧
        locate askedSec askedKey .outside front = none := by
  constructor
  · rintro (⟨nowhere, _⟩ | ⟨same, opens, ends, _, inner, begins, earlier⟩ | ⟨same, absent, hit, _⟩)
    · rw [insertion_none.mp nowhere line (by simp [split])] at opened
      cases opened
    · obtain ⟨rfl, rfl, rfl⟩ := last_unique (split.symm.trans same) opened last opens ends
      exact ⟨⟨inner, begins⟩, earlier⟩
    · rw [same, locate_hit absent hit] at located
      cases located
  · rintro ⟨⟨opens, begins⟩, earlier⟩
    exact .inserted split opened last located opens begins earlier

/-- A replaced entry is reached by the reads that meet it first. -/
theorem reaches_replaced {lead old : List Byte} (split : lines = front ++ line :: back)
    (absent : locate sec key .outside front = none)
    (hit : line.content.hit key (readAll sec .outside front) = some (lead, old)) :
    Reaches sec key askedSec askedKey lines ↔
      locate askedSec askedKey .outside front = none ∧
        line.content.hit askedKey (readAll askedSec .outside front) = some (lead, old) := by
  have located : locate sec key .outside lines ≠ none := by
    rw [split, locate_hit absent hit]
    exact Option.some_ne_none _
  constructor
  · rintro (⟨nowhere, _⟩ | ⟨_, _, _, nothing, _⟩ | ⟨same, nothing, meets, earlier, asked⟩)
    · exact absurd (locate_nowhere key nowhere) located
    · exact absurd nothing located
    · obtain ⟨rfl, rfl, rfl⟩ := first_unique (split.symm.trans same) absent hit nothing meets
      rw [hit] at meets
      obtain ⟨rfl, rfl⟩ := Prod.mk.inj (Option.some.inj meets)
      exact ⟨earlier, asked⟩
  · rintro ⟨earlier, asked⟩
    exact .replaced split absent hit earlier asked

end Paths

section Entry

variable {blank : List Byte} (white : ∀ c ∈ blank, isspace c = true ∧ TextByte c) (keyed : KeyName key)
  (plain : ∀ c ∈ value, TextByte c)

/-- A fresh section gives the value of an entry line to the keys that its name begins. -/
theorem entryLineOf_value :
    ((entryLineOf blank white keyed plain).content.hit askedKey .fresh).map Prod.snd =
      if key <+: askedKey then some value else none := by
  have shape := keyed.shape fun c member => (white c member).1
  obtain ⟨_, rest⟩ := shape.split value
  rw [entryLineOf, IniContent.hit, rest, entryOf_line shape.free shape.named shape.comment]
  split <;> rfl

theorem entryLineOf_next :
    (entryLineOf blank white keyed plain).content.next sec .fresh = .inside := by
  rw [entryLineOf, IniContent.next, if_neg]
  simp [isspace_equals]

/-- An entry line in a fresh section is read, or the section goes on behind it. -/
theorem valueOf_entry (rest : List IniLine) :
    valueOf askedSec askedKey .fresh (entryLineOf blank white keyed plain :: rest) =
      if key <+: askedKey then some value else valueOf askedSec askedKey .inside rest := by
  rw [valueOf_cons, entryLineOf_value, entryLineOf_next]
  split <;> rfl

/-- An entry line in another section is passed. -/
theorem valueOf_entry_outside (rest : List IniLine) :
    valueOf askedSec askedKey .outside (entryLineOf blank white keyed plain :: rest) =
      valueOf askedSec askedKey .outside rest := by
  rw [valueOf_cons, hit_outside]
  rfl

end Entry

/-- A reader passes a header into its section or outside. -/
theorem valueOf_header {line : IniLine} {name : List Byte} (header : line.content = .header name)
    (mode : Reading) (rest : List IniLine) :
    valueOf sec key mode (line :: rest) =
      valueOf sec key (if name <+: sec then .fresh else .outside) rest := by
  rw [valueOf_cons, header]
  rfl

/-- The new lines give the written value to the reads that reach it and keep every other read. -/
structure Frames (sec key value : List Byte) (lines written : List IniLine) : Prop where
  reached : ∀ {askedSec askedKey : List Byte}, Reaches sec key askedSec askedKey lines →
    valueOf askedSec askedKey .outside written = some value
  kept : ∀ {askedSec askedKey : List Byte}, ¬Reaches sec key askedSec askedKey lines →
    valueOf askedSec askedKey .outside written = valueOf askedSec askedKey .outside lines

/-- A new section behind the lines frames its entry. -/
theorem frames_section (nowhere : insertion sec lines = none) (named : SectionName sec) (keyed : KeyName key)
    (plain : ∀ c ∈ value, TextByte c) {first : List IniLine} (blank : ∀ line ∈ first, line.Blank) :
    Frames sec key value lines (lines ++ first ++
      [headerLineOf named, entryLineOf [] (List.forall_mem_nil _) keyed plain]) := by
  have read (askedSec askedKey : List Byte) :
      valueOf askedSec askedKey .outside (lines ++ first ++
          [headerLineOf named, entryLineOf [] (List.forall_mem_nil _) keyed plain]) =
        (valueOf askedSec askedKey .outside lines).or
          (if sec <+: askedSec ∧ key <+: askedKey then some value else none) := by
    rw [valueOf_append, valueOf_append, valueOf_absent (locate_blank _ _ _ blank).1,
      Option.or_none, valueOf_header rfl]
    by_cases opens : sec <+: askedSec
    · rw [if_pos opens, valueOf_entry]
      simp only [opens, true_and]
      rfl
    · rw [if_neg opens, valueOf_entry_outside]
      simp only [opens, false_and, if_false]
      rfl
  refine ⟨fun {askedSec askedKey} reaches => ?_, fun {askedSec askedKey} misses => ?_⟩
  · obtain ⟨both, earlier⟩ := (reaches_appended nowhere).mp reaches
    rw [read, valueOf_absent earlier, if_pos both, Option.none_or]
  · rw [reaches_appended nowhere, not_and'] at misses
    rw [read]
    cases present : valueOf askedSec askedKey .outside lines with
    | some old => rfl
    | none => rw [if_neg (misses (valueOf_none.mp present)), Option.or_none]

/-- The lead of a hit ends with the first `=` of its line. -/
theorem hit_lead {content : IniContent} {mode : Reading} {lead old : List Byte}
    (hit : content.hit key mode = some (lead, old)) :
    lead = content.bytes.takeWhile (· ≠ charByte '=') ++ [charByte '='] := by
  obtain ⟨blank, name, rfl, rfl, shape, _⟩ := hit_some.mp hit
  have word : ∀ c ∈ blank ++ name, decide (c ≠ charByte '=') = true := by
    refine List.forall_mem_append.mpr ⟨fun c member => decide_eq_true ?_, fun c member => decide_eq_true ?_⟩
    · rintro rfl
      have space := shape.white _ member
      rw [isspace_equals] at space
      cases space
    · rintro rfl
      exact shape.free member
  rw [IniContent.bytes, ← List.append_assoc blank name (charByte '=' :: old),
    Scan.takeWhile_stop word (by simp), List.append_assoc]

/-- Two hits on a line split it at the same place. -/
theorem hit_unique {content : IniContent} {mode other : Reading} {lead old first second : List Byte}
    (hit : content.hit key mode = some (lead, old))
    (meets : content.hit askedKey other = some (first, second)) : lead = first ∧ old = second := by
  have whole := (hit_bytes hit).symm.trans (hit_bytes meets)
  rw [hit_lead hit, hit_lead meets] at whole ⊢
  exact ⟨rfl, List.append_cancel_left whole⟩

/-- A reader passes an entry line into the same reading, whatever its value is. -/
theorem hit_next {content : IniContent} {mode : Reading} {lead old : List Byte}
    (hit : content.hit key mode = some (lead, old)) (value : List Byte) (reading : Reading) :
    (IniContent.body (lead ++ value)).next sec reading = content.next sec reading := by
  obtain ⟨blank, name, rfl, rfl, _⟩ := hit_some.mp hit
  cases reading with
  | outside => rfl
  | fresh => simp [IniContent.next, isspace_equals]
  | inside => rfl

theorem hit_body {content : IniContent} {mode : Reading} {lead old : List Byte}
    (hit : content.hit key mode = some (lead, old)) : content = .body (lead ++ old) := by
  obtain ⟨blank, name, rfl, rfl, _⟩ := hit_some.mp hit
  simp

/-- A new value frames its entry. -/
theorem frames_update {front back : List IniLine} {line : IniLine} {lead old : List Byte}
    (absent : locate sec key .outside front = none)
    (hit : line.content.hit key (readAll sec .outside front) = some (lead, old))
    (plain : ∀ c ∈ value, TextByte c) :
    Frames sec key value (front ++ line :: back) (front ++ updatedLine line hit plain :: back) := by
  refine ⟨fun {askedSec askedKey} reaches => ?_, fun {askedSec askedKey} misses => ?_⟩
  · obtain ⟨earlier, meets⟩ := (reaches_replaced rfl absent hit).mp reaches
    rw [valueOf_append, valueOf_absent earlier, Option.none_or, valueOf_cons, updatedLine,
      hit_update meets value]
    rfl
  · rw [reaches_replaced rfl absent hit, not_and] at misses
    rw [valueOf_append, valueOf_append]
    cases present : valueOf askedSec askedKey .outside front with
    | some old => rfl
    | none =>
        have missed := misses (valueOf_none.mp present)
        rw [Option.none_or, Option.none_or, valueOf_cons, valueOf_cons, updatedLine, hit_next hit]
        cases meets : line.content.hit askedKey (readAll askedSec .outside front) with
        | some entry =>
            obtain ⟨rfl, rfl⟩ := hit_unique hit meets
            exact absurd meets missed
        | none =>
            cases changed : (IniContent.body (lead ++ value)).hit askedKey
                (readAll askedSec .outside front) with
            | none => rfl
            | some entry =>
                obtain ⟨rfl, rfl⟩ := hit_unique (hit_update hit value) changed
                have again := hit_update changed old
                rw [← hit_body hit] at again
                exact absurd (meets.symm.trans again) (Option.some_ne_none _).symm

/-- The white space in front of a visible character belongs to the line of that character. -/
theorem lead_of_line {body rest lead after : List Byte} {stop : Byte} (ends : newline stop = true)
    (whole : body ++ stop :: rest = lead ++ after) (white : ∀ c ∈ lead, isspace c = true ∧ TextByte c)
    (visible : ∀ c, after.head? = some c → isspace c = false) :
    ∃ shown, body = lead ++ shown ∧ after = shown ++ stop :: rest ∧ shown ≠ [] := by
  have last : after ≠ stop :: rest := by
    rintro rfl
    have space := visible stop rfl
    rw [isspace_newline ends] at space
    cases space
  rcases List.append_eq_append_iff.mp whole with ⟨between, rfl, behind⟩ | ⟨shown, rfl, behind⟩
  · cases between with
    | nil => exact absurd behind.symm last
    | cons c between =>
        have text := (white c (by simp)).2.1
        rw [← (List.cons.inj behind).1, ends] at text
        cases text
  · refine ⟨shown, rfl, behind, ?_⟩
    rintro rfl
    exact last behind

/-- The line behind a new entry keeps its entry when its white space moves in front of the new one. -/
theorem strip_lead {second : List IniLine} {lead after : List Byte} (text : iniText second = lead ++ after)
    (white : ∀ c ∈ lead, isspace c = true ∧ TextByte c)
    (visible : ∀ c, after.head? = some c → isspace c = false)
    (free : lead ≠ [] → after.head? ≠ some (charByte '[')) :
    ∃ rest : List IniLine, iniText rest = after ∧ ∀ askedSec askedKey,
      valueOf askedSec askedKey .inside rest = valueOf askedSec askedKey .fresh second ∧
      valueOf askedSec askedKey .outside rest = valueOf askedSec askedKey .outside second := by
  cases second with
  | nil =>
      obtain ⟨rfl, rfl⟩ := List.append_eq_nil_iff.mp text.symm
      exact ⟨[], rfl, fun _ _ => ⟨rfl, rfl⟩⟩
  | cons line later =>
      obtain ⟨content, stop, wellFormed, ends⟩ := line
      cases wellFormed with
      | @header name plain closed =>
          cases lead with
          | nil =>
              refine ⟨⟨.header name, stop, .header plain closed, ends⟩ :: later, text,
                fun askedSec askedKey => ⟨?_, ?_⟩⟩
              · rw [valueOf_header rfl, valueOf_header rfl]
              · rfl
          | cons c rest =>
              have start := (List.cons.inj text).1
              have space := (white c (List.mem_cons_self ..)).1
              rw [← start] at space
              cases space
      | @body body plain inner =>
          have whole : body ++ stop :: iniText later = lead ++ after := by
            rw [← text, iniText_cons]
            simp [IniLine.bytes, IniContent.bytes]
          obtain ⟨shown, rfl, rfl, head⟩ := lead_of_line ends whole white visible
          obtain ⟨c, tail, rfl⟩ := List.exists_cons_of_ne_nil head
          have space := visible c rfl
          have start : (lead ++ c :: tail).dropWhile isspace = c :: tail := by
            rw [List.dropWhile_append_of_pos fun c member => (white c member).1,
              List.dropWhile_cons_of_neg (by simp [space])]
          have inside : (lead ++ c :: tail).all isspace = false := by simp [space]
          have formed : (IniContent.body (c :: tail)).WellFormed := by
            refine .body (fun c member => plain c (List.mem_append_right _ member)) fun brace => ?_
            cases lead with
            | nil => exact inner brace
            | cons _ _ => exact free (List.cons_ne_nil _ _) brace
          refine ⟨⟨.body (c :: tail), stop, formed, ends⟩ :: later, ?_, fun askedSec askedKey => ⟨?_, ?_⟩⟩
          · simp [iniText_cons, IniLine.bytes, IniContent.bytes]
          · rw [valueOf_cons, valueOf_cons]
            simp only [IniContent.hit, IniContent.next, start, inside, Option.map_map]
            rfl
          · rw [valueOf_cons, valueOf_cons, hit_outside, hit_outside]
            rfl

theorem IniContent.exists_header {content : IniContent} (opened : content.opens sec = true) :
    ∃ name, content = .header name := by
  cases content with
  | header name => exact ⟨name, rfl⟩
  | body text => cases opened

/-- A header and blank lines lead into a fresh section or outside. -/
theorem valueOf_opened {front first : List IniLine} {line : IniLine} (opened : line.content.opens sec = true)
    (blank : ∀ line ∈ first, line.Blank) (askedSec askedKey : List Byte) (rest : List IniLine) :
    valueOf askedSec askedKey .outside (front ++ line :: (first ++ rest)) =
      (valueOf askedSec askedKey .outside front).or
        (valueOf askedSec askedKey (if line.content.opens askedSec = true then .fresh else .outside) rest) := by
  obtain ⟨name, header⟩ := IniContent.exists_header opened
  obtain ⟨nothing, same⟩ := locate_blank askedSec askedKey
    (if name <+: askedSec then .fresh else .outside) blank
  rw [valueOf_append, valueOf_header header, valueOf_append, valueOf_absent nothing, same, Option.none_or,
    header]
  simp only [IniContent.opens, decide_eq_true_eq]

/-- A new entry in a section frames its entry. -/
theorem frames_entry (keyed : KeyName key) (plain : ∀ c ∈ value, TextByte c)
    (located : locate sec key .outside lines = none) {before after : List Byte}
    (place : insertion sec lines = some (before, after))
    (line : after.head? = some (charByte '[') → OpensLine before) :
    ∃ written, iniText written = before ++ entryLine key value ++ after ∧
      Frames sec key value lines written := by
  have visible := insertion_visible place
  obtain ⟨front, header, first, second, lead, split, opened, closed, blank, rfl, behind, white⟩ :=
    insertion_lines place
  have free (leads : lead ≠ []) : after.head? ≠ some (charByte '[') := by
    intro brace
    obtain ⟨start, last, rfl⟩ := (List.eq_nil_or_concat' lead).resolve_left leads
    have opens := line brace
    rw [← List.append_assoc, opensLine_append, (white last (by simp)).2.1] at opens
    cases opens
  obtain ⟨rest, text, same⟩ := strip_lead behind white visible free
  refine ⟨front ++ header :: (first ++ entryLineOf lead white keyed plain :: rest), ?_,
    fun {askedSec askedKey} reaches => ?_, fun {askedSec askedKey} misses => ?_⟩
  · have whole : front ++ header :: (first ++ entryLineOf lead white keyed plain :: rest) =
        (front ++ header :: first) ++ ([entryLineOf lead white keyed plain] ++ rest) := by simp
    rw [whole, iniText_append (front ++ header :: first), iniText_append [_], entryLineOf_text, text]
    simp only [List.append_assoc]
  · obtain ⟨⟨opens, begins⟩, earlier⟩ := (reaches_inserted split located opened closed).mp reaches
    rw [valueOf_opened opened blank, valueOf_absent earlier, Option.none_or, if_pos opens, valueOf_entry,
      if_pos begins]
  · rw [reaches_inserted split located opened closed, not_and'] at misses
    rw [split, valueOf_opened opened blank, valueOf_opened opened blank]
    cases present : valueOf askedSec askedKey .outside front with
    | some old => rfl
    | none =>
        have missed := misses (valueOf_none.mp present)
        by_cases opens : header.content.opens askedSec = true
        · rw [if_pos opens, valueOf_entry, if_neg fun begins => missed ⟨opens, begins⟩,
            (same askedSec askedKey).1]
        · rw [if_neg opens, valueOf_entry_outside, (same askedSec askedKey).2]

/-- The rewritten text consists of lines that frame the written entry. -/
theorem rewritten_frames (named : SectionName sec) (keyed : KeyName key) (plain : ∀ c ∈ value, TextByte c)
    (keeps : KeepsRest sec key lines) {text : List Byte} (written : rewritten sec key value lines = some text) :
    ∃ changed, iniText changed = text ∧ Frames sec key value lines changed := by
  cases located : locate sec key .outside lines with
  | some found =>
      rw [rewritten_found located] at written
      obtain ⟨front, line, back, lead, rfl, absent, hit, before, after⟩ := locate_split located
      refine ⟨_, ?_, frames_update absent hit plain⟩
      rw [← Option.some.inj written, before, after, iniText_append, iniText_cons]
      simp [IniLine.bytes, updatedLine, IniContent.bytes]
  | none =>
      cases place : insertion sec lines with
      | some both =>
          obtain ⟨before, after⟩ := both
          obtain ⟨free, line⟩ := keeps before after located place
          rw [rewritten_insert located place, formatRest, Printf.format_plain _ free, Option.map_some] at written
          rw [← Option.some.inj written]
          exact frames_entry keyed plain located place line
      | none =>
          rw [rewritten_section located place] at written
          split at written
          · rename_i empty
            refine ⟨_, ?_, frames_section place named keyed plain (List.forall_mem_nil _)⟩
            rw [← Option.some.inj written, iniText_append, iniText_append, empty, section_text]
            rfl
          · refine ⟨_, ?_, frames_section place named keyed plain blankLine_blank⟩
            rw [← Option.some.inj written, iniText_append, iniText_append, section_text, blankLine_text,
              ← List.append_assoc]

/-- A write keeps what a read returns exactly when the read misses the written entry or had its value. -/
theorem writeProfileString_keeps_iff (file : Option (List IniLine)) (named : SectionName sec)
    (keyed : KeyName key) (plain : ∀ c ∈ value, TextByte c) (keeps : KeepsRest sec key (file.getD []))
    {stored : Option (List Byte)}
    (written : writeProfileString fileCallsDone sec key (some value) (file.map iniText) = .ok (true, stored))
    (askedNamed : askedSec ≠ []) (askedKeyed : askedKey ≠ []) :
    (∀ buffer defaultValue, buffer ≠ [] →
        readProfileString fileCallsDone askedSec askedKey buffer defaultValue stored =
          readProfileString fileCallsDone askedSec askedKey buffer defaultValue (file.map iniText)) ↔
      (Reaches sec key askedSec askedKey (file.getD []) →
        valueOf askedSec askedKey .outside (file.getD []) = some value) := by
  obtain ⟨loads, text, rewrites, small, rfl⟩ := writeProfileString_stored named.named keyed.named written
  obtain ⟨changed, rfl, frames⟩ := rewritten_frames named keyed plain keeps rewrites
  simp only [readProfileString_absent, cString_visible (iniText_visible changed)]
  rw [readProfileString_alike askedNamed askedKeyed small loads]
  constructor
  · intro same reaches
    rw [← same, frames.reached reaches]
  · intro already
    by_cases reaches : Reaches sec key askedSec askedKey (file.getD [])
    · rw [frames.reached reaches, already reaches]
    · exact frames.kept reaches

/-- The text behind a new key has no directive and no brace, and its keys keep their values. -/
theorem writeProfileString_keeps_other :
    readProfileString fileCallsDone (stringBytes "main") (stringBytes "a") [7, 7, 7] none
        (some (stringBytes "[main]\nb=2\na=1\n")) =
      readProfileString fileCallsDone (stringBytes "main") (stringBytes "a") [7, 7, 7] none
        (some (stringBytes "[main]\na=1\n")) := by
  have keeps : KeepsRest (stringBytes "main") (stringBytes "b") mainLines := by
    intro before after _ place
    have behind : insertion (stringBytes "main") mainLines =
        some (stringBytes "[main]\n", stringBytes "a=1\n") := rfl
    rw [behind] at place
    obtain ⟨rfl, rfl⟩ := Prod.mk.inj (Option.some.inj place)
    exact ⟨by decide, fun brace => absurd brace (by decide)⟩
  have plain : ∀ c ∈ stringBytes "2", TextByte c := textBytes_of_all rfl
  refine (writeProfileString_keeps_iff (some mainLines) (.of_all (by decide) (by decide) rfl)
    (.of_all (by decide) (by decide) rfl rfl) plain keeps rfl (by decide) (by decide)).mpr (fun reaches => ?_)
    [7, 7, 7] none (List.cons_ne_nil _ _)
  have split : mainLines = [] ++ mainLines.get ⟨0, by decide⟩ :: [mainLines.get ⟨1, by decide⟩] := rfl
  have begins := ((reaches_inserted split rfl rfl (by decide)).mp reaches).1.2
  exact absurd begins (by decide)

/-- A new key hides the keys that it begins, and the rest of the file is formatted. -/
theorem writeProfileString_hides :
    (writeProfileString fileCallsDone (stringBytes "main") (stringBytes "a") (some (stringBytes "1"))
          (some (stringBytes "[main]\n")) = .ok (true, some (stringBytes "[main]\na=1\n")) ∧
      readProfileString fileCallsDone (stringBytes "main") (stringBytes "ab") [7, 7, 7] none
          (some (stringBytes "[main]\n")) = .ok (false, [7, 7, 7]) ∧
      readProfileString fileCallsDone (stringBytes "main") (stringBytes "ab") [7, 7, 7] none
          (some (stringBytes "[main]\na=1\n")) = .ok (true, [charByte '1', 0, 0])) ∧
    writeProfileString fileCallsDone (stringBytes "main") (stringBytes "b") (some (stringBytes "1"))
          (some (stringBytes "[main]\na=%%\n")) = .ok (true, some (stringBytes "[main]\nb=1\na=%\n")) ∧
      readProfileString fileCallsDone (stringBytes "main") (stringBytes "a") [7, 7, 7] none
          (some (stringBytes "[main]\na=%%\n")) = .ok (true, [charByte '%', charByte '%', 0]) ∧
      readProfileString fileCallsDone (stringBytes "main") (stringBytes "a") [7, 7, 7] none
          (some (stringBytes "[main]\nb=1\na=%\n")) = .ok (true, [charByte '%', 0, 0]) :=
  ⟨⟨rfl, rfl, rfl⟩, rfl, rfl, rfl⟩

end Psuart

import Psuart.Proof.Ini.Entries

namespace Psuart

variable {sec key : List Byte}

/-- The part of an entry line in front of its `=`, with the white space that a reading skips. -/
structure EntryShape (mode : Reading) (blank name : List Byte) : Prop where
  reached : mode ≠ .outside
  white : ∀ c ∈ blank, isspace c = true
  inside : mode = .inside → blank = []
  visible : mode = .fresh → ∀ c, name.head? = some c → isspace c = false
  free : charByte '=' ∉ name
  named : name ≠ []
  comment : name.head? ≠ some (charByte ';')

/-- The leading white space of a line ends at its first visible character. -/
theorem EntryShape.split {blank name : List Byte} (shape : EntryShape .fresh blank name) (value : List Byte) :
    (blank ++ (name ++ charByte '=' :: value)).takeWhile isspace = blank ∧
      (blank ++ (name ++ charByte '=' :: value)).dropWhile isspace = name ++ charByte '=' :: value := by
  cases name with
  | nil => exact absurd rfl shape.named
  | cons c rest =>
      have visible := shape.visible rfl c rfl
      constructor
      · rw [List.takeWhile_append_of_pos shape.white, List.cons_append,
          List.takeWhile_cons_of_neg (by simp [visible]), List.append_nil]
      · rw [List.dropWhile_append_of_pos shape.white, List.cons_append,
          List.dropWhile_cons_of_neg (by simp [visible])]

/-- A hit is an entry line whose key begins the requested one. -/
theorem hit_some {content : IniContent} {mode : Reading} {lead value : List Byte} :
    content.hit key mode = some (lead, value) ↔
      ∃ blank name, content = .body (blank ++ (name ++ charByte '=' :: value)) ∧
        lead = blank ++ (name ++ [charByte '=']) ∧ EntryShape mode blank name ∧ name <+: key := by
  constructor
  · intro hit
    cases content with
    | header _ => cases hit
    | body text =>
        cases mode with
        | outside => cases hit
        | inside =>
            obtain ⟨name, rfl, rfl, free, named, comment, begins⟩ := entryOf_some.mp hit
            exact ⟨[], name, rfl, rfl, ⟨by decide, List.forall_mem_nil _, fun _ => rfl,
              (fun fresh => nomatch fresh), free, named, comment⟩, begins⟩
        | fresh =>
            obtain ⟨⟨inner, other⟩, found, equal⟩ := Option.map_eq_some_iff.mp hit
            obtain ⟨rfl, rfl⟩ := Prod.mk.inj equal
            obtain ⟨name, rfl, rest, free, named, comment, begins⟩ := entryOf_some.mp found
            refine ⟨text.takeWhile isspace, name, ?_, rfl, ⟨by decide, ?_, (fun inside => nomatch inside),
              ?_, free, named, comment⟩, begins⟩
            · rw [← rest, List.takeWhile_append_dropWhile]
            · exact fun c member => List.mem_takeWhile_imp member
            · intro _ c head
              have first := List.head?_dropWhile_not isspace text
              rw [rest, List.head?_append_of_ne_nil _ named, head] at first
              exact first
  · rintro ⟨blank, name, rfl, rfl, shape, begins⟩
    have found : entryOf key (name ++ charByte '=' :: value) = some (name ++ [charByte '='], value) :=
      entryOf_some.mpr ⟨name, rfl, rfl, shape.free, shape.named, shape.comment, begins⟩
    cases mode with
    | outside => exact absurd rfl shape.reached
    | inside =>
        rw [shape.inside rfl]
        exact found
    | fresh =>
        obtain ⟨lead, rest⟩ := shape.split value
        rw [IniContent.hit, lead, rest, found]
        rfl

theorem hit_bytes {content : IniContent} {mode : Reading} {lead value : List Byte}
    (hit : content.hit key mode = some (lead, value)) : content.bytes = lead ++ value := by
  obtain ⟨blank, name, rfl, rfl, _⟩ := hit_some.mp hit
  simp [IniContent.bytes]

@[simp] theorem iniText_nil : iniText [] = [] := rfl

theorem iniText_cons (line : IniLine) (rest : List IniLine) :
    iniText (line :: rest) = line.bytes ++ iniText rest := rfl

@[simp] theorem iniText_append (first second : List IniLine) :
    iniText (first ++ second) = iniText first ++ iniText second := List.flatMap_append ..

/-- The reading behind some lines. -/
def readAll (sec : List Byte) (mode : Reading) (lines : List IniLine) : Reading :=
  lines.foldl (fun mode line => line.content.next sec mode) mode

/-- A search goes on behind lines without the entry. -/
theorem locate_append (mode : Reading) (first second : List IniLine) :
    locate sec key mode (first ++ second) =
      match locate sec key mode first with
      | some found => some { found with after := found.after ++ iniText second }
      | none => (locate sec key (readAll sec mode first) second).map (Found.behind (iniText first)) := by
  induction first generalizing mode with
  | nil =>
      have same : Found.behind [] = id := rfl
      simp [locate, readAll, same]
  | cons line rest ih =>
      rw [List.cons_append, locate, locate]
      split
      · simp
      · rw [ih]
        cases locate sec key (line.content.next sec mode) rest with
        | some found => rfl
        | none =>
            simp only [Option.map_none, Option.map_map, readAll, List.foldl_cons, iniText_cons]
            congr 1
            funext found
            simp [Found.behind]

/-- A found entry stands in one line behind lines without it. -/
theorem locate_split {mode : Reading} {lines : List IniLine} {found : Found}
    (located : locate sec key mode lines = some found) :
    ∃ front line back lead, lines = front ++ line :: back ∧ locate sec key mode front = none ∧
      line.content.hit key (readAll sec mode front) = some (lead, found.value) ∧
      found.before = iniText front ++ lead ∧ found.after = line.stop :: iniText back := by
  induction lines generalizing mode found with
  | nil => cases located
  | cons line rest ih =>
      rw [locate] at located
      split at located
      · rename_i lead value hit
        rw [← Option.some.inj located]
        exact ⟨[], line, rest, lead, rfl, rfl, hit, rfl, rfl⟩
      · rename_i miss
        obtain ⟨inner, later, rfl⟩ := Option.map_eq_some_iff.mp located
        obtain ⟨front, other, back, lead, rfl, none, hit, before, after⟩ := ih later
        refine ⟨line :: front, other, back, lead, rfl, ?_, hit, ?_, after⟩
        · rw [locate, miss]
          simp [none]
        · simp [Found.behind, before, iniText_cons]

/-- A file without a place for a new entry has no header that matches. -/
theorem insertion_none {lines : List IniLine} :
    insertion sec lines = none ↔ ∀ line ∈ lines, line.content.opens sec = false := by
  induction lines with
  | nil => exact ⟨fun _ => List.forall_mem_nil _, fun _ => rfl⟩
  | cons line rest ih =>
      rw [List.forall_mem_cons, ← ih, insertion]
      cases insertion sec rest with
      | some both => simp
      | none => cases line.content.opens sec <;> simp

/-- A place for a new entry stands behind the last header that matches. -/
theorem insertion_split {lines : List IniLine} {before after : List Byte}
    (place : insertion sec lines = some (before, after)) :
    ∃ front line back, lines = front ++ line :: back ∧ line.content.opens sec = true ∧
      (∀ other ∈ back, other.content.opens sec = false) ∧
      before = iniText front ++ line.bytes ++ (iniText back).takeWhile isspace ∧
      after = (iniText back).dropWhile isspace := by
  induction lines generalizing before with
  | nil => cases place
  | cons line rest ih =>
      rw [insertion] at place
      split at place
      · rename_i first second later
        obtain ⟨rfl, rfl⟩ := Prod.mk.inj (Option.some.inj place)
        obtain ⟨front, other, back, rfl, opened, last, rfl, rfl⟩ := ih later
        exact ⟨line :: front, other, back, rfl, opened, last, by simp [iniText_cons], rfl⟩
      · rename_i later
        split at place
        · rename_i opened
          obtain ⟨rfl, rfl⟩ := Prod.mk.inj (Option.some.inj place)
          exact ⟨[], line, rest, rfl, opened, insertion_none.mp later, rfl, rfl⟩
        · cases place

/-- The last header that matches is the place for a new entry. -/
theorem insertion_last {front back : List IniLine} {line : IniLine} (opened : line.content.opens sec = true)
    (closed : ∀ other ∈ back, other.content.opens sec = false) :
    insertion sec (front ++ line :: back) =
      some (iniText front ++ line.bytes ++ (iniText back).takeWhile isspace,
        (iniText back).dropWhile isspace) := by
  induction front with
  | nil =>
      rw [List.nil_append, insertion, insertion_none.mpr closed]
      simp only [opened, if_true, iniText_nil, List.nil_append]
  | cons other rest ih =>
      rw [List.cons_append, insertion, ih, iniText_cons]
      simp only [List.append_assoc]

theorem readAll_append (mode : Reading) (first second : List IniLine) :
    readAll sec mode (first ++ second) = readAll sec (readAll sec mode first) second :=
  List.foldl_append ..

/-- A hit behind lines without the entry is found. -/
theorem locate_hit {mode : Reading} {front : List IniLine} {line : IniLine} {lead value : List Byte}
    (absent : locate sec key mode front = none)
    (hit : line.content.hit key (readAll sec mode front) = some (lead, value)) (back : List IniLine) :
    locate sec key mode (front ++ line :: back) =
      some ⟨iniText front ++ lead, value, line.stop :: iniText back⟩ := by
  rw [locate_append, absent, locate, hit]
  rfl

/-- Lines without the entry can be joined. -/
theorem locate_append_none {mode : Reading} {first second : List IniLine} :
    locate sec key mode (first ++ second) = none ↔
      locate sec key mode first = none ∧ locate sec key (readAll sec mode first) second = none := by
  rw [locate_append]
  cases locate sec key mode first <;> simp

theorem locate_cons_none {mode : Reading} {line : IniLine} {rest : List IniLine} :
    locate sec key mode (line :: rest) = none ↔
      line.content.hit key mode = none ∧ locate sec key (line.content.next sec mode) rest = none := by
  rw [locate]
  cases line.content.hit key mode with
  | none => simp
  | some entry => simp

/-- A line of white space belongs to every reading. -/
def IniLine.Blank (line : IniLine) : Prop :=
  ∃ text, line.content = .body text ∧ text.all isspace = true

/-- A blank line holds no entry and leads to no other reading. -/
theorem IniLine.Blank.passes {line : IniLine} (blank : line.Blank) (sec key : List Byte) (mode : Reading) :
    line.content.hit key mode = none ∧ line.content.next sec mode = mode := by
  obtain ⟨text, content, white⟩ := blank
  have nothing := List.dropWhile_eq_nil_iff.mpr (List.all_eq_true.mp white)
  rw [content]
  cases mode with
  | outside => exact ⟨rfl, rfl⟩
  | fresh =>
      refine ⟨?_, if_pos white⟩
      rw [IniContent.hit, nothing, entryOf_nil]
      rfl
  | inside =>
      refine ⟨?_, rfl⟩
      by_contra hit
      obtain ⟨entry, found⟩ := Option.ne_none_iff_exists'.mp hit
      obtain ⟨name, _, rfl, _⟩ := entryOf_some.mp found
      rw [List.all_append, List.all_cons, isspace_equals] at white
      simp at white

/-- Blank lines belong to every reading. -/
theorem locate_blank (sec key : List Byte) (mode : Reading) {lines : List IniLine}
    (blank : ∀ line ∈ lines, line.Blank) :
    locate sec key mode lines = none ∧ readAll sec mode lines = mode := by
  induction lines with
  | nil => exact ⟨rfl, rfl⟩
  | cons line rest ih =>
      rw [List.forall_mem_cons] at blank
      obtain ⟨nothing, same⟩ := ih blank.2
      obtain ⟨miss, next⟩ := blank.1.passes sec key mode
      refine ⟨locate_cons_none.mpr ⟨miss, by rwa [next]⟩, ?_⟩
      rw [readAll, List.foldl_cons, next]
      exact same

theorem IniContent.WellFormed.lead {content : IniContent} (wellFormed : content.WellFormed) :
    ∀ c ∈ content.bytes.takeWhile isspace, TextByte c := by
  cases wellFormed with
  | header _ _ => exact fun c member => nomatch member
  | body plain _ => exact fun c member => plain c (List.takeWhile_subset _ member)

theorem IniContent.blank {content : IniContent} (white : content.bytes.all isspace = true) :
    ∃ text, content = .body text ∧ text.all isspace = true := by
  cases content with
  | header _ => cases white
  | body text => exact ⟨text, rfl, white⟩

/-- The white space at the start of some lines consists of blank lines and a lead of the next line. -/
theorem takeWhile_lines (lines : List IniLine) :
    ∃ first second lead, lines = first ++ second ∧ (∀ line ∈ first, line.Blank) ∧
      (iniText lines).takeWhile isspace = iniText first ++ lead ∧
      iniText second = lead ++ (iniText lines).dropWhile isspace ∧
      ∀ c ∈ lead, isspace c = true ∧ TextByte c := by
  induction lines with
  | nil => exact ⟨[], [], [], rfl, List.forall_mem_nil _, rfl, rfl, List.forall_mem_nil _⟩
  | cons line rest ih =>
      by_cases white : line.content.bytes.all isspace = true
      · obtain ⟨first, second, lead, rfl, blank, start, behind, plain⟩ := ih
        have whole : ∀ c ∈ line.bytes, isspace c = true := List.forall_mem_append.mpr
          ⟨List.all_eq_true.mp white, List.forall_mem_singleton.mpr (isspace_newline line.ends)⟩
        refine ⟨line :: first, second, lead, rfl,
          List.forall_mem_cons.mpr ⟨IniContent.blank white, blank⟩, ?_, ?_, plain⟩
        · rw [iniText_cons, List.takeWhile_append_of_pos whole, start, iniText_cons, List.append_assoc]
        · rw [iniText_cons, List.dropWhile_append_of_pos whole, behind]
      · have start : (iniText (line :: rest)).takeWhile isspace = line.content.bytes.takeWhile isspace := by
          rw [iniText_cons, IniLine.bytes, List.append_assoc]
          exact Scan.takeWhile_inside (Bool.eq_false_of_not_eq_true white) _
        refine ⟨[], line :: rest, line.content.bytes.takeWhile isspace, rfl, List.forall_mem_nil _, start, ?_,
          fun c member => ⟨List.mem_takeWhile_imp member, line.wellFormed.lead c member⟩⟩
        rw [← start, List.takeWhile_append_dropWhile]

/-- A place for a new entry stands in a fresh section, inside the lead of the next line. -/
theorem insertion_lines {lines : List IniLine} {before after : List Byte}
    (place : insertion sec lines = some (before, after)) :
    ∃ front line first second lead, lines = front ++ line :: (first ++ second) ∧
      line.content.opens sec = true ∧ (∀ other ∈ first ++ second, other.content.opens sec = false) ∧
      (∀ line ∈ first, line.Blank) ∧ before = iniText (front ++ line :: first) ++ lead ∧
      iniText second = lead ++ after ∧ ∀ c ∈ lead, isspace c = true ∧ TextByte c := by
  obtain ⟨front, line, back, rfl, opened, closed, rfl, rfl⟩ := insertion_split place
  obtain ⟨first, second, lead, rfl, blank, start, behind, plain⟩ := takeWhile_lines back
  refine ⟨front, line, first, second, lead, rfl, opened, closed, blank, ?_, behind, plain⟩
  rw [start, iniText_append, iniText_cons]
  simp only [List.append_assoc]

/-- A new entry stands in front of the first visible character. -/
theorem insertion_visible {lines : List IniLine} {before after : List Byte}
    (place : insertion sec lines = some (before, after)) :
    ∀ c, after.head? = some c → isspace c = false := by
  obtain ⟨_, _, back, _, _, _, _, rfl⟩ := insertion_split place
  intro c head
  have first := List.head?_dropWhile_not isspace (iniText back)
  rw [head] at first
  exact first

theorem hit_outside (content : IniContent) : content.hit key .outside = none := by
  cases content <;> rfl

theorem hit_opens {content : IniContent} (opened : content.opens sec = true) (mode : Reading) :
    content.hit key mode = none := by
  cases content with
  | header name => rfl
  | body text => cases opened

theorem IniContent.next_fresh {mode : Reading} (content : IniContent)
    (opened : content.opens sec = true) : content.next sec mode = .fresh := by
  cases content with
  | header name => exact if_pos (of_decide_eq_true opened)
  | body text => cases opened

theorem IniContent.next_outside (content : IniContent) (closed : content.opens sec = false) :
    content.next sec .outside = .outside := by
  cases content with
  | header name => exact if_neg (of_decide_eq_false closed)
  | body text => rfl

/-- A file without a header that matches holds no entry for its section. -/
theorem locate_nowhere (key : List Byte) {lines : List IniLine} (nowhere : insertion sec lines = none) :
    locate sec key .outside lines = none := by
  rw [insertion_none] at nowhere
  induction lines with
  | nil => rfl
  | cons line rest ih =>
      rw [List.forall_mem_cons] at nowhere
      rw [locate_cons_none, line.content.next_outside nowhere.1]
      exact ⟨hit_outside _, ih nowhere.2⟩

/-- A header and blank lines open a fresh section without the entry. -/
theorem locate_opened (key : List Byte) {mode : Reading} {front first : List IniLine} {line : IniLine}
    (absent : locate sec key mode front = none) (opened : line.content.opens sec = true)
    (blank : ∀ line ∈ first, line.Blank) :
    locate sec key mode (front ++ line :: first) = none ∧
      readAll sec mode (front ++ line :: first) = .fresh := by
  obtain ⟨nothing, fresh⟩ := locate_blank sec key .fresh blank
  have next : line.content.next sec (readAll sec mode front) = .fresh := line.content.next_fresh opened
  refine ⟨locate_append_none.mpr ⟨absent, locate_cons_none.mpr ⟨hit_opens opened _, by rwa [next]⟩⟩, ?_⟩
  rw [readAll_append, readAll, List.foldl_cons, next]
  exact fresh

section Rewritten

variable {value : List Byte} {lines : List IniLine}

theorem rewritten_found {found : Found} (located : locate sec key .outside lines = some found) :
    rewritten sec key value lines = some (found.before ++ value ++ found.after) := by
  rw [rewritten, located]

theorem rewritten_insert {before after : List Byte} (located : locate sec key .outside lines = none)
    (place : insertion sec lines = some (before, after)) :
    rewritten sec key value lines =
      (formatRest after).map fun rest => before ++ entryLine key value ++ rest := by
  rw [rewritten, located, place]

theorem rewritten_section (located : locate sec key .outside lines = none)
    (nowhere : insertion sec lines = none) :
    rewritten sec key value lines =
      some (if iniText lines = [] then headerLine sec ++ entryLine key value
        else iniText lines ++ [charByte '\n'] ++ headerLine sec ++ entryLine key value) := by
  rw [rewritten, located, nowhere]

end Rewritten

end Psuart

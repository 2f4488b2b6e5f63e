import Psuart.Proof.Ini.Write

namespace Psuart

variable {sec key value : List Byte}

theorem SectionName.of_all (named : sec ≠ []) (closed : charByte ']' ∉ sec)
    (check : sec.all (fun c => decide (TextByte c)) = true) : SectionName sec :=
  ⟨named, closed, textBytes_of_all check⟩

theorem KeyName.of_all (named : key ≠ []) (free : charByte '=' ∉ key)
    (check : key.all (fun c => decide (TextByte c)) = true)
    (start : key.head?.all (fun c => c ≠ charByte '[' ∧ c ≠ charByte ';' ∧ isspace c = false) = true) :
    KeyName key :=
  ⟨named, free, textBytes_of_all check, fun c head => by
    rw [head] at start
    exact of_decide_eq_true start⟩

/-- The line of an entry behind white space. -/
def entryLineOf (blank : List Byte) (white : ∀ c ∈ blank, isspace c = true ∧ TextByte c)
    (keyed : KeyName key) (plain : ∀ c ∈ value, TextByte c) : IniLine where
  content := .body (blank ++ (key ++ charByte '=' :: value))
  stop := charByte '\n'
  wellFormed := by
    refine .body (List.forall_mem_append.mpr ⟨fun c member => (white c member).2,
      List.forall_mem_append.mpr ⟨keyed.plain, List.forall_mem_cons.mpr ⟨by decide, plain⟩⟩⟩) ?_
    cases blank with
    | nil =>
        rw [List.nil_append, List.head?_append_of_ne_nil _ keyed.named]
        exact fun head => (keyed.start _ head).1 rfl
    | cons c rest =>
        rw [List.cons_append, List.head?_cons]
        intro head
        have space := (white c (List.mem_cons_self ..)).1
        rw [Option.some.inj head] at space
        cases space
  ends := by decide

theorem KeyName.shape (keyed : KeyName key) {blank : List Byte} (white : ∀ c ∈ blank, isspace c = true) :
    EntryShape .fresh blank key where
  reached := by decide
  white := white
  inside := fun inside => nomatch inside
  visible := fun _ c head => (keyed.start c head).2.2
  free := keyed.free
  named := keyed.named
  comment := fun head => (keyed.start _ head).2.1 rfl

/-- A fresh section finds an entry line behind white space. -/
theorem entryLineOf_hit {blank : List Byte} (white : ∀ c ∈ blank, isspace c = true ∧ TextByte c)
    (keyed : KeyName key) (plain : ∀ c ∈ value, TextByte c) :
    (entryLineOf blank white keyed plain).content.hit key .fresh =
      some (blank ++ (key ++ [charByte '=']), value) :=
  hit_some.mpr ⟨blank, key, rfl, rfl, keyed.shape fun c member => (white c member).1, List.prefix_rfl⟩

theorem entryLineOf_text {blank : List Byte} (white : ∀ c ∈ blank, isspace c = true ∧ TextByte c)
    (keyed : KeyName key) (plain : ∀ c ∈ value, TextByte c) :
    iniText [entryLineOf blank white keyed plain] = blank ++ entryLine key value := by
  simp [iniText, IniLine.bytes, entryLineOf, IniContent.bytes, entryLine]

/-- The line of a header. -/
def headerLineOf (named : SectionName sec) : IniLine where
  content := .header sec
  stop := charByte '\n'
  wellFormed := .header named.plain named.closed
  ends := by decide

theorem headerLineOf_text (named : SectionName sec) : iniText [headerLineOf named] = headerLine sec := by
  simp [iniText, IniLine.bytes, headerLineOf, IniContent.bytes, headerLine]

/-- The text of a new section. -/
theorem section_text (named : SectionName sec) (keyed : KeyName key) (plain : ∀ c ∈ value, TextByte c) :
    iniText [headerLineOf named, entryLineOf [] (List.forall_mem_nil _) keyed plain] =
      headerLine sec ++ entryLine key value := by
  rw [← List.singleton_append, iniText_append, headerLineOf_text, entryLineOf_text, List.nil_append]

def blankLine : IniLine where
  content := .body []
  stop := charByte '\n'
  wellFormed := .body (List.forall_mem_nil _) (by decide)
  ends := by decide

theorem blankLine_text : iniText [blankLine] = [charByte '\n'] := rfl

theorem blankLine_blank : ∀ line ∈ [blankLine], line.Blank :=
  List.forall_mem_singleton.mpr ⟨[], rfl, rfl⟩

/-- An update keeps the key of its line. -/
theorem hit_update {content : IniContent} {mode : Reading} {lead old : List Byte}
    (hit : content.hit key mode = some (lead, old)) (value : List Byte) :
    (IniContent.body (lead ++ value)).hit key mode = some (lead, value) := by
  obtain ⟨blank, name, rfl, rfl, shape, begins⟩ := hit_some.mp hit
  exact hit_some.mpr ⟨blank, name, by simp, rfl, shape, begins⟩

theorem updated_wellFormed {content : IniContent} {mode : Reading} {lead old : List Byte}
    (hit : content.hit key mode = some (lead, old)) (wellFormed : content.WellFormed)
    (plain : ∀ c ∈ value, TextByte c) : (IniContent.body (lead ++ value)).WellFormed := by
  obtain ⟨blank, name, rfl, rfl, shape, _⟩ := hit_some.mp hit
  cases wellFormed with
  | body text free =>
      refine .body (List.forall_mem_append.mpr ⟨fun c member => text c ?_, plain⟩) ?_
      · rw [show blank ++ (name ++ charByte '=' :: old) = blank ++ (name ++ [charByte '=']) ++ old by simp]
        exact List.mem_append_left _ member
      · intro head
        apply free
        rw [List.head?_append_of_ne_nil _ (by simp)] at head
        rw [show blank ++ (name ++ charByte '=' :: old) = blank ++ (name ++ [charByte '=']) ++ old by simp,
          List.head?_append_of_ne_nil _ (by simp), head]

/-- The line of a found entry with a new value. -/
def updatedLine (line : IniLine) {mode : Reading} {lead old : List Byte}
    (hit : line.content.hit key mode = some (lead, old)) (plain : ∀ c ∈ value, TextByte c) : IniLine where
  content := .body (lead ++ value)
  stop := line.stop
  wellFormed := updated_wellFormed hit line.wellFormed plain
  ends := line.ends

/-- The rewritten text starts with lines that hold the written entry. -/
theorem rewritten_holds (named : SectionName sec) (keyed : KeyName key)
    (plain : ∀ c ∈ value, TextByte c) {lines : List IniLine} (free : charByte '%' ∉ iniText lines)
    {text : List Byte} (written : rewritten sec key value lines = some text) :
    ∃ first back found, text = iniText first ++ back ∧ (∀ c ∈ back, c ≠ 0 ∧ c ≠ 0xFF) ∧
      locate sec key .outside first = some found ∧ found.value = value := by
  cases located : locate sec key .outside lines with
  | some found =>
      rw [rewritten_found located] at written
      obtain ⟨front, line, back, lead, rfl, none, hit, before, after⟩ := locate_split located
      have changed : locate sec key .outside (front ++ [updatedLine line hit plain]) = _ :=
        locate_hit none (hit_update hit value) []
      refine ⟨front ++ [updatedLine line hit plain], iniText back, _, ?_, iniText_visible back, changed, rfl⟩
      rw [← Option.some.inj written, before, after, iniText_append, iniText_cons]
      simp [IniLine.bytes, updatedLine, IniContent.bytes]
  | none =>
      cases place : insertion sec lines with
      | some both =>
          obtain ⟨before, after⟩ := both
          rw [rewritten_insert located place] at written
          obtain ⟨front, line, first, second, lead, rfl, opened, _, blank, rfl, behind, white⟩ :=
            insertion_lines place
          have after_mem : ∀ c ∈ after, c ∈ iniText (front ++ line :: (first ++ second)) := by
            intro c member
            rw [insertion_text place]
            exact List.mem_append_right _ member
          have printed : formatRest after = some after :=
            Printf.format_plain _ fun member => free (after_mem _ member)
          obtain ⟨nothing, fresh⟩ := locate_opened key (locate_append_none.mp located).1 opened blank
          have hit := entryLineOf_hit white keyed plain
          rw [← fresh] at hit
          have found := locate_hit nothing hit []
          refine ⟨front ++ line :: first ++ [entryLineOf lead white keyed plain], after, _, ?_,
            fun c member => iniText_visible _ c (after_mem c member), found, rfl⟩
          rw [printed, Option.map_some] at written
          rw [← Option.some.inj written, iniText_append (front ++ line :: first), entryLineOf_text]
          simp only [List.append_assoc]
      | none =>
          rw [rewritten_section located place] at written
          have opened : (headerLineOf named).content.opens sec = true := decide_eq_true List.prefix_rfl
          have white : ∀ c ∈ ([] : List Byte), isspace c = true ∧ TextByte c := List.forall_mem_nil _
          have reached (front : List IniLine) (absent : locate sec key .outside front = none) :
              locate sec key .outside (front ++ [headerLineOf named] ++ [entryLineOf [] white keyed plain]) =
                some ⟨iniText (front ++ [headerLineOf named]) ++ (key ++ [charByte '=']), value,
                  [charByte '\n']⟩ := by
            obtain ⟨nothing, fresh⟩ := locate_opened key absent opened (List.forall_mem_nil _)
            have hit := entryLineOf_hit white keyed plain
            rw [← fresh] at hit
            exact locate_hit nothing hit []
          split at written
          · refine ⟨[headerLineOf named, entryLineOf [] white keyed plain], [], _, ?_, List.forall_mem_nil _,
              reached [] rfl, rfl⟩
            rw [← Option.some.inj written, section_text, List.append_nil]
          · have blank := locate_append_none.mpr
              ⟨located, (locate_blank sec key _ blankLine_blank).1⟩
            refine ⟨lines ++ [blankLine] ++ [headerLineOf named] ++ [entryLineOf [] white keyed plain], [], _,
              ?_, List.forall_mem_nil _, reached _ blank, rfl⟩
            rw [← Option.some.inj written]
            simp only [iniText_append, headerLineOf_text, entryLineOf_text, blankLine_text, List.nil_append,
              List.append_nil]

/-- A visible text is its own string. -/
theorem cString_visible {text : List Byte} (visible : ∀ c ∈ text, c ≠ 0 ∧ c ≠ 0xFF) : cString text = text :=
  cString_eq fun member => (visible 0 member).1 rfl

/-- A write adds at most the four texts of a new section to a file. -/
theorem rewritten_length (sec key value : List Byte) {lines : List IniLine}
    (free : charByte '%' ∉ iniText lines) :
    ∃ text, rewritten sec key value lines = some text ∧
      text.length ≤ (iniText lines).length + sec.length + key.length + value.length + 6 := by
  cases located : locate sec key .outside lines with
  | some found =>
      refine ⟨_, rewritten_found located, ?_⟩
      rw [locate_text located]
      simp only [List.length_append]
      omega
  | none =>
      cases place : insertion sec lines with
      | some both =>
          obtain ⟨before, after⟩ := both
          have printed : formatRest after = some after := Printf.format_plain _ fun member => free (by
            rw [insertion_text place]
            exact List.mem_append_right _ member)
          refine ⟨before ++ entryLine key value ++ after, ?_, ?_⟩
          · rw [rewritten_insert located place, printed, Option.map_some]
          · rw [insertion_text place]
            simp only [entryLine, List.length_append, List.length_singleton]
            omega
      | none =>
          refine ⟨_, rewritten_section located place, ?_⟩
          split <;>
            simp only [headerLine, entryLine, List.length_append, List.length_cons, List.length_nil] <;>
            omega

/-- A write with room for a whole new section returns one. -/
theorem writeProfileString_returns (named : sec ≠ []) (keyed : key ≠ []) (file : Option (List IniLine))
    (free : charByte '%' ∉ iniText (file.getD []))
    (small : (iniText (file.getD [])).length + sec.length + key.length + value.length + 6 < maxFileSize) :
    ∃ stored, writeProfileString fileCallsDone sec key (some value) (file.map iniText) =
      .ok (true, stored) := by
  obtain ⟨text, rewrites, length⟩ := rewritten_length sec key value free
  refine ⟨some (cString text), ?_⟩
  rw [writeProfileString_absent named keyed, writeProfileString_lines named keyed, if_pos (by omega), rewrites]
  exact if_pos (by omega)

/-- A second write of an entry stores the same text. -/
theorem writeProfileString_again (named : sec ≠ []) (keyed : key ≠ []) {lines : List IniLine} {found : Found}
    (located : locate sec key .outside lines = some found) {back : List Byte} (plain : 0xFF ∉ back)
    (small : (iniText lines ++ back).length < maxFileSize) :
    writeProfileString fileCallsDone sec key (some found.value) (some (iniText lines ++ back)) =
      .ok (true, some (cString (iniText lines ++ back))) := by
  have visible : 0xFF ∉ iniText lines ++ back := fun member =>
    (List.mem_append.mp member).elim (iniText_plain lines) plain
  have same : found.before ++ found.value ++ (found.after ++ back) = iniText lines ++ back := by
    rw [locate_text located]
    simp
  rw [writeProfileString, if_neg (not_or.mpr ⟨named, keyed⟩), loadIniFile_plain visible, if_pos small]
  simp only [Option.getD_some, profileText_found located, same]
  rw [if_pos small]
  rfl

/-- The file holds a section with one entry. -/
def mainLines : List IniLine :=
  [⟨.header (stringBytes "main"), charByte '\n', .header (textBytes_of_all rfl) (by decide), rfl⟩,
    ⟨.body (stringBytes "a=1"), charByte '\n', .body (textBytes_of_all rfl) (by decide), rfl⟩]

/-- A written entry is read back, and writing it again leaves the file as it is. -/
theorem writeProfileString_then_reads (file : Option (List IniLine)) (named : SectionName sec)
    (keyed : KeyName key) (plain : ∀ c ∈ value, TextByte c) (free : charByte '%' ∉ iniText (file.getD []))
    {stored : Option (List Byte)}
    (written : writeProfileString fileCallsDone sec key (some value) (file.map iniText) =
      .ok (true, stored))
    (buffer : List Byte) (room : value.length < buffer.length) (defaultValue : Option (List Byte)) :
    (∃ bytes, readProfileString fileCallsDone sec key buffer defaultValue stored = .ok (true, bytes) ∧
        cString bytes = value) ∧
      writeProfileString fileCallsDone sec key (some value) stored = .ok (true, stored) := by
  obtain ⟨_, text, rewrites, small, rfl⟩ := writeProfileString_stored named.named keyed.named written
  obtain ⟨first, back, found, rfl, visible, located, rfl⟩ :=
    rewritten_holds named keyed plain free rewrites
  have behind : 0xFF ∉ back := fun member => (visible _ member).2 rfl
  have whole : cString (iniText first ++ back) = iniText first ++ back :=
    cString_visible (List.forall_mem_append.mpr ⟨iniText_visible first, visible⟩)
  rw [whole]
  refine ⟨⟨_, readProfileString_found named.named keyed.named (List.ne_nil_of_length_pos (by omega))
    defaultValue located behind small, ?_⟩, ?_⟩
  · exact readBuffer_string (fun c member => (plain c member).2.1) room
  · rw [writeProfileString_again named.named keyed.named located behind small, whole]

/-- A new key in a section with an entry. -/
theorem writeProfileString_then_reads_entry :
    (∃ bytes, readProfileString fileCallsDone (stringBytes "main") (stringBytes "b") [7, 7, 7] none
          (some (stringBytes "[main]\nb=2\na=1\n")) = .ok (true, bytes) ∧
        cString bytes = stringBytes "2") ∧
      writeProfileString fileCallsDone (stringBytes "main") (stringBytes "b") (some (stringBytes "2"))
          (some (stringBytes "[main]\nb=2\na=1\n")) =
        .ok (true, some (stringBytes "[main]\nb=2\na=1\n")) :=
  writeProfileString_then_reads (some mainLines) (.of_all (by decide) (by decide) rfl)
    (.of_all (by decide) (by decide) rfl rfl) (textBytes_of_all rfl) (by decide) rfl [7, 7, 7] (by decide) none

end Psuart

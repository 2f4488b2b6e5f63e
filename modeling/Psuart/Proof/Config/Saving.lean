import Psuart.Model.Config
import Psuart.Proof.Ini.Frame
import Psuart.Proof.Ini.Weight

namespace Psuart

open Printf (weight weight_append weight_sublist)

/-- An entry that can be stored in a section. -/
structure Entry where
  key : List Byte
  value : List Byte
  keyed : KeyName key
  plain : ∀ c ∈ value, TextByte c

def Entry.line (entry : Entry) : IniLine := entryLineOf [] (List.forall_mem_nil _) entry.keyed entry.plain

theorem Entry.line_text (entry : Entry) : iniText [entry.line] = entryLine entry.key entry.value := by
  rw [Entry.line, entryLineOf_text, List.nil_append]

theorem Entry.line_closed (entry : Entry) (sec : List Byte) : entry.line.content.opens sec = false := rfl

/-- A section passes an entry line whose key does not begin the requested one. -/
theorem Entry.line_passes (entry : Entry) {key : List Byte} (other : ¬entry.key <+: key) (sec : List Byte)
    {mode : Reading} (inside : mode ≠ .outside) :
    entry.line.content.hit key mode = none ∧ entry.line.content.next sec mode = .inside := by
  have shape := entry.keyed.shape (List.forall_mem_nil _)
  have miss : entryOf key (entry.key ++ charByte '=' :: entry.value) = none := by
    rw [entryOf_line shape.free shape.named shape.comment, if_neg other]
  cases mode with
  | outside => exact absurd rfl inside
  | inside => exact ⟨miss, rfl⟩
  | fresh =>
      obtain ⟨_, rest⟩ := shape.split entry.value
      refine ⟨?_, entryLineOf_next _ _ _⟩
      rw [Entry.line, entryLineOf, IniContent.hit, rest, miss]
      rfl

variable {sec : List Byte} {lines front : List IniLine}

theorem locate_entries {key : List Byte} {entries : List Entry}
    (others : ∀ entry ∈ entries, ¬entry.key <+: key) {mode : Reading} (inside : mode ≠ .outside) :
    locate sec key mode (entries.map Entry.line) = none := by
  induction entries generalizing mode with
  | nil => rfl
  | cons entry rest ih =>
      rw [List.forall_mem_cons] at others
      obtain ⟨miss, next⟩ := entry.line_passes others.1 sec inside
      rw [List.map_cons, locate_cons_none, next]
      exact ⟨miss, ih others.2 (by decide)⟩

/-- The entries of a section start with a visible character. -/
theorem entries_visible (entries : List Entry) :
    (iniText (entries.map Entry.line)).takeWhile isspace = [] ∧
      (iniText (entries.map Entry.line)).dropWhile isspace = iniText (entries.map Entry.line) := by
  cases entries with
  | nil => exact ⟨rfl, rfl⟩
  | cons entry rest =>
      obtain ⟨c, tail, key⟩ := List.exists_cons_of_ne_nil entry.keyed.named
      have visible := (entry.keyed.start c (by rw [key]; rfl)).2.2
      have text : iniText ((entry :: rest).map Entry.line) =
          c :: (tail ++ [charByte '='] ++ entry.value ++ [charByte '\n'] ++
            iniText (rest.map Entry.line)) := by
        rw [List.map_cons, ← List.singleton_append, iniText_append, entry.line_text, entryLine, key]
        simp
      rw [text]
      exact ⟨List.takeWhile_cons_of_neg (by simp [visible]), List.dropWhile_cons_of_neg (by simp [visible])⟩

/-- A section at the end of a file with its newest entry first. -/
def sectionLines (named : SectionName sec) (front : List IniLine) (entries : List Entry) : List IniLine :=
  front ++ headerLineOf named :: entries.map Entry.line

theorem headerLineOf_opens (named : SectionName sec) : (headerLineOf named).content.opens sec = true :=
  decide_eq_true List.prefix_rfl

/-- A new key of the last section is absent, and its place is behind the header. -/
theorem sectionLines_place (named : SectionName sec) (nowhere : insertion sec front = none)
    {entries : List Entry} {key : List Byte} (others : ∀ entry ∈ entries, ¬entry.key <+: key) :
    locate sec key .outside (sectionLines named front entries) = none ∧
      insertion sec (sectionLines named front entries) =
        some (iniText (front ++ [headerLineOf named]), iniText (entries.map Entry.line)) := by
  obtain ⟨blank, visible⟩ := entries_visible entries
  have closed : ∀ line ∈ entries.map Entry.line, line.content.opens sec = false := by
    intro line member
    obtain ⟨entry, _, rfl⟩ := List.mem_map.mp member
    exact entry.line_closed sec
  constructor
  · have opened := locate_opened key (locate_nowhere key nowhere) (headerLineOf_opens named)
      (List.forall_mem_nil _)
    rw [sectionLines, ← List.singleton_append, ← List.append_assoc, locate_append_none]
    refine ⟨opened.1, ?_⟩
    rw [opened.2]
    exact locate_entries others (by decide)
  · rw [sectionLines, insertion_last (headerLineOf_opens named) closed, blank, visible, List.append_nil,
      iniText_append]
    simp [iniText]

/-- One write of `save_config`. -/
def pass (sec : List Byte) (entry : Entry) (file : Option (List Byte)) :
    Except IniFault (Option (List Byte)) :=
  (writeProfileString fileCallsDone sec entry.key (some entry.value) file).map Prod.snd

/-- The writes have stored the lines, or a value with `%` has cost them weight. -/
inductive Progress (clean : Prop) (lines : List IniLine) : Except IniFault (Option (List Byte)) → Prop
  | exact {file : Option (List IniLine)} (holds : clean) (same : file.getD [] = lines) :
      Progress clean lines (.ok (file.map iniText))
  | lost {text : Option (List Byte)} (fails : ¬clean)
      (lighter : weight (text.getD []) < weight (iniText lines)) : Progress clean lines (.ok text)
  | failed {fault : IniFault} (fails : ¬clean) : Progress clean lines (.error fault)

variable {clean : Prop} {result : Except IniFault (Option (List Byte))}

theorem Progress.stored (holds : clean) : Progress clean lines (.ok (some (iniText lines))) :=
  @Progress.exact clean lines (some lines) holds rfl

theorem Progress.congr {other : Prop} (same : clean ↔ other) (progress : Progress clean lines result) :
    Progress other lines result := by
  rwa [← propext same]

/-- A write that has lost weight does not gain it back. -/
theorem Progress.pass_lost {entry : Entry} {text : Option (List Byte)} {after : List IniLine} (fails : ¬clean)
    (light : weight sec = 0) (lighter : weight (text.getD []) < weight (iniText lines))
    (grows : weight (iniText after) = weight (iniText lines) + weight entry.key + weight entry.value) :
    Progress clean after (pass sec entry text) := by
  rw [pass]
  cases written : writeProfileString fileCallsDone sec entry.key (some entry.value) text with
  | error fault => exact .failed fails
  | ok both =>
      have bound := weight_writeProfileString written
      exact .lost fails (by omega)

/-- A write to stored lines gives the rewritten text. -/
theorem pass_lines (named : SectionName sec) (entry : Entry) {file : Option (List IniLine)}
    (same : file.getD [] = lines) (small : (iniText lines).length < maxFileSize) :
    pass sec entry (file.map iniText) =
      match rewritten sec entry.key entry.value lines with
      | none => .error .undefinedFormat
      | some text =>
          if text.length < maxFileSize then .ok (some (cString text)) else .error .bufferOverflow := by
  rw [pass, writeProfileString_absent named.named entry.keyed.named, same,
    writeProfileString_lines named.named entry.keyed.named, if_pos small]
  cases rewritten sec entry.key entry.value lines with
  | none => rfl
  | some text =>
      dsimp only
      split <;> rfl

/-- The blank line in front of a section that is not the first one. -/
def gap (lines : List IniLine) : List IniLine := if iniText lines = [] then [] else [blankLine]

theorem gap_blank (lines : List IniLine) : ∀ line ∈ gap lines, line.Blank := by
  rw [gap]
  split
  · exact List.forall_mem_nil _
  · exact blankLine_blank

theorem weight_gap (lines : List IniLine) : weight (iniText (gap lines)) = 0 := by
  rw [gap]
  split <;> rfl

/-- The first entry of a section is written behind the stored lines. -/
theorem Progress.pass_section (progress : Progress clean lines result) (named : SectionName sec)
    (light : weight sec = 0) (nowhere : insertion sec lines = none) (entry : Entry)
    (small : (iniText (sectionLines named (lines ++ gap lines) [entry])).length < maxFileSize) :
    Progress clean (sectionLines named (lines ++ gap lines) [entry]) (result >>= pass sec entry) := by
  have text : iniText (sectionLines named (lines ++ gap lines) [entry]) =
      iniText lines ++ iniText (gap lines) ++ (headerLine sec ++ entryLine entry.key entry.value) := by
    rw [sectionLines, iniText_append, iniText_append, List.map_singleton, Entry.line, section_text]
  have grows : weight (iniText (sectionLines named (lines ++ gap lines) [entry])) =
      weight (iniText lines) + weight entry.key + weight entry.value := by
    simp only [text, weight_append, weight_gap, weight_headerLine, weight_entryLine, light]
    omega
  cases progress with
  | @exact file holds same =>
      have fits : (iniText lines).length < maxFileSize := by
        rw [text] at small
        simp only [List.length_append] at small
        omega
      have stored : rewritten sec entry.key entry.value lines =
          some (iniText (sectionLines named (lines ++ gap lines) [entry])) := by
        rw [rewritten_section (locate_nowhere _ nowhere) nowhere, text, gap]
        split
        · rename_i empty
          rw [empty]
          rfl
        · rw [blankLine_text]
          simp only [List.append_assoc]
      have whole := cString_visible (iniText_visible (sectionLines named (lines ++ gap lines) [entry]))
      change Progress clean _ (pass sec entry (file.map iniText))
      rw [pass_lines named entry same fits, stored]
      dsimp only
      rw [if_pos small, whole]
      exact .stored holds
  | lost fails lighter => exact .pass_lost fails light lighter grows
  | failed fails => exact .failed fails

/-- A further entry is written in front of the stored entries, which are formatted. -/
theorem Progress.pass_entry {front : List IniLine} {entries : List Entry} (named : SectionName sec)
    (progress : Progress clean (sectionLines named front entries) result) (light : weight sec = 0)
    (nowhere : insertion sec front = none) (entry : Entry)
    (others : ∀ earlier ∈ entries, ¬earlier.key <+: entry.key)
    (small : (iniText (sectionLines named front (entry :: entries))).length < maxFileSize) :
    Progress (clean ∧ charByte '%' ∉ iniText (entries.map Entry.line))
      (sectionLines named front (entry :: entries)) (result >>= pass sec entry) := by
  have before : iniText (sectionLines named front entries) =
      iniText (front ++ [headerLineOf named]) ++ iniText (entries.map Entry.line) := by
    rw [← iniText_append, sectionLines, List.append_assoc, List.singleton_append]
  have text : iniText (sectionLines named front (entry :: entries)) =
      iniText (front ++ [headerLineOf named]) ++ entryLine entry.key entry.value ++
        iniText (entries.map Entry.line) := by
    rw [← entry.line_text, ← iniText_append, ← iniText_append, sectionLines]
    simp
  have grows : weight (iniText (sectionLines named front (entry :: entries))) =
      weight (iniText (sectionLines named front entries)) + weight entry.key + weight entry.value := by
    rw [text, before]
    simp only [weight_append, weight_entryLine]
    omega
  cases progress with
  | @exact file holds same =>
      have fits : (iniText (sectionLines named front entries)).length < maxFileSize := by
        rw [text] at small
        rw [before]
        simp only [List.length_append] at small ⊢
        omega
      obtain ⟨absent, place⟩ := sectionLines_place named nowhere others
      change Progress _ _ (pass sec entry (file.map iniText))
      rw [pass_lines named entry same fits, rewritten_insert absent place]
      by_cases free : charByte '%' ∉ iniText (entries.map Entry.line)
      · have whole := cString_visible (iniText_visible (sectionLines named front (entry :: entries)))
        rw [formatRest, Printf.format_plain _ free, Option.map_some, ← text]
        dsimp only
        rw [if_pos small, whole]
        exact .stored ⟨holds, free⟩
      · have fails : ¬(clean ∧ charByte '%' ∉ iniText (entries.map Entry.line)) := fun both => free both.2
        rw [formatRest]
        cases printed : Printf.format .text _ (iniText (entries.map Entry.line)) with
        | none => exact .failed fails
        | some rest =>
            have lighter := Printf.weight_format_lt (not_not.mp free) printed
            dsimp only [Option.map_some]
            split
            · refine .lost fails ?_
              have string : weight (cString (iniText (front ++ [headerLineOf named]) ++
                  entryLine entry.key entry.value ++ rest)) ≤ _ := weight_sublist (List.takeWhile_sublist _)
              rw [Option.getD_some, text]
              simp only [weight_append] at string ⊢
              omega
            · exact .failed fails
  | lost fails lighter => exact .pass_lost (fun both => fails both.1) light lighter grows
  | failed fails => exact .failed fun both => fails both.1

theorem iniText_sublist {part : List IniLine} (inside : part.Sublist lines) :
    (iniText part).Sublist (iniText lines) := inside.flatMap IniLine.bytes

theorem sectionLines_sublist (named : SectionName sec) (front : List IniLine) {entries others : List Entry}
    (inside : entries.Sublist others) :
    (sectionLines named front entries).Sublist (sectionLines named front others) :=
  ((inside.map Entry.line).cons_cons _).append_left front

/-- The writes of `save_config` for the entries of one section. -/
def passes (sec : List Byte) (entries : List Entry) (file : Option (List Byte)) :
    Except IniFault (Option (List Byte)) :=
  entries.foldlM (fun file entry => pass sec entry file) file

/-- No key begins a later one. -/
def KeysApart (entries : List Entry) : Prop :=
  entries.Pairwise fun earlier later => ¬earlier.key <+: later.key

/-- The entries behind the newest one are formatted at least once. -/
def Unformatted (entries : List Entry) : Prop := charByte '%' ∉ iniText (entries.tail.map Entry.line)

/-- The further entries of a section are written one by one. -/
theorem Progress.passes_entries {front : List IniLine} (named : SectionName sec) (light : weight sec = 0)
    (nowhere : insertion sec front = none) {entries rest : List Entry}
    (progress : Progress (clean ∧ Unformatted entries) (sectionLines named front entries) result)
    (keys : KeysApart (entries.reverse ++ rest))
    (small : (iniText (sectionLines named front (rest.reverse ++ entries))).length < maxFileSize) :
    Progress (clean ∧ Unformatted (rest.reverse ++ entries)) (sectionLines named front (rest.reverse ++ entries))
      (result >>= passes sec rest) := by
  induction rest generalizing entries result with
  | nil =>
      have same : result >>= passes sec [] = result := bind_pure result
      rwa [same]
  | cons entry rest ih =>
      have others : ∀ earlier ∈ entries, ¬earlier.key <+: entry.key := fun earlier member =>
        (List.pairwise_append.mp keys).2.2 earlier (List.mem_reverse.mpr member) entry (List.mem_cons_self ..)
      have order : (entry :: rest).reverse ++ entries = rest.reverse ++ (entry :: entries) := by simp
      have steps : result >>= passes sec (entry :: rest) = (result >>= pass sec entry) >>= passes sec rest := by
        rw [bind_assoc]
        rfl
      rw [order] at small ⊢
      have part := sectionLines_sublist named front (List.sublist_append_right rest.reverse (entry :: entries))
      have next := Progress.pass_entry named progress light nowhere entry others
        (Nat.lt_of_le_of_lt (iniText_sublist part).length_le small)
      rw [steps]
      refine ih (next.congr ?_) ?_ small
      · constructor
        · exact fun both => ⟨both.1.1, both.2⟩
        · intro both
          have inner := iniText_sublist ((List.tail_sublist entries).map Entry.line)
          exact ⟨⟨both.1, fun member => both.2 (inner.subset member)⟩, both.2⟩
      · rwa [List.reverse_cons, List.append_assoc, List.singleton_append]

theorem insertion_gap (nowhere : insertion sec lines = none) : insertion sec (lines ++ gap lines) = none := by
  rw [insertion_none] at nowhere ⊢
  refine List.forall_mem_append.mpr ⟨nowhere, fun line member => ?_⟩
  obtain ⟨text, content, _⟩ := gap_blank lines line member
  rw [content]
  rfl

/-- A whole section is written behind the stored lines. -/
theorem Progress.passes_section (progress : Progress clean lines result) (named : SectionName sec)
    (light : weight sec = 0) (nowhere : insertion sec lines = none) {entries : List Entry} (some : entries ≠ [])
    (keys : KeysApart entries)
    (small : (iniText (sectionLines named (lines ++ gap lines) entries.reverse)).length < maxFileSize) :
    Progress (clean ∧ Unformatted entries.reverse) (sectionLines named (lines ++ gap lines) entries.reverse)
      (result >>= passes sec entries) := by
  obtain ⟨first, rest, rfl⟩ := List.exists_cons_of_ne_nil some
  have steps : result >>= passes sec (first :: rest) = (result >>= pass sec first) >>= passes sec rest := by
    rw [bind_assoc]
    rfl
  rw [List.reverse_cons] at small ⊢
  have part := sectionLines_sublist named (lines ++ gap lines) (List.sublist_append_right rest.reverse [first])
  have start := progress.pass_section named light nowhere first
    (Nat.lt_of_le_of_lt (iniText_sublist part).length_le small)
  rw [steps]
  exact Progress.passes_entries named light (insertion_gap nowhere)
    (start.congr ⟨fun holds => ⟨holds, List.not_mem_nil⟩, And.left⟩) keys small

end Psuart

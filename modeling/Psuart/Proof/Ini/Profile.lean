import Psuart.Proof.Ini.Frame
import Psuart.Spec.Profile

namespace Psuart

variable {sec key : List Byte}

/-- An entry of the writer has no white space in front. -/
theorem blank_nil : ∀ c ∈ ([] : List Byte), isspace c = true ∧ TextByte c := List.forall_mem_nil _

def entryLines (entries : List (EntryKey × EntryText)) : List IniLine :=
  entries.map fun entry => entryLineOf [] blank_nil entry.1.property.1 entry.2.property.1

def enteredLines (entered : SectionKey × List (EntryKey × EntryText)) : List IniLine :=
  headerLineOf entered.1.property.1 :: entryLines entered.2

/-- The sections in front of a section end with an empty line. -/
def frontLines (profile : Profile) : List IniLine :=
  profile.flatMap fun entered => enteredLines entered ++ [blankLine]

/-- The sections behind a section start with an empty line. -/
def backLines (profile : Profile) : List IniLine :=
  profile.flatMap fun entered => blankLine :: enteredLines entered

def Profile.lines : Profile → List IniLine
  | [] => []
  | first :: rest => enteredLines first ++ backLines rest

theorem entryLines_text (entries : List (EntryKey × EntryText)) :
    iniText (entryLines entries) = entries.flatMap fun entry => entryLine entry.1.val entry.2.val := by
  induction entries with
  | nil => rfl
  | cons entry rest ih =>
      rw [entryLines, List.map_cons, ← List.singleton_append, iniText_append, entryLineOf_text, List.nil_append,
        List.flatMap_cons, ← ih]
      rfl

theorem enteredLines_text (entered : SectionKey × List (EntryKey × EntryText)) :
    iniText (enteredLines entered) = sectionText entered := by
  rw [enteredLines, ← List.singleton_append, iniText_append, headerLineOf_text, entryLines_text]
  rfl

theorem backLines_text (profile : Profile) :
    iniText (backLines profile) = profile.flatMap fun entered => charByte '\n' :: sectionText entered := by
  induction profile with
  | nil => rfl
  | cons entered rest ih =>
      have first : backLines (entered :: rest) = [blankLine] ++ (enteredLines entered ++ backLines rest) := by
        simp [backLines]
      rw [first, iniText_append, iniText_append, blankLine_text, enteredLines_text, ih]
      simp

theorem Profile.lines_text (profile : Profile) : iniText profile.lines = profile.text := by
  cases profile with
  | nil => rfl
  | cons first rest => rw [Profile.lines, iniText_append, enteredLines_text, backLines_text, Profile.text]

/-- A section cuts the lines of its profile. -/
theorem Profile.lines_split (front back : Profile) (entered : SectionKey × List (EntryKey × EntryText)) :
    Profile.lines (front ++ entered :: back) = frontLines front ++ (enteredLines entered ++ backLines back) := by
  cases front with
  | nil => rfl
  | cons first rest =>
      have moved : enteredLines first ++ backLines (rest ++ entered :: back) =
          frontLines (first :: rest) ++ (enteredLines entered ++ backLines back) := by
        induction rest generalizing first with
        | nil => simp [backLines, frontLines]
        | cons second rest ih =>
            have behind : backLines (second :: rest ++ entered :: back) =
                blankLine :: (enteredLines second ++ backLines (rest ++ entered :: back)) := by
              simp [backLines]
            have before : frontLines (first :: second :: rest) =
                enteredLines first ++ blankLine :: frontLines (second :: rest) := by
              simp [frontLines]
            rw [behind, ih second, before]
            simp only [List.append_assoc, List.cons_append]
      exact moved

theorem Profile.lines_append {profile : Profile} (some : profile ≠ [])
    (entered : SectionKey × List (EntryKey × EntryText)) :
    Profile.lines (profile ++ [entered]) = profile.lines ++ blankLine :: enteredLines entered := by
  obtain ⟨first, rest, rfl⟩ := List.exists_cons_of_ne_nil some
  simp [Profile.lines, backLines]

section Closed

variable (sec) in
theorem entryLines_closed (entries : List (EntryKey × EntryText)) :
    ∀ line ∈ entryLines entries, line.content.opens sec = false := by
  intro line member
  obtain ⟨entry, _, rfl⟩ := List.mem_map.mp member
  rfl

theorem enteredLines_closed {entered : SectionKey × List (EntryKey × EntryText)}
    (other : ¬entered.1.val <+: sec) : ∀ line ∈ enteredLines entered, line.content.opens sec = false :=
  List.forall_mem_cons.mpr ⟨decide_eq_false other, entryLines_closed sec entered.2⟩

theorem frontLines_closed {profile : Profile} (others : ∀ entered ∈ profile, ¬entered.1.val <+: sec) :
    ∀ line ∈ frontLines profile, line.content.opens sec = false := by
  intro line member
  obtain ⟨entered, inside, last⟩ := List.mem_flatMap.mp member
  rcases List.mem_append.mp last with text | blank
  · exact enteredLines_closed (others entered inside) line text
  · rw [List.mem_singleton.mp blank]
    rfl

theorem backLines_closed {profile : Profile} (others : ∀ entered ∈ profile, ¬entered.1.val <+: sec) :
    ∀ line ∈ backLines profile, line.content.opens sec = false := by
  intro line member
  obtain ⟨entered, inside, last⟩ := List.mem_flatMap.mp member
  rcases List.mem_cons.mp last with rfl | text
  · rfl
  · exact enteredLines_closed (others entered inside) line text

theorem Profile.lines_closed {profile : Profile} (others : ∀ entered ∈ profile, ¬entered.1.val <+: sec) :
    ∀ line ∈ profile.lines, line.content.opens sec = false := by
  cases profile with
  | nil => exact List.forall_mem_nil _
  | cons first rest =>
      rw [List.forall_mem_cons] at others
      exact List.forall_mem_append.mpr ⟨enteredLines_closed others.1, backLines_closed others.2⟩

end Closed

section Entries

variable {mode : Reading} (reached : mode ≠ .outside)
include reached

/-- An entry line is read in every reading of its section. -/
theorem entryLine_hit (entry : EntryKey × EntryText) :
    (entryLineOf [] blank_nil entry.1.property.1 entry.2.property.1).content.hit entry.1.val mode =
      some (entry.1.val ++ [charByte '='], entry.2.val) := by
  have keyed := entry.1.property.1
  have shape : EntryShape mode [] entry.1.val :=
    ⟨reached, List.forall_mem_nil _, fun _ => rfl, fun _ c head => (keyed.start c head).2.2, keyed.free, keyed.named,
      fun head => (keyed.start _ head).2.1 rfl⟩
  exact hit_some.mpr ⟨[], entry.1.val, rfl, rfl, shape, List.prefix_rfl⟩

omit reached in
/-- An entry line is read by the keys that its own key begins. -/
theorem entryLine_miss {entry : EntryKey × EntryText} (other : ¬entry.1.val <+: key) (mode : Reading) :
    (entryLineOf [] blank_nil entry.1.property.1 entry.2.property.1).content.hit key mode = none := by
  have keyed := entry.1.property.1
  by_contra present
  obtain ⟨⟨lead, value⟩, hit⟩ := Option.ne_none_iff_exists'.mp present
  obtain ⟨blank, name, _, rfl, shape, begins⟩ := hit_some.mp hit
  have own := hit_lead (hit.trans rfl)
  have free : ∀ c ∈ entry.1.val, decide (c ≠ charByte '=') = true :=
    fun c member => decide_eq_true fun same => keyed.free (same ▸ member)
  have text : (entryLineOf [] blank_nil entry.1.property.1 entry.2.property.1).content.bytes =
      entry.1.val ++ charByte '=' :: entry.2.val := rfl
  rw [text, Scan.takeWhile_stop free (by simp), ← List.append_assoc] at own
  have same : blank ++ name = entry.1.val := List.append_cancel_right own
  cases blank with
  | nil => exact other (same ▸ begins)
  | cons c rest =>
      have space := shape.white c List.mem_cons_self
      have visible := (keyed.start c (by rw [← same]; rfl)).2.2
      rw [space] at visible
      cases visible

variable (sec) in
/-- Other entries are passed inside of the section. -/
theorem entryLines_pass {entries : List (EntryKey × EntryText)} (others : ∀ entry ∈ entries, ¬entry.1.val <+: key) :
    locate sec key mode (entryLines entries) = none ∧ readAll sec mode (entryLines entries) ≠ .outside := by
  induction entries generalizing mode with
  | nil => exact ⟨rfl, reached⟩
  | cons entry rest ih =>
      rw [List.forall_mem_cons] at others
      have stays : (entryLineOf [] blank_nil entry.1.property.1
          entry.2.property.1).content.next sec mode ≠ .outside := by
        cases mode with
        | outside => exact absurd rfl reached
        | fresh =>
            simp only [entryLineOf, IniContent.next]
            split <;> exact fun same => Reading.noConfusion same
        | inside => exact fun same => Reading.noConfusion same
      obtain ⟨nothing, last⟩ := ih stays others.2
      exact ⟨locate_cons_none.mpr ⟨entryLine_miss others.1 mode, nothing⟩, last⟩

end Entries

end Psuart

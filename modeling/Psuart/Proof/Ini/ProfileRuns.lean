import Psuart.Proof.Ini.Profile

namespace Psuart

/-- The names of a profile are distinct names of two lists, and each section has an entry. -/
structure Profile.Within (secs : List SectionKey) (keys : List EntryKey) (profile : Profile) : Prop where
  distinct : (profile.map Prod.fst).Nodup
  each : ∀ entered ∈ profile, entered.2 ≠ [] ∧ ∀ entry ∈ entered.2, entered.1 ∈ secs ∧ entry.1 ∈ keys

theorem Profile.Within.put {secs : List SectionKey} {keys : List EntryKey} {profile : Profile}
    (within : profile.Within secs keys) {sec : SectionKey} {key : EntryKey} (value : EntryText)
    (named : sec ∈ secs) (keyed : key ∈ keys) : Profile.Within secs keys (Store.put sec key value profile) :=
  ⟨Store.put_nodup sec key value within.distinct,
    Store.forall_put (fun sec key _ => sec ∈ secs ∧ key ∈ keys) within.each ⟨named, keyed⟩⟩

/-- The texts of a profile hold no format directive. -/
theorem Profile.text_plain (profile : Profile) : charByte '%' ∉ profile.text := by
  have entry (pair : EntryKey × EntryText) : charByte '%' ∉ entryLine pair.1.val pair.2.val := by
    simp only [entryLine, List.mem_append, not_or]
    exact ⟨⟨⟨pair.1.property.2, by decide⟩, pair.2.property.2⟩, by decide⟩
  have entered (head : SectionKey × List (EntryKey × EntryText)) : charByte '%' ∉ sectionText head := by
    simp only [sectionText, headerLine, List.mem_append, List.mem_flatMap, not_or, not_exists, not_and]
    exact ⟨⟨⟨by decide, head.1.property.2⟩, by decide⟩, fun pair _ => entry pair⟩
  cases profile with
  | nil => exact List.not_mem_nil
  | cons first rest =>
      simp only [Profile.text, List.mem_append, List.mem_flatMap, List.mem_cons, not_or, not_exists, not_and]
      exact ⟨entered first, fun head _ => ⟨by decide, entered head⟩⟩

section Section

variable {front back : Profile} {sec : SectionKey} {entries : List (EntryKey × EntryText)}
  (before : ∀ entered ∈ front, ¬entered.1.val <+: sec.val)
include before

/-- The header of a section opens it behind other sections. -/
theorem Profile.opened (key : List Byte) :
    locate sec.val key .outside (frontLines front ++ [headerLineOf sec.property.1]) = none ∧
      readAll sec.val .outside (frontLines front ++ [headerLineOf sec.property.1]) = .fresh :=
  locate_opened key (locate_nowhere key (insertion_none.mpr (frontLines_closed before)))
    (decide_eq_true List.prefix_rfl) (List.forall_mem_nil _)

/-- An entry is found in its section. -/
theorem Profile.locate_entry {first last : List (EntryKey × EntryText)} {key : EntryKey} (value : EntryText)
    (others : ∀ entry ∈ first, ¬entry.1.val <+: key.val) :
    locate sec.val key.val .outside (Profile.lines (front ++ (sec, first ++ (key, value) :: last) :: back)) =
      some ⟨iniText (frontLines front) ++ headerLine sec.val ++ iniText (entryLines first) ++
          (key.val ++ [charByte '=']), value.val, charByte '\n' :: iniText (entryLines last ++ backLines back)⟩ := by
  obtain ⟨nothing, fresh⟩ := Profile.opened before key.val
  obtain ⟨absent, reached⟩ := entryLines_pass sec.val (show Reading.fresh ≠ .outside by decide) others
  have passed : locate sec.val key.val .outside
      (frontLines front ++ [headerLineOf sec.property.1] ++ entryLines first) = none :=
    locate_append_none.mpr ⟨nothing, by rw [fresh]; exact absent⟩
  have inside : readAll sec.val .outside
      (frontLines front ++ [headerLineOf sec.property.1] ++ entryLines first) ≠ .outside := by
    rw [readAll_append, fresh]
    exact reached
  have found := locate_hit passed (entryLine_hit inside (key, value)) (entryLines last ++ backLines back)
  have whole : Profile.lines (front ++ (sec, first ++ (key, value) :: last) :: back) =
      frontLines front ++ [headerLineOf sec.property.1] ++ entryLines first ++
        entryLineOf [] blank_nil key.property.1 value.property.1 ::
          (entryLines last ++ backLines back) := by
    rw [Profile.lines_split]
    simp [enteredLines, entryLines]
  rw [whole, found, iniText_append, iniText_append, headerLineOf_text]
  rfl

/-- A section without the key holds no entry for it. -/
theorem Profile.locate_absent {key : EntryKey} (behind : ∀ entered ∈ back, ¬entered.1.val <+: sec.val)
    (others : ∀ entry ∈ entries, ¬entry.1.val <+: key.val) :
    locate sec.val key.val .outside (Profile.lines (front ++ (sec, entries) :: back)) = none := by
  obtain ⟨nothing, fresh⟩ := Profile.opened before key.val
  obtain ⟨absent, _⟩ := entryLines_pass sec.val (show Reading.fresh ≠ .outside by decide) others
  have later (mode : Reading) : locate sec.val key.val mode (backLines back) = none := by
    cases back with
    | nil => rfl
    | cons head rest =>
        rw [List.forall_mem_cons] at behind
        obtain ⟨miss, next⟩ := (blankLine_blank blankLine (by simp)).passes sec.val key.val mode
        have closed := List.forall_mem_append.mpr ⟨entryLines_closed sec.val head.2, backLines_closed behind.2⟩
        have outside : (headerLineOf head.1.property.1).content.next sec.val mode = .outside := if_neg behind.1
        have shape : backLines (head :: rest) =
            blankLine :: headerLineOf head.1.property.1 :: (entryLines head.2 ++ backLines rest) := by
          simp [backLines, enteredLines]
        rw [shape, locate_cons_none, next, locate_cons_none, outside]
        exact ⟨miss, rfl, locate_nowhere key.val (insertion_none.mpr closed)⟩
  have whole : Profile.lines (front ++ (sec, entries) :: back) =
      frontLines front ++ [headerLineOf sec.property.1] ++ (entryLines entries ++ backLines back) := by
    rw [Profile.lines_split]
    simp [enteredLines]
  rw [whole]
  exact locate_append_none.mpr ⟨nothing, by rw [fresh]; exact locate_append_none.mpr ⟨absent, later _⟩⟩

omit before in
/-- A section cuts the text of its profile. -/
theorem Profile.text_split (front back : Profile) (sec : SectionKey) (entries : List (EntryKey × EntryText)) :
    Profile.text (front ++ (sec, entries) :: back) =
      iniText (frontLines front) ++ headerLine sec.val ++ iniText (entryLines entries ++ backLines back) := by
  rw [← Profile.lines_text, Profile.lines_split, enteredLines, iniText_append, ← List.singleton_append,
    List.append_assoc [_], iniText_append [_], headerLineOf_text, List.append_assoc]

omit before in
/-- The text behind a header starts with a visible character. -/
theorem entryLines_visible (some : entries ≠ []) (back : Profile) :
    (iniText (entryLines entries ++ backLines back)).takeWhile isspace = [] ∧
      (iniText (entryLines entries ++ backLines back)).dropWhile isspace =
        iniText (entryLines entries ++ backLines back) := by
  obtain ⟨entry, rest, rfl⟩ := List.exists_cons_of_ne_nil some
  have keyed := entry.1.property.1
  obtain ⟨c, key, name⟩ := List.exists_cons_of_ne_nil keyed.named
  have visible := (keyed.start c (by rw [name]; rfl)).2.2
  rw [iniText_append, entryLines_text, List.flatMap_cons, entryLine, name]
  simp only [List.cons_append]
  exact ⟨List.takeWhile_cons_of_neg (by simp [visible]), List.dropWhile_cons_of_neg (by simp [visible])⟩

end Section

section Put

variable {secs : List SectionKey} {keys : List EntryKey} (apart : Apart secs) (others : Apart keys)
  {profile : Profile} (within : profile.Within secs keys) {sec : SectionKey} {key : EntryKey}
  (named : sec ∈ secs) (keyed : key ∈ keys)

include apart within named in
theorem Profile.Within.begins (part : Profile) (inside : ∀ entered ∈ part, entered ∈ profile)
    (other : ∀ entered ∈ part, entered.1 ≠ sec) : ∀ entered ∈ part, ¬entered.1.val <+: sec.val := by
  intro entered member begins
  obtain ⟨some, each⟩ := within.each entered (inside entered member)
  obtain ⟨entry, first⟩ := List.exists_mem_of_ne_nil _ some
  exact other entered member (apart _ (each entry first).1 sec named begins)

include others within keyed in
theorem Profile.Within.keys_begin {entered : SectionKey × List (EntryKey × EntryText)} (member : entered ∈ profile)
    (part : List (EntryKey × EntryText)) (inside : ∀ entry ∈ part, entry ∈ entered.2)
    (other : ∀ entry ∈ part, entry.1 ≠ key) : ∀ entry ∈ part, ¬entry.1.val <+: key.val := by
  intro entry first begins
  obtain ⟨_, each⟩ := within.each entered member
  exact other entry first (others _ (each entry (inside entry first)).2 key keyed begins)

omit apart others named keyed in
include within in
theorem Profile.Within.distinct_behind {front back : Profile} {entries : List (EntryKey × EntryText)}
    (split : profile = front ++ (sec, entries) :: back) : ∀ entered ∈ back, entered.1 ≠ sec :=
  Store.apart_behind (split ▸ within.distinct)

include apart others within named keyed

/-- The value that the parser finds is the value of the store. -/
theorem Profile.valueOf_lines :
    valueOf sec.val key.val .outside profile.lines = (Store.get sec key profile).map Subtype.val := by
  rcases Store.split_first sec profile with absent | ⟨front, entries, back, split, first⟩
  · have closed := Profile.lines_closed (within.begins apart named _ (fun _ member => member) absent)
    rw [Store.get_absent key absent]
    exact valueOf_absent (locate_nowhere key.val (insertion_none.mpr closed))
  · have member : (sec, entries) ∈ profile := by simp [split]
    have before := within.begins apart named front (fun _ inside => by simp [split, inside]) first
    have behind := within.begins apart named back (fun _ inside => by simp [split, inside])
      (within.distinct_behind split)
    rw [split, Store.get_append key first, Store.get_cons, if_pos rfl]
    rcases Store.split_first key entries with none | ⟨lead, value, last, rfl, ahead⟩
    · rw [Store.getEntry_absent none]
      exact valueOf_absent (Profile.locate_absent before behind
        (within.keys_begin others keyed member _ (fun _ inside => inside) none))
    · have missed := within.keys_begin others keyed member lead
        (fun _ inside => List.mem_append_left _ inside) ahead
      rw [Store.getEntry_append ahead, Store.getEntry_cons, if_pos rfl, valueOf,
        Profile.locate_entry before value missed]
      rfl

/-- A write to the text of a profile is a put to its store. -/
theorem Profile.rewritten_put (value : EntryText) :
    rewritten sec.val key.val value.val profile.lines = some (Profile.text (Store.put sec key value profile)) := by
  rcases Store.split_first sec profile with absent | ⟨front, entries, back, split, first⟩
  · have closed := Profile.lines_closed (within.begins apart named _ (fun _ member => member) absent)
    have nowhere := insertion_none.mpr closed
    have new : iniText (enteredLines (sec, [(key, value)])) = headerLine sec.val ++ entryLine key.val value.val := by
      rw [enteredLines_text]
      simp [sectionText]
    rw [rewritten_section (locate_nowhere key.val nowhere) nowhere, Store.put_absent key value absent,
      ← Profile.lines_text]
    cases profile with
    | nil =>
        have single : Profile.lines ([] ++ [(sec, [(key, value)])]) = enteredLines (sec, [(key, value)]) :=
          List.append_nil _
        rw [if_pos (show iniText (Profile.lines []) = [] from rfl), single, new]
    | cons head rest =>
        have some : iniText (Profile.lines (head :: rest)) ≠ [] := by
          rw [Profile.lines_text, Profile.text, sectionText, headerLine]
          simp
        have blank : blankLine.bytes = [charByte '\n'] := rfl
        rw [if_neg some, Profile.lines_append (List.cons_ne_nil _ _), iniText_append, iniText_cons, blank, new]
        simp only [List.append_assoc]
  · have member : (sec, entries) ∈ profile := by simp [split]
    have before := within.begins apart named front (fun _ inside => by simp [split, inside]) first
    have behind := within.begins apart named back (fun _ inside => by simp [split, inside])
      (within.distinct_behind split)
    rw [split, Store.put_split key value entries first]
    rcases Store.split_first key entries with none | ⟨lead, old, last, rfl, ahead⟩
    · have located := Profile.locate_absent before behind
        (within.keys_begin others keyed member _ (fun _ inside => inside) none)
      have opened : (headerLineOf sec.property.1).content.opens sec.val = true := decide_eq_true List.prefix_rfl
      have closed := List.forall_mem_append.mpr ⟨entryLines_closed sec.val entries, backLines_closed behind⟩
      have place : insertion sec.val (frontLines front ++ headerLineOf sec.property.1 :: _) = some (_, _) :=
        insertion_last opened closed
      obtain ⟨blank, whole⟩ := entryLines_visible (within.each (sec, entries) member).1 back
      have shape : Profile.lines (front ++ (sec, entries) :: back) =
          frontLines front ++ headerLineOf sec.property.1 :: (entryLines entries ++ backLines back) :=
        Profile.lines_split front back (sec, entries)
      have header : (headerLineOf sec.property.1).bytes = headerLine sec.val := by
        rw [← headerLineOf_text sec.property.1]
        exact (List.append_nil _).symm
      have plain : charByte '%' ∉ iniText (entryLines entries ++ backLines back) := by
        intro inside
        apply Profile.text_plain (front ++ (sec, entries) :: back)
        rw [Profile.text_split]
        exact List.mem_append_right _ inside
      have new : iniText (entryLines ((key, value) :: entries)) =
          entryLine key.val value.val ++ iniText (entryLines entries) := by
        rw [entryLines_text, entryLines_text, List.flatMap_cons]
      rw [shape] at located ⊢
      rw [rewritten_insert located place, blank, whole, formatRest, Printf.format_plain _ plain, Option.map_some,
        Store.putEntry_absent value none, Profile.text_split, iniText_append, iniText_append, new, header]
      simp only [List.append_assoc, List.nil_append]
    · have missed := within.keys_begin others keyed member lead
        (fun _ inside => List.mem_append_left _ inside) ahead
      rw [rewritten_found (Profile.locate_entry before old missed), Store.putEntry_split value old ahead,
        Profile.text_split]
      simp only [iniText_append, entryLines_text, List.flatMap_append, List.flatMap_cons, entryLine]
      simp

/-- A write to a file with the text of a profile stores the text of the new profile, or it overflows. -/
theorem writeProfileString_put (value : EntryText) {file : Option (List Byte)} (holds : file.getD [] = profile.text)
    (small : profile.text.length < maxFileSize) :
    writeProfileString fileCallsDone sec.val key.val (some value.val) file =
      if (Profile.text (Store.put sec key value profile)).length < maxFileSize then
        .ok (true, some (Profile.text (Store.put sec key value profile)))
      else .error .bufferOverflow := by
  have loaded : writeProfileString fileCallsDone sec.val key.val (some value.val) file =
      writeProfileString fileCallsDone sec.val key.val (some value.val) (some (iniText profile.lines)) := by
    rw [Profile.lines_text, ← holds]
    cases file with
    | none => exact writeProfileString_absent sec.property.1.named key.property.1.named value.val none
    | some bytes => rfl
  have visible : cString (Profile.text (Store.put sec key value profile)) =
      Profile.text (Store.put sec key value profile) := by
    rw [← Profile.lines_text]
    exact cString_visible (iniText_visible _)
  rw [loaded, writeProfileString_lines sec.property.1.named key.property.1.named, Profile.lines_text, if_pos small,
    Profile.rewritten_put apart others within named keyed value]
  simp only [visible]

theorem readProfileString_profile {file : Option (List Byte)} (holds : file.getD [] = profile.text)
    (small : profile.text.length < maxFileSize) {buffer : List Byte} (room : buffer ≠ [])
    (defaultValue : Option (List Byte)) :
    readProfileString fileCallsDone sec.val key.val buffer defaultValue file =
      .ok ((Store.get sec key profile).elim (false, missedBuffer buffer defaultValue)
        fun value => (true, readBuffer buffer.length value.val)) := by
  have loaded : readProfileString fileCallsDone sec.val key.val buffer defaultValue file =
      readProfileString fileCallsDone sec.val key.val buffer defaultValue (some (iniText profile.lines)) := by
    rw [Profile.lines_text, ← holds]
    cases file with
    | none => exact readProfileString_absent sec.val key.val buffer defaultValue none
    | some bytes => rfl
  rw [loaded, readProfileString_lines sec.property.1.named key.property.1.named room defaultValue profile.lines
    (by rwa [Profile.lines_text]), Profile.valueOf_lines apart others within named keyed, Option.elim_map]
  rfl

end Put

theorem profileFits_cons {profile : Profile} {write : ProfileWrite} {rest : List ProfileWrite} :
    ProfileFits profile (write :: rest) ↔
      profile.text.length < maxFileSize ∧
        ProfileFits (Store.put write.sec write.key write.value profile) rest := by
  constructor
  · intro fits
    exact ⟨fits 0 (Nat.zero_le _), fun count inside => fits (count + 1) (Nat.succ_le_succ inside)⟩
  · rintro ⟨first, later⟩ count inside
    cases count with
    | zero => exact first
    | succ count => exact later count (Nat.le_of_succ_le_succ inside)

theorem profileRun_cons {write : ProfileWrite} {rest : List ProfileWrite} {file stored : Option (List Byte)}
    (written : writeProfileString fileCallsDone write.sec.val write.key.val (some write.value.val) file =
      .ok (true, stored)) : profileRun file (write :: rest) = profileRun stored rest := by
  have step : profileStep write true file = .ok (true, stored) := by
    rw [profileStep, written]
    rfl
  rw [profileRun, List.foldlM_cons, step]
  rfl

theorem profileRun_fails {write : ProfileWrite} {file : Option (List Byte)} {fault : IniFault}
    (failed : writeProfileString fileCallsDone write.sec.val write.key.val (some write.value.val) file =
      .error fault) (rest : List ProfileWrite) : profileRun file (write :: rest) = .error fault := by
  have step : profileStep write true file = .error fault := by
    rw [profileStep, failed]
    rfl
  rw [profileRun, List.foldlM_cons, step]
  rfl

section Runs

variable {secs : List SectionKey} {keys : List EntryKey} (apart : Apart secs) (others : Apart keys)
include apart others

/-- A run of writes keeps the text of the store, or it overflows. -/
theorem profileRun_text {writes : List ProfileWrite}
    (inside : ∀ write ∈ writes, write.sec ∈ secs ∧ write.key ∈ keys) {profile : Profile}
    (within : profile.Within secs keys) {file : Option (List Byte)} (holds : file.getD [] = profile.text)
    (small : profile.text.length < maxFileSize) :
    (ProfileFits profile writes → ∃ stored, profileRun file writes = .ok (true, stored) ∧
        stored.getD [] = Profile.text (Store.run profile writes) ∧
          Profile.Within secs keys (Store.run profile writes)) ∧
      (¬ProfileFits profile writes → profileRun file writes = .error .bufferOverflow) := by
  induction writes generalizing profile file with
  | nil =>
      refine ⟨fun _ => ⟨file, rfl, holds, within⟩, fun large => absurd (fun count short => ?_) large⟩
      rw [List.take_nil]
      exact small
  | cons write rest ih =>
      rw [List.forall_mem_cons] at inside
      obtain ⟨⟨named, keyed⟩, later⟩ := inside
      have step := writeProfileString_put apart others within named keyed write.value holds small
      have put := within.put write.value named keyed
      rw [profileFits_cons, and_iff_right small]
      by_cases next : (Profile.text (Store.put write.sec write.key write.value profile)).length < maxFileSize
      · rw [if_pos next] at step
        rw [profileRun_cons step]
        exact ih later put rfl next
      · rw [if_neg next] at step
        exact ⟨fun fits => absurd (fits 0 (Nat.zero_le _)) next, fun _ => profileRun_fails step rest⟩

/-- From an absent file the writer keeps the text of a store, and the reader gives its latest values. -/
theorem profileRun_stores {writes : List ProfileWrite}
    (inside : ∀ write ∈ writes, write.sec ∈ secs ∧ write.key ∈ keys) :
    (¬ProfileFits [] writes → profileRun none writes = .error .bufferOverflow) ∧
      (ProfileFits [] writes → ∃ stored, profileRun none writes = .ok (true, stored) ∧
        stored.getD [] = Profile.text (Store.run [] writes) ∧
          ∀ sec ∈ secs, ∀ key ∈ keys, ∀ (buffer : List Byte) (defaultValue : Option (List Byte)), buffer ≠ [] →
            readProfileString fileCallsDone sec.val key.val buffer defaultValue stored =
              .ok ((latestWrite sec key writes).elim (false, missedBuffer buffer defaultValue)
                fun value => (true, readBuffer buffer.length value.val))) := by
  have empty : Profile.Within secs keys [] := ⟨List.nodup_nil, List.forall_mem_nil _⟩
  have holds : (none : Option (List Byte)).getD [] = Profile.text [] := rfl
  obtain ⟨fine, fault⟩ := profileRun_text apart others inside empty holds (by decide)
  refine ⟨fault, fun fits => ?_⟩
  obtain ⟨stored, run, text, within⟩ := fine fits
  refine ⟨stored, run, text, ?_⟩
  intro sec named key keyed buffer defaultValue room
  have small := fits writes.length (Nat.le_refl _)
  rw [List.take_length] at small
  rw [readProfileString_profile apart others within named keyed text small room defaultValue, Store.get_run]
  rfl

end Runs

def netSection : SectionKey := ⟨stringBytes "net", .of_all (by decide) (by decide) rfl, by decide⟩

def logSection : SectionKey := ⟨stringBytes "log", .of_all (by decide) (by decide) rfl, by decide⟩

def portKey : EntryKey := ⟨stringBytes "port", .of_all (by decide) (by decide) rfl rfl, by decide⟩

def nameKey : EntryKey := ⟨stringBytes "name", .of_all (by decide) (by decide) rfl rfl, by decide⟩

def shortText (text : String) (check : (stringBytes text).all (fun c => decide (TextByte c)) = true)
    (plain : charByte '%' ∉ stringBytes text) : EntryText := ⟨stringBytes text, textBytes_of_all check, plain⟩

/-- The four writes make two sections and change a value. -/
def netWrites : List ProfileWrite :=
  [⟨netSection, portKey, shortText "1" rfl (by decide)⟩, ⟨logSection, nameKey, shortText "a" rfl (by decide)⟩,
    ⟨netSection, nameKey, shortText "b" rfl (by decide)⟩, ⟨netSection, portKey, shortText "25" rfl (by decide)⟩]

theorem profileRun_stores_net :
    ∃ stored, profileRun none netWrites = .ok (true, stored) ∧
      stored.getD [] = stringBytes "[net]\nname=b\nport=25\n\n[log]\nname=a\n" ∧
        readProfileString fileCallsDone (stringBytes "net") (stringBytes "port") [7, 7, 7] none stored =
          .ok (true, [charByte '2', charByte '5', 0]) := by
  have apart : Apart [netSection, logSection] := by unfold Apart; decide
  have others : Apart [portKey, nameKey] := by unfold Apart; decide
  have inside : ∀ write ∈ netWrites, write.sec ∈ [netSection, logSection] ∧ write.key ∈ [portKey, nameKey] := by
    decide
  have fits : ProfileFits [] netWrites := by unfold ProfileFits; decide
  obtain ⟨stored, run, text, reads⟩ := (profileRun_stores apart others inside).2 fits
  refine ⟨stored, run, text.trans (by decide), ?_⟩
  exact (reads netSection (by decide) portKey (by decide) [7, 7, 7] none (by decide)).trans (by decide)

end Psuart

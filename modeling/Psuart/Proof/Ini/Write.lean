import Psuart.Proof.Ini.Locate
import Psuart.Proof.Utils.Strings

namespace Psuart

variable {sec key value : List Byte} {lines : List IniLine}

theorem newline_visible {c : Byte} (ends : newline c = true) : c ≠ 0 ∧ c ≠ 0xFF := by
  revert c
  decide

/-- A text of lines holds no terminator and no byte 0xFF. -/
theorem iniText_visible (lines : List IniLine) : ∀ c ∈ iniText lines, c ≠ 0 ∧ c ≠ 0xFF := by
  induction lines with
  | nil => exact List.forall_mem_nil _
  | cons line rest ih =>
      obtain ⟨content, stop, wellFormed, ends⟩ := line
      rw [iniText_cons, IniLine.bytes]
      refine List.forall_mem_append.mpr ⟨List.forall_mem_append.mpr ⟨?_, ?_⟩, ih⟩
      · cases wellFormed with
        | header plain _ =>
            exact List.forall_mem_cons.mpr ⟨by decide, List.forall_mem_append.mpr
              ⟨fun c member => (plain c member).2, List.forall_mem_singleton.mpr (by decide)⟩⟩
        | body plain _ => exact fun c member => (plain c member).2
      · exact List.forall_mem_singleton.mpr (newline_visible ends)

theorem bufCopy_front (front back : List Byte) : bufCopy (front ++ back) 0 front.length = front := by
  apply List.ext_getElem
  · simp [bufCopy]
  · intro index left right
    simp [bufCopy, bufAt, Scan.charAt, right, Nat.lt_add_right]

theorem bufCopy_back (front back : List Byte) :
    bufCopy (front ++ back) front.length back.length = back := by
  apply List.ext_getElem
  · simp [bufCopy]
  · intro index left right
    simp only [bufCopy, List.getElem_map, List.getElem_range, bufAt, Scan.charAt_append]
    simp [Scan.charAt, right]

/-- A found entry and a place for a new entry split the text of the file. -/
theorem locate_text {mode : Reading} {found : Found} (located : locate sec key mode lines = some found) :
    iniText lines = found.before ++ found.value ++ found.after := by
  obtain ⟨front, line, back, lead, rfl, _, hit, before, after⟩ := locate_split located
  rw [iniText_append, iniText_cons, IniLine.bytes, before, after, hit_bytes hit]
  simp

theorem insertion_text {before after : List Byte} (place : insertion sec lines = some (before, after)) :
    iniText lines = before ++ after := by
  obtain ⟨front, line, back, rfl, _, _, rfl, rfl⟩ := insertion_split place
  rw [iniText_append, iniText_cons, List.append_assoc _ _ (List.dropWhile _ _),
    List.takeWhile_append_dropWhile]
  simp

/-- A found entry receives the new value, whatever stands behind its line. -/
theorem profileText_found {found : Found} (located : locate sec key .outside lines = some found)
    (back : List Byte) :
    profileText sec key value (iniText lines ++ back) (parseFile sec key (iniText lines ++ back)).1 =
      .ok (found.before ++ value ++ (found.after ++ back)) := by
  obtain ⟨place, stops, secS, keyS, valueS, valueE⟩ := parseFile_found located back
  have whole : iniText lines ++ back = found.before ++ found.value ++ (found.after ++ back) := by
    rw [locate_text located, List.append_assoc]
  have rest : (iniText lines ++ back).length - (found.before ++ found.value).length =
      (found.after ++ back).length := by
    rw [whole, List.length_append, Nat.add_sub_cancel_left]
  rw [stops, profileText, if_neg secS, if_neg keyS, valueS, valueE, Int.toNat_natCast,
    Int.toNat_natCast, rest, whole, bufCopy_back]
  rw [List.append_assoc found.before, bufCopy_front]

/-- The text that `write_profile_string` stores for a file of lines. -/
theorem profileText_lines (sec key value : List Byte) (lines : List IniLine) :
    profileText sec key value (iniText lines) (parseFile sec key (iniText lines)).1 =
      match rewritten sec key value lines with
      | some text => .ok text
      | none => .error .undefinedFormat := by
  rw [rewritten]
  cases located : locate sec key .outside lines with
  | some found =>
      have stored : profileText sec key value _ _ = _ := profileText_found located []
      rw [List.append_nil, List.append_nil] at stored
      exact stored
  | none =>
      obtain ⟨place, stops, keyS, places⟩ := parseFile_absent located
      rw [stops, profileText]
      cases split : insertion sec lines with
      | none =>
          rw [split] at places
          rw [if_pos places]
          simp only [List.length_eq_zero_iff]
          split <;> rfl
      | some both =>
          obtain ⟨before, after⟩ := both
          rw [split] at places
          obtain ⟨secS, secE⟩ := places
          have visible : 0 ∉ after := fun member => (iniText_visible lines 0 (by
            rw [insertion_text split]
            exact List.mem_append_right _ member)).1 rfl
          have count : (((before ++ after).length : Int) - (before.length : Int)) = after.length := by
            rw [List.length_append]
            omega
          rw [if_neg secS, if_pos keyS, secE, Int.toNat_natCast, insertion_text split, List.drop_left,
            cString_eq visible, bufCopy_front, count]
          dsimp only [formatRest]
          cases Printf.format .text (some (BitVec.ofInt 32 after.length)) after with
          | none => rfl
          | some rest => rfl

/-- A file without a byte 0xFF is loaded whole. -/
theorem loadIniFile_plain {bytes : List Byte} (plain : 0xFF ∉ bytes) :
    loadIniFile fileCallsDone (some bytes) =
      if bytes.length < maxFileSize then .ok (some bytes) else .error .fileTooBig := by
  have whole : bytes.takeWhile (· ≠ 0xFF) = bytes := Scan.takeWhile_ne_self plain
  rw [loadIniFile]
  simp only [whole]
  rfl

theorem iniText_plain (lines : List IniLine) : 0xFF ∉ iniText lines :=
  fun member => (iniText_visible lines _ member).2 rfl

/-- An absent file is written like an empty one. -/
theorem writeProfileString_absent (named : sec ≠ []) (keyed : key ≠ []) (value : List Byte)
    (file : Option (List IniLine)) :
    writeProfileString fileCallsDone sec key (some value) (file.map iniText) =
      writeProfileString fileCallsDone sec key (some value) (some (iniText (file.getD []))) := by
  cases file with
  | some lines => rfl
  | none =>
      have parsed : (parseFile sec key []).1 = {} := rfl
      rw [Option.map_none, Option.getD_none, iniText_nil, writeProfileString, writeProfileString,
        if_neg (not_or.mpr ⟨named, keyed⟩), if_neg (not_or.mpr ⟨named, keyed⟩),
        loadIniFile_plain List.not_mem_nil, if_pos (by decide)]
      simp only [Option.getD_some, parsed]
      rfl

/-- The write to a file of lines. -/
theorem writeProfileString_lines (named : sec ≠ []) (keyed : key ≠ []) (value : List Byte)
    (lines : List IniLine) :
    writeProfileString fileCallsDone sec key (some value) (some (iniText lines)) =
      if (iniText lines).length < maxFileSize then
        match rewritten sec key value lines with
        | none => .error .undefinedFormat
        | some text =>
            if text.length < maxFileSize then .ok (true, some (cString text)) else .error .bufferOverflow
      else .error .fileTooBig := by
  rw [writeProfileString, if_neg (not_or.mpr ⟨named, keyed⟩), loadIniFile_plain (iniText_plain lines)]
  by_cases small : (iniText lines).length < maxFileSize
  · rw [if_pos small, if_pos small]
    simp only [Option.getD_some, profileText_lines]
    cases rewritten sec key value lines with
    | none => rfl
    | some text => rfl
  · rw [if_neg small, if_neg small]

/-- A write that returns one has stored the rewritten text. -/
theorem writeProfileString_stored (named : sec ≠ []) (keyed : key ≠ []) {value : List Byte}
    {file : Option (List IniLine)} {stored : Option (List Byte)}
    (written : writeProfileString fileCallsDone sec key (some value) (file.map iniText) =
      .ok (true, stored)) :
    (iniText (file.getD [])).length < maxFileSize ∧ ∃ text, rewritten sec key value (file.getD []) = some text ∧
      text.length < maxFileSize ∧ stored = some (cString text) := by
  rw [writeProfileString_absent named keyed, writeProfileString_lines named keyed] at written
  split at written
  · rename_i loads
    refine ⟨loads, ?_⟩
    split at written
    · cases written
    · rename_i text equal
      split at written
      · rename_i small
        cases written
        exact ⟨text, equal, small, rfl⟩
      · cases written
  · cases written

theorem bufCopy_value (before value after : List Byte) {count : Nat} (short : count ≤ value.length) :
    bufCopy (before ++ value ++ after) before.length count = value.take count := by
  have split : before ++ value ++ after = before ++ (value.take count ++ (value.drop count ++ after)) := by
    rw [← List.append_assoc (value.take count), List.take_append_drop, List.append_assoc]
  have length : (value.take count).length = count := by
    rw [List.length_take, Nat.min_eq_left short]
  apply List.ext_getElem
  · rw [length]
    simp [bufCopy]
  · intro index left right
    have inside := right
    rw [length] at inside
    simp only [bufCopy, List.getElem_map, List.getElem_range, split, bufAt, Scan.charAt_append]
    rw [Scan.charAt, List.getD_append _ _ _ _ right, List.getD_eq_getElem _ _ right]

/-- The buffer of a successful read holds the start of the value and zero bytes. -/
def readBuffer (size : Nat) (value : List Byte) : List Byte :=
  value.take (min value.length (size - 1)) ++ List.replicate (size - min value.length (size - 1)) 0

/-- The buffer of a read that finds nothing holds the default. -/
def missedBuffer (buffer : List Byte) (defaultValue : Option (List Byte)) : List Byte :=
  defaultValue.elim buffer (strncpy buffer.length)

/-- A buffer with room for the terminator holds the whole value. -/
theorem readBuffer_string {size : Nat} {value : List Byte} (plain : ∀ c ∈ value, c ≠ 0)
    (room : value.length < size) : cString (readBuffer size value) = value := by
  obtain ⟨more, rfl⟩ := Nat.exists_eq_add_of_lt room
  rw [readBuffer, Nat.min_eq_left (by omega), List.take_length,
    show value.length + more + 1 - value.length = more + 1 by omega, List.replicate_succ]
  exact Scan.takeWhile_stop (fun c member => decide_eq_true (plain c member)) (by decide)

/-- A read finds an entry, whatever stands behind its line. -/
theorem readProfileString_found (named : sec ≠ []) (keyed : key ≠ []) {buffer : List Byte}
    (room : buffer ≠ []) (defaultValue : Option (List Byte)) {found : Found}
    (located : locate sec key .outside lines = some found) {back : List Byte}
    (plain : 0xFF ∉ back) (small : (iniText lines ++ back).length < maxFileSize) :
    readProfileString fileCallsDone sec key buffer defaultValue (some (iniText lines ++ back)) =
      .ok (true, readBuffer buffer.length found.value) := by
  obtain ⟨place, stops, _, _, valueS, valueE⟩ := parseFile_found located back
  have visible : 0xFF ∉ iniText lines ++ back := fun member =>
    (List.mem_append.mp member).elim (iniText_plain lines) plain
  have length : (place.valueE - (found.before.length : Int)).toNat = found.value.length := by
    rw [valueE, List.length_append]
    omega
  rw [readProfileString, if_neg (not_or.mpr ⟨named, not_or.mpr ⟨keyed, room⟩⟩),
    loadIniFile_plain visible, if_pos small]
  simp only [stops, if_true, valueS, length, Int.toNat_natCast]
  rw [locate_text located, List.append_assoc _ found.after, bufCopy_value _ _ _ (Nat.min_le_left _ _)]
  rfl

/-- A read of a file of lines. -/
theorem readProfileString_lines (named : sec ≠ []) (keyed : key ≠ []) {buffer : List Byte}
    (room : buffer ≠ []) (defaultValue : Option (List Byte)) (lines : List IniLine)
    (small : (iniText lines).length < maxFileSize) :
    readProfileString fileCallsDone sec key buffer defaultValue (some (iniText lines)) =
      .ok ((valueOf sec key .outside lines).elim (false, missedBuffer buffer defaultValue)
        fun value => (true, readBuffer buffer.length value)) := by
  rw [valueOf]
  cases located : locate sec key .outside lines with
  | some found =>
      have read := readProfileString_found named keyed room defaultValue located
        List.not_mem_nil (by rwa [List.append_nil])
      rw [List.append_nil] at read
      exact read
  | none =>
      obtain ⟨place, stops, _⟩ := parseFile_absent located
      rw [readProfileString, if_neg (not_or.mpr ⟨named, not_or.mpr ⟨keyed, room⟩⟩),
        loadIniFile_plain (iniText_plain lines), if_pos small]
      simp only [stops]
      rfl

/-- An absent file is read like an empty one. -/
theorem readProfileString_absent (sec key buffer : List Byte) (defaultValue : Option (List Byte))
    (file : Option (List IniLine)) :
    readProfileString fileCallsDone sec key buffer defaultValue (file.map iniText) =
      readProfileString fileCallsDone sec key buffer defaultValue (some (iniText (file.getD []))) := by
  cases file with
  | some lines => rfl
  | none =>
      have loaded : loadIniFile fileCallsDone (some []) = .ok (some []) := rfl
      rw [Option.map_none, Option.getD_none, iniText_nil, readProfileString, readProfileString, loaded]
      rfl

/-- A found value is a part of the text. -/
theorem valueOf_visible {mode : Reading} {value : List Byte} (found : valueOf sec key mode lines = some value) :
    ∀ c ∈ value, c ≠ 0 := by
  obtain ⟨entry, located, rfl⟩ := Option.map_eq_some_iff.mp found
  intro c member
  refine (iniText_visible lines c ?_).1
  rw [locate_text located]
  exact List.mem_append_left _ (List.mem_append_right _ member)

theorem valueOf_fits {mode : Reading} {value : List Byte} (found : valueOf sec key mode lines = some value)
    (small : (iniText lines).length < maxFileSize) : value.length < maxFileSize + 1 := by
  obtain ⟨entry, located, rfl⟩ := Option.map_eq_some_iff.mp found
  rw [locate_text located, List.length_append, List.length_append] at small
  omega

/-- The reads into all buffers tell the values of two files apart. -/
theorem readProfileString_alike (named : sec ≠ []) (keyed : key ≠ []) {first second : List IniLine}
    (small : (iniText first).length < maxFileSize) (fits : (iniText second).length < maxFileSize) :
    (∀ buffer defaultValue, buffer ≠ [] →
        readProfileString fileCallsDone sec key buffer defaultValue (some (iniText first)) =
          readProfileString fileCallsDone sec key buffer defaultValue (some (iniText second))) ↔
      valueOf sec key .outside first = valueOf sec key .outside second := by
  constructor
  · intro alike
    have bytes := alike (List.replicate (maxFileSize + 1) 0) none (by simp)
    rw [readProfileString_lines named keyed (by simp) none first small,
      readProfileString_lines named keyed (by simp) none second fits, List.length_replicate] at bytes
    have same := Except.ok.inj bytes
    cases one : valueOf sec key .outside first with
    | none =>
        cases two : valueOf sec key .outside second with
        | none => rfl
        | some value =>
            rw [one, two] at same
            cases (Prod.mk.inj same).1
    | some value =>
        cases two : valueOf sec key .outside second with
        | none =>
            rw [one, two] at same
            cases (Prod.mk.inj same).1
        | some other =>
            rw [one, two] at same
            have strings := congrArg cString (Prod.mk.inj same).2
            rw [readBuffer_string (valueOf_visible one) (valueOf_fits one small),
              readBuffer_string (valueOf_visible two) (valueOf_fits two fits)] at strings
            rw [strings]
  · intro same buffer defaultValue room
    rw [readProfileString_lines named keyed room defaultValue first small,
      readProfileString_lines named keyed room defaultValue second fits, same]

end Psuart

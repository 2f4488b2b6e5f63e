import Psuart.Library.Scan
import Psuart.Model.IniAccess
import Psuart.Spec.IniFile

namespace Psuart

/-- A section has the text between its braces as its name, and it reaches to the next brace at a line start. -/
structure IniSection where
  name : List Byte
  body : List Byte

/-- The first brace at a line start cuts a text. -/
def cutOpening (opens : Bool) (text : List Byte) : List Byte × List Byte :=
  Scan.cutAt newline (· = charByte '[') opens text

/-- The first closing brace cuts the name of a section from its text. -/
def cutName (rest : List Byte) : List Byte × List Byte :=
  (rest.takeWhile (· ≠ charByte ']'), (rest.dropWhile (· ≠ charByte ']')).tail)

/-- The sections behind a brace, and the text behind a last brace that is never closed. -/
def sectionsOf : List Byte → List IniSection × Option (List Byte)
  | [] => ([], none)
  | _ :: rest =>
      if charByte ']' ∈ rest then
        (⟨(cutName rest).1, (cutOpening false (cutName rest).2).1⟩ ::
          (sectionsOf (cutOpening false (cutName rest).2).2).1, (sectionsOf (cutOpening false (cutName rest).2).2).2)
      else ([], some rest)
  termination_by text => text.length
  decreasing_by
    all_goals
      have cut : (cutOpening false (cutName rest).2).2.length ≤ (cutName rest).2.length := Scan.cutAt_le _ _ _ _
      have shorter : (cutName rest).2.length ≤ rest.length :=
        ((List.tail_sublist _).trans (List.dropWhile_sublist _)).length_le
      rw [List.length_cons]
      omega

/-- A line of the text is an entry of the key. -/
def HasEntry (key text : List Byte) : Prop := ∃ line ∈ text.splitOnP newline, entryOf key line ≠ none

/-- The white space in front of the first line is no part of it. -/
def IniSection.HoldsKey (key : List Byte) (entered : IniSection) : Prop :=
  HasEntry key (entered.body.dropWhile isspace)

/-- The last line of the section is blank or has a line end. -/
def IniSection.Ended (entered : IniSection) : Prop :=
  entered.body.all isspace = true ∨ ∃ stop ∈ entered.body.getLast?, newline stop = true

/-- The key stands in a section with the name, or the parser leaves each of them before the terminator. -/
def LeavesSections (sec key : List Byte) (text : List IniSection × Option (List Byte)) : Prop :=
  (∃ entered ∈ text.1, entered.name <+: sec ∧ entered.HoldsKey key) ∨
    (∀ rest ∈ text.2, ¬rest <+: sec) ∧ ∀ entered ∈ text.1, entered.name <+: sec → entered.Ended

def EndsSafely (sec key text : List Byte) : Prop :=
  LeavesSections sec key (sectionsOf (cutOpening true text).2)

/-- A call comes to its end inside its text, and it reports ordered places of the text. -/
structure ParsesInside (sec key buf : List Byte) : Prop where
  terminates : ∀ fuel, buf.length < fuel →
    parseSections sec key buf fuel 0 {} = parseFile sec key buf ∧
      parseSectionsReads sec key buf fuel 0 = parseFileReads sec key buf
  reads : ∀ place ∈ parseFileReads sec key buf, place ≤ (cString buf).length
  sectionPlaces : (parseFile sec key buf).1.secS ≠ -1 →
    0 ≤ (parseFile sec key buf).1.secS ∧ (parseFile sec key buf).1.secS ≤ (parseFile sec key buf).1.secE ∧
      (parseFile sec key buf).1.secE ≤ (cString buf).length
  keyPlaces : (parseFile sec key buf).2 = true →
    (parseFile sec key buf).1.secE ≤ (parseFile sec key buf).1.keyS ∧
      (parseFile sec key buf).1.keyS ≤ (parseFile sec key buf).1.keyE ∧
      (parseFile sec key buf).1.keyE < (parseFile sec key buf).1.valueS ∧
      (parseFile sec key buf).1.valueS ≤ (parseFile sec key buf).1.valueE ∧
      (parseFile sec key buf).1.valueE ≤ (cString buf).length

end Psuart

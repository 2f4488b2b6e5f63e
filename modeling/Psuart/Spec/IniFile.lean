import Psuart.Model.Ini

namespace Psuart

/-- A line of an initialization file has no line end, no terminator and no byte 0xFF inside. -/
def TextByte (c : Byte) : Prop := newline c = false ∧ c ≠ 0 ∧ c ≠ 0xFF

instance : DecidablePred TextByte := fun c =>
  inferInstanceAs (Decidable (newline c = false ∧ c ≠ 0 ∧ c ≠ 0xFF))

/-- Printable characters that are not blank. -/
def Graphic (c : Byte) : Prop := 0x21 ≤ c ∧ c ≤ 0x7E

instance : DecidablePred Graphic := fun c => inferInstanceAs (Decidable (0x21 ≤ c ∧ c ≤ 0x7E))

/-- Entries, comments and blank lines are the lines that do not open a section. -/
inductive IniContent where
  | header (name : List Byte)
  | body (text : List Byte)

def IniContent.bytes : IniContent → List Byte
  | .header name => charByte '[' :: name ++ [charByte ']']
  | .body text => text

inductive IniContent.WellFormed : IniContent → Prop where
  | header {name : List Byte} (plain : ∀ c ∈ name, TextByte c) (closed : charByte ']' ∉ name) :
      WellFormed (.header name)
  | body {text : List Byte} (plain : ∀ c ∈ text, TextByte c)
      (free : text.head? ≠ some (charByte '[')) : WellFormed (.body text)

/-- A line ends with a line feed or a carriage return. -/
structure IniLine where
  content : IniContent
  stop : Byte
  wellFormed : content.WellFormed
  ends : newline stop = true

def IniLine.bytes (line : IniLine) : List Byte := line.content.bytes ++ [line.stop]

def iniText (lines : List IniLine) : List Byte := lines.flatMap IniLine.bytes

/-- A reader stands outside of the section, behind its header, or behind its first line with text. -/
inductive Reading where
  | outside
  | fresh
  | inside
  deriving DecidableEq

/-- A header opens every section that its name begins. -/
def IniContent.opens (sec : List Byte) : IniContent → Bool
  | .header name => decide (name <+: sec)
  | .body _ => false

def IniContent.next (sec : List Byte) (mode : Reading) : IniContent → Reading
  | .header name => if name <+: sec then .fresh else .outside
  | .body text =>
      match mode with
      | .outside => .outside
      | .fresh => if text.all isspace then .fresh else .inside
      | .inside => .inside

/-- The key of an entry matches every key that it begins. The result is split behind the `=`. -/
def entryOf (key text : List Byte) : Option (List Byte × List Byte) :=
  let name := text.takeWhile (· ≠ charByte '=')
  if text.head? = some (charByte ';') ∨ name = [] ∨ name.length = text.length ∨ ¬name <+: key then none
  else some (name ++ [charByte '='], text.drop (name.length + 1))

/-- The first line with text is read without its leading white space. -/
def IniContent.hit (key : List Byte) (mode : Reading) : IniContent → Option (List Byte × List Byte)
  | .header _ => none
  | .body text =>
      match mode with
      | .outside => none
      | .fresh =>
          (entryOf key (text.dropWhile isspace)).map fun entry =>
            (text.takeWhile isspace ++ entry.1, entry.2)
      | .inside => entryOf key text

/-- A found value splits the text of the file. -/
structure Found where
  before : List Byte
  value : List Byte
  after : List Byte

def Found.behind (front : List Byte) (found : Found) : Found :=
  { found with before := front ++ found.before }

/-- The first entry whose section and key match. -/
def locate (sec key : List Byte) : Reading → List IniLine → Option Found
  | _, [] => none
  | mode, line :: rest =>
      match line.content.hit key mode with
      | some (lead, value) => some ⟨lead, value, line.stop :: iniText rest⟩
      | none => (locate sec key (line.content.next sec mode) rest).map (Found.behind line.bytes)

/-- The place of a new entry is the first text of the last section that matches. -/
def insertion (sec : List Byte) : List IniLine → Option (List Byte × List Byte)
  | [] => none
  | line :: rest =>
      match insertion sec rest with
      | some (before, after) => some (line.bytes ++ before, after)
      | none =>
          if line.content.opens sec then
            some (line.bytes ++ (iniText rest).takeWhile isspace, (iniText rest).dropWhile isspace)
          else none

/-- The value that a reader finds for a section and a key. -/
def valueOf (sec key : List Byte) (mode : Reading) (lines : List IniLine) : Option (List Byte) :=
  (locate sec key mode lines).map Found.value

/-- The rest behind a new entry is formatted with its own length as the argument. -/
def formatRest (after : List Byte) : Option (List Byte) :=
  Printf.format .text (some (BitVec.ofInt 32 after.length)) after

def entryLine (key value : List Byte) : List Byte :=
  key ++ [charByte '='] ++ value ++ [charByte '\n']

def headerLine (sec : List Byte) : List Byte :=
  [charByte '['] ++ sec ++ [charByte ']', charByte '\n']

/-- The new text of a file replaces a value, receives an entry, or receives a section at its end. -/
def rewritten (sec key value : List Byte) (lines : List IniLine) : Option (List Byte) :=
  match locate sec key .outside lines with
  | some found => some (found.before ++ value ++ found.after)
  | none =>
      match insertion sec lines with
      | some (before, after) => (formatRest after).map fun rest => before ++ entryLine key value ++ rest
      | none =>
          some (if iniText lines = [] then headerLine sec ++ entryLine key value
            else iniText lines ++ [charByte '\n'] ++ headerLine sec ++ entryLine key value)

/-- A section name fits into a header. -/
structure SectionName (sec : List Byte) : Prop where
  named : sec ≠ []
  closed : charByte ']' ∉ sec
  plain : ∀ c ∈ sec, TextByte c

/-- A key is the visible start of an entry line. -/
structure KeyName (key : List Byte) : Prop where
  named : key ≠ []
  free : charByte '=' ∉ key
  plain : ∀ c ∈ key, TextByte c
  start : ∀ c, key.head? = some c → c ≠ charByte '[' ∧ c ≠ charByte ';' ∧ isspace c = false

end Psuart

import Psuart.Model.Config

namespace Psuart

/-- A line of a file has one effect on its reader. -/
inductive IniEffect where
  | skip
  | fail
  | opens (name : List Byte)
  | continues (value : List Byte)
  | entry (name value : List Byte)

variable {S : Type}

def IniEffect.apply (handler : IniHandler S) (state : IniState S) : IniEffect → IniState S
  | .skip => state
  | .fail => state.fail
  | .opens name => { state with sec := strncpy0 name maxSection, prevName := [] }
  | .continues value => state.call handler state.prevName value
  | .entry name value => { state with prevName := strncpy0 name maxName }.call handler name value

/-- The entry of a line is split at its first `=`, or at its first `:` when it has no `=`. -/
def entrySplit (start : List Byte) : List Byte × List Byte :=
  let equals := findCharOrComment (charByte '=') false start
  if equals.2.head? = some (charByte '=') then equals else findCharOrComment (charByte ':') false start

def entryEffect (start : List Byte) : IniEffect :=
  match (entrySplit start).2 with
  | [] => .fail
  | mark :: rest =>
      if mark = charByte '=' ∨ mark = charByte ':' then
        .entry (rstrip (entrySplit start).1) (rstrip (findCharOrComment 0 false (lskip rest)).1)
      else .fail

def headerEffect (text : List Byte) : IniEffect :=
  let (name, stop) := findCharOrComment (charByte ']') false text
  if stop.head? = some (charByte ']') then .opens name else .fail

/-- The line without the byte order mark of a first line and without the white space at its end. -/
def strippedLine (first : Bool) (line : List Byte) : List Byte :=
  rstrip (if first ∧ line.take 3 = [0xEF, 0xBB, 0xBF] then line.drop 3 else line)

/-- A line that does not start at the first byte continues an entry. -/
def lineEffect (first named : Bool) (line : List Byte) : IniEffect :=
  let stripped := strippedLine first line
  let start := lskip stripped
  match start with
  | [] => .skip
  | c :: rest =>
      if c = charByte ';' ∨ c = charByte '#' then .skip
      else if named ∧ ((first ∧ line.take 3 = [0xEF, 0xBB, 0xBF]) ∨ start ≠ stripped) then .continues start
      else if c = charByte '[' then headerEffect rest
      else entryEffect start

/-- A value that the handler received. -/
structure Received where
  sec : List Byte
  name : List Byte
  value : List Byte

def record : IniHandler (List Received) := fun log sec name value => (log ++ [⟨sec, name, value⟩], true)

/-- The values that a handler receives from a file in their order. -/
def received (file : List Byte) : List Received := (iniParseFile record file []).user

def lastReceived (log : List Received) (option : CfgOption) : Option (List Byte) :=
  (log.reverse.find? fun entry => entry.sec = option.sec ∧ entry.name = option.name).map Received.value

/-- An absent file gives no values. -/
def receivedFrom (file : Option (List Byte)) : List Received := file.elim [] received

/-- The array of `ParseIPAddr` has 50 bytes for the address and its terminator. -/
def AddressFits (cAddr : Option (List Byte)) : Prop := ∃ text ∈ cAddr, (cString text).length < 50

/-- The load ends inside its arrays, and every option has its last value or its default, so that none is NULL. -/
def LoadsTotal (file : Option (List Byte)) : Prop :=
  ∃ loaded found stored,
    loadPsuConfig fileCallsDone (fun _ => fileCallsDone) file = .ok (loaded, found, stored) ∧
    ∀ option : CfgOption,
      loaded.options option = some ((lastReceived (receivedFrom file) option).getD option.default)

end Psuart

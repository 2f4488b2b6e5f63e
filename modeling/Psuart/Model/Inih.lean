import Mathlib.Data.List.DropRight
import Psuart.Model.Ini

namespace Psuart

def maxSection : Nat := 50

def maxName : Nat := 50

def iniMaxLine : Nat := 200

/-- The calls of `fgets` split the file behind every line feed and behind `size - 1` bytes.
The first list holds the bytes of the current call in reverse order. -/
def fgetsLines (size : Nat) : List Byte → List Byte → List (List Byte)
  | [], [] => []
  | line, [] => [line.reverse]
  | line, c :: file =>
      if c = charByte '\n' ∨ line.length + 2 = size then
        (c :: line).reverse :: fgetsLines size [] file
      else fgetsLines size (c :: line) file

def rstrip (s : List Byte) : List Byte := s.rdropWhile isspace

def lskip (s : List Byte) : List Byte := s.dropWhile isspace

/-- The text is split in front of the character, or of a `;` behind white space. -/
def findCharOrComment (c : Byte) : Bool → List Byte → List Byte × List Byte
  | _, [] => ([], [])
  | wasWhitespace, first :: rest =>
      if first = c ∨ (wasWhitespace = true ∧ first = charByte ';') then ([], first :: rest)
      else
        let (before, stop) := findCharOrComment c (isspace first) rest
        (first :: before, stop)

def strncpy0 (src : List Byte) (size : Nat) : List Byte := src.take (size - 1)

/-- The variables of `ini_parse_file` between two lines. -/
structure IniState (S : Type) where
  user : S
  sec : List Byte := []
  prevName : List Byte := []
  lineno : Nat := 0
  error : Nat := 0

/-- A handler receives the section, the name and the value of an entry. -/
abbrev IniHandler (S : Type) := S → List Byte → List Byte → List Byte → S × Bool

variable {S : Type}

def IniState.fail (state : IniState S) : IniState S :=
  { state with error := if state.error = 0 then state.lineno else state.error }

/-- The first line whose handler fails is the error. -/
def IniState.call (handler : IniHandler S) (state : IniState S) (name value : List Byte) : IniState S :=
  let (user, accepted) := handler state.user state.sec name value
  if accepted then { state with user := user } else { state with user := user }.fail

/-- A line of a section holds a name, `=` or `:`, and a value with an optional comment. -/
def iniEntry (handler : IniHandler S) (start : List Byte) (state : IniState S) : IniState S :=
  let equals := findCharOrComment (charByte '=') false start
  let (before, stop) :=
    if equals.2.head? = some (charByte '=') then equals else findCharOrComment (charByte ':') false start
  match stop with
  | [] => state.fail
  | mark :: rest =>
      if mark = charByte '=' ∨ mark = charByte ':' then
        let name := rstrip before
        let value := rstrip (findCharOrComment 0 false (lskip rest)).1
        { state with prevName := strncpy0 name maxName }.call handler name value
      else state.fail

/-- One round of the loop of `ini_parse_file` reads one result of `fgets`. -/
def iniLine (handler : IniHandler S) (state : IniState S) (chunk : List Byte) : IniState S :=
  let state := { state with lineno := state.lineno + 1 }
  let line := cString chunk
  let bom := state.lineno = 1 ∧ line.take 3 = [0xEF, 0xBB, 0xBF]
  let stripped := rstrip (if bom then line.drop 3 else line)
  let start := lskip stripped
  match start with
  | [] => state
  | first :: rest =>
      if first = charByte ';' ∨ first = charByte '#' then state
      else if state.prevName ≠ [] ∧ (bom ∨ start ≠ stripped) then
        state.call handler state.prevName start
      else if first = charByte '[' then
        let (name, stop) := findCharOrComment (charByte ']') false rest
        if stop.head? = some (charByte ']') then
          { state with sec := strncpy0 name maxSection, prevName := [] }
        else state.fail
      else iniEntry handler start state

def iniParseFile (handler : IniHandler S) (file : List Byte) (user : S) : IniState S :=
  (fgetsLines iniMaxLine [] file).foldl (iniLine handler) { user := user }

/-- The result is the line of the first error, or -1 for a file that cannot be opened. -/
def iniParse (handler : IniHandler S) (calls : FileCalls) (file : Option (List Byte)) (user : S) : Int × S :=
  match file with
  | none => (-1, user)
  | some bytes =>
      if calls.fopenRead = false then (-1, user)
      else
        let state := iniParseFile handler bytes user
        (state.error, state.user)

end Psuart

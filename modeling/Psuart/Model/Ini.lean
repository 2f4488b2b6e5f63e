import Psuart.Library.Printf
import Psuart.Library.Scan
import Psuart.Model.Utils

namespace Psuart

def maxFileSize : Nat := 1024 * 16

/-- The results of the library calls on the file. A failed `fputs` has written a part of the text. -/
structure FileCalls where
  fopenRead : Bool
  fopenWrite : Bool
  fputs : Option Nat

/-- The calls of a file system without errors. -/
def fileCallsDone : FileCalls := ⟨true, true, none⟩

/-- These ends of a call are not defined by its source. -/
inductive IniFault where
  | fileTooBig
  | emptyArgument
  | bufferOverflow
  | undefinedFormat
  deriving DecidableEq

/-- The array `buf` is zeroed, so the string ends behind the loaded bytes. -/
def bufAt (buf : List Byte) (index : Nat) : Byte := Scan.charAt 0 buf index

/-- The call `memcpy` reads the zero bytes behind the loaded ones. -/
def bufCopy (buf : List Byte) (start count : Nat) : List Byte :=
  (List.range count).map fun index => bufAt buf (start + index)

/-- The loop loads the file up to a byte 0xFF, which it takes for the end of the file. -/
def loadIniFile (calls : FileCalls) (file : Option (List Byte)) :
    Except IniFault (Option (List Byte)) :=
  match file with
  | none => .ok none
  | some bytes =>
      if calls.fopenRead = false then .ok none
      else
        let loaded := bytes.takeWhile (· ≠ 0xFF)
        if loaded.length < maxFileSize then .ok (some loaded) else .error .fileTooBig

def newline (c : Byte) : Bool := charByte '\n' = c ∨ charByte '\r' = c

def endOfString (c : Byte) : Bool := 0 = c

def leftBrace (c : Byte) : Bool := charByte '[' = c

def isRightBrace (c : Byte) : Bool := charByte ']' = c

/-- The white space of the C locale. -/
def isspace (c : Byte) : Bool := c = 0x20 ∨ 0x09 ≤ c ∧ c ≤ 0x0D

/-- The comparison stops at the first difference, at a terminator or behind its count. -/
def strncmp : List Byte → List Byte → Nat → Int
  | _, _, 0 => 0
  | first, second, count + 1 =>
      if first.headD 0 ≠ second.headD 0 then (first.headD 0).toNat - (second.headD 0).toNat
      else if first.headD 0 = 0 then 0
      else strncmp first.tail second.tail count

/-- The places that `parse_file` reports. -/
structure Location where
  secS : Int := -1
  secE : Int := -1
  keyS : Int := -1
  keyE : Int := -1
  valueS : Int := -1
  valueE : Int := -1

/-- The search for `=` in one line returns its place when the key in front of it matches.
The first argument counts the characters from `j` to the end of the line. -/
def keySearch (key buf : List Byte) (newlineStart : Nat) : Nat → Nat → Option Nat
  | 0, _ => none
  | left + 1, j =>
      if bufAt buf j = charByte '=' then none
      else if bufAt buf (j + 1) = charByte '=' then
        if strncmp key (buf.drop newlineStart) (j + 1 - newlineStart) = 0 then some (j + 1) else none
      else keySearch key buf newlineStart left (j + 1)

/-- The loop over the lines of a matching section returns the place where it stops. -/
def parseLines (key buf : List Byte) : Nat → Nat → Location → Location × Nat × Bool
  | 0, i, loc => (loc, i, false)
  | fuel + 1, i, loc =>
      if (newline (bufAt buf (i - 1)) && leftBrace (bufAt buf i)) || endOfString (bufAt buf i) then
        (loc, i, false)
      else
        let newlineStart := i
        let i := Scan.scanWhile (fun c => !newline c && !endOfString c) buf i
        let found := if bufAt buf newlineStart ≠ charByte ';' then
          keySearch key buf newlineStart (i - newlineStart) newlineStart else none
        match found with
        | some j =>
            ({ loc with keyS := newlineStart, keyE := j - 1, valueS := j + 1, valueE := i }, i, true)
        | none => parseLines key buf fuel (i + 1) loc

/-- The index `i` stands at the `]` of a matching section. -/
def enterSection (key buf : List Byte) (sectionStart i : Nat) (loc : Location) : Location × Nat × Bool :=
  let i := Scan.scanWhile isspace buf (i + 1)
  parseLines key buf (buf.length + 1) i { loc with secS := sectionStart, secE := i }

/-- The loop over the file enters every section whose name matches. -/
def parseSections (sec key buf : List Byte) : Nat → Nat → Location → Location × Bool
  | 0, _, loc => (loc, false)
  | fuel + 1, i, loc =>
      if endOfString (bufAt buf i) then (loc, false)
      else if (i = 0 ∨ newline (bufAt buf (i - 1))) ∧ leftBrace (bufAt buf i) then
        let sectionStart := i + 1
        let i := Scan.scanWhile (fun c => !isRightBrace c && !endOfString c) buf (i + 1)
        if strncmp (buf.drop sectionStart) sec (i - sectionStart) = 0 then
          let (loc, i, found) := enterSection key buf sectionStart i loc
          if found then (loc, true) else parseSections sec key buf fuel i loc
        else parseSections sec key buf fuel i loc
      else parseSections sec key buf fuel (i + 1) loc

def parseFile (sec key buf : List Byte) : Location × Bool :=
  parseSections sec key buf (buf.length + 1) 0 {}

/-- The call `strncpy` fills the buffer with zero bytes. -/
def strncpy (size : Nat) (src : List Byte) : List Byte :=
  (cString src).take size ++ List.replicate (size - (cString src).length) 0

/-- The buffer `value` has at least one byte, and a missing default leaves it as it was. -/
def readProfileString (calls : FileCalls) (sec key value : List Byte) (defaultValue : Option (List Byte))
    (file : Option (List Byte)) : Except IniFault (Bool × List Byte) :=
  let default := defaultValue.elim value (strncpy value.length)
  if sec = [] ∨ key = [] ∨ value = [] then .error .emptyArgument
  else match loadIniFile calls file with
    | .error fault => .error fault
    | .ok none => .ok (false, default)
    | .ok (some buf) =>
        let (loc, found) := parseFile sec key buf
        if found then
          let cpcount := min (loc.valueE - loc.valueS).toNat (value.length - 1)
          .ok (true, bufCopy buf loc.valueS.toNat cpcount ++ List.replicate (value.length - cpcount) 0)
        else .ok (false, default)

/-- The text of `w_buf` follows one of three paths. -/
def profileText (sec key value buf : List Byte) (loc : Location) : Except IniFault (List Byte) :=
  let entry := key ++ [charByte '='] ++ value ++ [charByte '\n']
  let header := [charByte '['] ++ sec ++ [charByte ']', charByte '\n']
  if loc.secS = -1 then
    if buf.length = 0 then .ok (header ++ entry)
    else .ok (buf ++ [charByte '\n'] ++ header ++ entry)
  else if loc.keyS = -1 then
    -- The rest of the file is passed as the format, and its length as the argument.
    match Printf.format .text (some (BitVec.ofInt 32 (buf.length - loc.secE)))
        (cString (buf.drop loc.secE.toNat)) with
    | none => .error .undefinedFormat
    | some rest => .ok (bufCopy buf 0 loc.secE.toNat ++ entry ++ rest)
  else
    .ok (bufCopy buf 0 loc.valueS.toNat ++ value ++
      bufCopy buf loc.valueE.toNat (buf.length - loc.valueE.toNat))

/-- The file is emptied when it is opened, and `fputs` writes the text up to its terminator. -/
def storeProfile (calls : FileCalls) (text : List Byte) (file : Option (List Byte)) :
    Bool × Option (List Byte) :=
  if calls.fopenWrite = false then (false, file)
  else match calls.fputs with
    | none => (true, some (cString text))
    | some count => (false, some ((cString text).take count))

def writeProfileString (calls : FileCalls) (sec key : List Byte) (value : Option (List Byte))
    (file : Option (List Byte)) : Except IniFault (Bool × Option (List Byte)) :=
  match value with
  | none => .ok (false, file)
  | some value =>
      if sec = [] ∨ key = [] then .ok (false, file)
      else match loadIniFile calls file with
        | .error fault => .error fault
        | .ok loaded =>
            let loc := match loaded with
              | none => {}
              | some buf => (parseFile sec key buf).1
            match profileText sec key value (loaded.getD []) loc with
            | .error fault => .error fault
            | .ok text =>
                if text.length < maxFileSize then .ok (storeProfile calls text file)
                else .error .bufferOverflow

end Psuart

import Psuart.Model.Utils

namespace Psuart

/-- The call `strrchr` finds the last place of a character. -/
def strrchr (c : Byte) : List Byte → Option Nat
  | [] => none
  | first :: rest =>
      match strrchr c rest with
      | some place => some (place + 1)
      | none => if first = c then some 0 else none

def pathSplit : Byte := charByte '/'

/-- The file name is a string without its terminator. -/
def extractFilePath (fileName : List Byte) : List Byte :=
  let len := match strrchr pathSplit fileName with
    | none => fileName.length
    | some p => p + 1
  fileName.take len

def extractFileName (fileName : List Byte) : List Byte :=
  match strrchr pathSplit fileName with
  | none => fileName
  | some p => fileName.drop (p + 1)

/-- The array `tmp` of `main` has 128 bytes, and a longer path is not defined by its source. -/
def logDirectory (logFile : List Byte) : Option (List Byte) :=
  let tmp := extractFilePath logFile
  if tmp.length < 128 then some tmp else none

end Psuart

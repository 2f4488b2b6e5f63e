import Psuart.Model.Basic

namespace Psuart

/-- A C string ends before its first NUL. -/
def cString (bytes : List Byte) : List Byte := bytes.takeWhile (· ≠ 0)

/-- The C locale maps only the letters A to Z to lower case. -/
def tolower (byte : Byte) : Byte :=
  if charByte 'A' ≤ byte ∧ byte ≤ charByte 'Z' then byte + 0x20 else byte

/-- The comparison stops at the first difference or at a terminator. -/
def compareLower : List Byte → List Byte → Int
  | [], [] => 0
  | [], second :: _ => -(tolower second).toNat
  | first :: _, [] => (tolower first).toNat
  | first :: rest, second :: tail =>
      if tolower first = tolower second then compareLower rest tail
      else (tolower first).toNat - (tolower second).toNat

/-- The library function `strcasecmp` compares two C strings without case. -/
def strcasecmp (first second : List Byte) : Int := compareLower (cString first) (cString second)

/-- One round of the loop of `StrToInt` reads one character. -/
def strToIntDigit (radix value : CInt) (byte : Byte) : CInt :=
  if charByte '0' ≤ byte ∧ byte ≤ charByte '9' then
    value * radix + promoteChar byte - promoteChar (charByte '0')
  else if radix = 16 ∧ charByte 'a' ≤ byte ∧ byte ≤ charByte 'f' then
    value * radix + (promoteChar byte ||| 0x20) - promoteChar (charByte 'a') + 10
  else if radix = 16 ∧ charByte 'A' ≤ byte ∧ byte ≤ charByte 'F' then
    value * radix + (promoteChar byte ||| 0x20) - promoteChar (charByte 'A') + 10
  else value

/-- The loop of `StrToInt` runs to the terminator. -/
def strToIntLoop (radix : CInt) (str : List Byte) : CInt :=
  (cString str).foldl (strToIntDigit radix) 0

/-- The prefix of `StrToInt` selects the radix. -/
def strToIntUnsigned (str : List Byte) : CInt :=
  match str with
  | first :: second :: rest =>
      if first = charByte '0' ∧ (second = charByte 'x' ∨ second = charByte 'X') then
        strToIntLoop 16 rest
      else if first = charByte '0' then strToIntLoop 8 (second :: rest)
      else strToIntLoop 10 (first :: second :: rest)
  | [first] => if first = charByte '0' then strToIntLoop 8 [] else strToIntLoop 10 [first]
  | [] => strToIntLoop 10 []

/-- The function `StrToInt` reads a signed number in radix 8, 10 or 16. -/
def strToInt (str : List Byte) : CInt :=
  match str with
  | first :: rest => if first = charByte '-' then -1 * strToIntUnsigned rest else 1 * strToIntUnsigned (first :: rest)
  | [] => 1 * strToIntUnsigned []

/-- The exact results of the arithmetic in one round, in the order of its operators. -/
def strToIntDigitValues (radix value : CInt) (byte : Byte) : List Int :=
  let product := value.toInt * radix.toInt
  let char := (promoteChar byte).toInt
  let lower := (promoteChar byte ||| 0x20).toInt
  let letter (first : Int) := [product, product + lower, product + lower - first, product + lower - first + 10]
  if charByte '0' ≤ byte ∧ byte ≤ charByte '9' then
    [product, product + char, product + char - (promoteChar (charByte '0')).toInt]
  else if radix = 16 ∧ charByte 'a' ≤ byte ∧ byte ≤ charByte 'f' then letter (promoteChar (charByte 'a')).toInt
  else if radix = 16 ∧ charByte 'A' ≤ byte ∧ byte ≤ charByte 'F' then letter (promoteChar (charByte 'A')).toInt
  else []

/-- The exact results of the arithmetic in the loop. -/
def strToIntLoopValues (radix value : CInt) : List Byte → List Int
  | [] => []
  | byte :: rest =>
      strToIntDigitValues radix value byte ++ strToIntLoopValues radix (strToIntDigit radix value byte) rest

def strToIntUnsignedValues (str : List Byte) : List Int :=
  match str with
  | first :: second :: rest =>
      if first = charByte '0' ∧ (second = charByte 'x' ∨ second = charByte 'X') then
        strToIntLoopValues 16 0 (cString rest)
      else if first = charByte '0' then strToIntLoopValues 8 0 (cString (second :: rest))
      else strToIntLoopValues 10 0 (cString (first :: second :: rest))
  | [first] => if first = charByte '0' then [] else strToIntLoopValues 10 0 (cString [first])
  | [] => []

/-- The exact results of all arithmetic in a call of `StrToInt`. -/
def strToIntValues (str : List Byte) : List Int :=
  match str with
  | first :: rest =>
      if first = charByte '-' then strToIntUnsignedValues rest ++ [-1 * (strToIntUnsigned rest).toInt]
      else strToIntUnsignedValues (first :: rest) ++ [1 * (strToIntUnsigned (first :: rest)).toInt]
  | [] => [1 * (strToIntUnsigned []).toInt]

end Psuart

import Psuart.Library.Radix
import Psuart.Model.Address

namespace Psuart

/-- The shortest form of a number with digits in lower case. -/
def digitText (base number : Nat) : List Byte := (Radix.digits base number).map (Printf.digitCode false)

def signText (number : Int) : List Byte := if number < 0 then [charByte '-'] else []

/-- The conversion `%d` prints a minus sign in front of a negative number. -/
def intText (number : Int) : List Byte := signText number ++ decimal number.natAbs

/-- A number is written in decimal, octal or hexadecimal form, and the hexadecimal letters have any case. -/
inductive IntLiteral (number : Int) : List Byte → Prop where
  | decimal : IntLiteral number (signText number ++ digitText 10 number.natAbs)
  | octal : IntLiteral number (signText number ++ charByte '0' :: digitText 8 number.natAbs)
  | hex (marker : Byte) (marked : marker = charByte 'x' ∨ marker = charByte 'X') (digits : List Byte)
      (spelled : digits.map tolower = digitText 16 number.natAbs) :
      IntLiteral number (signText number ++ charByte '0' :: marker :: digits)

/-- Every result of the arithmetic fits into an `int`. -/
def NoOverflow (str : List Byte) : Prop := ∀ result ∈ strToIntValues str, -2 ^ 31 ≤ result ∧ result < 2 ^ 31

def isUpperDigit (c : Byte) : Bool := charByte 'A' ≤ c ∧ c ≤ charByte 'F'

def isLowerDigit (c : Byte) : Bool := charByte 'a' ≤ c ∧ c ≤ charByte 'f'

/-- The last round adds the code of its character before it subtracts the code of the digit zero. -/
def lastExcess (str : List Byte) : Nat :=
  if str.getLast?.any isLowerDigit then (charByte 'a').toNat - 10 else (charByte '0').toNat

end Psuart

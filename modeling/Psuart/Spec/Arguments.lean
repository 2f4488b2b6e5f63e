import Psuart.Model.Arguments

namespace Psuart

/-- The fields are joined by single separators. -/
def joinFields (spliter : Byte) (fields : List (List Byte)) : List Byte := [spliter].intercalate fields

/-- The slots hold the first fields at their own positions. -/
structure SplitsPositional (spliter : Byte) (maxsize : Nat) (fields : List (List Byte)) : Prop where
  count : (splitArguments spliter maxsize (joinFields spliter fields)).length = min fields.length maxsize
  slots : ∀ index, index < min fields.length maxsize →
    (splitArguments spliter maxsize (joinFields spliter fields))[index]? = fields[index]?

/-- Each parameter is the field at its own position, and a missing field has a default. -/
def positionalPort (fields : List (List Byte)) : ComPort where
  com := fields.getD 0 comPortDefault.com
  s := fields.getD 1 comPortDefault.s
  p := fields.getD 2 comPortDefault.p
  b := fields.getD 3 comPortDefault.b
  d := fields.getD 4 comPortDefault.d

/-- The number of fields in front of the first empty one. -/
def fieldsBeforeEmpty (fields : List (List Byte)) : Nat := (fields.takeWhile (· ≠ [])).length

/-- The number of empty fields in a row from the first empty one on. -/
def emptyFieldRun (fields : List (List Byte)) : Nat :=
  ((fields.dropWhile (· ≠ [])).takeWhile (· = [])).length

/-- No field is empty, or the slots end before half of the first run of empty fields has passed. -/
def EmptyFieldsBehind (maxsize : Nat) (fields : List (List Byte)) : Prop :=
  [] ∉ fields ∨ maxsize ≤ fieldsBeforeEmpty fields + emptyFieldRun fields / 2

/-- The argument is read as the switch. -/
def ParsesAs (param arg : List Byte) : Prop := utilsStrincmp (switchName arg) param 0 = 0

instance (param arg : List Byte) : Decidable (ParsesAs param arg) :=
  inferInstanceAs (Decidable (utilsStrincmp (switchName arg) param 0 = 0))

/-- The argument that joins a switch and its value with a colon. -/
def switchWithColon (param value : List Byte) : List Byte := stringBytes "--" ++ param ++ charByte ':' :: value

end Psuart

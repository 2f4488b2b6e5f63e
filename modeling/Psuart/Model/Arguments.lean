import Psuart.Model.Address

namespace Psuart

/-- The parameters of the serial port as texts. -/
structure ComPort where
  com : List Byte
  s : List Byte
  p : List Byte
  b : List Byte
  d : List Byte
  deriving DecidableEq

def comPortDefault : ComPort :=
  ⟨stringBytes "/dev/ttyACM0", stringBytes "115200", stringBytes "N", stringBytes "1", stringBytes "8"⟩

/-- The switch of `com_open` over the number of arguments. -/
def comOpenPort (dev : List Byte) : ComPort :=
  let arg := splitArguments (charByte ',') 5 dev
  let slot (index : Nat) := arg.getD index []
  match arg.length with
  | 0 => comPortDefault
  | 1 => { comPortDefault with com := slot 0 }
  | 2 => { comPortDefault with com := slot 0, s := slot 1 }
  | 3 => { comPortDefault with com := slot 0, s := slot 1, p := slot 2 }
  | 4 => { comPortDefault with com := slot 0, s := slot 1, p := slot 2, b := slot 3 }
  | _ => ⟨slot 0, slot 1, slot 2, slot 3, slot 4⟩

/-- The array `sw` has 100 bytes, and its last one ends the string. -/
def switchSize : Nat := 100

/-- The name of a switch or its value is longer than its array. -/
inductive ArgumentFault where
  | bufferOverflow
  | valueOverflow
  deriving DecidableEq

/-- These characters in front of a switch are skipped. -/
def isSwitchMark (c : Byte) : Bool :=
  c = charByte ' ' ∨ c = charByte '/' ∨ c = charByte '-' ∨ c = charByte '\\'

/-- The name of a switch ends at the colon. -/
def switchName (arg : List Byte) : List Byte := (arg.dropWhile isSwitchMark).takeWhile (· ≠ charByte ':')

/-- The value stands behind the colon, or it is the next argument when that one is no switch. -/
def switchValue (arg : List Byte) (rest : List (List Byte)) : List Byte :=
  match (arg.dropWhile isSwitchMark).drop (switchName arg).length with
  | _ :: value => value
  | [] =>
      match rest with
      | [] => []
      | next :: _ =>
          if next.head? ≠ some (charByte '/') ∧ next.head? ≠ some (charByte '-') then next else []

/-- The loop over the arguments leaves the value of the last one that it has visited.
The size is that of the array for the values, where it is known. -/
def cmdParamLoop (size : Option Nat) (param : List Byte) :
    List Byte → List (List Byte) → Except ArgumentFault (Bool × List Byte)
  | paramValue, [] => .ok (false, paramValue)
  | _, arg :: rest =>
      let paramValue := switchValue arg rest
      if switchSize ≤ (switchName arg).length then .error .bufferOverflow
      else if size.any (· ≤ paramValue.length) then .error .valueOverflow
      else if utilsStrincmp (switchName arg) param 0 = 0 then .ok (true, paramValue)
      else cmdParamLoop size param paramValue rest

/-- The first element of `argv` is the name of the program. The function does not know the size of its array. -/
def getCmdParamValue (argv : List (List Byte)) (param : List Byte) :
    Except ArgumentFault (Bool × List Byte) :=
  cmdParamLoop none param [] argv.tail

end Psuart

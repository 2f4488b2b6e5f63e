import Psuart.Library.Verdict
import Psuart.Spec.Inih

namespace Psuart

variable {S : Type}

def IniEffect.opened : IniEffect → Option (List Byte)
  | .opens name => some (strncpy0 name maxSection)
  | _ => none

/-- An entry sets the last name, and a header resets it. -/
def IniEffect.named : IniEffect → Option (List Byte)
  | .opens _ => some []
  | .entry name _ => some (strncpy0 name maxName)
  | _ => none

/-- The section behind some lines is that of the last header. -/
def sectionBehind (effects : List IniEffect) : List Byte := (effects.reverse.findSome? IniEffect.opened).getD []

def nameBehind (effects : List IniEffect) : List Byte := (effects.reverse.findSome? IniEffect.named).getD []

/-- The effect of a line depends on the lines in front of it only through the last name. -/
def effectsOf (chunks : List (List Byte)) : List IniEffect :=
  chunks.foldl
    (fun front chunk => front ++ [lineEffect (front.length = 0) (nameBehind front ≠ []) (cString chunk)]) []

/-- A line holds an entry or an error. -/
structure IniItem where
  line : Nat
  entry : Option Received

def itemOf (front : List IniEffect) : IniEffect → Option IniItem
  | .skip => none
  | .opens _ => none
  | .fail => some ⟨front.length + 1, none⟩
  | .continues value => some ⟨front.length + 1, some ⟨sectionBehind front, nameBehind front, value⟩⟩
  | .entry name value => some ⟨front.length + 1, some ⟨sectionBehind front, name, value⟩⟩

def itemsOf (effects : List IniEffect) : List IniItem :=
  (List.range effects.length).filterMap fun index => effects[index]?.bind (itemOf (effects.take index))

/-- The items of a file are known without its handler. -/
def iniItems (file : List Byte) : List IniItem := itemsOf (effectsOf (fgetsLines iniMaxLine [] file))

/-- The handler judges an entry, and an error is always rejected. -/
def judge (handler : IniHandler S) (user : S) (item : IniItem) : S × Bool :=
  match item.entry with
  | none => (user, false)
  | some entry => handler user entry.sec entry.name entry.value

/-- The parser hands every entry to the handler in order and reports the line of the first rejected item. -/
structure ParsesItems (handler : IniHandler S) (user : S) (items : List IniItem) (result : Int × S) : Prop where
  state : result.2 = Machine.run (judge handler) user items
  clean : result.1 = 0 ↔ Machine.rejected (judge handler) user items = none
  first : ∀ item, Machine.rejected (judge handler) user items = some item ↔
    item ∈ items ∧ result.1 = item.line

end Psuart

import Psuart.Library.Comparison
import Psuart.Library.Trimming
import Psuart.Model.Text

namespace Psuart

/-- The codes of the lower-cased characters that are compared. The count zero stands for the whole string. -/
def comparedCodes (n : Nat) (str : List Byte) : List Nat :=
  (if n = 0 then cString str else (cString str).take n).map fun c => (tolower c).toNat

/-- The comparison orders the strings without case and reads neither of them beyond its terminator. -/
structure ComparesLower (n : Nat) : Prop where
  order : ∀ s1 s2, Comparison.Signs (utilsStrincmp s1 s2 n) (comparedCodes n s1) (comparedCodes n s2)
  equal : n = 0 → ∀ s1 s2, utilsStrincmp s1 s2 n = 0 ↔ (cString s1).map tolower = (cString s2).map tolower
  antisymmetric : ∀ s1 s2, (utilsStrincmp s2 s1 n).sign = -(utilsStrincmp s1 s2 n).sign
  transitive : ∀ s1 s2 s3, utilsStrincmp s1 s2 n ≤ 0 → utilsStrincmp s2 s3 n ≤ 0 → utilsStrincmp s1 s3 n ≤ 0
  first : ∀ s1 s2, ∀ i ∈ (utilsStrincmpReads s1 s2 n).1, i ≤ (cString s1).length
  second : ∀ s1 s2, ∀ i ∈ (utilsStrincmpReads s1 s2 n).2, i ≤ (cString s2).length

/-- A question mark stands for any character. -/
def MatchesChar (c d : Byte) : Prop := d = charByte '?' ∨ c = d

/-- The prefix up to its first star. -/
def fixedPrefix (decPrefix : List Byte) : List Byte := decPrefix.takeWhile (· ≠ charByte '*')

/-- The source starts with characters that match the prefix up to its first star. -/
def MatchesPrefix (source decPrefix : List Byte) : Prop :=
  ∃ front rest, source = front ++ rest ∧ List.Forall₂ MatchesChar front (fixedPrefix decPrefix)

/-- A star takes the whole rest of the source. -/
def unmatchedRest (source decPrefix : List Byte) : List Byte :=
  if decPrefix.contains (charByte '*') then [] else source.drop decPrefix.length

/-- Both spellings keep the prefix of a source. -/
def KeepsPrefix (decPrefix : List Byte) : Prop := decPrefix = stringBytes "*a" ∨ decPrefix = stringBytes "*A"

/-- The removal undoes the addition, removes exactly a matching prefix and stays inside the source. -/
structure RemovesPrefix (source decPrefix : List Byte) : Prop where
  undoes : charByte '*' ∉ decPrefix → charByte '?' ∉ decPrefix →
    ∃ ret, removePrefix (addPrefix source decPrefix) decPrefix = .ok (ret, source)
  removes : source ≠ [] → decPrefix ≠ [] → ¬KeepsPrefix decPrefix → MatchesPrefix source decPrefix →
    removePrefix source decPrefix = .ok (true, unmatchedRest source decPrefix)
  keeps : source ≠ [] → decPrefix ≠ [] → ¬KeepsPrefix decPrefix → ¬MatchesPrefix source decPrefix →
    removePrefix source decPrefix = .ok (false, source)
  inside : ∀ i ∈ removePrefixReads source decPrefix, i ≤ source.length

/-- The whole source matches a longer prefix in front of any star. -/
def RunsOver (source decPrefix : List Byte) : Prop :=
  source.length < decPrefix.length ∧ charByte '*' ∉ decPrefix.take source.length ∧
    List.Forall₂ MatchesChar source (decPrefix.take source.length)

/-- Both functions take the same value behind the separator. -/
structure SplitsAt (key : List Byte) (spliter : Byte) (value : List Byte) : Prop where
  keyValue : splitStringKeyValue (key ++ spliter :: value) = (key, value)
  value : splitStringValue (key ++ spliter :: value) = value

/-- The call stays inside the string and removes the blanks at its ends once and for all. -/
structure TrimsInside (str : List Byte) : Prop where
  inside : ∀ i ∈ trimReads str, 0 ≤ i ∧ i ≤ str.length
  trimmed : trim str = .ok (Trimming.strip isBlank str)
  again : ∀ result, trim str = .ok result → trim result = .ok result

end Psuart

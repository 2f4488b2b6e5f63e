import Psuart.Model.Arguments

namespace Psuart

/-- The rounds of the comparison read the same places of both strings. -/
def strincmpLoopReads : Nat → List Byte → List Byte → List Nat
  | 0, _, _ => []
  | n + 1, s1, s2 =>
      0 :: if tolower (s1.headD 0) ≠ tolower (s2.headD 0) ∨ s1.headD 0 = 0 ∨ s2.headD 0 = 0 then []
        else (strincmpLoopReads n s1.tail s2.tail).map Nat.succ

/-- The call `strlen` reads a string up to its terminator. -/
def strlenReads (str : List Byte) : List Nat := List.range ((cString str).length + 1)

/-- The places that `utils_strincmp` reads in its first and in its second string. -/
def utilsStrincmpReads (s1 s2 : List Byte) (n : Nat) : List Nat × List Nat :=
  let loop := strincmpLoopReads (if n = 0 then max (cString s1).length (cString s2).length else n)
    (cString s1) (cString s2)
  if n = 0 then (strlenReads s1 ++ loop, strlenReads s2 ++ loop) else (loop, loop)

/-- The first element of `argv` is the name of the program. -/
def checkCmdLine (argv : List (List Byte)) (sw : List Byte) : Bool :=
  argv.tail.any fun arg => utilsStrincmp (arg.dropWhile isSwitchMark) sw 0 = 0

def addPrefix (source addPrefix : List Byte) : List Byte := addPrefix ++ source

/-- The loop leaves the place behind the prefix. The lists are the rests of both strings. -/
def removePrefixLoop (sourceLen decPrefixLen : Nat) : List Byte → List Byte → Nat
  | _, [] => decPrefixLen
  | [], _ :: _ => decPrefixLen
  | c :: source, d :: decPrefix =>
      if d = charByte '*' then sourceLen
      else if c ≠ d ∧ d ≠ charByte '?' then 0
      else removePrefixLoop sourceLen decPrefixLen source decPrefix

/-- The loop reads the source only in front of its terminator. -/
def removePrefixLoopReads : List Byte → List Byte → List Nat
  | c :: source, d :: decPrefix =>
      if d = charByte '*' then []
      else 0 :: if c ≠ d ∧ d ≠ charByte '?' then []
        else (removePrefixLoopReads source decPrefix).map Nat.succ
  | _, _ => []

inductive PrefixFault where
  | sourceOverrun
  deriving DecidableEq

/-- The value `sPos` of the call `strcpy`. -/
def removePrefixPos (source decPrefix : List Byte) : Nat :=
  if utilsStrincmp decPrefix (stringBytes "*a") 0 = 0 then 0
  else removePrefixLoop source.length decPrefix.length source decPrefix

/-- The result is copied from `sPos` on, and behind the terminator nothing is known of the memory. -/
def removePrefix (source decPrefix : List Byte) : Except PrefixFault (Bool × List Byte) :=
  let sPos := removePrefixPos source decPrefix
  if source.length < sPos then .error .sourceOverrun
  else if utilsStrincmp decPrefix (stringBytes "*a") 0 = 0 then .ok (true, source.drop sPos)
  else .ok (decide (0 < sPos), source.drop sPos)

/-- The places of the source that the call reads. Behind the terminator it is only the first one. -/
def removePrefixReads (source decPrefix : List Byte) : List Nat :=
  let sPos := removePrefixPos source decPrefix
  List.range (source.length + 1) ++
    (if utilsStrincmp decPrefix (stringBytes "*a") 0 = 0 then [] else removePrefixLoopReads source decPrefix) ++
    sPos :: List.range' sPos (source.length + 1 - sPos)

/-- The array `spliter` of both functions. -/
def spliters : List Byte := stringBytes "=#|&@"

/-- The call `strchr` finds the first place of a character that is not the terminator. -/
def strchr (str : List Byte) (c : Byte) : Option Nat := str.findIdx? (· = c)

/-- Each separator is searched in the whole string until one is found. -/
def splitStringValue (str : List Byte) : List Byte :=
  match spliters.findSome? (strchr str) with
  | none => str
  | some ppos => str.drop (ppos + 1)

/-- The loop leaves the place behind the first separator or the place of the terminator. -/
def splitKeyLoop : List Byte → Nat
  | [] => 0
  | c :: rest => if (strchr spliters c).isSome then 1 else splitKeyLoop rest + 1

/-- A separator at the end of the string is taken for its terminator. -/
def splitStringKeyValue (str : List Byte) : List Byte × List Byte :=
  let p := splitKeyLoop str
  if str.length ≤ p then (str, []) else (str.take (p - 1), str.drop p)

/-- The loop of `Copy` stops at its count or at the terminator. -/
def copyLoop (sstr : List Byte) (start : Nat) : Nat → List Byte
  | 0 => []
  | left + 1 =>
      if h : start < sstr.length then sstr.get ⟨start, h⟩ :: copyLoop sstr (start + 1) left else []

/-- The caller passes a place of the string. -/
def copy (sstr : List Byte) (start : Nat) (count : Int) : List Byte :=
  if start ≥ sstr.length ∨ count ≤ 0 then [] else copyLoop sstr start count.toNat

/-- Every test calls `strlen`, and each round copies one character. -/
def copyReads (sstr : List Byte) (start : Nat) (count : Int) : List Nat :=
  List.range (sstr.length + 1) ++
    if start ≥ sstr.length ∨ count ≤ 0 then []
    else List.range' start (copyLoop sstr start count.toNat).length

def isBlank (c : Byte) : Bool := c = charByte ' ' ∨ c = charByte '\t' ∨ c = charByte '\n' ∨ c = charByte '\r'

/-- The first loop stops at the terminator at the latest. -/
def trimStart (str : List Byte) : Nat := (str.takeWhile isBlank).length

/-- The second loop runs down from the place in front of `count` characters, and in front of the string nothing is
known of the memory. -/
def trimEnd (str : List Byte) : Nat → Option Nat
  | 0 => none
  | count + 1 => if isBlank (str.getD count 0) then trimEnd str count else some count

def trimEndReads (str : List Byte) : Nat → List Int
  | 0 => [-1]
  | count + 1 => count :: if isBlank (str.getD count 0) then trimEndReads str count else []

inductive TrimFault where
  | stringUnderrun
  deriving DecidableEq

def trim (str : List Byte) : Except TrimFault (List Byte) :=
  match trimEnd str str.length with
  | none => .error .stringUnderrun
  | some iEnd => .ok (copy str (trimStart str) (iEnd - trimStart str + 1))

/-- The places of the string that the call reads. In front of the string it is only the first one. -/
def trimReads (str : List Byte) : List Int :=
  (List.range (str.length + 1) ++ List.range (trimStart str + 1)).map Int.ofNat ++ trimEndReads str str.length ++
    match trimEnd str str.length with
    | none => []
    | some iEnd => (copyReads str (trimStart str) (iEnd - trimStart str + 1)).map Int.ofNat

end Psuart

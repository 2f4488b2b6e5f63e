import Psuart.Model.Ini

namespace Psuart

def maxArgLen : Nat := 512

/-- The loop compares until a difference, a terminator or its count. -/
def strincmpLoop : Nat → List Byte → List Byte → Int
  | 0, _, _ => 0
  | n + 1, s1, s2 =>
      let d : Int := (tolower (s1.headD 0)).toNat - (tolower (s2.headD 0)).toNat
      if d ≠ 0 ∨ s1.headD 0 = 0 ∨ s2.headD 0 = 0 then d else strincmpLoop n s1.tail s2.tail

/-- The count zero stands for the length of the longer string. -/
def utilsStrincmp (s1 s2 : List Byte) (n : Nat) : Int :=
  strincmpLoop (if n = 0 then max (cString s1).length (cString s2).length else n) (cString s1) (cString s2)

/-- The strings that the loop stores into the zeroed slots. The number counts the slots that are left. -/
def splitArguments (spliter : Byte) : Nat → List Byte → List (List Byte)
  | 0, _ => []
  | left + 1, ps =>
      let ps := if ps.head? = some spliter then ps.tail else ps
      let field := ps.takeWhile (· ≠ spliter)
      match ps.drop field.length with
      | [] => if ps = [] then [] else [field.take (maxArgLen - 1)]
      | _ :: rest => field.take (maxArgLen - 1) :: splitArguments spliter left rest

/-- The digits behind white space and a sign. A value beyond `int` is not defined by the language. -/
def atoi (str : List Byte) : CInt :=
  let text := (cString str).dropWhile isspace
  let negative := text.head? = some (charByte '-')
  let digits := if negative ∨ text.head? = some (charByte '+') then text.tail else text
  let value := (digits.takeWhile fun c => charByte '0' ≤ c ∧ c ≤ charByte '9').foldl
    (fun (value : CInt) c => value * 10 + promoteChar c - promoteChar (charByte '0')) 0
  if negative then -value else value

/-- The address has its first number in the lowest byte on the little-endian host. -/
def getIpAddr (ipaddr : List Byte) : BitVec 32 :=
  if utilsStrincmp ipaddr [charByte '*'] ipaddr.length = 0 then 0
  else
    let arg := splitArguments (charByte '.') 4 ipaddr
    let ip (index : Nat) : Byte := (atoi (arg.getD index [])).setWidth 8
    ip 3 ++ ip 2 ++ ip 1 ++ ip 0

inductive AddressFault where
  | nullString
  | bufferOverflow
  deriving DecidableEq

/-- The array `Buf` has 50 bytes. -/
def parseIPAddr (cAddr : Option (List Byte)) : Except AddressFault (BitVec 32 × BitVec 16) :=
  match cAddr with
  | none => .error .nullString
  | some text =>
      let buf := cString text
      if 50 ≤ buf.length then .error .bufferOverflow
      else
        let host := buf.takeWhile (· ≠ charByte ':')
        match buf.drop host.length with
        | [] => .ok (getIpAddr host, 0)
        | _ :: port => .ok (getIpAddr host, (strToInt port).setWidth 16)

/-- The conversion `%d` prints a number without a sign in its shortest decimal form. -/
def decimal (number : Nat) : List Byte := ({} : Printf.Directive).digits 10 false number

/-- The format `%d.%d.%d.%d` prints the bytes of the address from the lowest one on. -/
def ip2Str (ip : BitVec 32) : List Byte :=
  decimal (ip &&& 0xFF).toNat ++ [charByte '.'] ++ decimal ((ip >>> 8) &&& 0xFF).toNat ++ [charByte '.'] ++
    decimal ((ip >>> 16) &&& 0xFF).toNat ++ [charByte '.'] ++ decimal ((ip >>> 24) &&& 0xFF).toNat

end Psuart

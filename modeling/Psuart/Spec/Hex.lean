import Psuart.Model.Hex
import Psuart.Spec.Literal

namespace Psuart

def isHexDigit (c : Byte) : Bool := charByte '0' ≤ c ∧ c ≤ charByte '9' ∨ isUpperDigit c ∨ isLowerDigit c

def isLineEnd (c : Byte) : Bool := c = charByte '\r' ∨ c = charByte '\n'

/-- The C locale maps only the letters a to z to upper case. -/
def toupper (c : Byte) : Byte := if charByte 'a' ≤ c ∧ c ≤ charByte 'z' then c - 0x20 else c

/-- The pairs of a text before the first line end at an even offset. -/
def hexLine : List Byte → List Byte
  | first :: second :: rest => if isLineEnd first then [] else first :: second :: hexLine rest
  | _ => []

/-- The bytes are encoded, and their text is decoded to the bytes and their number. -/
def HexRoundTrip (past dest : Memory) (encodeLen decodeLen : CInt) (source : List Byte) : Prop :=
  let encoded := hexEncode (memcpy past 0 source) (BitVec.ofNat 32 source.length) encodeLen
  let decoded := hexDecode (memcpy dest 0 encoded.written) encoded.destLen decodeLen
  encoded.ret = true ∧ decoded.ret = true ∧ decoded.written = source ∧ decoded.destLen.toInt = source.length

/-- The call decodes exactly a line of digits, and its result is encoded to the line in upper case. -/
structure DecodesLine (dest : Memory) (decoded : HexCall) (text : List Byte) : Prop where
  accepts : decoded.ret = true ↔ ∀ c ∈ hexLine text, isHexDigit c
  length : decoded.ret = true →
    decoded.destLen.toInt = decoded.written.length ∧ 2 * decoded.written.length = (hexLine text).length
  encodes : decoded.ret = true → ∀ encodeLen : CInt, 2 * decoded.written.length + 1 ≤ encodeLen.toInt →
    let encoded := hexEncode (memcpy dest 0 decoded.written) decoded.destLen encodeLen
    encoded.ret = true ∧ encoded.written = (hexLine text).map toupper

/-- The call stays inside the declared sizes of its source and its destination. -/
structure HexCall.Inside (call : HexCall) (nSrcLen nDestLen : CInt) : Prop where
  written : (call.written.length : Int) ≤ nDestLen.toInt
  reads : ∀ place ∈ call.reads, (place : Int) < nSrcLen.toInt

/-- The loop ends before the pair `count`, or at a line end in its first place. -/
def StopsBefore (pSrcData : Memory) (nRead count : Nat) : Prop :=
  (∃ pair ≤ count, isLineEnd (pSrcData (nRead + 2 * pair : Nat))) ∨
    ∃ pair < count, ¬(isHexDigit (pSrcData (nRead + 2 * pair : Nat)) ∧
      isHexDigit (pSrcData (nRead + 2 * pair + 1 : Nat)))

/-- A call of `HexDecode` is refused, has an even length, or ends before its last character. -/
def DecodeStaysInside (pSrcData : Memory) (nSrcLen nDestLen : CInt) : Prop :=
  nSrcLen.toInt % 2 = 0 ∨ nDestLen.toInt < nSrcLen.toInt / 2 ∨ StopsBefore pSrcData 0 (nSrcLen.toInt / 2).toNat

end Psuart

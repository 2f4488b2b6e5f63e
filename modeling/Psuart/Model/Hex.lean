import Psuart.Model.Utils

namespace Psuart

/-- A call returns its result, the elements that it stores from the start of the destination on, the new
value of `*pnDestLen`, and the indices of the source that it reads. -/
structure HexCall where
  ret : Bool
  written : List Byte
  destLen : CInt
  reads : List Nat

/-- The sum overflows an `int` from 2^30 bytes on, and it wraps on the targets. -/
def hexEncodeGetRequiredLength (nSrcLen : CInt) : CInt := 2 * nSrcLen + 1

def hexDecodeGetRequiredLength (nSrcLen : CInt) : CInt := nSrcLen.sdiv 2

/-- The table `s_chHexChars`. -/
def hexChars (index : Byte) : Byte :=
  if index < 10 then charByte '0' + index else charByte 'A' + (index - 10)

/-- The loop of `HexEncode` runs once for each byte that is left. -/
def hexEncodeLoop (pbSrcData : Memory) : Nat → Nat → List Byte × List Nat
  | 0, _ => ([], [])
  | left + 1, nRead =>
      let ch := pbSrcData nRead
      let (written, reads) := hexEncodeLoop pbSrcData left (nRead + 1)
      (hexChars ((ch >>> 4) &&& 0x0F) :: hexChars (ch &&& 0x0F) :: written, nRead :: reads)

def hexEncode (pbSrcData : Memory) (nSrcLen nDestLen : CInt) : HexCall :=
  if nDestLen.slt (hexEncodeGetRequiredLength nSrcLen) then ⟨false, [], nDestLen, []⟩
  else
    let (written, reads) := hexEncodeLoop pbSrcData nSrcLen.toInt.toNat 0
    ⟨true, written, BitVec.ofNat 32 written.length, reads⟩

def hexInvalid : Byte := -1

/-- The comparisons are signed, so no byte from 0x80 on lies in a range. -/
def getHexValue (ch : Byte) : Byte :=
  if charByte '0' ≤ ch ∧ ch ≤ charByte '9' then ch - charByte '0'
  else if charByte 'A' ≤ ch ∧ ch ≤ charByte 'F' then ch - charByte 'A' + 10
  else if charByte 'a' ≤ ch ∧ ch ≤ charByte 'f' then ch - charByte 'a' + 10
  else hexInvalid

/-- The loop of `HexDecode` runs once for each pair that is left. The last pair of an odd length is read whole,
and only behind such a read can `nRead` overflow. -/
def hexDecodeLoop (pSrcData : Memory) : Nat → Nat → Bool × List Byte × List Nat
  | 0, _ => (true, [], [])
  | left + 1, nRead =>
      let first := pSrcData nRead
      if first = charByte '\r' ∨ first = charByte '\n' then (true, [], [nRead])
      else
        let ch1 := getHexValue first
        let ch2 := getHexValue (pSrcData (nRead + 1))
        if ch1 = hexInvalid ∨ ch2 = hexInvalid then (false, [], [nRead, nRead + 1])
        else
          let (ret, written, reads) := hexDecodeLoop pSrcData left (nRead + 2)
          (ret, (16 * ch1 + ch2) :: written, nRead :: (nRead + 1) :: reads)

def hexDecode (pSrcData : Memory) (nSrcLen nDestLen : CInt) : HexCall :=
  if nDestLen.slt (hexDecodeGetRequiredLength nSrcLen) then ⟨false, [], nDestLen, []⟩
  else
    let (ret, written, reads) := hexDecodeLoop pSrcData ((nSrcLen.toInt.toNat + 1) / 2) 0
    ⟨ret, written, if ret then BitVec.ofNat 32 written.length else nDestLen, reads⟩

end Psuart

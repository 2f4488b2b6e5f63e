import Psuart.Model.Rader

namespace Psuart

/-- The header carries the start marker, the big-endian length and the flag. -/
def erupHeader (flag : Byte) (length : Nat) : List Byte :=
  [erupBegin, BitVec.ofNat 8 (length >>> 8), BitVec.ofNat 8 length, flag]

/-- The frame of the protocol surrounds one payload. -/
def erupFrame (flag : Byte) (payload : List Byte) : List Byte :=
  erupHeader flag payload.length ++ payload ++ [crc8 payload, erupEnd]

/-- A buffer carries a command when the frame starts at its first start marker. -/
def Carries (data payload : List Byte) : Prop :=
  payload.length < 2 ^ 16 ∧ ∃ front flag back,
    erupBegin ∉ front ∧ data = front ++ erupFrame flag payload ++ back

/-- A complete valid frame starts at the offset of the buffer. -/
def FrameAt (data : List Byte) (offset : Nat) (payload : List Byte) : Prop :=
  ∃ flag back, data.drop offset = erupFrame flag payload ++ back

@[simp] theorem erupFrame_length (flag : Byte) (payload : List Byte) :
    (erupFrame flag payload).length = payload.length + 6 := by
  simp [erupFrame, erupHeader]

end Psuart

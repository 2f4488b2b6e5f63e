import Psuart.Model.Rader
import Psuart.Model.RingAccess

namespace Psuart

/-- The array `buf` of `rader_recv` has 4096 bytes. -/
def packetSize : Nat := 4096

/-- The array behind the copy out of the ring. -/
def packetFilled (flag : Byte) (dlen : BitVec 16) (data : List Byte) : Memory :=
  memcpy (erupSetFlag (erupSetLen (erupSetBegin fun _ => 0) dlen.toNat) flag) 4 data

/-- The array behind its CRC. -/
def packetChecked (flag : Byte) (dlen : BitVec 16) (data : List Byte) : Memory :=
  erupSetCrc promoteChar (packetFilled flag dlen data)

/-- The array behind its end marker. -/
def packetClosed (flag : Byte) (dlen : BitVec 16) (data : List Byte) : Memory :=
  erupSetEnd promoteChar (packetChecked flag dlen data)

/-- The last three macros read the length out of the array again. -/
def packetLengths (flag : Byte) (dlen : BitVec 16) (data : List Byte) : List CInt :=
  [erupGetLen promoteChar (packetFilled flag dlen data), erupGetLen promoteChar (packetChecked flag dlen data),
    erupGetLen promoteChar (packetClosed flag dlen data)]

/-- The indices of the array that the statements write in their order. -/
def packetWrites (flag : Byte) (dlen : BitVec 16) (data : List Byte) : List Int :=
  touched 0 packetSize ++ [0, 1, 2, 3] ++ touched 4 data.length ++
    [(erupGetLen promoteChar (packetFilled flag dlen data)).toInt + 4,
      (erupGetLen promoteChar (packetChecked flag dlen data)).toInt + 5]

/-- The packet is sent out of the closed array. -/
theorem raderPacket_closed (flag : Byte) (dlen : BitVec 16) (data : List Byte) :
    raderPacket flag dlen data =
      bytesAt (packetClosed flag dlen data) 0 (toSizeT (erupGetPacketLen promoteChar (packetClosed flag dlen data))) :=
  rfl

end Psuart

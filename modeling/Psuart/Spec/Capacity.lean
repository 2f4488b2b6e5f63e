import Psuart.Library.Machine
import Psuart.Model.PacketAccess

namespace Psuart

/-- An armed collector waits for its own response from the start of the ring on. -/
structure CapacityInvariant (s : Rader) : Prop where
  length : 0 < s.raderDlen → s.raderDlen = raderDlenOf s.rdaerCmdFlag
  front : 0 < s.raderDlen → s.raderFifo.outIdx = 0
  occupancy : 0 < s.raderDlen → (ringbufferLen s.raderFifo).toNat < s.raderDlen.toNat

/-- The result of `ringbuffer_out` behind a chunk. -/
def recvDelivered (s : Rader) (data : List Byte) : RbUint × List Byte :=
  (ringbufferOut (ringbufferIn s.raderFifo data).1 s.raderDlen.toNat).2

/-- The packet is assembled inside its array around the whole response. -/
structure PacketFits (s : Rader) (data : List Byte) : Prop where
  count : (recvDelivered s data).1.toNat = s.raderDlen.toNat
  delivered : (recvDelivered s data).2 = bytesAt (ringbufferIn s.raderFifo data).1.rdata 0 s.raderDlen.toNat
  reread : ∀ len ∈ packetLengths s.rdaerCmdFlag s.raderDlen (recvDelivered s data).2, len.toInt = s.raderDlen.toNat
  inside : ∀ i ∈ packetWrites s.rdaerCmdFlag s.raderDlen (recvDelivered s data).2, 0 ≤ i ∧ i < packetSize

end Psuart

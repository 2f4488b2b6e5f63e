import Psuart.Library.Queue
import Psuart.Model.RingBuffer

namespace Psuart

/-- A copy touches the bytes from its start on. -/
def touched (start count : Nat) : List Int := (List.range count).map fun index => ((start + index : Nat) : Int)

/-- Both copy helpers touch the end of the ring first and its start afterwards. -/
def ringbufferCopyAccesses (fifo : RingBuffer) (len off : RbUint) : List Int :=
  let slen := minRbUint len ((fifo.mask + 1) - off)
  (if slen > 0 then touched off.toNat slen.toNat else []) ++
    (if len - slen > 0 then touched 0 (len - slen).toNat else [])

def ringbufferInAccesses (fifo : RingBuffer) (buf : List Byte) : List Int :=
  let l := ringbufferUnused fifo
  let len := if buf.length > l.toNat then l.toNat else buf.length
  ringbufferCopyAccesses fifo (BitVec.ofNat 32 len) fifo.inIdx

def ringbufferInByteAccesses (fifo : RingBuffer) : List Int :=
  if ringbufferUnused fifo > 0 then [bytePosition fifo fifo.inIdx] else []

def ringbufferOutPeekAccesses (fifo : RingBuffer) (len : Nat) : List Int :=
  let l := ringbufferLen fifo
  let len := if len > l.toNat then l.toNat else len
  ringbufferCopyAccesses fifo (BitVec.ofNat 32 len) fifo.outIdx

def ringbufferPeekByteAccesses (fifo : RingBuffer) : List Int := [bytePosition fifo fifo.outIdx]

/-- The exported functions are the queue operations and `ringbuffer_skip`. -/
inductive RingCall where
  | op (op : Queue.Op Byte)
  | skip

/-- The indices of `rdata` that a call reads or writes. -/
def ringAccesses (fifo : RingBuffer) : RingCall → List Int
  | .op (.insert block) => ringbufferInAccesses fifo block
  | .op (.insertOne _) => ringbufferInByteAccesses fifo
  | .op (.remove count) => ringbufferOutPeekAccesses fifo count
  | .op .removeOne => ringbufferPeekByteAccesses fifo
  | .op (.peek count) => ringbufferOutPeekAccesses fifo count
  | .op .peekOne => ringbufferPeekByteAccesses fifo
  | .op .clear => []
  | .op .length => []
  | .skip => []

end Psuart

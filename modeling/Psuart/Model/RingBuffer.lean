import Psuart.Model.Basic

namespace Psuart

/-- The type `rbUint` is a 32-bit unsigned integer. -/
abbrev RbUint := BitVec 32

/-- The ring keeps its two indices, its mask and the pointer to its bytes. -/
structure RingBuffer where
  inIdx : RbUint
  outIdx : RbUint
  mask : RbUint
  rdata : Memory

/-- The macro `min` of the header. -/
def minRbUint (x y : RbUint) : RbUint := if x > y then y else x

def ringbufferUnused (fifo : RingBuffer) : RbUint :=
  (fifo.mask + 1) - (fifo.inIdx - fifo.outIdx)

def ringbufferCopyIn (fifo : RingBuffer) (src : List Byte) (len off : RbUint) : RingBuffer :=
  let slen := minRbUint len ((fifo.mask + 1) - off)
  let rdata := if slen > 0 then memcpy fifo.rdata off.toNat (src.take slen.toNat) else fifo.rdata
  let rdata := if len - slen > 0 then
    memcpy rdata 0 ((src.drop slen.toNat).take (len - slen).toNat) else rdata
  { fifo with rdata := rdata }

/-- The result lists the bytes that the function writes to `dst`. -/
def ringbufferCopyOut (fifo : RingBuffer) (len off : RbUint) : List Byte :=
  let slen := minRbUint len ((fifo.mask + 1) - off)
  (if slen > 0 then bytesAt fifo.rdata off.toNat slen.toNat else []) ++
    (if len - slen > 0 then bytesAt fifo.rdata 0 (len - slen).toNat else [])

def ringbufferReset (fifo : RingBuffer) : RingBuffer :=
  { fifo with inIdx := 0, outIdx := 0 }

def ringbufferLen (fifo : RingBuffer) : RbUint :=
  if fifo.inIdx ≥ fifo.outIdx then fifo.inIdx - fifo.outIdx
  else fifo.inIdx + fifo.mask + 1 - fifo.outIdx

def ringbufferSkip (fifo : RingBuffer) : RingBuffer :=
  if ringbufferLen fifo > 0 then { fifo with outIdx := fifo.outIdx + 1 } else fifo

/-- The result carries the error code `-EINVAL` for a buffer below two bytes. -/
def ringbufferInit (fifo : RingBuffer) (buffer : Memory) (slen : Nat) : RingBuffer × RbUint :=
  let fifo := { fifo with inIdx := 0, outIdx := 0, rdata := buffer }
  if slen < 2 then ({ fifo with mask := 0 }, -22)
  else ({ fifo with mask := BitVec.ofNat 32 (slen - 1) }, 0)

/-- An index moves forward and returns to the start at most once. -/
def advanceIdx (mask idx len : RbUint) : RbUint :=
  let idx := idx + len
  if idx > mask then idx - (mask + 1) else idx

def ringbufferIn (fifo : RingBuffer) (buf : List Byte) : RingBuffer × RbUint :=
  let l := ringbufferUnused fifo
  let len := if buf.length > l.toNat then l.toNat else buf.length
  let fifo := ringbufferCopyIn fifo buf (BitVec.ofNat 32 len) fifo.inIdx
  let fifo := { fifo with inIdx := advanceIdx fifo.mask fifo.inIdx (BitVec.ofNat 32 len) }
  (fifo, ringbufferLen fifo)

/-- The byte position falls back to the start when no room is left behind the index. -/
def bytePosition (fifo : RingBuffer) (off : RbUint) : Int :=
  if minRbUint 1 ((fifo.mask + 1) - off) > 0 then off.toNat else 0

def ringbufferInByte (fifo : RingBuffer) (dbyte : Byte) : RingBuffer × RbUint :=
  let l := ringbufferUnused fifo
  let fifo := if l > 0 then
    { fifo with rdata := memcpy fifo.rdata (bytePosition fifo fifo.inIdx) [dbyte] } else fifo
  let fifo := { fifo with inIdx := advanceIdx fifo.mask fifo.inIdx 1 }
  (fifo, ringbufferLen fifo)

/-- The result carries the returned length and the bytes written to `buf`. -/
def ringbufferOutPeek (fifo : RingBuffer) (len : Nat) : RbUint × List Byte :=
  let l := ringbufferLen fifo
  let len := if len > l.toNat then l.toNat else len
  (BitVec.ofNat 32 len, ringbufferCopyOut fifo (BitVec.ofNat 32 len) fifo.outIdx)

def ringbufferOut (fifo : RingBuffer) (len : Nat) : RingBuffer × RbUint × List Byte :=
  let (len, bytes) := ringbufferOutPeek fifo len
  ({ fifo with outIdx := advanceIdx fifo.mask fifo.outIdx len }, len, bytes)

def ringbufferPeekByte (fifo : RingBuffer) : Byte :=
  fifo.rdata (bytePosition fifo fifo.outIdx)

def ringbufferOutByte (fifo : RingBuffer) : RingBuffer × Byte :=
  let r := ringbufferPeekByte fifo
  ({ fifo with outIdx := advanceIdx fifo.mask fifo.outIdx 1 }, r)

end Psuart

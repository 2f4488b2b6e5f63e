import Psuart.Model.RingBuffer
import Psuart.Model.Utils

namespace Psuart

/-- The inner loop of `crc8` shifts one bit. -/
def crc8Shift (crc : Byte) : Byte :=
  if crc &&& 0x01 ≠ 0 then (crc >>> 1) ^^^ 0x8c else crc >>> 1

/-- The outer loop of `crc8` takes one byte. -/
def crc8Byte (crc byte : Byte) : Byte := crc8Shift^[8] (crc ^^^ byte)

/-- The list holds the bytes behind the pointer and length arguments. -/
def crc8 (buffer : List Byte) : Byte := buffer.foldl crc8Byte 0

def erupBegin : Byte := 0xFB

def erupEnd : Byte := 0xFE

/-- The macros read their length through the promotion of the pointer's character type. -/
def erupGetLen (promote : Byte → CInt) (buf : Memory) : CInt :=
  promote (buf 1) <<< 8 ||| promote (buf 2)

def erupGetBegin (buf : Memory) : Byte := buf 0

/-- The data start at the fifth byte. -/
def erupGetData (buf : Memory) : Memory := fun off => buf (off + 4)

def erupGetCrc (promote : Byte → CInt) (buf : Memory) : Byte :=
  buf ((erupGetLen promote buf).toInt + 4)

def erupGetEnd (promote : Byte → CInt) (buf : Memory) : Byte :=
  buf ((erupGetLen promote buf).toInt + 5)

def erupGetPacketLen (promote : Byte → CInt) (buf : Memory) : CInt :=
  erupGetLen promote buf + 6

def erupSetBegin (buf : Memory) : Memory := memcpy buf 0 [erupBegin]

def erupSetLen (buf : Memory) (val : Nat) : Memory :=
  memcpy buf 1 [BitVec.ofNat 8 (val >>> 8), BitVec.ofNat 8 val]

def erupSetFlag (buf : Memory) (val : Byte) : Memory := memcpy buf 3 [val]

def erupSetCrc (promote : Byte → CInt) (buf : Memory) : Memory :=
  memcpy buf ((erupGetLen promote buf).toInt + 4)
    [crc8 (bytesAt (erupGetData buf) 0 (erupGetLen promote buf).toNat)]

def erupSetEnd (promote : Byte → CInt) (buf : Memory) : Memory :=
  memcpy buf ((erupGetLen promote buf).toInt + 5) [erupEnd]

def dataFlagF : Byte := 0x01

/-- The constant `DATA_FLAG_f` belongs to the small letter. -/
def dataFlagSmallF : Byte := 0x02

/-- The constant `DATA_FLAG_m` belongs to the small letter. -/
def dataFlagSmallM : Byte := 0x10

def dataFlagM : Byte := 0x11

/-- The constant `DATA_FLAG_p` belongs to the small letter. -/
def dataFlagSmallP : Byte := 0x20

def dataFlagS : Byte := 0x21

/-- The static variables of the collector. -/
structure Rader where
  raderFifo : RingBuffer
  rdaerCmdFlag : Byte
  raderDlen : BitVec 16

/-- The static variables start with zero bytes. -/
def raderStatic : Rader := ⟨⟨0, 0, 0, fun _ => 0⟩, 0, 0⟩

/-- The capacity `sizeof(raderBuf)` is twice the receive buffer. -/
def raderBufSize : Nat := 4096 * 2

def raderInit (s : Rader) : Rader :=
  { s with raderFifo := (ringbufferInit s.raderFifo (fun _ => 0) raderBufSize).1 }

def raderFlag (cmd : List Byte) : Byte :=
  match cmd with
  | [] => 0
  | first :: _ =>
      if first = charByte 'f' then dataFlagSmallF
      else if first = charByte 'F' then dataFlagF
      else if first = charByte 'p' then dataFlagSmallP
      else if first = charByte 'm' then dataFlagSmallM
      else if first = charByte 'M' then dataFlagM
      else if first = charByte 'S' then dataFlagS
      else 0

def raderDlenOf (flag : Byte) : BitVec 16 :=
  if flag = dataFlagSmallF then 3172
  else if flag = dataFlagF then 3178
  else if flag = dataFlagSmallP then 1024
  else if flag = dataFlagSmallM then 2144
  else if flag = dataFlagM then 64
  else if flag = dataFlagS then 10
  else 0

/-- A call of the module returns its new state, the bytes of its `write` and its result. -/
structure RaderResult where
  state : Rader
  written : Option (List Byte)
  ret : Byte

/-- The packet is assembled in the zeroed local buffer of `rader_recv`. -/
def raderPacket (flag : Byte) (dlen : BitVec 16) (data : List Byte) : List Byte :=
  let buf : Memory := fun _ => 0
  let buf := erupSetBegin buf
  let buf := erupSetLen buf dlen.toNat
  let buf := erupSetFlag buf flag
  let buf := memcpy buf 4 data
  let buf := erupSetCrc promoteChar buf
  let buf := erupSetEnd promoteChar buf
  bytesAt buf 0 (toSizeT (erupGetPacketLen promoteChar buf))

def raderRecv (s : Rader) (data : List Byte) : RaderResult :=
  if s.raderDlen > 0 then
    let (fifo, stored) := ringbufferIn s.raderFifo data
    if stored.toNat ≥ s.raderDlen.toNat then
      let (fifo, _, bytes) := ringbufferOut fifo s.raderDlen.toNat
      let packet := raderPacket s.rdaerCmdFlag s.raderDlen bytes
      ⟨⟨fifo, 0, 0⟩, some packet, if s.rdaerCmdFlag = dataFlagS then dataFlagS else 0⟩
    else ⟨{ s with raderFifo := fifo }, none, 0⟩
  else ⟨s, none, 0⟩

/-- The encoder writes into the caller's buffer and returns the packet length. -/
def raderHeart (buf : Memory) (data : List Byte) : Memory × CInt :=
  let buf := erupSetBegin buf
  let buf := erupSetLen buf data.length
  let buf := erupSetFlag buf 0
  let buf := memcpy buf 4 data
  let buf := erupSetCrc promoteChar buf
  let buf := erupSetEnd promoteChar buf
  (buf, erupGetPacketLen promoteChar buf)

/-- Both command functions start a collection in the same way. -/
def raderStart (s : Rader) (cmd : List Byte) : Rader :=
  let flag := raderFlag cmd
  ⟨ringbufferReset s.raderFifo, flag, raderDlenOf flag⟩

/-- An idle collector forwards the command. -/
def raderForward (s : Rader) (cmd : List Byte) : Rader × Option (List Byte) :=
  if s.raderDlen = 0 then (raderStart s cmd, some cmd) else (s, none)

/-- The loop moves the pointer to the start marker. -/
def raderScan (p : Memory) : Nat → Memory × Nat
  | 0 => (p, 0)
  | len + 1 =>
      if erupGetBegin p ≠ erupBegin then raderScan (fun off => p (off + 1)) len else (p, len + 1)

/-- The scratch buffer `chBuf` holds at most thirty bytes. -/
def raderCloses (cmd : List Byte) : Bool :=
  cmd.length ≤ 30 &&
    strcasecmp (cmd ++ List.replicate (30 - cmd.length) 0) (stringBytes "close socket!") == 0

def raderCmd (s : Rader) (buf : Memory) (len : Nat) : RaderResult :=
  let (p, len) := raderScan buf len
  if len < toSizeT (erupGetPacketLen promoteUchar p) then ⟨s, none, 0⟩
  else
    let data := bytesAt (erupGetData p) 0 (erupGetLen promoteUchar p).toNat
    if erupGetEnd promoteUchar p ≠ erupEnd ∨ erupGetCrc promoteUchar p ≠ crc8 data then ⟨s, none, 0⟩
    else
      let (s, written) := raderForward s data
      ⟨s, written, if raderCloses data then 1 else 0⟩

/-- A hexadecimal token is replaced by the truth value of its number. -/
def stdinCommand (buf : List Byte) : List Byte :=
  match buf with
  | first :: second :: _ :: _ =>
      if first = charByte '0' ∧ (second = charByte 'x' ∨ second = charByte 'X') then
        [if strToInt buf ≠ 0 then 1 else 0]
      else buf
  | _ => buf

/-- The caller passes the string length of the token. -/
def raderCmdFromStdin (s : Rader) (buf : List Byte) : RaderResult :=
  if buf.length ≥ 3 ∧ strcasecmp buf (stringBytes "cls") = 0 then
    ⟨{ s with rdaerCmdFlag := 0, raderDlen := 0 }, none, 0⟩
  else
    let (s, written) := raderForward s (stdinCommand buf)
    ⟨s, written, 0⟩

def setRaderDlen (s : Rader) (value : BitVec 16) : Rader := { s with raderDlen := value }

end Psuart

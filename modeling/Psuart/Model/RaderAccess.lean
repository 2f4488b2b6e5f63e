import Psuart.Model.Rader

namespace Psuart

/-- The scan reads the marker byte of each pointer position. -/
def raderScanReads (p : Memory) : Nat → List Nat
  | 0 => []
  | len + 1 =>
      0 :: if erupGetBegin p ≠ erupBegin then
        (raderScanReads (fun off => p (off + 1)) len).map Nat.succ else []

/-- The indices of `buf` that `rader_cmd` reads, statement by statement. -/
def raderCmdReads (s : Rader) (buf : Memory) (len : Nat) : List Nat :=
  let (p, rest) := raderScan buf len
  let off := len - rest
  let dlen := (erupGetLen promoteUchar p).toNat
  let header := [off + 1, off + 2]
  let payload := header ++ (List.range dlen).map fun index => off + 4 + index
  let crc := header ++ [off + dlen + 4]
  let marker := header ++ [off + dlen + 5]
  [0] ++ raderScanReads buf len ++ header ++
    if rest < toSizeT (erupGetPacketLen promoteUchar p) then []
    else crc ++ payload ++ marker ++
      -- The second comparison is made only behind the end marker.
      if erupGetEnd promoteUchar p ≠ erupEnd then []
      else crc ++ payload ++
        if erupGetCrc promoteUchar p ≠ crc8 (bytesAt (erupGetData p) 0 dlen) then []
        else (if s.raderDlen = 0 then header ++ (if dlen < 1 then [] else [off + 4]) ++ payload else []) ++
          header ++ if dlen ≤ 30 then payload else []

/-- The scratch buffer `chBuf` has thirty bytes. -/
def scratchSize : Nat := 30

/-- The payload stands at the start of the zeroed scratch buffer, and the memory past it is arbitrary. -/
def raderScratch (cmd : List Byte) (past : Memory) : Memory := fun off =>
  if 0 ≤ off ∧ off < cmd.length then cmd.getD off.toNat 0
  else if 0 ≤ off ∧ off < scratchSize then 0 else past off

/-- The byte loop of `strcasecmp` compares a memory with the bytes of a terminated string. -/
def strcasecmpAt (first : Memory) : List Byte → Int
  | [] => 0
  | char :: rest =>
      if tolower (first 0) = tolower char ∧ char ≠ 0 then strcasecmpAt (fun off => first (off + 1)) rest
      else (tolower (first 0)).toNat - (tolower char).toNat

/-- The byte loop reads the memory up to the difference or the terminator. -/
def strcasecmpReads (first : Memory) : List Byte → List Nat
  | [] => []
  | char :: rest =>
      0 :: if tolower (first 0) = tolower char ∧ char ≠ 0 then
        (strcasecmpReads (fun off => first (off + 1)) rest).map Nat.succ else []

/-- The literal of the close command with its terminator. -/
def closeLiteral : List Byte := stringBytes "close socket!" ++ [0]

/-- The indices of `chBuf` that the comparison with the close command reads. -/
def raderCmdScratchReads (buf : Memory) (len : Nat) (past : Memory) : List Nat :=
  let (p, rest) := raderScan buf len
  if rest < toSizeT (erupGetPacketLen promoteUchar p) then []
  else
    let data := bytesAt (erupGetData p) 0 (erupGetLen promoteUchar p).toNat
    if erupGetEnd promoteUchar p ≠ erupEnd ∨ erupGetCrc promoteUchar p ≠ crc8 data then []
    else if data.length ≤ 30 then strcasecmpReads (raderScratch data past) closeLiteral else []

end Psuart

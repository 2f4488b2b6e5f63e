import Psuart.Proof.Rader.Frame

namespace Psuart

/-- The packet writer keeps a length whose bytes have no sign bit. -/
structure PlainLength (length : Nat) : Prop where
  high : length < 2 ^ 15
  low : length % 2 ^ 8 < 2 ^ 7

/-- The signed characters of a plain length promote to the length itself. -/
theorem erupGetLen_char (buf : Memory) (length : Nat) (plain : PlainLength length)
    (high : buf 1 = BitVec.ofNat 8 (length >>> 8)) (low : buf 2 = BitVec.ofNat 8 length) :
    erupGetLen promoteChar buf = BitVec.ofNat 32 length := by
  have unsigned (byte : Byte) (small : byte.toNat < 2 ^ 7) : promoteChar byte = promoteUchar byte := by
    rw [promoteChar, BitVec.signExtend_eq_setWidth_of_msb_false]
    · rfl
    · rw [BitVec.msb_eq_decide]
      simpa using small
  have highValue : (buf 1).toNat = length / 2 ^ 8 := by
    rw [high, BitVec.toNat_ofNat, Nat.shiftRight_eq_div_pow]
    have bound := plain.high
    omega
  have lowValue : (buf 2).toNat = length % 2 ^ 8 := by rw [low, BitVec.toNat_ofNat]
  have value := erupGetLen_uchar buf
  rw [erupGetLen, unsigned _ (by rw [highValue]; have bound := plain.high; omega),
    unsigned _ (by rw [lowValue]; exact plain.low)]
  apply BitVec.eq_of_toNat_eq
  rw [← erupGetLen, value, highValue, lowValue, BitVec.toNat_ofNat]
  have bound := plain.high
  omega

/-- The first four macros and the copy write the header and the payload. -/
theorem erupSet_header (buf : Memory) (flag : Byte) (data : List Byte) :
    memcpy (erupSetFlag (erupSetLen (erupSetBegin buf) data.length) flag) 4 data =
      memcpy buf 0 (erupHeader flag data.length ++ data) := by
  have marker := memcpy_append buf 0 [erupBegin]
    [BitVec.ofNat 8 (data.length >>> 8), BitVec.ofNat 8 data.length]
  have flagged := memcpy_append buf 0
    [erupBegin, BitVec.ofNat 8 (data.length >>> 8), BitVec.ofNat 8 data.length] [flag]
  have filled := memcpy_append buf 0 (erupHeader flag data.length) data
  rw [erupSetFlag, erupSetLen, erupSetBegin]
  exact (congrArg (fun mem => memcpy (memcpy mem 3 [flag]) 4 data) marker).trans
    ((congrArg (fun mem => memcpy mem 4 data) flagged).trans filled)

/-- The length macros read the header of a written frame. -/
theorem erupGetLen_header (buf : Memory) (flag : Byte) (length : Nat) (rest : List Byte)
    (plain : PlainLength length) :
    erupGetLen promoteChar (memcpy buf 0 (erupHeader flag length ++ rest)) = BitVec.ofNat 32 length := by
  apply erupGetLen_char _ length plain
  · exact memcpy_getElem buf 0 (erupHeader flag length ++ rest) 1 (by simp [erupHeader])
  · exact memcpy_getElem buf 0 (erupHeader flag length ++ rest) 2 (by simp [erupHeader])

/-- The last two macros close the frame behind its payload. -/
theorem erupSet_frame (buf : Memory) (flag : Byte) (data : List Byte) (plain : PlainLength data.length) :
    erupSetEnd promoteChar (erupSetCrc promoteChar
        (memcpy (erupSetFlag (erupSetLen (erupSetBegin buf) data.length) flag) 4 data)) =
      memcpy buf 0 (erupFrame flag data) := by
  have bound := plain.high
  have signed : (BitVec.ofNat 32 data.length).toInt = data.length := word_toInt (by omega)
  have unsigned : (BitVec.ofNat 32 data.length).toNat = data.length := word_toNat (by omega)
  have payload : bytesAt (erupGetData (memcpy buf 0 (erupHeader flag data.length ++ data))) 0
      data.length = data := by
    rw [bytesAt_data]
    have slice := bytesAt_memcpy_slice buf 0 (erupHeader flag data.length ++ data) 4 data.length
      (by simp [erupHeader]; omega)
    change bytesAt (memcpy buf 0 (erupHeader flag data.length ++ data)) (0 + (4 : Nat)) _ = _
    rw [slice]
    simp [erupHeader]
  have place : ((0 : Int) + (erupHeader flag data.length ++ data).length) = data.length + 4 := by
    simp [erupHeader]
    ring
  have summed := memcpy_append buf 0 (erupHeader flag data.length ++ data) [crc8 data]
  have next : ((0 : Int) + (erupHeader flag data.length ++ data ++ [crc8 data]).length) =
      data.length + 5 := by
    simp [erupHeader]
    ring
  have closed := memcpy_append buf 0 (erupHeader flag data.length ++ data ++ [crc8 data]) [erupEnd]
  rw [erupSet_header, erupSetCrc, erupGetLen_header _ _ _ _ plain, signed, unsigned, payload, ← place,
    summed, erupSetEnd, List.append_assoc (erupHeader flag data.length),
    erupGetLen_header _ _ _ _ plain, signed, ← List.append_assoc, ← next, closed]
  simp [erupFrame]

/-- The length of the packet is the length of its frame. -/
theorem erupGetPacketLen_frame (buf : Memory) (flag : Byte) (data : List Byte)
    (plain : PlainLength data.length) :
    erupGetPacketLen promoteChar (memcpy buf 0 (erupFrame flag data)) =
      BitVec.ofNat 32 (data.length + 6) := by
  rw [erupGetPacketLen, erupFrame, List.append_assoc, erupGetLen_header _ _ _ _ plain]
  apply BitVec.eq_of_toNat_eq
  have bound := plain.high
  rw [BitVec.toNat_add, BitVec.toNat_ofNat, BitVec.toNat_ofNat]
  change (data.length % 2 ^ 32 + 6) % 2 ^ 32 = _
  omega

/-- The packet of `rader_recv` is the frame around the delivered bytes. -/
theorem raderPacket_eq_frame (flag : Byte) (dlen : BitVec 16) (data : List Byte)
    (length : data.length = dlen.toNat) (plain : PlainLength dlen.toNat) :
    raderPacket flag dlen data = erupFrame flag data := by
  rw [← length] at plain
  have bound := plain.high
  have frame := erupSet_frame (fun _ => 0) flag data plain
  have size : toSizeT (BitVec.ofNat 32 (data.length + 6)) = (erupFrame flag data).length := by
    rw [toSizeT_eq] <;> rw [BitVec.toNat_ofNat] <;> simp <;> omega
  simp only [raderPacket]
  rw [← length, frame, erupGetPacketLen_frame _ _ _ plain, size]
  exact bytesAt_memcpy _ 0 _

/-- Every response length of the table is plain. -/
theorem raderDlenOf_plain (flag : Byte) : PlainLength (raderDlenOf flag).toNat := by
  have each : ∀ flag, (raderDlenOf flag).toNat < 2 ^ 15 ∧ (raderDlenOf flag).toNat % 2 ^ 8 < 2 ^ 7 := by
    decide
  exact ⟨(each flag).1, (each flag).2⟩

/-- No response is longer than the longest table entry. -/
theorem raderDlenOf_le (flag : Byte) : (raderDlenOf flag).toNat ≤ 3178 := by
  revert flag
  decide

end Psuart

import Psuart.Spec.Hex

namespace Psuart

variable {pbSrcData pSrcData : Memory} {nSrcLen nDestLen : CInt}

/-- The two digits of a byte. -/
def hexPair (ch : Byte) : List Byte := [hexChars ((ch >>> 4) &&& 0x0F), hexChars (ch &&& 0x0F)]

/-- The bytes that the pairs of a text spell. -/
def hexPairs : List Byte → List Byte
  | first :: second :: rest => (16 * getHexValue first + getHexValue second) :: hexPairs rest
  | _ => []

theorem getHexValue_invalid (c : Byte) : getHexValue c = hexInvalid ↔ isHexDigit c = false := by
  revert c
  decide

theorem isHexDigit_lineEnd {c : Byte} (digit : isHexDigit c = true) : isLineEnd c = false := by
  revert c
  decide

/-- The value of a digit has four bits, and its own digit is the upper case of the character. -/
theorem getHexValue_digit {c : Byte} (digit : isHexDigit c = true) :
    getHexValue c = ((getHexValue c).setWidth 4).setWidth 8 ∧ hexChars (getHexValue c) = toupper c := by
  revert c
  decide

theorem nibble_halves (high low : BitVec 4) :
    ((16 * high.setWidth 8 + low.setWidth 8 : Byte) >>> 4) &&& 0x0F = high.setWidth 8 ∧
      (16 * high.setWidth 8 + low.setWidth 8 : Byte) &&& 0x0F = low.setWidth 8 := by
  revert high low
  decide

theorem hexPair_digits (ch : Byte) : (hexPair ch).all isHexDigit = true := by
  revert ch
  decide

/-- The digits of a byte spell it. -/
theorem hexPairs_hexPair (ch : Byte) : hexPairs (hexPair ch) = [ch] := by
  revert ch
  decide

/-- A byte that two digits spell has these digits in upper case. -/
theorem hexPair_hexPairs {first second : Byte} (high : isHexDigit first = true) (low : isHexDigit second = true) :
    hexPair (16 * getHexValue first + getHexValue second) = [toupper first, toupper second] := by
  obtain ⟨firstBits, firstDigit⟩ := getHexValue_digit high
  obtain ⟨secondBits, secondDigit⟩ := getHexValue_digit low
  obtain ⟨left, right⟩ := nibble_halves ((getHexValue first).setWidth 4) ((getHexValue second).setWidth 4)
  rw [← firstBits, ← secondBits] at left right
  rw [hexPair, left, right, firstDigit, secondDigit]

theorem hexPairs_cons (ch : Byte) (text : List Byte) : hexPairs (hexPair ch ++ text) = ch :: hexPairs text := by
  have single := hexPairs_hexPair ch
  simp only [hexPair, hexPairs, List.cons.injEq, and_true] at single
  simp only [hexPair, List.cons_append, List.nil_append, hexPairs, single]

theorem hexLine_cons {first second : Byte} (digit : isHexDigit first = true) (text : List Byte) :
    hexLine (first :: second :: text) = first :: second :: hexLine text := by
  rw [hexLine, if_neg (by simp [isHexDigit_lineEnd digit])]

/-- The text of a byte string spells it and has neither line ends nor other characters. -/
theorem hexPairs_flatMap (source : List Byte) :
    hexLine (source.flatMap hexPair) = source.flatMap hexPair ∧
      (source.flatMap hexPair).all isHexDigit = true ∧ hexPairs (source.flatMap hexPair) = source := by
  induction source with
  | nil => exact ⟨rfl, rfl, rfl⟩
  | cons ch rest ih =>
      obtain ⟨line, digits, pairs⟩ := ih
      have pair := hexPair_digits ch
      rw [List.flatMap_cons]
      refine ⟨?_, by rw [List.all_append, pair, digits, Bool.true_and], by rw [hexPairs_cons, pairs]⟩
      simp only [hexPair, List.all_cons, Bool.and_eq_true] at pair
      simp only [hexPair, List.cons_append, List.nil_append, hexLine_cons pair.1]
      rw [line]

theorem hexPair_length (source : List Byte) : (source.flatMap hexPair).length = 2 * source.length := by
  simp [List.length_flatMap, hexPair, Nat.mul_comm]

/-- The bytes of a hexadecimal line have one byte for each pair, and their text is the line in upper case. -/
theorem flatMap_hexPairs (text : List Byte) (digits : (hexLine text).all isHexDigit = true) :
    (hexLine text).length = 2 * (hexPairs (hexLine text)).length ∧
      (hexPairs (hexLine text)).flatMap hexPair = (hexLine text).map toupper := by
  induction text using hexLine.induct with
  | case1 first second rest stop => rw [hexLine, if_pos stop]; exact ⟨rfl, rfl⟩
  | case2 first second rest run ih =>
      rw [hexLine, if_neg run] at digits ⊢
      simp only [List.all_cons, Bool.and_eq_true] at digits
      obtain ⟨length, upper⟩ := ih digits.2.2
      constructor
      · simp only [hexPairs, List.length_cons, length]
        omega
      · rw [hexPairs, List.flatMap_cons, hexPair_hexPairs digits.1 digits.2.1, upper]
        rfl
  | case3 text short =>
      rw [hexLine] at digits ⊢
      · exact ⟨rfl, rfl⟩
      · exact short
      · exact short

theorem bytesAt_first (pointer : Memory) (nRead left : Nat) :
    bytesAt pointer nRead (left + 1) = pointer nRead :: bytesAt pointer (nRead + 1 : Nat) left := by
  rw [bytesAt, Nat.add_comm left 1, Cells.load_add]
  simp only [bytesAt, Cells.load, List.range_one, List.map_cons, List.map_nil, Nat.cast_zero, add_zero,
    Nat.cast_add, Nat.cast_one, List.singleton_append, add_assoc]

/-- The loop writes the digits of the bytes, and it reads each byte once. -/
theorem hexEncodeLoop_eq (left nRead : Nat) :
    hexEncodeLoop pbSrcData left nRead =
      ((bytesAt pbSrcData nRead left).flatMap hexPair, List.range' nRead left) := by
  induction left generalizing nRead with
  | zero => rfl
  | succ left ih =>
      rw [hexEncodeLoop, ih, bytesAt_first, List.flatMap_cons, List.range'_succ]
      rfl

/-- The four ways of one round of `HexDecode`. -/
theorem hexDecodeLoop_succ (left nRead : Nat) :
    hexDecodeLoop pSrcData (left + 1) nRead =
      if isLineEnd (pSrcData nRead) then (true, [], [nRead])
      else if isHexDigit (pSrcData nRead) ∧ isHexDigit (pSrcData (nRead + 1 : Nat)) then
        ((hexDecodeLoop pSrcData left (nRead + 2)).1,
          (16 * getHexValue (pSrcData nRead) + getHexValue (pSrcData (nRead + 1 : Nat))) ::
            (hexDecodeLoop pSrcData left (nRead + 2)).2.1,
          nRead :: (nRead + 1) :: (hexDecodeLoop pSrcData left (nRead + 2)).2.2)
      else (false, [], [nRead, nRead + 1]) := by
  rw [hexDecodeLoop, Nat.cast_succ]
  simp only [isLineEnd, decide_eq_true_eq, getHexValue_invalid]
  by_cases stop : pSrcData nRead = charByte '\r' ∨ pSrcData nRead = charByte '\n'
  · rw [if_pos stop, if_pos stop]
  · rw [if_neg stop, if_neg stop]
    cases isHexDigit (pSrcData nRead) <;> cases isHexDigit (pSrcData (nRead + 1)) <;> rfl

/-- The loop accepts the pairs before the first line end exactly when they are digits, and it writes their bytes. -/
theorem hexDecodeLoop_text (pSrcData : Memory) (left nRead : Nat) :
    (hexDecodeLoop pSrcData left nRead).1 = (hexLine (bytesAt pSrcData nRead (2 * left))).all isHexDigit ∧
      ((hexDecodeLoop pSrcData left nRead).1 = true →
        (hexDecodeLoop pSrcData left nRead).2.1 = hexPairs (hexLine (bytesAt pSrcData nRead (2 * left)))) := by
  induction left generalizing nRead with
  | zero => exact ⟨rfl, fun _ => rfl⟩
  | succ left ih =>
      obtain ⟨accepts, writes⟩ := ih (nRead + 2)
      rw [Nat.mul_succ, bytesAt_first, bytesAt_first, hexDecodeLoop_succ, hexLine]
      by_cases lineEnd : isLineEnd (pSrcData nRead) = true
      · rw [if_pos lineEnd, if_pos lineEnd]
        exact ⟨rfl, fun _ => rfl⟩
      · rw [if_neg lineEnd, if_neg lineEnd]
        by_cases digits : isHexDigit (pSrcData nRead) ∧ isHexDigit (pSrcData (nRead + 1 : Nat))
        · rw [if_pos digits, hexPairs]
          refine ⟨?_, fun accepted => congrArg _ (writes accepted)⟩
          rw [List.all_cons, List.all_cons, digits.1, digits.2]
          exact accepts
        · rw [if_neg digits]
          refine ⟨?_, fun accepted => by cases accepted⟩
          have other : (isHexDigit (pSrcData nRead) && isHexDigit (pSrcData (nRead + 1 : Nat))) = false := by
            rwa [← Bool.not_eq_true, Bool.and_eq_true]
          rw [List.all_cons, List.all_cons, ← Bool.and_assoc, other]
          rfl

theorem hexEncodeGetRequiredLength_toInt :
    (hexEncodeGetRequiredLength nSrcLen).toInt = (2 * nSrcLen.toInt + 1).bmod (2 ^ 32) := by
  rw [hexEncodeGetRequiredLength, BitVec.toInt_add, BitVec.toInt_mul]
  simp

theorem hexDecodeGetRequiredLength_toInt (nonneg : 0 ≤ nSrcLen.toInt) :
    (hexDecodeGetRequiredLength nSrcLen).toInt = nSrcLen.toInt / 2 := by
  have bound := BitVec.toInt_lt (x := nSrcLen)
  rw [hexDecodeGetRequiredLength, BitVec.toInt_sdiv]
  have two : (2 : CInt).toInt = 2 := rfl
  rw [two, Int.tdiv_eq_ediv_of_nonneg nonneg, Int.bmod_eq_of_le (by omega) (by omega)]

/-- A capacity for the text and a terminator passes the check, which only short sources can do. -/
theorem hexEncode_eq (nonneg : 0 ≤ nSrcLen.toInt) (room : 2 * nSrcLen.toInt + 1 ≤ nDestLen.toInt) :
    hexEncode pbSrcData nSrcLen nDestLen =
      ⟨true, (bytesAt pbSrcData 0 nSrcLen.toInt.toNat).flatMap hexPair,
        BitVec.ofNat 32 (2 * nSrcLen.toInt.toNat), List.range' 0 nSrcLen.toInt.toNat⟩ := by
  have bound := BitVec.toInt_lt (x := nDestLen)
  have passes : ¬nDestLen.slt (hexEncodeGetRequiredLength nSrcLen) = true := by
    rw [BitVec.slt_iff_toInt_lt, hexEncodeGetRequiredLength_toInt, Int.bmod_eq_of_le (by omega) (by omega)]
    omega
  rw [hexEncode, if_neg passes, hexEncodeLoop_eq]
  simp only [hexPair_length, bytesAt_length, Nat.cast_zero]

theorem hexDecode_eq (nonneg : 0 ≤ nSrcLen.toInt) (room : nSrcLen.toInt / 2 ≤ nDestLen.toInt) :
    hexDecode pSrcData nSrcLen nDestLen =
      let loop := hexDecodeLoop pSrcData ((nSrcLen.toInt.toNat + 1) / 2) 0
      ⟨loop.1, loop.2.1, if loop.1 then BitVec.ofNat 32 loop.2.1.length else nDestLen, loop.2.2⟩ := by
  have passes : ¬nDestLen.slt (hexDecodeGetRequiredLength nSrcLen) = true := by
    rw [BitVec.slt_iff_toInt_lt, hexDecodeGetRequiredLength_toInt nonneg]
    omega
  rw [hexDecode, if_neg passes]

theorem toInt_length (bytes : List Byte) (fits : bytes.length < 2 ^ 31) :
    (BitVec.ofNat 32 bytes.length).toInt = bytes.length := by
  rw [BitVec.toInt_ofNat', Int.bmod_eq_of_le (by omega) (by omega)]

/-- A call for a text of even length accepts its line, and it writes the bytes of the line. -/
theorem hexDecode_text (past : Memory) (text : List Byte) (even : text.length % 2 = 0) (fits : text.length < 2 ^ 31)
    (room : (text.length / 2 : Nat) ≤ nDestLen.toInt) :
    let decoded := hexDecode (memcpy past 0 text) (BitVec.ofNat 32 text.length) nDestLen
    decoded.ret = (hexLine text).all isHexDigit ∧
      (decoded.ret = true → decoded.written = hexPairs (hexLine text) ∧
        decoded.destLen = BitVec.ofNat 32 (hexPairs (hexLine text)).length) := by
  have length := toInt_length text fits
  have whole : 2 * (((BitVec.ofNat 32 text.length).toInt.toNat + 1) / 2) = text.length := by
    rw [length]
    omega
  rw [hexDecode_eq (by omega) (by omega)]
  have loop := hexDecodeLoop_text (memcpy past 0 text)
    (((BitVec.ofNat 32 text.length).toInt.toNat + 1) / 2) 0
  rw [whole, Nat.cast_zero, bytesAt_memcpy] at loop
  obtain ⟨accepts, writes⟩ := loop
  refine ⟨accepts, fun accepted => ?_⟩
  have written := writes accepted
  exact ⟨written, by dsimp only; rw [if_pos accepted, written]⟩

theorem hexRoundTrip_holds (past dest : Memory) {encodeLen decodeLen : CInt} {source : List Byte}
    (encodeRoom : 2 * source.length + 1 ≤ encodeLen.toInt) (decodeRoom : source.length ≤ decodeLen.toInt) :
    HexRoundTrip past dest encodeLen decodeLen source := by
  have bound := BitVec.toInt_lt (x := encodeLen)
  have length := toInt_length source (by omega)
  rw [HexRoundTrip, hexEncode_eq (by omega) (by omega), length, Int.toNat_natCast, bytesAt_memcpy]
  dsimp only
  rw [← hexPair_length]
  obtain ⟨line, digits, pairs⟩ := hexPairs_flatMap source
  obtain ⟨accepts, writes⟩ := hexDecode_text dest (source.flatMap hexPair)
    (by rw [hexPair_length]; omega) (by rw [hexPair_length]; omega)
    (show ((source.flatMap hexPair).length / 2 : Nat) ≤ decodeLen.toInt by rw [hexPair_length]; omega)
  rw [line] at accepts writes
  rw [pairs] at writes
  have accepted := accepts.trans digits
  obtain ⟨written, destLen⟩ := writes accepted
  exact ⟨rfl, accepted, written, by rw [destLen, length]⟩

theorem hexLine_length_le (text : List Byte) : (hexLine text).length ≤ text.length := by
  induction text using hexLine.induct with
  | case1 first second rest stop => rw [hexLine, if_pos stop]; exact Nat.zero_le _
  | case2 first second rest run ih =>
      rw [hexLine, if_neg run]
      simp only [List.length_cons]
      omega
  | case3 text short => rw [hexLine]; exacts [Nat.zero_le _, short]

theorem hexDecode_line (past dest : Memory) {decodeLen : CInt} {text : List Byte} (even : text.length % 2 = 0)
    (fits : text.length < 2 ^ 31) (room : (text.length / 2 : Nat) ≤ decodeLen.toInt) :
    DecodesLine dest (hexDecode (memcpy past 0 text) (BitVec.ofNat 32 text.length) decodeLen) text := by
  obtain ⟨accepts, writes⟩ := hexDecode_text past text even fits room
  have shorter := hexLine_length_le text
  have spelled : ∀ accepted, _ := fun accepted => flatMap_hexPairs text (accepts.symm.trans accepted)
  have length : ∀ accepted, _ := fun accepted =>
    toInt_length (hexPairs (hexLine text)) (by have := (spelled accepted).1; omega)
  constructor
  · rw [accepts, List.all_eq_true]
  · intro accepted
    obtain ⟨written, destLen⟩ := writes accepted
    rw [written, destLen]
    exact ⟨length accepted, (spelled accepted).1.symm⟩
  · intro accepted encodeLen encodeRoom
    obtain ⟨written, destLen⟩ := writes accepted
    rw [written] at encodeRoom ⊢
    rw [destLen, hexEncode_eq (by rw [length accepted]; omega) (by rw [length accepted]; omega), length accepted,
      Int.toNat_natCast, bytesAt_memcpy]
    exact ⟨rfl, (spelled accepted).2⟩

/-- Hexadecimal encoding and decoding are inverse, and the decoder accepts exactly the lines of digits. -/
theorem hexDecode_inverse (past dest : Memory) (encodeLen decodeLen : CInt) :
    (∀ source : List Byte, 2 * source.length + 1 ≤ encodeLen.toInt → source.length ≤ decodeLen.toInt →
        HexRoundTrip past dest encodeLen decodeLen source) ∧
      ∀ text : List Byte, text.length % 2 = 0 → text.length < 2 ^ 31 →
        (text.length / 2 : Nat) ≤ decodeLen.toInt →
        DecodesLine dest (hexDecode (memcpy past 0 text) (BitVec.ofNat 32 text.length) decodeLen) text :=
  ⟨fun _ encodeRoom decodeRoom => hexRoundTrip_holds past dest encodeRoom decodeRoom,
    fun _ even fits room => hexDecode_line past dest even fits room⟩

/-- Two bytes make the round trip, and a line of one pair ends before its carriage return. -/
theorem hexDecode_inverse_bytes :
    HexRoundTrip (fun _ => 0) (fun _ => 0) 5 2 [0x0A, 0xF0] ∧
      DecodesLine (fun _ => 0) (hexDecode (memcpy (fun _ => 0) 0 (stringBytes "f0\r\n")) 4 2) (stringBytes "f0\r\n") :=
  ⟨(hexDecode_inverse (fun _ => 0) (fun _ => 0) 5 2).1 [0x0A, 0xF0] (by decide) (by decide),
    (hexDecode_inverse (fun _ => 0) (fun _ => 0) 5 2).2 (stringBytes "f0\r\n") (by decide) (by decide) (by decide)⟩

/-- The required size of a long source wraps to a negative number, which every capacity passes. -/
theorem hexEncode_inside_iff (pbSrcData : Memory) (nonneg : 0 ≤ nSrcLen.toInt) (capacity : 0 ≤ nDestLen.toInt) :
    (hexEncode pbSrcData nSrcLen nDestLen).Inside nSrcLen nDestLen ↔ nSrcLen.toInt < 2 ^ 30 := by
  have bound := BitVec.toInt_lt (x := nDestLen)
  have sourceBound := BitVec.toInt_lt (x := nSrcLen)
  have written : (hexEncodeLoop pbSrcData nSrcLen.toInt.toNat 0).1.length = 2 * nSrcLen.toInt.toNat := by
    rw [hexEncodeLoop_eq, hexPair_length, bytesAt_length]
  by_cases short : nSrcLen.toInt < 2 ^ 30
  · refine iff_of_true ?_ short
    by_cases refused : nDestLen.slt (hexEncodeGetRequiredLength nSrcLen) = true
    · rw [hexEncode, if_pos refused]
      exact ⟨capacity, fun place read => absurd read List.not_mem_nil⟩
    · have passes := refused
      rw [BitVec.slt_iff_toInt_lt, hexEncodeGetRequiredLength_toInt,
        Int.bmod_eq_of_le (by omega) (by omega)] at passes
      rw [hexEncode_eq nonneg (by omega)]
      constructor
      · rw [hexPair_length, bytesAt_length]
        omega
      · intro place read
        rw [List.mem_range'_1] at read
        omega
  · refine iff_of_false ?_ short
    have passes : ¬nDestLen.slt (hexEncodeGetRequiredLength nSrcLen) = true := by
      rw [BitVec.slt_iff_toInt_lt, hexEncodeGetRequiredLength_toInt, Int.bmod_def]
      omega
    rw [hexEncode, if_neg passes]
    intro inside
    have room := inside.written
    rw [written] at room
    omega

/-- The loop reads only its pairs, and it writes at most one byte for each of them. -/
theorem hexDecodeLoop_bounds (pSrcData : Memory) (left nRead : Nat) :
    (∀ place ∈ (hexDecodeLoop pSrcData left nRead).2.2, place < nRead + 2 * left) ∧
      (hexDecodeLoop pSrcData left nRead).2.1.length ≤ left := by
  induction left generalizing nRead with
  | zero => exact ⟨fun place read => absurd read List.not_mem_nil, le_rfl⟩
  | succ left ih =>
      obtain ⟨reads, written⟩ := ih (nRead + 2)
      rw [hexDecodeLoop_succ]
      split_ifs
      · simp
      · constructor
        · intro place read
          rw [List.mem_cons, List.mem_cons] at read
          rcases read with rfl | rfl | later
          · omega
          · omega
          · have := reads place later
            omega
        · rw [List.length_cons]
          omega
      · simp
        omega

/-- The loop ends in the first pair or in a later one. -/
theorem stopsBefore_succ (nRead count : Nat) :
    StopsBefore pSrcData nRead (count + 1) ↔
      isLineEnd (pSrcData nRead) ∨ ¬(isHexDigit (pSrcData nRead) ∧ isHexDigit (pSrcData (nRead + 1 : Nat))) ∨
        StopsBefore pSrcData (nRead + 2) count := by
  have later (pair : Nat) : nRead + 2 * (pair + 1) = nRead + 2 + 2 * pair := by ring
  simp only [StopsBefore, ← Nat.lt_succ_iff, Nat.succ_eq_add_one, Nat.exists_lt_succ_left, later, Nat.mul_zero,
    Nat.add_zero]
  rw [or_or_or_comm, or_assoc]

/-- The loop over an odd length stays inside it exactly when it ends before the last pair or at a line end. -/
theorem hexDecodeLoop_odd (pSrcData : Memory) (count nRead : Nat) :
    (StopsBefore pSrcData nRead count →
        (∀ place ∈ (hexDecodeLoop pSrcData (count + 1) nRead).2.2, place < nRead + 2 * count + 1) ∧
          (hexDecodeLoop pSrcData (count + 1) nRead).2.1.length ≤ count) ∧
      (¬StopsBefore pSrcData nRead count →
        nRead + 2 * count + 1 ∈ (hexDecodeLoop pSrcData (count + 1) nRead).2.2) := by
  induction count generalizing nRead with
  | zero =>
      have first : StopsBefore pSrcData nRead 0 ↔ isLineEnd (pSrcData nRead) := by simp [StopsBefore]
      rw [first, hexDecodeLoop_succ]
      constructor
      · intro lineEnd
        rw [if_pos lineEnd]
        simp
      · intro run
        rw [if_neg run]
        split_ifs <;> simp
  | succ count ih =>
      obtain ⟨inside, outside⟩ := ih (nRead + 2)
      rw [stopsBefore_succ, hexDecodeLoop_succ]
      by_cases lineEnd : isLineEnd (pSrcData nRead) = true
      · rw [if_pos lineEnd]
        refine ⟨fun _ => ?_, fun runs => absurd (Or.inl lineEnd) runs⟩
        simp
      · rw [if_neg lineEnd]
        by_cases digits : isHexDigit (pSrcData nRead) ∧ isHexDigit (pSrcData (nRead + 1 : Nat))
        · rw [if_pos digits]
          constructor
          · rintro (stop | stop | stop)
            · exact absurd stop lineEnd
            · exact absurd digits stop
            · obtain ⟨reads, written⟩ := inside stop
              refine ⟨?_, by simpa using written⟩
              intro place read
              rw [List.mem_cons, List.mem_cons] at read
              rcases read with rfl | rfl | later
              · omega
              · omega
              · have := reads place later
                omega
          · intro runs
            have beyond := outside fun stop => runs (Or.inr (Or.inr stop))
            rw [show nRead + 2 * (count + 1) + 1 = nRead + 2 + 2 * count + 1 by ring]
            exact List.mem_cons_of_mem _ (List.mem_cons_of_mem _ beyond)
        · rw [if_neg digits]
          refine ⟨fun _ => ?_, fun runs => absurd (Or.inr (Or.inl digits)) runs⟩
          simp
          omega

theorem hexDecode_inside_iff (pSrcData : Memory) (nonneg : 0 ≤ nSrcLen.toInt) (capacity : 0 ≤ nDestLen.toInt) :
    (hexDecode pSrcData nSrcLen nDestLen).Inside nSrcLen nDestLen ↔
      DecodeStaysInside pSrcData nSrcLen nDestLen := by
  rw [DecodeStaysInside]
  by_cases refused : nDestLen.toInt < nSrcLen.toInt / 2
  · refine iff_of_true ?_ (Or.inr (Or.inl refused))
    rw [hexDecode, if_pos (by rw [BitVec.slt_iff_toInt_lt, hexDecodeGetRequiredLength_toInt nonneg]; exact refused)]
    exact ⟨capacity, fun place read => absurd read List.not_mem_nil⟩
  · rw [hexDecode_eq nonneg (by omega)]
    by_cases even : nSrcLen.toInt % 2 = 0
    · refine iff_of_true ?_ (Or.inl even)
      obtain ⟨reads, written⟩ := hexDecodeLoop_bounds pSrcData ((nSrcLen.toInt.toNat + 1) / 2) 0
      refine ⟨?_, fun place read => ?_⟩
      · dsimp only
        omega
      · have := reads place read
        omega
    · have pairs : (nSrcLen.toInt.toNat + 1) / 2 = (nSrcLen.toInt / 2).toNat + 1 := by omega
      obtain ⟨inside, outside⟩ := hexDecodeLoop_odd pSrcData (nSrcLen.toInt / 2).toNat 0
      rw [pairs, or_iff_right even, or_iff_right refused]
      constructor
      · intro call
        by_contra runs
        have := call.reads _ (outside runs)
        omega
      · intro stop
        obtain ⟨reads, written⟩ := inside stop
        refine ⟨?_, fun place read => ?_⟩
        · dsimp only
          omega
        · have := reads place read
          omega

/-- The encoder stays inside its sizes exactly below 2^30 bytes, and the decoder exactly where no last character
of an odd length is read as the first of a pair. -/
theorem hexCodec_inside_iff (pbSrcData : Memory) (nSrcLen nDestLen : CInt) (nonneg : 0 ≤ nSrcLen.toInt)
    (capacity : 0 ≤ nDestLen.toInt) :
    ((hexEncode pbSrcData nSrcLen nDestLen).Inside nSrcLen nDestLen ↔ nSrcLen.toInt < 2 ^ 30) ∧
      ((hexDecode pbSrcData nSrcLen nDestLen).Inside nSrcLen nDestLen ↔
        DecodeStaysInside pbSrcData nSrcLen nDestLen) :=
  ⟨hexEncode_inside_iff pbSrcData nonneg capacity, hexDecode_inside_iff pbSrcData nonneg capacity⟩

/-- Three characters of four are declared, and the decoder stops at a character that is no digit. -/
theorem hexCodec_inside_three :
    (hexEncode (memcpy (fun _ => 0) 0 (stringBytes "AG12")) 3 7).Inside 3 7 ∧
      (hexDecode (memcpy (fun _ => 0) 0 (stringBytes "AG12")) 3 7).Inside 3 7 := by
  have stops : StopsBefore (memcpy (fun _ => 0) 0 (stringBytes "AG12")) 0 1 :=
    Or.inr ⟨0, by decide, by decide⟩
  have inside := hexCodec_inside_iff (memcpy (fun _ => 0) 0 (stringBytes "AG12")) 3 7 (by decide) (by decide)
  exact ⟨inside.1.mpr (by decide), inside.2.mpr (Or.inr (Or.inr stops))⟩

/-- A call for three characters and one byte reads a fourth character and writes a second byte. -/
theorem hexDecode_outside :
    (hexDecode (memcpy (fun _ => 0) 0 (stringBytes "ABCD")) 3 1).written = [0xAB, 0xCD] ∧
      3 ∈ (hexDecode (memcpy (fun _ => 0) 0 (stringBytes "ABCD")) 3 1).reads ∧
      ¬(hexDecode (memcpy (fun _ => 0) 0 (stringBytes "ABCD")) 3 1).Inside 3 1 := by
  have written : (hexDecode (memcpy (fun _ => 0) 0 (stringBytes "ABCD")) 3 1).written = [0xAB, 0xCD] := by decide
  have reads : 3 ∈ (hexDecode (memcpy (fun _ => 0) 0 (stringBytes "ABCD")) 3 1).reads := by decide
  refine ⟨written, reads, fun inside => ?_⟩
  exact absurd (inside.reads 3 reads) (by decide)

end Psuart

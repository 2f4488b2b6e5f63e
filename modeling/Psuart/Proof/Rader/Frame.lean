import Psuart.Spec.Frame

namespace Psuart

theorem toSizeT_eq (value : CInt) (small : value.toNat < 2 ^ 31) : toSizeT value = value.toNat := by
  have positive : value.msb = false := by
    rw [BitVec.msb_eq_decide]
    simpa using small
  rw [toSizeT, BitVec.signExtend_eq_setWidth_of_msb_false positive, BitVec.toNat_setWidth]
  omega

/-- The macros combine two unsigned bytes to a length below 2^16. -/
theorem erupGetLen_uchar (buf : Memory) :
    (erupGetLen promoteUchar buf).toNat = (buf 1).toNat * 256 + (buf 2).toNat := by
  have high := (buf 1).isLt
  have low := (buf 2).isLt
  have shifted : (buf 1).toNat <<< 8 % 2 ^ 32 = (buf 1).toNat <<< 8 := by
    rw [Nat.shiftLeft_eq]
    omega
  have wide : (buf 2).toNat % 2 ^ 32 = (buf 2).toNat := by omega
  rw [erupGetLen, BitVec.toNat_or, BitVec.toNat_shiftLeft, promoteUchar, promoteUchar,
    BitVec.zeroExtend, BitVec.toNat_setWidth, BitVec.toNat_setWidth, wide,
    Nat.mod_eq_of_lt (show (buf 1).toNat < 2 ^ 32 by omega), shifted,
    ← Nat.shiftLeft_add_eq_or_of_lt (by omega), Nat.shiftLeft_eq]

theorem erupGetLen_uchar_lt (buf : Memory) : (erupGetLen promoteUchar buf).toNat < 2 ^ 16 := by
  have high := (buf 1).isLt
  have low := (buf 2).isLt
  rw [erupGetLen_uchar]
  omega

theorem erupGetLen_uchar_toInt (buf : Memory) :
    (erupGetLen promoteUchar buf).toInt = (erupGetLen promoteUchar buf).toNat := by
  have bound := erupGetLen_uchar_lt buf
  rw [BitVec.toInt_eq_toNat_of_lt (by omega)]

theorem erupGetPacketLen_uchar (buf : Memory) :
    toSizeT (erupGetPacketLen promoteUchar buf) = (erupGetLen promoteUchar buf).toNat + 6 := by
  have bound := erupGetLen_uchar_lt buf
  have sum : (erupGetPacketLen promoteUchar buf).toNat = (erupGetLen promoteUchar buf).toNat + 6 := by
    unfold erupGetPacketLen
    bv_omega
  rw [toSizeT_eq _ (by omega), sum]

theorem bytesAt_add (pointer : Memory) (off : Int) (first second : Nat) :
    bytesAt pointer off (first + second) =
      bytesAt pointer off first ++ bytesAt pointer (off + first) second := by
  rw [bytesAt, Cells.load_add]
  congr 1
  apply Cells.load_congr
  intro index _
  congr 1
  push_cast
  ring

theorem bytesAt_one (pointer : Memory) (off : Int) : bytesAt pointer off 1 = [pointer off] := by
  simp [bytesAt, Cells.load, List.range_succ]

theorem bytesAt_data (pointer : Memory) (count : Nat) :
    bytesAt (erupGetData pointer) 0 count = bytesAt pointer 4 count := by
  apply Cells.load_congr
  intro index _
  rw [erupGetData]
  congr 1
  ring

/-- The bytes of a frame have fixed places around the payload. -/
theorem bytesAt_frame (pointer : Memory) (count : Nat) :
    bytesAt pointer 0 (count + 6) =
      [pointer 0, pointer 1, pointer 2, pointer 3] ++ bytesAt pointer 4 count ++
        [pointer (count + 4), pointer (count + 5)] := by
  rw [show count + 6 = 1 + 1 + 1 + 1 + count + 1 + 1 by omega]
  simp only [bytesAt_add, bytesAt_one]
  have places : (0 + ((1 + 1 + 1 + 1 + count : Nat) : Int)) = count + 4 ∧
      (0 + ((1 + 1 + 1 + 1 + count + 1 : Nat) : Int)) = count + 5 := by
    constructor <;> push_cast <;> ring
  rw [places.1, places.2]
  simp

/-- A view holds a frame exactly when every check of `rader_cmd` passes on it. -/
theorem frame_iff_checks (pointer : Memory) (flag : Byte) (payload : List Byte)
    (short : payload.length < 2 ^ 16) :
    bytesAt pointer 0 (payload.length + 6) = erupFrame flag payload ↔
      pointer 0 = erupBegin ∧ (erupGetLen promoteUchar pointer).toNat = payload.length ∧
        pointer 3 = flag ∧
        bytesAt (erupGetData pointer) 0 (erupGetLen promoteUchar pointer).toNat = payload ∧
        erupGetCrc promoteUchar pointer = crc8 payload ∧ erupGetEnd promoteUchar pointer = erupEnd := by
  have header : pointer 1 = BitVec.ofNat 8 (payload.length >>> 8) ∧
      pointer 2 = BitVec.ofNat 8 payload.length ↔
        (erupGetLen promoteUchar pointer).toNat = payload.length := by
    have high := (pointer 1).isLt
    have low := (pointer 2).isLt
    rw [erupGetLen_uchar, Nat.shiftRight_eq_div_pow, ← BitVec.toNat_inj, ← BitVec.toNat_inj,
      BitVec.toNat_ofNat, BitVec.toNat_ofNat]
    omega
  rw [bytesAt_frame, erupFrame, erupHeader, bytesAt_data, erupGetCrc, erupGetEnd,
    erupGetLen_uchar_toInt]
  constructor
  · intro equal
    obtain ⟨front, back⟩ := List.append_inj equal (by simp)
    obtain ⟨head, middle⟩ := List.append_inj front (by simp)
    simp only [List.cons.injEq, and_true] at head back
    have length := header.mp ⟨head.2.1, head.2.2.1⟩
    rw [length]
    exact ⟨head.1, rfl, head.2.2.2, middle, back.1, back.2⟩
  · rintro ⟨start, length, third, middle, crc, last⟩
    obtain ⟨high, low⟩ := header.mpr length
    rw [length] at middle crc last
    rw [start, high, low, third, middle, crc, last]

theorem bytesAt_shift (pointer : Memory) (start : Nat) (count : Nat) :
    bytesAt (fun off => pointer (off + start)) 0 count = bytesAt pointer start count := by
  apply Cells.load_congr
  intro index _
  congr 1
  ring

theorem bytesAt_succ (pointer : Memory) (count : Nat) :
    bytesAt pointer 0 (count + 1) = pointer 0 :: bytesAt (fun off => pointer (off + 1)) 0 count := by
  rw [Nat.add_comm, bytesAt_add, bytesAt_one]
  exact congrArg (pointer 0 :: ·) (bytesAt_shift pointer 1 count).symm

/-- The scan of a buffer without a start marker runs to its end. -/
theorem raderScan_absent (pointer : Memory) (len : Nat)
    (absent : erupBegin ∉ bytesAt pointer 0 len) : (raderScan pointer len).2 = 0 := by
  induction len generalizing pointer with
  | zero => rfl
  | succ len ih =>
      rw [bytesAt_succ, List.mem_cons, not_or] at absent
      rw [raderScan, if_pos (show erupGetBegin pointer ≠ erupBegin from Ne.symm absent.1)]
      exact ih _ absent.2

/-- The scan stops at the first start marker. -/
theorem raderScan_found (pointer : Memory) (len : Nat) (front back : List Byte)
    (absent : erupBegin ∉ front) (data : bytesAt pointer 0 len = front ++ erupBegin :: back) :
    raderScan pointer len = (fun off => pointer (off + front.length), back.length + 1) := by
  induction front generalizing pointer len with
  | nil =>
      cases len with
      | zero => simp [bytesAt] at data
      | succ len =>
          rw [bytesAt_succ, List.nil_append, List.cons.injEq] at data
          have length := congrArg List.length data.2
          rw [bytesAt_length] at length
          rw [raderScan, if_neg (show ¬erupGetBegin pointer ≠ erupBegin from not_not.mpr data.1), length]
          simp
  | cons first rest ih =>
      cases len with
      | zero => simp [bytesAt] at data
      | succ len =>
          rw [bytesAt_succ, List.cons_append, List.cons.injEq] at data
          rw [List.mem_cons, not_or] at absent
          have other : erupGetBegin pointer ≠ erupBegin := by
            rw [erupGetBegin, data.1]
            exact Ne.symm absent.1
          rw [raderScan, if_pos other, ih _ _ absent.2 data.2]
          congr 1
          funext off
          congr 1
          push_cast [List.length_cons]
          ring

/-- The moved pointer reads the bytes behind the front of the buffer. -/
theorem bytesAt_behind {buf : Memory} {len : Nat} {front rest : List Byte}
    (data : bytesAt buf 0 len = front ++ rest) (count : Nat) (short : count ≤ rest.length) :
    bytesAt (fun off => buf (off + front.length)) 0 count = rest.take count := by
  have lengths := congrArg List.length data
  rw [bytesAt_length, List.length_append] at lengths
  rw [lengths, bytesAt_add] at data
  obtain ⟨_, behind⟩ := List.append_inj data (by simp)
  rw [Int.zero_add] at behind
  rw [bytesAt_shift, ← behind, bytesAt, bytesAt, Cells.load_take, Nat.min_eq_left short]

/-- A carried command reaches the dispatch of `rader_cmd`. -/
theorem raderCmd_carries (s : Rader) (buf : Memory) (len : Nat) (payload : List Byte)
    (carries : Carries (bytesAt buf 0 len) payload) :
    raderCmd s buf len =
      ⟨(raderForward s payload).1, (raderForward s payload).2, if raderCloses payload then 1 else 0⟩ := by
  obtain ⟨short, front, flag, back, absent, data⟩ := carries
  rw [List.append_assoc] at data
  obtain ⟨tail, frame⟩ : ∃ tail, erupFrame flag payload = erupBegin :: tail := ⟨_, rfl⟩
  have found := raderScan_found buf len front (tail ++ back) absent (by rw [data, frame]; simp)
  have tailLength : tail.length + 1 = payload.length + 6 := by
    rw [← erupFrame_length flag payload, frame, List.length_cons]
  have view : bytesAt (fun off => buf (off + front.length)) 0 (payload.length + 6) =
      erupFrame flag payload := by
    rw [bytesAt_behind data _ (by simp), List.take_left' (erupFrame_length flag payload)]
  obtain ⟨_, length, _, bytes, crc, last⟩ := (frame_iff_checks _ flag payload short).mp view
  have enough : ¬(tail ++ back).length + 1 <
      toSizeT (erupGetPacketLen promoteUchar fun off => buf (off + front.length)) := by
    rw [erupGetPacketLen_uchar, length, List.length_append]
    omega
  simp only [raderCmd, found, if_neg enough, bytes]
  rw [if_neg (by simp [crc, last])]

/-- A buffer that passes the checks behind its first start marker carries the checked payload. -/
theorem carries_of_checks {buf : Memory} {len : Nat} {front back : List Byte} {view : Memory}
    (moved : view = fun off => buf (off + front.length)) (absent : erupBegin ∉ front)
    (data : bytesAt buf 0 len = front ++ erupBegin :: back)
    (enough : (erupGetLen promoteUchar view).toNat + 6 ≤ back.length + 1)
    (last : erupGetEnd promoteUchar view = erupEnd)
    (crc : erupGetCrc promoteUchar view =
      crc8 (bytesAt (erupGetData view) 0 (erupGetLen promoteUchar view).toNat)) :
    Carries (bytesAt buf 0 len)
      (bytesAt (erupGetData view) 0 (erupGetLen promoteUchar view).toNat) := by
  generalize payloadEq : bytesAt (erupGetData view) 0 (erupGetLen promoteUchar view).toNat = payload
    at crc ⊢
  have length : payload.length = (erupGetLen promoteUchar view).toNat := by
    rw [← payloadEq, bytesAt_length]
  have short : payload.length < 2 ^ 16 := length ▸ erupGetLen_uchar_lt view
  have behind (count : Nat) (inside : count ≤ back.length + 1) :
      bytesAt view 0 count = (erupBegin :: back).take count := by
    rw [moved]
    exact bytesAt_behind data count inside
  have marker : view 0 = erupBegin := by
    have first := behind 1 (by omega)
    rw [bytesAt_one] at first
    exact List.head_eq_of_cons_eq first
  have frame := (frame_iff_checks view (view 3) payload short).mpr
    ⟨marker, length.symm, rfl, payloadEq, crc, last⟩
  rw [behind _ (by omega)] at frame
  refine ⟨short, front, view 3, (erupBegin :: back).drop (payload.length + 6), absent, ?_⟩
  rw [← frame, List.append_assoc, List.take_append_drop, data]

/-- A buffer without a carried command changes nothing. -/
theorem raderCmd_rejects (s : Rader) (buf : Memory) (len : Nat)
    (none : ∀ payload, ¬Carries (bytesAt buf 0 len) payload) :
    raderCmd s buf len = ⟨s, .none, 0⟩ := by
  by_cases member : erupBegin ∈ bytesAt buf 0 len
  · obtain ⟨front, back, data, absent⟩ := List.eq_append_cons_of_mem member
    simp only [raderCmd, raderScan_found buf len front back absent data]
    split
    · rfl
    · rename_i enough
      split
      · rfl
      · rename_i checks
        rw [erupGetPacketLen_uchar] at enough
        rw [not_or, not_not, not_not] at checks
        exact absurd
          (carries_of_checks rfl absent data (Nat.le_of_not_lt enough) checks.1 checks.2) (none _)
  · have scanned := raderScan_absent buf len member
    have short : (raderScan buf len).2 <
        toSizeT (erupGetPacketLen promoteUchar (raderScan buf len).1) := by
      rw [scanned, erupGetPacketLen_uchar]
      omega
    simp only [raderCmd, if_pos short]

end Psuart

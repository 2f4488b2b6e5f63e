import Psuart.Library.Crc
import Psuart.Proof.Rader.Acceptance

namespace Psuart

/-- The reflected polynomial of `crc8`. -/
def crc8Poly : Byte := 0x8c

/-- The bytes of a message enter the register from bit 0 to bit 7. -/
def messageBits (bytes : List Byte) : List Bool := bytes.flatMap Crc.wordBits

/-- The changed bits are a nonempty set confined to eight consecutive bits. -/
def Burst (bits : List Bool) : Prop :=
  true ∈ bits ∧ ∃ start, ∀ index, bits[index]? = some true → start ≤ index ∧ index < start + 8

/-- The error pattern flips the bits of the message. -/
def corrupt (message error : List Byte) : List Byte := List.zipWith (· ^^^ ·) message error

theorem crc8Shift_eq (crc : Byte) : crc8Shift crc = Crc.shift crc8Poly crc := by
  revert crc
  decide

theorem crc8Byte_eq (crc byte : Byte) :
    crc8Byte crc byte = (Crc.wordBits byte).foldl (Crc.feed crc8Poly) crc := by
  rw [crc8Byte, show crc8Shift = Crc.shift crc8Poly from funext crc8Shift_eq]
  exact Crc.shifts_word crc8Poly crc byte

/-- The function `crc8` is the remainder of the message bits. -/
theorem crc8_eq_remainder (bytes : List Byte) :
    crc8 bytes = Crc.remainder crc8Poly (messageBits bytes) := by
  rw [crc8, Crc.remainder, messageBits, List.foldl_flatMap]
  congr 1
  funext crc byte
  exact crc8Byte_eq crc byte

theorem messageBits_length (bytes : List Byte) : (messageBits bytes).length = 8 * bytes.length := by
  rw [messageBits, List.length_flatMap]
  simp [List.map_const', Nat.mul_comm]

theorem messageBits_corrupt (message error : List Byte) (same : message.length = error.length) :
    messageBits (corrupt message error) =
      List.zipWith xor (messageBits message) (messageBits error) := by
  induction message generalizing error with
  | nil => simp [corrupt, messageBits]
  | cons byte rest ih =>
      cases error with
      | nil => simp at same
      | cons change tail =>
          have remaining := ih tail (by simpa using same)
          simp only [corrupt, messageBits, List.zipWith_cons_cons, List.flatMap_cons] at remaining ⊢
          rw [Crc.wordBits_xor, remaining, List.zipWith_append (by simp)]

/-- The checksum of a message behind its payload is zero exactly for the right checksum. -/
theorem crc8_append_eq_zero (payload : List Byte) (crc : Byte) :
    crc8 (payload ++ [crc]) = 0 ↔ crc = crc8 payload := by
  have top : crc8Poly.getLsbD (8 - 1) = true := by decide
  rw [crc8, List.foldl_append, ← crc8]
  simp only [List.foldl_cons, List.foldl_nil, crc8Byte]
  rw [show crc8Shift = Crc.shift crc8Poly from funext crc8Shift_eq]
  constructor
  · intro zero
    have clear := Crc.shifts_eq_zero top _ 8 zero
    exact (BitVec.xor_eq_zero_iff.mp clear).symm
  · intro right
    rw [right, BitVec.xor_self]
    exact Crc.shifts_zero crc8Poly 8

/-- A detectable error changes the checksum of the codeword. -/
theorem crc8_corrupt_ne_zero (payload error : List Byte) (length : error.length = payload.length + 1)
    (detectable : Burst (messageBits error) ∨ (messageBits error).count true % 2 = 1) :
    crc8 (corrupt (payload ++ [crc8 payload]) error) ≠ 0 := by
  have same : (payload ++ [crc8 payload]).length = error.length := by simp [length]
  have valid : crc8 (payload ++ [crc8 payload]) = 0#8 :=
    (crc8_append_eq_zero payload (crc8 payload)).mpr rfl
  rw [crc8_eq_remainder] at valid
  rw [crc8_eq_remainder, messageBits_corrupt _ _ same, Crc.remainder_xor _ _ _
    (by rw [messageBits_length, messageBits_length, same]), valid, BitVec.zero_xor]
  rcases detectable with ⟨somewhere, start, confined⟩ | odd
  · exact Crc.remainder_burst_ne_zero (by decide) _ start somewhere confined
  · exact Crc.remainder_odd_ne_zero (by decide) _ (by decide)
      (by rw [Crc.parity_eq_count]; simpa using odd)

/-- The bytes before the first start marker are determined. -/
theorem front_unique {first second tail rest : List Byte} (one : erupBegin ∉ first)
    (two : erupBegin ∉ second)
    (same : first ++ erupBegin :: tail = second ++ erupBegin :: rest) :
    first = second ∧ tail = rest := by
  induction first generalizing second with
  | nil =>
      cases second with
      | nil => exact ⟨rfl, (List.cons.inj same).2⟩
      | cons byte others =>
          rw [List.nil_append, List.cons_append, List.cons.injEq] at same
          exact absurd (List.mem_cons.mpr (Or.inl same.1)) two
  | cons byte others ih =>
      cases second with
      | nil =>
          rw [List.nil_append, List.cons_append, List.cons.injEq] at same
          exact absurd (List.mem_cons.mpr (Or.inl same.1.symm)) one
      | cons other rests =>
          rw [List.cons_append, List.cons_append, List.cons.injEq] at same
          obtain ⟨equal, tails⟩ := ih (fun member => one (List.mem_cons_of_mem _ member))
            (fun member => two (List.mem_cons_of_mem _ member)) same.2
          exact ⟨by rw [same.1, equal], tails⟩

/-- The length bytes of a header determine a length below 2^16. -/
theorem erupHeader_injective {flag other : Byte} {first second : Nat} (one : first < 2 ^ 16)
    (two : second < 2 ^ 16) (same : erupHeader flag first = erupHeader other second) :
    first = second := by
  simp only [erupHeader, List.cons.injEq, true_and] at same
  have high := congrArg BitVec.toNat same.1
  have low := congrArg BitVec.toNat same.2.1
  rw [BitVec.toNat_ofNat, BitVec.toNat_ofNat, Nat.shiftRight_eq_div_pow, Nat.shiftRight_eq_div_pow] at high
  rw [BitVec.toNat_ofNat, BitVec.toNat_ofNat] at low
  omega

/-- A frame with a wrong codeword carries no command. -/
theorem not_carries_wrong_codeword (front back codeword : List Byte) (flag : Byte) (length : Nat)
    (absent : erupBegin ∉ front) (short : length < 2 ^ 16) (size : codeword.length = length + 1)
    (wrong : crc8 codeword ≠ 0) (payload : List Byte) :
    ¬Carries (front ++ erupHeader flag length ++ codeword ++ [erupEnd] ++ back) payload := by
  rintro ⟨bound, first, other, rest, clear, equal⟩
  have aligned : front ++ erupBegin :: ((erupHeader flag length).tail ++ codeword ++ [erupEnd] ++ back) =
      first ++ erupBegin :: ((erupHeader other payload.length).tail ++ payload ++
        [crc8 payload, erupEnd] ++ rest) := by
    simpa [erupHeader, erupFrame] using equal
  obtain ⟨_, tails⟩ := front_unique absent clear aligned
  have split : (erupHeader flag length).tail ++ (codeword ++ [erupEnd] ++ back) =
      (erupHeader other payload.length).tail ++ (payload ++ [crc8 payload] ++ [erupEnd] ++ rest) := by
    simpa using tails
  obtain ⟨headers, bodies⟩ := List.append_inj split (by simp [erupHeader])
  have same : length = payload.length := by
    apply @erupHeader_injective flag other _ _ short bound
    simpa [erupHeader] using headers
  rw [List.append_assoc, List.append_assoc (payload ++ [crc8 payload])] at bodies
  obtain ⟨words, _⟩ := List.append_inj bodies (by simp [size, same])
  exact wrong (words ▸ (crc8_append_eq_zero payload (crc8 payload)).mpr rfl)

/-- A burst of eight bits or an odd number of errors turns an accepted frame into a rejected one. -/
theorem raderCmd_detects_errors (s : Rader) (past : Memory) (front back payload error : List Byte)
    (flag : Byte) (absent : erupBegin ∉ front) (short : payload.length < 2 ^ 16)
    (length : error.length = payload.length + 1)
    (detectable : Burst (messageBits error) ∨ (messageBits error).count true % 2 = 1) :
    let sent := front ++ erupHeader flag payload.length ++ (payload ++ [crc8 payload]) ++ [erupEnd] ++ back
    let received := front ++ erupHeader flag payload.length ++
      corrupt (payload ++ [crc8 payload]) error ++ [erupEnd] ++ back
    (s.raderDlen = 0 →
        (raderCmd s (recvArray sent past) sent.length).written = some payload) ∧
      raderCmd s (recvArray received past) received.length = ⟨s, none, 0⟩ := by
  intro sent received
  constructor
  · intro idle
    rw [raderCmd_written_iff s idle, bytesAt_recvArray]
    exact ⟨short, front, flag, back, absent, by simp [sent, erupFrame]⟩
  · apply raderCmd_rejects
    intro command
    rw [bytesAt_recvArray]
    exact not_carries_wrong_codeword front back _ flag payload.length absent short
      (by simp [corrupt, length]) (crc8_corrupt_ne_zero payload error length detectable) command

/-- A burst across the checksum boundary is rejected. -/
theorem raderCmd_detects_burst_across :
    raderCmd raderStatic (recvArray (erupHeader 0 1 ++ corrupt [0x41, crc8 [0x41]] [0x80, 0x7f] ++ [erupEnd])
      fun _ => 0) 7 = ⟨raderStatic, none, 0⟩ := by
  have confined : ∀ index, (messageBits [0x80, 0x7f])[index]? = some true → 7 ≤ index ∧ index < 15 := by
    intro index set
    have inside : index < 16 := by
      by_contra above
      rw [List.getElem?_eq_none (by rw [messageBits_length]; simp; omega)] at set
      cases set
    revert set
    exact (by decide : ∀ index < 16, (messageBits [0x80, 0x7f])[index]? = some true →
      7 ≤ index ∧ index < 15) index inside
  exact (raderCmd_detects_errors raderStatic (fun _ => 0) [] [] [0x41] [0x80, 0x7f] 0 (by decide) (by decide)
    rfl (Or.inl ⟨by decide, 7, confined⟩)).2

end Psuart

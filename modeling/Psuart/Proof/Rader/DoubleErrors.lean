import Mathlib.Tactic.NormNum.Prime
import Psuart.Library.CrcPeriod
import Psuart.Proof.Rader.ErrorDetection

namespace Psuart

/-- The register of `crc8` returns to a single error after 127 bits. -/
theorem crc8Poly_period :
    Function.minimalPeriod (Crc.shift crc8Poly) (Crc.impulse crc8Poly) = 127 := by
  have : Fact (Nat.Prime 127) := ⟨by norm_num⟩
  have returns : (Crc.shift crc8Poly)^[127] (Crc.impulse crc8Poly) = Crc.impulse crc8Poly := by decide +kernel
  have moves : Crc.shift crc8Poly (Crc.impulse crc8Poly) ≠ Crc.impulse crc8Poly := by decide
  exact Function.minimalPeriod_eq_prime returns moves

/-- Only the error decides the checksum of a damaged codeword. -/
theorem crc8_corrupt (payload error : List Byte) (length : error.length = payload.length + 1) :
    crc8 (corrupt (payload ++ [crc8 payload]) error) = Crc.remainder crc8Poly (messageBits error) := by
  have same : (payload ++ [crc8 payload]).length = error.length := by simp [length]
  have valid : crc8 (payload ++ [crc8 payload]) = 0#8 :=
    (crc8_append_eq_zero payload (crc8 payload)).mpr rfl
  rw [crc8_eq_remainder] at valid
  rw [crc8_eq_remainder, messageBits_corrupt _ _ same, Crc.remainder_xor _ _ _
    (by rw [messageBits_length, messageBits_length, same]), valid, BitVec.zero_xor]

/-- A set bit of the error changes the message. -/
theorem corrupt_ne {message error : List Byte} (same : message.length = error.length) {index : Nat}
    (set : (messageBits error)[index]? = some true) : corrupt message error ≠ message := by
  intro unchanged
  have inside : index < (messageBits message).length := by
    have bound := (List.getElem?_eq_some_iff.mp set).1
    rwa [messageBits_length, ← same, ← messageBits_length] at bound
  have bits := congrArg (fun bits => bits[index]?) (messageBits_corrupt message error same)
  simp only [unchanged, List.getElem?_zipWith, set, List.getElem?_eq_getElem inside, Option.some.injEq] at bits
  cases bit : (messageBits message)[index] <;> simp [bit] at bits

/-- A wrong codeword with a right checksum holds another payload of the same length. -/
theorem corrupt_codeword {payload error : List Byte} (length : error.length = payload.length + 1)
    {index : Nat} (set : (messageBits error)[index]? = some true)
    (right : crc8 (corrupt (payload ++ [crc8 payload]) error) = 0) :
    ∃ wrong, corrupt (payload ++ [crc8 payload]) error = wrong ++ [crc8 wrong] ∧ wrong ≠ payload ∧
      wrong.length = payload.length := by
  have size : (corrupt (payload ++ [crc8 payload]) error).length = payload.length + 1 := by
    simp [corrupt, length]
  rcases List.eq_nil_or_concat (corrupt (payload ++ [crc8 payload]) error) with empty | ⟨wrong, crc, split⟩
  · rw [empty] at size
    cases size
  · rw [List.concat_eq_append] at split
    have sum : crc = crc8 wrong := (crc8_append_eq_zero wrong crc).mp (split ▸ right)
    subst sum
    refine ⟨wrong, split, ?_, ?_⟩
    · rintro rfl
      exact corrupt_ne (by simp [length]) set split
    · simpa [split] using size

/-- Two flipped bits are rejected unless their distance is a multiple of 127, and then a wrong command is taken. -/
theorem raderCmd_double_error (s : Rader) (past : Memory) (front back payload error : List Byte) (flag : Byte)
    (first second : Nat) (absent : erupBegin ∉ front) (short : payload.length < 2 ^ 16)
    (length : error.length = payload.length + 1) (pair : Crc.Pair (messageBits error) first second) :
    let received := front ++ erupHeader flag payload.length ++
      corrupt (payload ++ [crc8 payload]) error ++ [erupEnd] ++ back
    (¬127 ∣ second - first → raderCmd s (recvArray received past) received.length = ⟨s, none, 0⟩) ∧
      (127 ∣ second - first → s.raderDlen = 0 → ∃ wrong, wrong ≠ payload ∧ wrong.length = payload.length ∧
        (raderCmd s (recvArray received past) received.length).written = some wrong) := by
  intro received
  have checked : crc8 (corrupt (payload ++ [crc8 payload]) error) = 0 ↔ 127 ∣ second - first := by
    rw [crc8_corrupt payload error length, ← crc8Poly_period]
    exact Crc.remainder_pair_eq_zero_iff (by decide) pair
  constructor
  · intro apart
    apply raderCmd_rejects
    intro command
    rw [bytesAt_recvArray]
    exact not_carries_wrong_codeword front back _ flag payload.length absent short
      (by simp [corrupt, length]) (fun right => apart (checked.mp right)) command
  · intro divides idle
    obtain ⟨wrong, codeword, differs, size⟩ :=
      corrupt_codeword length ((pair.places first).mpr (Or.inl rfl)) (checked.mpr divides)
    refine ⟨wrong, differs, size, ?_⟩
    rw [raderCmd_written_iff s idle, bytesAt_recvArray]
    refine ⟨size ▸ short, front, flag, back, absent, ?_⟩
    simp only [received, codeword]
    rw [← size]
    simp [erupFrame]

/-- The errors in the first and the last bit of a distance of 127 let a wrong command pass. -/
theorem raderCmd_double_error_passes :
    let payload := List.replicate 16 0x41
    let error := 0x01 :: List.replicate 14 0 ++ [0x80, 0]
    ∃ wrong, wrong ≠ payload ∧ wrong.length = payload.length ∧
      (raderCmd (raderInit raderStatic) (recvArray (erupHeader 0 16 ++
        corrupt (payload ++ [crc8 payload]) error ++ [erupEnd]) fun _ => 0) 22).written = some wrong := by
  have pair : Crc.Pair (messageBits (0x01 :: List.replicate 14 0 ++ [0x80, 0])) 0 127 := by
    refine ⟨by decide, fun index => ?_⟩
    by_cases inside : index < 136
    · revert inside index
      decide +kernel
    · rw [List.getElem?_eq_none (by rw [messageBits_length]; simp; omega)]
      simp
      omega
  exact (raderCmd_double_error (raderInit raderStatic) (fun _ => 0) [] [] (List.replicate 16 0x41) _ 0 0 127
    (by decide) (by decide) (by decide) pair).2 (by decide) rfl

end Psuart

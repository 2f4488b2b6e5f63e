import Mathlib.Data.List.TakeWhile
import Psuart.Library.Framing
import Psuart.Proof.Rader.ErrorDetection
import Psuart.Spec.Gateway

namespace Psuart

theorem lengthBytes {length : Nat} (short : length < 2 ^ 16) :
    256 * (BitVec.ofNat 8 (length >>> 8)).toNat + (BitVec.ofNat 8 length).toNat = length := by
  rw [BitVec.toNat_ofNat, BitVec.toNat_ofNat, Nat.shiftRight_eq_div_pow]
  omega

theorem lengthBytes_eq (high low : Byte) :
    BitVec.ofNat 8 ((256 * high.toNat + low.toNat) >>> 8) = high ∧
      BitVec.ofNat 8 (256 * high.toNat + low.toNat) = low := by
  have one := high.isLt
  have two := low.isLt
  constructor
  · apply BitVec.eq_of_toNat_eq
    rw [BitVec.toNat_ofNat, Nat.shiftRight_eq_div_pow]
    omega
  · apply BitVec.eq_of_toNat_eq
    rw [BitVec.toNat_ofNat]
    omega

/-- The receiver takes exactly the frames of the protocol. -/
theorem parseFrame_iff {stream payload back : List Byte} {flag : Byte} :
    parseFrame stream = some ((flag, payload), back) ↔
      payload.length < 2 ^ 16 ∧ stream = erupFrame flag payload ++ back := by
  constructor
  · intro parsed
    unfold parseFrame at parsed
    split at parsed
    · rename_i first high low mark rest
      simp only at parsed
      split at parsed
      · rename_i crc last tail dropped
        split at parsed
        · rename_i checks
          obtain ⟨rfl, equal, rfl⟩ := checks
          obtain ⟨⟨rfl, rfl⟩, rfl⟩ : (mark = flag ∧ rest.take (256 * high.toNat + low.toNat) = payload) ∧
              tail = back := by simpa using parsed
          have one := high.isLt
          have two := low.isLt
          have inside : 256 * high.toNat + low.toNat < rest.length := by
            by_contra outside
            rw [List.drop_eq_nil_of_le (Nat.not_lt.mp outside)] at dropped
            cases dropped
          have length : (rest.take (256 * high.toNat + low.toNat)).length = 256 * high.toNat + low.toNat := by
            rw [List.length_take]
            omega
          obtain ⟨upper, lower⟩ := lengthBytes_eq high low
          refine ⟨by omega, ?_⟩
          rw [erupFrame, erupHeader, length, upper, lower, ← equal]
          conv_lhs => rw [← List.take_append_drop (256 * high.toNat + low.toNat) rest, dropped]
          simp
        · cases parsed
      · cases parsed
    · cases parsed
  · rintro ⟨short, rfl⟩
    simp only [parseFrame, erupFrame, erupHeader, List.cons_append, List.nil_append, List.append_assoc,
      lengthBytes short, List.drop_left, List.take_left, and_self, if_true]

/-- The frames delimit themselves in a stream. -/
theorem frames_delimit : Framing.Delimits (fun frame : Byte × List Byte => frame.2.length < 2 ^ 16)
    (fun frame => erupFrame frame.1 frame.2) parseFrame where
  exact _ _ _ := parseFrame_iff
  visible frame _ := by simp [erupFrame, erupHeader]

theorem carries_nonempty {data payload : List Byte} (carries : Carries data payload) : 0 < data.length := by
  obtain ⟨_, front, flag, back, _, rfl⟩ := carries
  simp [erupFrame]

/-- The decoder of a buffer finds exactly the carried command. -/
theorem carried_iff {data payload : List Byte} : carried data = some payload ↔ Carries data payload := by
  rw [carried, Option.map_eq_some_iff]
  constructor
  · rintro ⟨⟨⟨flag, _⟩, back⟩, parsed, rfl⟩
    obtain ⟨short, shape⟩ := parseFrame_iff.mp parsed
    refine ⟨short, data.takeWhile (· ≠ erupBegin), flag, back, ?_, ?_⟩
    · intro member
      simpa using List.mem_takeWhile_imp member
    · rw [List.append_assoc, ← shape]
      exact List.takeWhile_append_dropWhile.symm
  · rintro ⟨short, front, flag, back, absent, rfl⟩
    refine ⟨((flag, payload), back), ?_, rfl⟩
    have marker : (front ++ (erupFrame flag payload ++ back)).dropWhile (· ≠ erupBegin) =
        erupFrame flag payload ++ back := by
      rw [List.dropWhile_append_of_pos]
      · simp [erupFrame, erupHeader]
      · intro byte member
        simpa using fun same : byte = erupBegin => absent (same ▸ member)
    rw [List.append_assoc, marker]
    exact parseFrame_iff.mpr ⟨short, rfl⟩

end Psuart

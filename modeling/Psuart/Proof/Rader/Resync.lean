import Psuart.Proof.Rader.Acceptance

namespace Psuart

/-- A carried command is a frame behind bytes without a start marker. -/
theorem carries_iff_frameAt {data payload : List Byte} (short : data.length < 2 ^ 16) :
    Carries data payload ↔
      ∃ offset, FrameAt data offset payload ∧ erupBegin ∉ data.take offset := by
  constructor
  · rintro ⟨_, front, flag, back, absent, equal⟩
    rw [List.append_assoc] at equal
    refine ⟨front.length, ⟨flag, back, ?_⟩, ?_⟩
    · rw [equal, List.drop_left]
    · rwa [equal, List.take_left]
  · rintro ⟨offset, ⟨flag, back, equal⟩, absent⟩
    have lengths := congrArg List.length equal
    rw [List.length_drop, List.length_append, erupFrame_length] at lengths
    refine ⟨by omega, data.take offset, flag, back, absent, ?_⟩
    rw [List.append_assoc, ← equal, List.take_append_drop]

/-- A frame at an offset puts a start marker there. -/
theorem FrameAt.marker {data payload : List Byte} {offset : Nat} (frame : FrameAt data offset payload) :
    data[offset]? = some erupBegin := by
  obtain ⟨flag, back, equal⟩ := frame
  have first := congrArg List.head? equal
  rw [List.head?_drop] at first
  rw [first]
  rfl

/-- The first frame of a buffer is forwarded exactly when no start marker stands before it. -/
theorem raderCmd_resyncs_iff (s : Rader) (idle : s.raderDlen = 0) (data : ReadBytes) (past : Memory)
    (offset : Nat) (payload : List Byte) (frame : FrameAt data.val offset payload)
    (lowest : ∀ other, other < offset → ∀ command, ¬FrameAt data.val other command) :
    (raderCmd s (recvArray data.val past) data.val.length).written = some payload ↔
      erupBegin ∉ data.val.take offset := by
  have bound := data.property
  have short : data.val.length < 2 ^ 16 := by unfold recvSize at bound; omega
  rw [raderCmd_written_iff s idle, bytesAt_recvArray, carries_iff_frameAt short]
  constructor
  · rintro ⟨other, found, absent⟩
    rcases Nat.lt_or_ge other offset with before | behind
    · exact absurd found (lowest other before payload)
    · intro member
      exact absent (List.take_subset_take_left _ behind member)
  · intro absent
    exact ⟨offset, frame, absent⟩

/-- Noise without a start marker is skipped. -/
theorem raderCmd_resyncs_noise :
    (raderCmd raderStatic (recvArray ([1, 2] ++ erupFrame 0 [0x41]) fun _ => 0) 9).written = some [0x41] :=
  (raderCmd_resyncs_iff raderStatic rfl ⟨[1, 2] ++ erupFrame 0 [0x41], by decide⟩ (fun _ => 0) 2 [0x41]
    ⟨0, [], rfl⟩ (by
      intro other before command frame
      have marker := frame.marker
      revert marker
      exact (by decide : ∀ other < 2, ([1, 2] ++ erupFrame 0 [0x41])[other]? ≠ some erupBegin)
        other before)).mpr (by decide)

/-- This start marker claims a length that the buffer does not hold. -/
def falseStart : ReadBytes := ⟨[erupBegin] ++ erupFrame 0 [0x41], by decide⟩

/-- The complete frame behind a false start is lost. -/
theorem raderCmd_misses_frame : FrameAt falseStart.val 1 [0x41] ∧
    (∀ other, other < 1 → ∀ command, ¬FrameAt falseStart.val other command) ∧
      (raderCmd raderStatic (recvArray falseStart.val fun _ => 0) falseStart.val.length).written ≠
        some [0x41] := by
  refine ⟨⟨0, [], rfl⟩, ?_, by decide⟩
  rintro other before command ⟨flag, back, equal⟩
  obtain rfl : other = 0 := by omega
  have lengths := congrArg List.length equal
  rw [List.drop_zero, List.length_append, erupFrame_length] at lengths
  have short : command.length ≤ 2 := by
    change 8 = _ at lengths
    omega
  have high : command.length >>> 8 = 0 := by
    rw [Nat.shiftRight_eq_div_pow]
    omega
  have second := congrArg (fun bytes => bytes[1]?) equal
  change some erupBegin = some (BitVec.ofNat 8 (command.length >>> 8)) at second
  rw [high] at second
  exact absurd second (by decide)

end Psuart

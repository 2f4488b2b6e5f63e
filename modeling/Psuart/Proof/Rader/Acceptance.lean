import Psuart.Proof.Rader.Frame

namespace Psuart

/-- An idle collector writes exactly the carried command. -/
theorem raderCmd_written_iff (s : Rader) (idle : s.raderDlen = 0) (buf : Memory) (len : Nat)
    (payload : List Byte) :
    (raderCmd s buf len).written = some payload ↔ Carries (bytesAt buf 0 len) payload := by
  constructor
  · intro written
    by_contra missing
    by_cases other : ∃ command, Carries (bytesAt buf 0 len) command
    · obtain ⟨command, carries⟩ := other
      rw [raderCmd_carries s buf len command carries, raderForward, if_pos idle] at written
      exact missing (Option.some.inj written ▸ carries)
    · rw [raderCmd_rejects s buf len (not_exists.mp other)] at written
      cases written
  · intro carries
    rw [raderCmd_carries s buf len payload carries, raderForward, if_pos idle]

/-- A buffer carries at most one command. -/
theorem carries_unique {data first second : List Byte} (one : Carries data first)
    (two : Carries data second) : first = second := by
  rw [← bytesAt_recvArray data fun _ => 0] at one two
  have left := (raderCmd_written_iff raderStatic rfl _ _ _).mpr one
  have right := (raderCmd_written_iff raderStatic rfl _ _ _).mpr two
  exact Option.some.inj (left.symm.trans right)

/-- A busy collector refuses every command without a change. -/
theorem raderCmd_busy (s : Rader) (busy : s.raderDlen ≠ 0) (buf : Memory) (len : Nat) :
    (raderCmd s buf len).written = none ∧ (raderCmd s buf len).state = s := by
  by_cases carried : ∃ command, Carries (bytesAt buf 0 len) command
  · obtain ⟨command, carries⟩ := carried
    rw [raderCmd_carries s buf len command carries, raderForward, if_neg busy]
    exact ⟨rfl, rfl⟩
  · rw [raderCmd_rejects s buf len (not_exists.mp carried)]
    exact ⟨rfl, rfl⟩

/-- The result reports exactly the close command, also from a busy collector. -/
theorem raderCmd_ret_iff (s : Rader) (buf : Memory) (len : Nat) :
    (raderCmd s buf len).ret = 1 ↔
      ∃ payload, Carries (bytesAt buf 0 len) payload ∧ raderCloses payload = true := by
  by_cases carried : ∃ command, Carries (bytesAt buf 0 len) command
  · obtain ⟨command, carries⟩ := carried
    rw [raderCmd_carries s buf len command carries]
    by_cases closes : raderCloses command = true
    · simp only [if_pos closes, true_iff]
      exact ⟨command, carries, closes⟩
    · simp only [if_neg closes]
      refine iff_of_false (by decide) ?_
      rintro ⟨payload, other, found⟩
      exact closes (carries_unique other carries ▸ found)
  · rw [raderCmd_rejects s buf len (not_exists.mp carried)]
    refine iff_of_false (by simp) ?_
    rintro ⟨payload, carries, _⟩
    exact carried ⟨payload, carries⟩

/-- A received buffer carries its command in the form of the frame grammar. -/
theorem carries_received_iff (data : ReadBytes) (payload : List Byte) :
    Carries data.val payload ↔ ∃ front flag back, erupBegin ∉ front ∧
      data.val = front ++
        [erupBegin, BitVec.ofNat 8 (payload.length >>> 8), BitVec.ofNat 8 payload.length, flag] ++
        payload ++ [crc8 payload, erupEnd] ++ back := by
  constructor
  · rintro ⟨_, front, flag, back, absent, equal⟩
    exact ⟨front, flag, back, absent, by rw [equal, erupFrame, erupHeader]; simp⟩
  · rintro ⟨front, flag, back, absent, equal⟩
    have bound := data.property
    have lengths := congrArg List.length equal
    simp only [List.length_append, List.length_cons, List.length_nil] at lengths
    refine ⟨by unfold recvSize at bound; omega, front, flag, back, absent, ?_⟩
    rw [equal, erupFrame, erupHeader]
    simp

/-- The function `rader_cmd` accepts exactly its frame grammar. -/
theorem raderCmd_grammar (s : Rader) (data : ReadBytes) (past : Memory) :
    let result := raderCmd s (recvArray data.val past) data.val.length
    let framed := fun payload : List Byte => ∃ front flag back, erupBegin ∉ front ∧
      data.val = front ++
        [erupBegin, BitVec.ofNat 8 (payload.length >>> 8), BitVec.ofNat 8 payload.length, flag] ++
        payload ++ [crc8 payload, erupEnd] ++ back
    (s.raderDlen = 0 → ∀ payload, result.written = some payload ↔ framed payload) ∧
      (∀ first second, framed first → framed second → first = second) ∧
      ((∀ payload, ¬framed payload) ∨ s.raderDlen > 0 →
        result.written = none ∧ result.state = s) := by
  intro result framed
  have grammar (payload : List Byte) :
      Carries (bytesAt (recvArray data.val past) 0 data.val.length) payload ↔ framed payload := by
    rw [bytesAt_recvArray]
    exact carries_received_iff data payload
  refine ⟨?_, ?_, ?_⟩
  · intro idle payload
    rw [raderCmd_written_iff s idle, grammar]
  · intro first second one two
    exact carries_unique ((grammar first).mpr one) ((grammar second).mpr two)
  · rintro (missing | busy)
    · have rejected := raderCmd_rejects s (recvArray data.val past) data.val.length
        fun payload carries => missing payload ((grammar payload).mp carries)
      exact ⟨congrArg RaderResult.written rejected, congrArg RaderResult.state rejected⟩
    · apply raderCmd_busy s
      intro idle
      rw [idle] at busy
      exact absurd busy (by decide)

end Psuart

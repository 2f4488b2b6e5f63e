import Psuart.Proof.Rader.Collector

namespace Psuart

/-- A command is refused, disarms the collector or starts a collection. -/
inductive CommandEffect (s : Rader) : Option (List Byte) → Rader → Prop where
  | refused : CommandEffect s none s
  | disarmed : CommandEffect s none { s with rdaerCmdFlag := 0, raderDlen := 0 }
  | started (idle : s.raderDlen = 0) (payload : List Byte) :
      CommandEffect s (some payload) (raderStart s payload)

theorem raderForward_effect (s : Rader) (payload : List Byte) :
    CommandEffect s (raderForward s payload).2 (raderForward s payload).1 := by
  unfold raderForward
  split
  · rename_i idle
    exact .started idle payload
  · exact .refused

theorem raderCmd_effect (s : Rader) (buf : Memory) (len : Nat) :
    CommandEffect s (raderCmd s buf len).written (raderCmd s buf len).state := by
  by_cases carried : ∃ payload, Carries (bytesAt buf 0 len) payload
  · obtain ⟨payload, carries⟩ := carried
    rw [raderCmd_carries s buf len payload carries]
    exact raderForward_effect s payload
  · rw [raderCmd_rejects s buf len (not_exists.mp carried)]
    exact .refused

theorem raderCmdFromStdin_effect (s : Rader) (buf : List Byte) :
    CommandEffect s (raderCmdFromStdin s buf).written (raderCmdFromStdin s buf).state := by
  unfold raderCmdFromStdin
  split
  · exact .disarmed
  · exact raderForward_effect s (stdinCommand buf)

/-- Every reachable state of the module rests or collects. -/
def Rader.Sound (s : Rader) : Prop := s.Rests ∨ ∃ acc, s.Collects acc

theorem Rader.Sound.ring {s : Rader} (sound : s.Sound) :
    ∃ bytes, s.raderFifo.Holds raderBufSize bytes := by
  rcases sound with rests | ⟨acc, collects⟩
  · exact rests.stale
  · exact ⟨acc, collects.holds⟩

/-- A started state collects from an empty ring, or no response belongs to the command. -/
theorem Rader.Sound.start {s : Rader} (sound : s.Sound) (payload : List Byte) :
    (raderStart s payload).Rests ∨ (raderStart s payload).Collects [] := by
  obtain ⟨bytes, holds⟩ := sound.ring
  by_cases armed : 0 < (raderDlenOf (raderFlag payload)).toNat
  · exact Or.inr (raderStart_collects holds payload armed)
  · exact Or.inl (raderStart_rests holds payload armed)

theorem Rader.Sound.disarm {s : Rader} (sound : s.Sound) (flag : Byte) :
    Rader.Sound { s with rdaerCmdFlag := flag, raderDlen := 0 } :=
  Or.inl ⟨sound.ring, rfl⟩

theorem CommandEffect.sound {s after : Rader} {written : Option (List Byte)} (sound : s.Sound)
    (effect : CommandEffect s written after) : after.Sound := by
  cases effect with
  | refused => exact sound
  | disarmed => exact sound.disarm 0
  | started _ payload =>
      rcases sound.start payload with rests | collects
      · exact Or.inl rests
      · exact Or.inr ⟨[], collects⟩

theorem raderRecv_sound {s : Rader} (sound : s.Sound) (bytes : ReadBytes) :
    (raderRecv s bytes.val).state.Sound := by
  rcases sound with rests | ⟨acc, collects⟩
  · rw [raderRecv_rests rests]
    exact Or.inl rests
  · obtain ⟨waits, releases⟩ := raderRecv_collects collects bytes
    by_cases enough : s.raderDlen.toNat ≤ acc.length + bytes.val.length
    · exact Or.inl (releases enough).1
    · exact Or.inr ⟨_, (waits (by omega)).1⟩

end Psuart

import Psuart.Model.Rader

namespace Psuart

/-- The token is written as the one byte that it names, and it arms the collector like that byte. -/
structure SendsByte (s : Rader) (token : List Byte) (byte : Byte) : Prop where
  written : (raderCmdFromStdin s token).written = some [byte]
  armed : (raderCmdFromStdin s token).state = (raderCmdFromStdin s [byte]).state

/-- A token behind the prefix `0x` or `0X`. -/
structure HexToken (token : List Byte) : Prop where
  length : 3 ≤ token.length
  zero : token[0]? = some (charByte '0')
  marker : token[1]? = some (charByte 'x') ∨ token[1]? = some (charByte 'X')

variable {s : Rader} {token : List Byte}

theorem HexToken.cases (hex : HexToken token) : ∃ marker third rest,
    token = charByte '0' :: marker :: third :: rest ∧ (marker = charByte 'x' ∨ marker = charByte 'X') := by
  obtain ⟨length, zero, marker⟩ := hex
  rcases token with _ | ⟨first, _ | ⟨second, _ | ⟨third, rest⟩⟩⟩
  · exact absurd length (Nat.not_succ_le_zero 2)
  · exact absurd length (by simp)
  · exact absurd length (by simp)
  · simp only [List.getElem?_cons_zero, List.getElem?_cons_succ, Option.some.injEq] at zero marker
    exact ⟨second, third, rest, by rw [zero], marker⟩

theorem raderForward_idle (idle : s.raderDlen = 0) (cmd : List Byte) :
    raderForward s cmd = (raderStart s cmd, some cmd) := if_pos idle

/-- A single byte is no word of the console. -/
theorem raderCmdFromStdin_byte (idle : s.raderDlen = 0) (byte : Byte) :
    raderCmdFromStdin s [byte] = ⟨raderStart s [byte], some [byte], 0⟩ := by
  rw [raderCmdFromStdin, if_neg (fun both => absurd both.1 (by simp)), stdinCommand, raderForward_idle idle]
  exact fun _ _ _ _ equal => by cases equal

/-- A hexadecimal token is sent as the truth value of its number. -/
theorem raderCmdFromStdin_hex (idle : s.raderDlen = 0) (hex : HexToken token) :
    raderCmdFromStdin s token =
      ⟨raderStart s [if strToInt token ≠ 0 then 1 else 0], some [if strToInt token ≠ 0 then 1 else 0], 0⟩ := by
  obtain ⟨marker, third, rest, rfl, marked⟩ := hex.cases
  have word : strcasecmp (charByte '0' :: marker :: third :: rest) (stringBytes "cls") ≠ 0 := by
    have close : cString (stringBytes "cls") = charByte 'c' :: stringBytes "ls" := by decide
    rw [strcasecmp, close, cString, List.takeWhile_cons, if_pos (by decide), compareLower, if_neg (by decide)]
    decide
  rw [raderCmdFromStdin, if_neg (fun both => word both.2), stdinCommand, if_pos ⟨rfl, marked⟩,
    raderForward_idle idle]

/-- A hexadecimal token sends the byte that it names exactly when its number is zero or ends in the byte one. -/
theorem raderCmdFromStdin_sends_iff (s : Rader) (idle : s.raderDlen = 0) (token : List Byte)
    (hex : HexToken token) :
    SendsByte s token ((strToInt token).setWidth 8) ↔
      strToInt token = 0 ∨ (strToInt token).setWidth 8 = (1 : Byte) := by
  have sent := raderCmdFromStdin_hex idle hex
  have single := raderCmdFromStdin_byte idle ((strToInt token).setWidth 8)
  by_cases zero : strToInt token = 0
  · refine iff_of_true ?_ (Or.inl zero)
    rw [zero, if_neg (not_not.mpr rfl)] at sent
    rw [zero] at single ⊢
    exact ⟨by rw [sent]; rfl, by rw [sent, single]; rfl⟩
  · rw [if_pos zero] at sent
    constructor
    · intro sends
      have written := sends.written
      rw [sent] at written
      exact Or.inr (List.singleton_inj.mp (Option.some.inj written)).symm
    · rintro (equal | one)
      · exact absurd equal zero
      · rw [one] at single ⊢
        exact ⟨by rw [sent], by rw [sent, single]⟩

/-- The token `0x101` ends in the byte one. -/
theorem raderCmdFromStdin_sends_one : SendsByte (raderInit raderStatic) (stringBytes "0x101") 1 :=
  (raderCmdFromStdin_sends_iff (raderInit raderStatic) rfl (stringBytes "0x101")
    ⟨by decide, by decide, by decide⟩).mpr (Or.inr (by decide))

/-- The command `F` in hexadecimal form is sent as the byte one, and no response is collected. -/
theorem raderCmdFromStdin_sends_truth :
    HexToken (stringBytes "0x46") ∧ (strToInt (stringBytes "0x46")).setWidth 8 = charByte 'F' ∧
      ¬SendsByte (raderInit raderStatic) (stringBytes "0x46") (charByte 'F') ∧
      (raderCmdFromStdin (raderInit raderStatic) (stringBytes "0x46")).written = some [1] ∧
      (raderCmdFromStdin (raderInit raderStatic) (stringBytes "0x46")).state.raderDlen = 0 ∧
      (raderCmdFromStdin (raderInit raderStatic) [charByte 'F']).state.raderDlen = 3178 := by
  refine ⟨⟨by decide, by decide, by decide⟩, by decide, fun sends => ?_, by decide, by decide, by decide⟩
  have written := sends.written
  revert written
  decide

end Psuart

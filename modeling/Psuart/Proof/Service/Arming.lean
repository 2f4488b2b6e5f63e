import Psuart.Proof.Rader.Acceptance
import Psuart.Proof.Service.Response
import Psuart.Spec.Arming

namespace Psuart

/-- For a command event the written command decides both properties. -/
theorem armedByDevice_iff_of_effect {transition : ServiceTransition} (fd : Int)
    {written : Option (List Byte)}
    (effect : CommandEffect transition.before.rader written transition.after.rader)
    (writes : transition.event.deviceWrite = written.map fun payload => (fd, payload))
    (hands : transition.before.rader.raderDlen = 0 → ∀ other payload,
      transition.event.Hands other payload ↔ fd = other ∧ written = some payload) :
    ArmedByDevice transition ↔ HandsToDevice transition := by
  constructor
  · intro armed idle other payload handed closed
    obtain ⟨rfl, equal⟩ := (hands idle other payload).mp handed
    by_contra busy
    rw [equal] at effect writes
    generalize final : transition.after.rader = after at effect
    cases effect
    have grown : transition.after.rader.raderDlen ≠ 0 := by
      rw [final]
      exact busy
    obtain ⟨device, command, write, opened, _⟩ := armed idle grown
    rw [writes] at write
    cases write
    omega
  · intro device idle busy
    generalize final : transition.after.rader = after at effect busy
    cases effect with
    | refused => exact absurd idle busy
    | disarmed => exact absurd rfl busy
    | started _ payload =>
        refine ⟨fd, payload, writes, ?_, rfl⟩
        by_contra closed
        exact busy (device idle fd payload ((hands idle fd payload).mpr ⟨rfl, rfl⟩) (Int.not_lt.mp closed))

/-- An event without a command arms nothing. -/
theorem armedByDevice_iff_of_calm {transition : ServiceTransition}
    (calm : transition.before.rader.raderDlen = 0 → transition.after.rader.raderDlen = 0)
    (silent : ∀ fd payload, ¬transition.event.Hands fd payload) :
    ArmedByDevice transition ↔ HandsToDevice transition :=
  iff_of_true (fun idle busy => absurd (calm idle) busy)
    fun _ fd payload handed => absurd handed (silent fd payload)

theorem raderRecv_idle {s : Rader} (idle : s.raderDlen = 0) (data : List Byte) :
    (raderRecv s data).state.raderDlen = 0 := by
  rw [raderRecv, if_neg (by rw [idle]; decide)]
  exact idle

/-- In every move the command is armed by the device exactly when it is handed to the device. -/
theorem armedByDevice_iff {before after : Service} {event : ServiceEvent}
    (move : ServiceMoves before event after) :
    ArmedByDevice ⟨before, event, after⟩ ↔ HandsToDevice ⟨before, event, after⟩ := by
  cases move with
  | commanded fd data past =>
      apply armedByDevice_iff_of_effect fd (raderCmd_effect _ _ _) rfl
      intro idle other payload
      rw [raderCmd_written_iff _ idle, bytesAt_recvArray]
      rfl
  | typed fd buf =>
      apply armedByDevice_iff_of_effect fd (raderCmdFromStdin_effect _ _) rfl
      intro idle other payload
      change fd = other ∧ _ ↔ _
      unfold raderCmdFromStdin
      split
      · rename_i clears
        simp [clears]
      · rename_i kept
        have forwards : (raderForward before.rader (stdinCommand buf)).2 = some (stdinCommand buf) := by
          rw [raderForward, if_pos idle]
        simp [kept, forwards]
  | received => exact armedByDevice_iff_of_calm (fun idle => raderRecv_idle idle _) (fun _ _ => id)
  | confirmed => exact armedByDevice_iff_of_calm (fun _ => rfl) (fun _ _ => id)
  | _ => exact armedByDevice_iff_of_calm id (fun _ _ => id)

/-- In every run the collections are armed by the device exactly when no arming command meets a closed one. -/
theorem serviceRun_armed_iff (netAddr : SockaddrIn) (udpport : BitVec 16) (outcomes : List Outcomes) :
    (∀ transition ∈ (serviceRun (serviceStart netAddr udpport) outcomes).trace, ArmedByDevice transition) ↔
      ∀ transition ∈ (serviceRun (serviceStart netAddr udpport) outcomes).trace,
        HandsToDevice transition := by
  have moves := (serviceRun_path (serviceStart netAddr udpport) outcomes).mem_moves
  constructor
  · intro armed transition member
    exact (armedByDevice_iff (moves transition member)).mp (armed transition member)
  · intro handed transition member
    exact (armedByDevice_iff (moves transition member)).mpr (handed transition member)

/-- The UART does not open, and a datagram carries the command `f`. -/
def closedUartOutcomes : List Outcomes :=
  [{ quietOutcomes with
      comOpen := -1
      readable := fun fd => fd == 5
      recvfrom := some (⟨0, 0, 0⟩, ⟨erupFrame 0 (stringBytes "f"), by decide⟩) }]

/-- The datagram arms a collection although the device never gets the command. -/
theorem serviceRun_arms_without_device :
    ¬∀ transition ∈ (serviceRun (serviceStart ⟨0, 0, 0⟩ 5000) closedUartOutcomes).trace,
      ArmedByDevice transition := by
  intro armed
  have wrong : ∃ transition ∈ (serviceRun (serviceStart ⟨0, 0, 0⟩ 5000) closedUartOutcomes).trace,
      transition.before.rader.raderDlen = 0 ∧ transition.after.rader.raderDlen ≠ 0 ∧
        transition.event.deviceWrite = some (-1, stringBytes "f") := by
    decide +kernel
  obtain ⟨transition, member, idle, busy, write⟩ := wrong
  obtain ⟨fd, payload, device, opened, _⟩ := armed transition member idle busy
  rw [write] at device
  cases device
  exact absurd opened (by decide)

end Psuart

import Psuart.Proof.Rader.FrameParser
import Psuart.Proof.Service.Delivery

namespace Psuart

/-- The source compares a typed command with `cls` without case. -/
theorem typed_clears_iff (buf : List Byte) :
    (buf.length ≥ 3 ∧ strcasecmp buf (stringBytes "cls") = 0) ↔
      (cString buf).map tolower = stringBytes "cls" := by
  have lower : (stringBytes "cls").map tolower = stringBytes "cls" := by decide
  have visible : (0 : Byte) ∉ cString buf := fun member => by simpa using List.mem_takeWhile_imp member
  rw [strcasecmp, cString_eq (by decide : (0 : Byte) ∉ stringBytes "cls"),
    compareLower_eq_zero visible (by decide), lower]
  constructor
  · exact fun both => both.2
  · intro same
    refine ⟨?_, same⟩
    have length := congrArg List.length same
    have shorter := (List.takeWhile_sublist (l := buf) (· ≠ (0 : Byte))).length_le
    rw [List.length_map] at length
    change (cString buf).length ≤ buf.length at shorter
    rw [length] at shorter
    exact shorter

theorem forward_both {s : Rader} {collector : Collector} (represents : s.Represents collector)
    (payload : List Byte) :
    (raderForward s payload).1.Represents (collector.forward payload).1 ∧
      (collector.forward payload).2.both = ((raderForward s payload).2, none) := by
  obtain ⟨related, same⟩ := raderForward_represents represents payload
  exact ⟨related, congrArg CollectorOutput.both same.symm⟩

theorem raderCmd_serves {s : Rader} {collector : Collector} (represents : s.Represents collector) (fd : Int)
    (data : ReadBytes) (past : Memory) (written : Option (List Byte)) :
    (raderCmd s (recvArray data.val past) data.val.length).state.Represents
        (collector.serve (.raderCmd fd data written)).1 ∧
      (collector.serve (.raderCmd fd data written)).2 =
        ((raderCmd s (recvArray data.val past) data.val.length).written, none) := by
  have bytes := bytesAt_recvArray data.val past
  cases found : carried data.val with
  | some payload =>
      have carries := carried_iff.mp found
      rw [← bytes] at carries
      simp only [Collector.serve, found, raderCmd_carries s _ _ _ carries]
      exact forward_both represents payload
  | none =>
      have rejected : ∀ payload, ¬Carries (bytesAt (recvArray data.val past) 0 data.val.length) payload := by
        intro payload carries
        rw [bytes] at carries
        rw [carried_iff.mpr carries] at found
        cases found
      simp only [Collector.serve, found, raderCmd_rejects s _ _ rejected]
      exact ⟨represents, trivial⟩

theorem raderCmdFromStdin_serves {s : Rader} {collector : Collector} (represents : s.Represents collector)
    (fd : Int) (buf : List Byte) (written : Option (List Byte)) :
    (raderCmdFromStdin s buf).state.Represents (collector.serve (.raderCmdFromStdin fd buf written)).1 ∧
      (collector.serve (.raderCmdFromStdin fd buf written)).2 = ((raderCmdFromStdin s buf).written, none) := by
  simp only [Collector.serve, Collector.typed, raderCmdFromStdin, typed_clears_iff]
  split
  · exact ⟨setRaderDlen_represents represents 0, rfl⟩
  · exact forward_both represents (stdinCommand buf)

/-- Every move of the service is a step of the gateway. -/
theorem serviceMoves_replay :
    Trace.Replays (fun s : Service => s.rader.Represents) ServiceMoves Collector.serve ServiceEvent.sent := by
  intro before event after collector represents move
  cases move with
  | received uartFd data accepted =>
      obtain ⟨related, same⟩ := raderRecv_represents represents data
      exact ⟨related, congrArg CollectorOutput.both same.symm⟩
  | commanded fd data past => exact raderCmd_serves represents fd data past _
  | typed fd buf => exact raderCmdFromStdin_serves represents fd buf _
  | confirmed => exact ⟨setRaderDlen_represents represents before.rader.rdaerCmdFlag, rfl⟩
  | unconfirmed fd ret failed =>
      simp only [Collector.serve, if_neg failed]
      exact ⟨represents, rfl⟩
  | _ => exact ⟨represents, rfl⟩

/-- In every run the commands to the UART and the packets to TCP are those of the gateway. -/
theorem serviceRun_refines_gateway (netAddr : SockaddrIn) (udpport : BitVec 16) (outcomes : List Outcomes) :
    let run := serviceRun (serviceStart netAddr udpport) outcomes
    run.state.rader.Represents (Machine.run Collector.serve .idle (Trace.events run.trace)) ∧
      Machine.outputs Collector.serve .idle (Trace.events run.trace) =
        (Trace.events run.trace).map ServiceEvent.sent := by
  have first : (serviceStart netAddr udpport).rader.Represents .idle := raderInit_rests
  exact (serviceRun_path _ outcomes).replays serviceMoves_replay first

end Psuart

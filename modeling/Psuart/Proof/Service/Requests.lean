import Psuart.Proof.Service.Gateway

namespace Psuart

/-- A forwarded command is a request, or it leaves the collector idle. -/
theorem raderForward_requests (s : Rader) (payload : List Byte) :
    (raderForward s payload).1.raderDlen ≠ 0 ↔
      (∃ command, (raderForward s payload).2 = some command ∧ raderDlenOf (raderFlag command) ≠ 0) ∨
        s.raderDlen ≠ 0 := by
  unfold raderForward
  split
  · rename_i idle
    simp [raderStart, idle]
  · simp

theorem raderCmd_forwards (s : Rader) (buf : Memory) (len : Nat) :
    ((raderCmd s buf len).state, (raderCmd s buf len).written) = (s, none) ∨
      ∃ payload, ((raderCmd s buf len).state, (raderCmd s buf len).written) = raderForward s payload := by
  by_cases carried : ∃ payload, Carries (bytesAt buf 0 len) payload
  · obtain ⟨payload, carries⟩ := carried
    rw [raderCmd_carries s buf len payload carries]
    exact Or.inr ⟨payload, rfl⟩
  · rw [raderCmd_rejects s buf len (not_exists.mp carried)]
    exact Or.inl rfl

/-- A chunk ends the wait exactly when it releases the packet. -/
theorem raderRecv_releases (s : Rader) (data : List Byte) :
    ((raderRecv s data).state.raderDlen ≠ 0 ↔ s.raderDlen ≠ 0 ∧ (raderRecv s data).written = none) ∧
      ((raderRecv s data).written ≠ none → s.raderDlen ≠ 0) := by
  unfold raderRecv
  by_cases armed : s.raderDlen > 0
  · have busy : s.raderDlen ≠ 0 := fun idle => by
      rw [idle] at armed
      exact absurd armed (by decide)
    simp only [if_pos armed]
    split
    · exact ⟨by simp, fun _ => busy⟩
    · simp
  · simp only [if_neg armed]
    simp

/-- A move leaves the collector busy exactly when a request is outstanding behind it. -/
theorem ServiceMoves.requests {before after : Service} {event : ServiceEvent}
    (move : ServiceMoves before event after) :
    after.rader.raderDlen ≠ 0 ↔
      Requests ⟨before, event, after⟩ ∨ (before.rader.raderDlen ≠ 0 ∧ ¬event.Releases) := by
  cases move with
  | received uartFd data =>
      have ends := (raderRecv_releases before.rader data.val).1
      simpa [Requests, ServiceEvent.forwarded, ServiceEvent.Releases] using ends
  | commanded fd data past =>
      simp only [Requests, ServiceEvent.forwarded, ServiceEvent.Releases, not_false_eq_true, and_true]
      rcases raderCmd_forwards before.rader (recvArray data.val past) data.val.length with refused | ⟨payload, same⟩
      · obtain ⟨state, written⟩ := Prod.mk.inj refused
        simp [state, written]
      · obtain ⟨state, written⟩ := Prod.mk.inj same
        rw [state, written]
        exact raderForward_requests before.rader payload
  | typed fd buf =>
      simp only [Requests, ServiceEvent.forwarded, ServiceEvent.Releases, raderCmdFromStdin, typed_clears_iff]
      by_cases clears : (cString buf).map tolower = stringBytes "cls"
      · simp [clears]
      · simp only [clears, if_false, not_false_eq_true, and_true]
        exact raderForward_requests before.rader (stdinCommand buf)
  | confirmed => simp [Requests, ServiceEvent.forwarded, ServiceEvent.Releases, setRaderDlen]
  | unconfirmed fd ret failed => simp [Requests, ServiceEvent.forwarded, ServiceEvent.Releases, failed]
  | _ => simp [Requests, ServiceEvent.forwarded, ServiceEvent.Releases, Service.setUartFd, Service.setTcpFd,
      Service.setUdpFd, Service.setNetAddr, Service.acquire, Service.release]

end Psuart

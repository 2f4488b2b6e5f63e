import Psuart.Proof.Rader.Acceptance
import Psuart.Proof.Service.Response

namespace Psuart

/-- The receive fails or delivers bytes without a command. -/
def RejectedDatagram (received : Option (SockaddrIn × ReadBytes)) : Prop :=
  ∀ source data, received = some (source, data) → ∀ payload, ¬Carries data.val payload

/-- The server address, the connection and the collector stay as they were. -/
structure KeepsService (before after : Service) : Prop where
  netAddr : after.psudata.netAddr = before.psudata.netAddr
  tcpFd : after.psudata.tcpFd = before.psudata.tcpFd
  tcpConnected : after.tcpConnected = before.tcpConnected
  rader : after.rader = before.rader

/-- The server already uses the datagram port, and a datagram comes from the server itself. -/
structure FromServer (s : Service) (received : Option (SockaddrIn × ReadBytes)) : Prop where
  port : s.psudata.netAddr.sinPort = htons s.psudata.udpport
  sender : ∀ source data, received = some (source, data) →
    source.sinFamily = s.psudata.netAddr.sinFamily ∧ source.sinAddr = s.psudata.netAddr.sinAddr

/-- The address that the branch stores before it looks at the datagram. -/
def storedAddr (s : Service) (received : Option (SockaddrIn × ReadBytes)) : SockaddrIn :=
  { received.elim s.psudata.netAddr Prod.fst with sinPort := htons s.psudata.udpport }

/-- A rejected datagram changes the server address and nothing else. -/
theorem udpReadable_rejected (o : Outcomes) (uartFd udpFd : Int) (w : ServiceWorld)
    (rejected : RejectedDatagram (readFd udpFd o.recvfrom)) :
    (udpReadable o uartFd udpFd w).state =
      w.state.setNetAddr (storedAddr w.state (readFd udpFd o.recvfrom)) := by
  simp only [udpReadable]
  cases received : readFd udpFd o.recvfrom with
  | none => rfl
  | some datagram =>
      obtain ⟨source, data⟩ := datagram
      have rejects (s : Rader) : raderCmd s (recvArray data.val o.past) data.val.length = ⟨s, none, 0⟩ := by
        apply raderCmd_rejects
        intro payload
        rw [bytesAt_recvArray]
        exact rejected source data received payload
      dsimp only
      split
      · simp only [udpCommand, callRaderCmd, rejects]
        rfl
      · rfl

theorem storedAddr_eq_iff (s : Service) (received : Option (SockaddrIn × ReadBytes)) :
    storedAddr s received = s.psudata.netAddr ↔ FromServer s received := by
  rcases s with ⟨⟨⟨family, port, addr⟩, _, _, _, udpport⟩, _, _, _⟩
  cases received with
  | none =>
      constructor
      · intro same
        exact ⟨(congrArg SockaddrIn.sinPort same).symm, fun _ _ equal => by cases equal⟩
      · intro server
        have same : port = htons udpport := server.port
        rw [same]
        rfl
  | some datagram =>
      obtain ⟨source, data⟩ := datagram
      constructor
      · intro same
        refine ⟨(congrArg SockaddrIn.sinPort same).symm, ?_⟩
        intro other bytes equal
        cases equal
        have families := congrArg SockaddrIn.sinFamily same
        have addrs := congrArg SockaddrIn.sinAddr same
        exact ⟨families, addrs⟩
      · intro server
        have same : port = htons udpport := server.port
        obtain ⟨families, addrs⟩ := server.sender source data rfl
        change (⟨source.sinFamily, htons udpport, source.sinAddr⟩ : SockaddrIn) = _
        rw [families, addrs, same]

/-- A rejected datagram changes nothing exactly when the stored address is the server's own. -/
theorem udpReadable_keeps_iff (o : Outcomes) (uartFd udpFd : Int) (w : ServiceWorld)
    (rejected : RejectedDatagram (readFd udpFd o.recvfrom)) :
    KeepsService w.state (udpReadable o uartFd udpFd w).state ↔
      FromServer w.state (readFd udpFd o.recvfrom) := by
  rw [udpReadable_rejected o uartFd udpFd w rejected, ← storedAddr_eq_iff]
  constructor
  · exact fun keeps => keeps.netAddr
  · exact fun same => ⟨same, rfl, rfl, rfl⟩

/-- The service knows its server under the port of the datagrams. -/
def knownServer : ServiceWorld := ⟨serviceStart ⟨2, htons 5000, 0x640A0A0A⟩ 5000, []⟩

/-- The server sends a byte that is no command. -/
def serverOutcomes : Outcomes :=
  { quietOutcomes with recvfrom := some (⟨2, 0, 0x640A0A0A⟩, ⟨[1], by decide⟩) }

/-- Another host sends the byte. -/
def strangerOutcomes : Outcomes :=
  { quietOutcomes with recvfrom := some (⟨2, 0, 0x01010101⟩, ⟨[1], by decide⟩) }

/-- One byte is no frame. -/
theorem not_carries_byte (payload : List Byte) : ¬Carries [1] payload := by
  rintro ⟨_, front, flag, back, _, equal⟩
  have lengths := congrArg List.length equal
  rw [List.length_append, List.length_append, erupFrame_length, List.length_singleton] at lengths
  omega

theorem serverOutcomes_rejected : RejectedDatagram (readFd 5 serverOutcomes.recvfrom) := by
  intro source data equal
  cases equal
  exact not_carries_byte

theorem strangerOutcomes_rejected : RejectedDatagram (readFd 5 strangerOutcomes.recvfrom) := by
  intro source data equal
  cases equal
  exact not_carries_byte

/-- The server's own junk changes nothing. -/
theorem udpReadable_keeps_server :
    KeepsService knownServer.state (udpReadable serverOutcomes 3 5 knownServer).state :=
  (udpReadable_keeps_iff serverOutcomes 3 5 knownServer serverOutcomes_rejected).mpr
    ⟨rfl, fun source data equal => by cases equal; exact ⟨rfl, rfl⟩⟩

/-- A byte from another host redirects the next connection, and a failed receive replaces the port. -/
theorem udpReadable_redirects :
    (RejectedDatagram (readFd 5 strangerOutcomes.recvfrom) ∧
      ¬KeepsService knownServer.state (udpReadable strangerOutcomes 3 5 knownServer).state) ∧
    ¬KeepsService (serviceStart ⟨2, htons 6000, 0x640A0A0A⟩ 5000)
      (udpReadable quietOutcomes 3 5 ⟨serviceStart ⟨2, htons 6000, 0x640A0A0A⟩ 5000, []⟩).state := by
  refine ⟨⟨strangerOutcomes_rejected, ?_⟩, ?_⟩
  · intro keeps
    exact absurd (congrArg SockaddrIn.sinAddr keeps.netAddr) (by decide)
  · intro keeps
    exact absurd (congrArg SockaddrIn.sinPort keeps.netAddr) (by decide)

end Psuart

import Psuart.Spec.Ownership

namespace Psuart

/-- The call of `select` in one iteration waits on the standard input and on each open descriptor once. -/
structure WaitsOnHeld (s : Service) (uartFd tcpFd udpFd : Int) : Prop where
  watched : (watchedReads s uartFd tcpFd udpFd ++ watchedWrites s tcpFd).Perm (0 :: s.held)
  covered : ∀ fd ∈ watchedReads s uartFd tcpFd udpFd ++ watchedWrites s tcpFd,
    0 ≤ fd ∧ fd < selectNfds tcpFd udpFd uartFd

/-- Every descriptor of the call is open, and a TCP socket is waited on for data only behind its confirmation. -/
structure WaitSound (w : ServiceWorld) (uartFd tcpFd udpFd : Int) : Prop where
  held : WaitsOnHeld w.state uartFd tcpFd udpFd
  opened : ∀ fd ∈ watchedReads w.state uartFd tcpFd udpFd ++ watchedWrites w.state tcpFd, fd ∈ w.state.openFds
  confirmed : 0 < tcpFd → tcpFd ∉ watchedWrites w.state tcpFd → Confirmed tcpFd w.trace

end Psuart

import Psuart.Model.Process
import Psuart.Spec.Response

namespace Psuart

/-- The descriptors that the fields of the configuration hold. -/
def Service.held (s : Service) : List Int :=
  [s.psudata.uartFd, s.psudata.tcpFd, s.psudata.udpFd].filter (0 < ·)

/-- The descriptors behind the standard input that the system holds open. -/
def Service.positiveFds (s : Service) : List Int := s.openFds.filter (0 < ·)

/-- Every open descriptor is held by one field or is a standard one, and no descriptor is open twice. -/
structure Service.Owns (s : Service) : Prop where
  once : s.openFds.Nodup
  exact : s.positiveFds.Perm (s.held ++ [1, 2])

/-- A transition leaks nothing, closes only a held descriptor, and may be followed by the end of the process. -/
structure OwnershipKept (transition : ServiceTransition) : Prop where
  before : transition.before.Owns
  after : transition.after.Owns
  closes : ∀ fd, transition.event = .close fd → 0 < fd →
    fd ∈ transition.before.held ∧ fd ∉ transition.after.openFds
  ends : ∀ signNo past, (signalFunc signNo ⟨transition.after, past⟩).state.positiveFds.Perm [1, 2]

end Psuart

import Psuart.Model.ServiceAccess
import Psuart.Spec.Teardown

namespace Psuart

/-- A test has a valid index, and its branch is entered only for an open descriptor. -/
structure FdTest.Safe (test : FdTest) : Prop where
  index : 0 ≤ test.fd
  opened : test.entered = true → test.fd ∈ test.state.openFds

def TestsSafely (o : Outcomes) (w : ServiceWorld) : Prop :=
  ∀ test ∈ waitMessageAndHandleTests o w, test.Safe

/-- The UART is open, or it is opened in this iteration. -/
def UartOpens (o : Outcomes) (s : Service) : Prop := 0 < s.psudata.uartFd ∨ 0 < o.comOpen

/-- The socket is open, or it is created in this iteration and its connection does not fail at once. -/
def TcpOpens (o : Outcomes) (s : Service) : Prop :=
  0 < s.psudata.tcpFd ∨ 0 < o.tcpSocket ∧ o.connect ≠ .failed

/-- The socket is open, or it is created and bound in this iteration. -/
def UdpOpens (o : Outcomes) (s : Service) : Prop := 0 < s.psudata.udpFd ∨ 0 < o.udpSocket ∧ o.bind = true

/-- All three descriptors are open behind the opening functions, or the iteration stops there. -/
def OpensForTests (o : Outcomes) (s : Service) : Prop :=
  UartOpens o s ∧ TcpOpens o s ∧ UdpOpens o s ∨ ¬UartOpens o s ∧ ¬UdpOpens o s

/-- The test that a transition logs, with the state of its moment. -/
def loggedTest (transition : ServiceTransition) : Option (Int × Service) :=
  match transition.event with
  | .fdIsset fd => some (fd, transition.before)
  | _ => none

end Psuart

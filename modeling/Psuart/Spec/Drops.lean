import Psuart.Spec.Teardown

namespace Psuart

/-- The three descriptors of the configuration. -/
inductive Descriptor where
  | uart
  | tcp
  | udp
  deriving DecidableEq

def Service.descriptor (s : Service) : Descriptor → Int
  | .uart => s.psudata.uartFd
  | .tcp => s.psudata.tcpFd
  | .udp => s.psudata.udpFd

/-- A failed `select` leaves the descriptor in its set. -/
def Outcomes.Fails (o : Outcomes) (fd : Int) : Prop := o.select ≤ 0 ∧ o.readable fd = true

/-- The pending connection becomes writable with an error. -/
def Outcomes.Refuses (o : Outcomes) (s : Service) : Prop :=
  s.tcpConnected = 0 ∧ o.writable s.psudata.tcpFd = true ∧ o.getsockopt ≠ some 0

/-- A datagram carries the close command. -/
def Outcomes.Closes (o : Outcomes) : Prop :=
  ∃ source data payload, o.recvfrom = some (source, data) ∧ Carries data.val payload ∧ raderCloses payload = true

/-- The open UDP socket receives the close command. -/
def Outcomes.Orders (o : Outcomes) (s : Service) : Prop :=
  0 < s.psudata.udpFd ∧ o.readable s.psudata.udpFd = true ∧ o.Closes

/-- The reasons to give up a descriptor. Without a UART and a UDP socket the iteration does not reach `select`. -/
def Outcomes.Drops (o : Outcomes) (s : Service) : Descriptor → Prop
  | .uart => o.Fails s.psudata.uartFd
  | .udp => o.Fails s.psudata.udpFd
  | .tcp => (0 < s.psudata.uartFd ∨ 0 < s.psudata.udpFd) ∧
      ((s.tcpConnected = 1 ∧ o.Fails s.psudata.tcpFd) ∨ (0 < o.select ∧ (o.Refuses s ∨ o.Orders s)))

/-- The iteration keeps an open descriptor or resets it, and it resets it only for a reason. -/
structure KeepsOrDrops (o : Outcomes) (s after : Service) (d : Descriptor) : Prop where
  dropped : o.Drops s d → after.descriptor d = 0
  kept : ¬o.Drops s d → after.descriptor d = s.descriptor d

end Psuart

import Psuart.Spec.Response

namespace Psuart

/-- A TCP read without bytes reports that the peer closed the connection. -/
def ServiceEvent.ends : ServiceEvent → Option Int
  | .tcpRead fd (some data) => if 0 < fd ∧ data.val = [] then some fd else none
  | _ => none

/-- The TCP descriptor that the event waits on, reads or writes. -/
def ServiceEvent.tcpUse : ServiceEvent → Option Int
  | .select tcpFd _ _ => some tcpFd
  | .raderRecv _ tcpFd _ _ _ => some tcpFd
  | .tcpRead tcpFd _ => some tcpFd
  | _ => none

/-- The event receives a datagram with the close command. -/
def ServiceEvent.ReceivesClose : ServiceEvent → Prop
  | .recvfrom udpFd (some data) =>
      0 < udpFd ∧ ∃ payload, Carries data.val payload ∧ raderCloses payload = true
  | _ => False

/-- The transitions of one iteration. -/
def iterationTrace (o : Outcomes) (w : ServiceWorld) : List ServiceTransition :=
  (waitMessageAndHandle o w).1.trace.drop w.trace.length

/-- The iteration that reads the end of a connection closes it and clears its descriptor. -/
def NoticesEnd (o : Outcomes) (w : ServiceWorld) : Prop :=
  ∀ fd front reading back, iterationTrace o w = front ++ reading :: back →
    reading.event.ends = some fd →
      (∃ transition ∈ back, transition.event = .close fd ∧ transition.after.psudata.tcpFd = 0) ∧
        (waitMessageAndHandle o w).1.state.psudata.tcpFd = 0

/-- The iteration that reads the end of a connection receives a close command behind the read. -/
def EndsWithClose (o : Outcomes) (w : ServiceWorld) : Prop :=
  ∀ fd front reading back, iterationTrace o w = front ++ reading :: back →
    reading.event.ends = some fd → ∃ transition ∈ back, transition.event.ReceivesClose

/-- The socket was opened, and no read reported the end of the connection since. -/
def Live (fd : Int) : List ServiceTransition → Prop :=
  Trace.Since (fun _ opening => opening.event.socket = some fd) fun transition =>
    transition.event.ends = none

/-- The service waits on, reads and writes only live connections. -/
def UsesLive (past : List ServiceTransition) (transition : ServiceTransition) : Prop :=
  ∀ fd, transition.event.tcpUse = some fd → 0 < fd → Live fd past

end Psuart

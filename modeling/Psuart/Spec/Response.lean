import Psuart.Model.Service
import Psuart.Spec.Frame

namespace Psuart

abbrev ServiceTransition := Trace.Transition Service ServiceEvent

/-- The descriptor that the system hands out at the event. -/
def ServiceEvent.opened : ServiceEvent → Option Int
  | .uartOpen fd => if 0 < fd then some fd else none
  | .tcpSocket fd => if fd ≠ -1 then some fd else none
  | .udpSocket fd => if fd ≠ -1 then some fd else none
  | _ => none

/-- The system never hands out a descriptor that is still open. -/
def FreshTrace (trace : List ServiceTransition) : Prop :=
  ∀ transition ∈ trace, ∀ fd ∈ transition.event.opened, fd ∉ transition.before.openFds

instance (trace : List ServiceTransition) : Decidable (FreshTrace trace) :=
  inferInstanceAs (Decidable (∀ _ ∈ trace, _))

/-- The result of the call of `socket` for a TCP connection. -/
def ServiceEvent.socket : ServiceEvent → Option Int
  | .tcpSocket fd => some fd
  | _ => none

/-- The bytes that the event reads from the UART. -/
def ServiceEvent.uartBytes : ServiceEvent → List Byte
  | .uartRead _ (some data) => data.val
  | .raderRecv _ _ data _ _ => data.val
  | _ => []

/-- The packet that the event writes to the TCP descriptor. -/
def ServiceEvent.packet (fd : Int) : ServiceEvent → List Byte
  | .raderRecv _ tcpFd _ (some packet) _ => if tcpFd = fd then packet else []
  | _ => []

/-- The bytes of the packet that the TCP descriptor accepts. -/
def ServiceEvent.accepted (fd : Int) : ServiceEvent → List Byte
  | .raderRecv _ tcpFd _ _ accepted => if tcpFd = fd then accepted else []
  | _ => []

/-- The command that the event writes to the UART. -/
def ServiceEvent.forwarded : ServiceEvent → Option (List Byte)
  | .raderCmd _ _ written => written
  | .raderCmdFromStdin _ _ written => written
  | _ => none

/-- The transition neither closes nor replaces the socket. -/
structure KeepsSocket (fd : Int) (transition : ServiceTransition) : Prop where
  held : transition.after.psudata.tcpFd = fd
  alive : transition.event ≠ .close fd
  same : transition.event.socket = none

/-- The socket was opened and is still the socket of the service. -/
def Opened (fd : Int) : List ServiceTransition → Prop :=
  Trace.Since (fun _ opening => opening.event.socket = some fd) (KeepsSocket fd)

/-- The status of the socket was zero since it was opened. -/
def Confirmed (fd : Int) : List ServiceTransition → Prop :=
  Trace.Since (fun past status => Opened fd past ∧ status.event = .tcpStatus fd 0 ∧ KeepsSocket fd status)
    (KeepsSocket fd)

/-- The command is forwarded from the idle state over a confirmed connection. -/
structure Arms (fd : Int) (payload : List Byte) (past : List ServiceTransition)
    (arming : ServiceTransition) : Prop where
  confirmed : Confirmed fd past
  idle : arming.before.rader.raderDlen = 0
  forwarded : arming.event.forwarded = some payload
  armed : arming.after.rader.raderDlen = raderDlenOf (raderFlag payload)
  keeps : KeepsSocket fd arming

/-- The transition keeps the connection and the collection of the command. -/
structure KeepsCollection (fd : Int) (payload : List Byte) (transition : ServiceTransition) : Prop where
  socket : KeepsSocket fd transition
  length : transition.after.rader.raderDlen = raderDlenOf (raderFlag payload)

/-- The UART delivered these bytes since the command armed the collection. -/
def Response (fd : Int) (payload : List Byte) : List ServiceTransition → List Byte → Prop :=
  Trace.Collected (Arms fd payload) (KeepsCollection fd payload) fun transition =>
    transition.event.uartBytes

/-- A packet goes to the confirmed socket and carries the first bytes of the response. -/
def PacketSound (past : List ServiceTransition) (transition : ServiceTransition) : Prop :=
  ∀ uartFd fd data packet accepted,
    transition.event = .raderRecv uartFd fd data (some packet) accepted →
      0 < fd ∧ transition.before.psudata.tcpFd = fd ∧ Confirmed fd past ∧
        ∃ payload received, Response fd payload past received ∧
          transition.before.rader.raderDlen = raderDlenOf (raderFlag payload) ∧
          (raderDlenOf (raderFlag payload)).toNat ≤ (received ++ data.val).length ∧
          packet = erupFrame (raderFlag payload)
            ((received ++ data.val).take (raderDlenOf (raderFlag payload)).toNat)

/-- The connection follows the opening of its socket and contains no other opening. -/
def Connection (fd : Int) (trace connection : List ServiceTransition) : Prop :=
  ∃ past opening future, trace = past ++ opening :: connection ++ future ∧
    opening.event.socket = some fd ∧ ∀ transition ∈ connection, transition.event.socket = none

end Psuart

import Psuart.Spec.Response

namespace Psuart

/-- The command that the event writes, with the descriptor of the device. -/
def ServiceEvent.deviceWrite : ServiceEvent → Option (Int × List Byte)
  | .raderCmd fd _ written => written.map fun payload => (fd, payload)
  | .raderCmdFromStdin fd _ written => written.map fun payload => (fd, payload)
  | _ => none

/-- A collection is armed only by a command that is written to an open device. -/
def ArmedByDevice (transition : ServiceTransition) : Prop :=
  transition.before.rader.raderDlen = 0 → transition.after.rader.raderDlen ≠ 0 →
    ∃ fd payload, transition.event.deviceWrite = some (fd, payload) ∧ 0 < fd ∧
      transition.after.rader.raderDlen = raderDlenOf (raderFlag payload)

/-- The event hands the command of its input over for the descriptor. -/
def ServiceEvent.Hands (fd : Int) (payload : List Byte) : ServiceEvent → Prop
  | .raderCmd uartFd data _ => uartFd = fd ∧ Carries data.val payload
  | .raderCmdFromStdin uartFd buf _ =>
      uartFd = fd ∧ ¬(buf.length ≥ 3 ∧ strcasecmp buf (stringBytes "cls") = 0) ∧
        stdinCommand buf = payload
  | _ => False

/-- No response belongs to a command that an idle collector takes without an open device. -/
def HandsToDevice (transition : ServiceTransition) : Prop :=
  transition.before.rader.raderDlen = 0 →
    ∀ fd payload, transition.event.Hands fd payload → fd ≤ 0 → raderDlenOf (raderFlag payload) = 0

end Psuart

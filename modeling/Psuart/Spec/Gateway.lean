import Psuart.Library.Replay
import Psuart.Spec.Collector
import Psuart.Spec.Response

namespace Psuart

/-- A receiver takes one whole frame from the front of a stream. -/
def parseFrame (stream : List Byte) : Option ((Byte × List Byte) × List Byte) :=
  match stream with
  | first :: high :: low :: flag :: rest =>
      let length := 256 * high.toNat + low.toNat
      match rest.drop length with
      | crc :: last :: back =>
          if first = erupBegin ∧ crc = crc8 (rest.take length) ∧ last = erupEnd then
            some ((flag, rest.take length), back)
          else none
      | _ => none
  | _ => none

/-- The command of a buffer is the payload of the frame at its first start marker. -/
def carried (data : List Byte) : Option (List Byte) :=
  (parseFrame (data.dropWhile (· ≠ erupBegin))).map fun parsed => parsed.1.2

/-- The bytes to the UART and the bytes to TCP. -/
abbrev GatewayOutput := Option (List Byte) × Option (List Byte)

def CollectorOutput.both (output : CollectorOutput) : GatewayOutput := (output.uart, output.tcp)

/-- A typed command clears the collector or is forwarded. -/
def Collector.typed (buf : List Byte) (collector : Collector) : Collector × CollectorOutput :=
  if (cString buf).map tolower = stringBytes "cls" then (.idle, .silent)
  else collector.forward (stdinCommand buf)

/-- The gateway reads only the inputs of an event. A confirmed connection starts with an idle collector. -/
def Collector.serve (collector : Collector) : ServiceEvent → Collector × GatewayOutput
  | .raderCmd _ data _ =>
      match carried data.val with
      | some payload => (collector.forward payload).map id CollectorOutput.both
      | none => (collector, none, none)
  | .raderCmdFromStdin _ buf _ => (collector.typed buf).map id CollectorOutput.both
  | .raderRecv _ _ data _ _ => (collector.collect data.val).map id CollectorOutput.both
  | .tcpStatus _ ret => (if ret = 0 then .idle else collector, none, none)
  | _ => (collector, none, none)

/-- The bytes that the service wrote at an event. -/
def ServiceEvent.sent : ServiceEvent → GatewayOutput
  | .raderCmd _ _ written => (written, none)
  | .raderCmdFromStdin _ _ written => (written, none)
  | .raderRecv _ _ _ packet _ => (none, packet)
  | _ => (none, none)

/-- A transition forwards a command with a response. -/
def Requests (transition : ServiceTransition) : Prop :=
  ∃ payload, transition.event.forwarded = some payload ∧ raderDlenOf (raderFlag payload) ≠ 0

/-- A packet, a confirmed connection or a typed `cls` ends the wait for a response. -/
def ServiceEvent.Releases : ServiceEvent → Prop
  | .raderRecv _ _ _ packet _ => packet ≠ none
  | .tcpStatus _ ret => ret = 0
  | .raderCmdFromStdin _ buf _ => (cString buf).map tolower = stringBytes "cls"
  | _ => False

end Psuart

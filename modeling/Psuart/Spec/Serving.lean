import Psuart.Spec.Gateway

namespace Psuart

/-- The bytes that the event hands to `write`, with their descriptor. -/
def ServiceEvent.writes : ServiceEvent → List (Int × List Byte)
  | .raderCmd fd _ (some bytes) => [(fd, bytes)]
  | .raderCmdFromStdin fd _ (some bytes) => [(fd, bytes)]
  | .raderRecv _ fd _ (some packet) _ => [(fd, packet)]
  | _ => []

def writesOf (trace : List ServiceTransition) : List (Int × List Byte) :=
  trace.flatMap fun transition => transition.event.writes

/-- Only the descriptor is readable. -/
structure Outcomes.Finds (o : Outcomes) (fd : Int) : Prop where
  select : 0 < o.select
  readable : ∀ other, o.readable other = decide (other = fd)

/-- The bytes that the UART delivers. -/
def Outcomes.chunk (o : Outcomes) : List Byte := (o.uartRead.map Subtype.val).getD []

/-- The UART delivers a response in pieces, and the last one completes it. -/
structure Reply where
  pieces : List Outcomes
  last : Outcomes

def Reply.outcomes (reply : Reply) : List Outcomes := reply.pieces ++ [reply.last]

def Reply.bytes (reply : Reply) : List Byte := reply.outcomes.flatMap Outcomes.chunk

structure Reply.Completes (reply : Reply) (fd : Int) (need : Nat) : Prop where
  finds : ∀ o ∈ reply.outcomes, o.Finds fd ∧ o.chunk ≠ []
  partly : (reply.pieces.flatMap Outcomes.chunk).length < need
  whole : need ≤ reply.bytes.length

/-- The packet carries the first bytes of the response. -/
def Reply.packet (reply : Reply) (flag : Byte) : List Byte :=
  erupFrame flag (reply.bytes.take (raderDlenOf flag).toNat)

/-- The server sends a command, the device responds, and a scan follows a status. -/
structure Exchange where
  payload : List Byte
  request : Outcomes
  reply : Reply
  scan : Reply

def Exchange.flag (exchange : Exchange) : Byte := raderFlag exchange.payload

def Exchange.outcomes (exchange : Exchange) : List Outcomes :=
  exchange.request :: exchange.reply.outcomes ++
    if exchange.flag = dataFlagS then exchange.scan.outcomes else []

/-- The command goes to the UART and each response to TCP. -/
def Exchange.writes (uartFd tcpFd : Int) (exchange : Exchange) : List (Int × List Byte) :=
  [(uartFd, exchange.payload), (tcpFd, exchange.reply.packet exchange.flag)] ++
    if exchange.flag = dataFlagS then
      [(uartFd, stringBytes "F"), (tcpFd, exchange.scan.packet dataFlagF)]
    else []

/-- The command arrives on the socket, and the UART delivers whole responses. -/
structure Exchange.Fits (exchange : Exchange) (uartFd tcpFd : Int) : Prop where
  finds : exchange.request.Finds tcpFd
  request : ∃ data, exchange.request.tcpRead = some data ∧ carried data.val = some exchange.payload
  reply : exchange.reply.Completes uartFd (raderDlenOf exchange.flag).toNat
  scan : exchange.flag = dataFlagS → exchange.scan.Completes uartFd (raderDlenOf dataFlagF).toNat

end Psuart

import Psuart.Spec.Frame

namespace Psuart

/-- The abstract collector is idle or collects the response to one command. -/
inductive Collector where
  | idle
  | collecting (flag : Byte) (need : Nat) (acc : List Byte)

/-- A framed command is a valid frame behind bytes without a start marker. -/
structure FramedCommand where
  front : List Byte
  flag : Byte
  payload : List Byte
  back : List Byte
  absent : erupBegin ∉ front
  short : payload.length < 2 ^ 16

def FramedCommand.bytes (command : FramedCommand) : List Byte :=
  command.front ++ erupFrame command.flag command.payload ++ command.back

/-- A token from the standard input is a C string without a hexadecimal prefix. -/
structure StdinToken where
  bytes : List Byte
  terminated : 0 ∉ bytes
  plain : ¬∃ rest, bytes = charByte '0' :: charByte 'x' :: rest ∨ bytes = charByte '0' :: charByte 'X' :: rest

/-- The collector receives commands, tokens, chunks of the UART and its reset. -/
inductive CollectorEvent where
  | command (command : FramedCommand) (past : Memory)
  | token (token : StdinToken)
  | chunk (bytes : ReadBytes)
  | disarm

/-- Each event reports the bytes to the UART, the bytes to TCP and the result of `rader_recv`. -/
structure CollectorOutput where
  uart : Option (List Byte)
  tcp : Option (List Byte)
  ret : Byte

def CollectorOutput.silent : CollectorOutput := ⟨none, none, 0⟩

/-- A forwarded command decides how many bytes are collected. -/
def Collector.start (payload : List Byte) : Collector :=
  let flag := raderFlag payload
  if 0 < (raderDlenOf flag).toNat then .collecting flag (raderDlenOf flag).toNat [] else .idle

/-- Only an idle collector forwards a command. -/
def Collector.forward (payload : List Byte) : Collector → Collector × CollectorOutput
  | .idle => (.start payload, ⟨some payload, none, 0⟩)
  | busy => (busy, .silent)

/-- The last needed byte releases one packet, and the surplus is dropped. -/
def Collector.collect (bytes : List Byte) : Collector → Collector × CollectorOutput
  | .idle => (.idle, .silent)
  | .collecting flag need acc =>
      if need ≤ (acc ++ bytes).length then
        (.idle, ⟨none, some (erupFrame flag ((acc ++ bytes).take need)),
          if flag = dataFlagS then dataFlagS else 0⟩)
      else (.collecting flag need (acc ++ bytes), .silent)

/-- The token `cls` is read without case. -/
def StdinToken.clears (token : StdinToken) : Prop :=
  token.bytes.map tolower = stringBytes "cls"

instance (token : StdinToken) : Decidable token.clears :=
  inferInstanceAs (Decidable (_ = _))

def Collector.step (collector : Collector) : CollectorEvent → Collector × CollectorOutput
  | .command command _ => collector.forward command.payload
  | .token token => if token.clears then (.idle, .silent) else collector.forward token.bytes
  | .chunk bytes => collector.collect bytes.val
  | .disarm => (.idle, .silent)

/-- The packets to TCP in the order of the events. -/
def CollectorOutput.packets (outputs : List CollectorOutput) : List (List Byte) :=
  outputs.flatMap fun output => output.tcp.toList

@[simp] theorem CollectorOutput.packets_cons (output : CollectorOutput) (outputs : List CollectorOutput) :
    packets (output :: outputs) = output.tcp.toList ++ packets outputs := by
  simp [packets]

/-- A collecting state still waits for bytes. -/
def Collector.Partly : Collector → Prop
  | .idle => True
  | .collecting _ need acc => acc.length < need

/-- A response of any length releases at most one packet. -/
def Collector.released (response : List Byte) : Collector → List (List Byte)
  | .idle => []
  | .collecting flag need acc =>
      if need ≤ (acc ++ response).length then [erupFrame flag ((acc ++ response).take need)] else []

end Psuart

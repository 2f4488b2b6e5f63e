import Psuart.Model.ComPort
import Psuart.Spec.Arguments

namespace Psuart

def Baud.number : Baud → Nat
  | .b300 => 300
  | .b1200 => 1200
  | .b2400 => 2400
  | .b4800 => 4800
  | .b9600 => 9600
  | .b19200 => 19200
  | .b38400 => 38400
  | .b115200 => 115200
  | .other code => code

/-- The settings of a serial line that the library supports. -/
structure LineSettings where
  com : List Byte
  speed : Baud
  parity : Byte
  stopbits : Nat
  databits : Nat
  path : com ≠ [] ∧ charByte ',' ∉ com ∧ 0 ∉ com ∧ com.length ≤ 511
  listed : speed ∈ speedArr
  checked : parity = charByte 'n' ∨ parity = charByte 'N' ∨ parity = charByte 'E'
  stops : stopbits = 1 ∨ stopbits = 2
  sized : databits = 7 ∨ databits = 8

namespace LineSettings

variable (settings : LineSettings)

/-- The parameters of `com_open` in their order. -/
def fields : List (List Byte) :=
  [settings.com, decimal settings.speed.number, [settings.parity], decimal settings.stopbits,
    decimal settings.databits]

def defaultFields : List (List Byte) :=
  [comPortDefault.com, comPortDefault.s, comPortDefault.p, comPortDefault.b, comPortDefault.d]

/-- The string of the port leaves out the fields behind a number. -/
def text (count : Nat) : List Byte := joinFields (charByte ',') (settings.fields.take count)

/-- The omitted fields are the defaults. -/
def Omits (count : Nat) : Prop := settings.fields.drop count = defaultFields.drop count

/-- The terminal has the frame of the settings, and its modes and its waiting are those that `setRaw` sets. -/
structure Framed (tty : Termios) : Prop where
  csize : tty.csize = if settings.databits = 7 then .cs7 else .cs8
  parenb : tty.parenb = decide (settings.parity = charByte 'E')
  parodd : settings.parity = charByte 'E' → tty.parodd = false
  cstopb : tty.cstopb = decide (settings.stopbits = 2)
  raw : setRaw tty = tty

/-- The terminal has both speeds of the settings. -/
def Clocked (tty : Termios) : Prop := tty.ispeed = settings.speed ∧ tty.ospeed = settings.speed

end LineSettings

/-- The iteration takes this result of `com_open` for its own. -/
def withComOpen (step : Outcomes × ComCalls) (fd : Int) : Outcomes := { step.1 with comOpen := fd }

/-- What a run has reached: a run of the service with the results of `com_open` whose open UART has the settings. -/
structure PortConfigured (settings : LineSettings) (start : Service) (attributes : List Byte → Termios)
    (steps : List (Outcomes × ComCalls)) (state : ServiceWorld × ComWorld) : Prop where
  service : ∃ fds : List Int, fds.length = steps.length ∧
    state.1 = serviceRun start (List.zipWith withComOpen steps fds)
  framed : 0 < state.1.state.psudata.uartFd → settings.Framed (state.2.attributes settings.com)
  clocked : (∀ step ∈ steps, step.2.getSpeed = true ∧ step.2.setSpeed = true) →
    0 < state.1.state.psudata.uartFd → settings.Clocked (state.2.attributes settings.com)
  others : ∀ path, path ≠ settings.com → state.2.attributes path = attributes path

/-- All calls on the terminal succeed. -/
def ComCalls.Done (calls : ComCalls) : Prop :=
  calls.getSpeed = true ∧ calls.setSpeed = true ∧ calls.getParity = true ∧ calls.setParity = true

end Psuart

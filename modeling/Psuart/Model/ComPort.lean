import Psuart.Model.Arguments
import Psuart.Model.Service

namespace Psuart

/-- The speeds of `speed_arr`, and the ones that the source does not use. -/
inductive Baud where
  | b300
  | b1200
  | b2400
  | b4800
  | b9600
  | b19200
  | b38400
  | b115200
  | other (code : Nat)
  deriving DecidableEq

/-- The field `CSIZE` of the control flags. -/
inductive CharSize where
  | cs5
  | cs6
  | cs7
  | cs8
  deriving DecidableEq

/-- The attributes of a terminal that the library sets. -/
structure Termios where
  csize : CharSize
  parenb : Bool
  parodd : Bool
  cstopb : Bool
  brkint : Bool
  icrnl : Bool
  inpck : Bool
  istrip : Bool
  ixon : Bool
  opost : Bool
  icanon : Bool
  echo : Bool
  echoe : Bool
  isig : Bool
  iexten : Bool
  vtime : Byte
  vmin : Byte
  ispeed : Baud
  ospeed : Baud
  deriving DecidableEq

/-- The results of the system calls of `com_open`. The array `Opt` on the stack has unknown contents. -/
structure ComCalls where
  openDev : List Byte → Int
  getSpeed : Bool
  setSpeed : Bool
  getParity : Bool
  setParity : Bool
  opt : Termios

def speedArr : List Baud :=
  [.b115200, .b38400, .b19200, .b9600, .b4800, .b2400, .b1200, .b300, .b38400, .b19200, .b9600, .b4800,
    .b2400, .b1200, .b300]

def nameArr : List CInt :=
  [115200, 38400, 19200, 9600, 4800, 2400, 1200, 300, 38400, 19200, 9600, 4800, 2400, 1200, 300]

/-- An unknown speed changes nothing, and failed calls are only reported. -/
def comSetSpeed (calls : ComCalls) (fd : Int) (speed : CInt) (tty : Termios) : Termios :=
  if fd ≤ 0 then tty
  else
    let opt := if calls.getSpeed then tty else calls.opt
    match (nameArr.zip speedArr).find? fun entry => speed = entry.1 with
    | some entry => if calls.setSpeed then { opt with ispeed := entry.2, ospeed := entry.2 } else tty
    | none => tty

def setDataBits (databits : CInt) (options : Termios) : Option Termios :=
  if databits = 7 then some { options with csize := .cs7 }
  else if databits = 8 then some { options with csize := .cs8 }
  else none

def setParityFlags (parity : Byte) (options : Termios) : Option Termios :=
  if parity = charByte 'n' ∨ parity = charByte 'N' then some { options with parenb := false, inpck := false }
  else if parity = charByte 'E' then some { options with parenb := true, parodd := false, inpck := true }
  else none

def setStopBits (stopbits : CInt) (options : Termios) : Option Termios :=
  if stopbits = 1 then some { options with cstopb := false }
  else if stopbits = 2 then some { options with cstopb := true }
  else none

/-- The flag `INPCK` is cleared behind both kinds of parity. -/
def setRaw (options : Termios) : Termios :=
  { options with
    vtime := 0, vmin := 0
    icanon := false, echo := false, echoe := false, isig := false, iexten := false
    brkint := false, icrnl := false, inpck := false, istrip := false, ixon := false
    opost := false }

/-- The options reach the terminal with the last call only. -/
def comSetParity (calls : ComCalls) (fd : Int) (databits stopbits : CInt) (parity : Byte) (tty : Termios) :
    Termios × Bool :=
  if fd ≤ 0 ∨ calls.getParity = false then (tty, false)
  else
    match (setDataBits databits tty).bind fun options =>
        (setParityFlags parity options).bind (setStopBits stopbits) with
    | none => (tty, false)
    | some options => if calls.setParity then (setRaw options, true) else (tty, false)

/-- The open descriptors of the process and the attributes of each device. -/
structure ComWorld where
  openFds : List Int
  attributes : List Byte → Termios

def comClose (fd : Int) (w : ComWorld) : ComWorld :=
  if fd > 0 then { w with openFds := w.openFds.erase fd } else w

/-- The descriptor 0 counts as a failure and stays open. -/
def comOpen (calls : ComCalls) (dev : List Byte) (w : ComWorld) : Int × ComWorld :=
  let port := comOpenPort dev
  let fd := calls.openDev port.com
  let w := if fd < 0 then w else { w with openFds := fd :: w.openFds }
  if fd ≤ 0 then (fd, w)
  else
    let pn := port.p.headD 0
    let tty := comSetSpeed calls fd (atoi port.s) (w.attributes port.com)
    let (tty, done) := comSetParity calls fd (atoi port.d) (atoi port.b) pn tty
    let w := { w with attributes := Function.update w.attributes port.com tty }
    if done then (fd, w) else (0, comClose fd w)

/-- One iteration calls `com_open` for a closed port only. -/
def portStep (dev : List Byte) (state : ServiceWorld × ComWorld) (step : Outcomes × ComCalls) :
    ServiceWorld × ComWorld :=
  let (w, port) := state
  if w.state.psudata.uartFd > 0 then ((waitMessageAndHandle step.1 w).1, port)
  else
    let (fd, port) := comOpen step.2 dev { port with openFds := w.state.openFds }
    ((waitMessageAndHandle { step.1 with comOpen := fd } w).1, port)

/-- A run of the service over the terminals. -/
def portRun (dev : List Byte) (start : Service) (attributes : List Byte → Termios)
    (steps : List (Outcomes × ComCalls)) : ServiceWorld × ComWorld :=
  steps.foldl (portStep dev) (⟨start, []⟩, ⟨start.openFds, attributes⟩)

end Psuart

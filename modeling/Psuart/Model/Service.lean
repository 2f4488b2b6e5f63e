import Psuart.Library.Trace
import Psuart.Model.Rader

namespace Psuart

/-- The fields of `sockaddr_in` keep their network byte order. -/
structure SockaddrIn where
  sinFamily : BitVec 16
  sinPort : BitVec 16
  sinAddr : BitVec 32

/-- The little-endian host exchanges the two bytes. -/
def htons (port : BitVec 16) : BitVec 16 := port <<< 8 ||| port >>> 8

/-- The configuration keeps the three descriptors and the server address. -/
structure PsusConfig where
  netAddr : SockaddrIn
  uartFd : Int
  tcpFd : Int
  udpFd : Int
  udpport : BitVec 16

/-- The state of the process and the descriptors that the system holds open for it. -/
structure Service where
  psudata : PsusConfig
  tcpConnected : Int
  rader : Rader
  openFds : List Int

/-- A call of `connect` succeeds, reports `EINPROGRESS` or fails. -/
inductive ConnectResult where
  | established
  | inProgress
  | failed
  deriving DecidableEq

/-- A longer token would overflow the receive array. -/
abbrev StdinText := {bytes : List Byte // bytes.length < recvSize}

/-- The outcomes of the system calls in one iteration. -/
structure Outcomes where
  comOpen : Int
  tcpSocket : Int
  connect : ConnectResult
  udpSocket : Int
  bind : Bool
  select : Int
  readable : Int → Bool
  writable : Int → Bool
  getsockopt : Option Int
  uartRead : Option ReadBytes
  tcpWrite : Option Nat
  tcpRead : Option ReadBytes
  recvfrom : Option (SockaddrIn × ReadBytes)
  past : Memory
  scanf : StdinText

/-- The trace logs the calls that reach the system and the calls of the collector. -/
inductive ServiceEvent where
  | uartOpen (fd : Int)
  | uartClear
  | tcpSocket (fd : Int)
  | udpSocket (fd : Int)
  | close (fd : Int)
  | select (tcpFd : Int) (rfds wfds : List Int)
  | fdIsset (fd : Int)
  | tcpStatus (fd ret : Int)
  | uartRead (fd : Int) (data : Option ReadBytes)
  | raderRecv (uartFd fd : Int) (data : ReadBytes) (packet : Option (List Byte)) (accepted : List Byte)
  | tcpRead (fd : Int) (data : Option ReadBytes)
  | recvfrom (fd : Int) (data : Option ReadBytes)
  | raderCmd (fd : Int) (data : ReadBytes) (written : Option (List Byte))
  | raderCmdFromStdin (fd : Int) (buf : List Byte) (written : Option (List Byte))
  deriving DecidableEq

abbrev ServiceWorld := Trace.World Service ServiceEvent

def Service.setUartFd (s : Service) (fd : Int) : Service :=
  { s with psudata := { s.psudata with uartFd := fd } }

def Service.setTcpFd (s : Service) (fd : Int) : Service :=
  { s with psudata := { s.psudata with tcpFd := fd } }

def Service.setUdpFd (s : Service) (fd : Int) : Service :=
  { s with psudata := { s.psudata with udpFd := fd } }

def Service.setNetAddr (s : Service) (addr : SockaddrIn) : Service :=
  { s with psudata := { s.psudata with netAddr := addr } }

/-- The system hands out the descriptor. -/
def Service.acquire (s : Service) (fd : Int) : Service := { s with openFds := fd :: s.openFds }

/-- The system takes the descriptor back. -/
def Service.release (s : Service) (fd : Int) : Service := { s with openFds := s.openFds.erase fd }

def openUart (o : Outcomes) (w : ServiceWorld) : ServiceWorld × Int :=
  if w.state.psudata.uartFd > 0 then (w, w.state.psudata.uartFd)
  else if o.comOpen ≤ 0 then (w.step (.uartOpen o.comOpen) (w.state.setUartFd o.comOpen), -1)
  else (w.step (.uartOpen o.comOpen) ((w.state.setUartFd o.comOpen).acquire o.comOpen), o.comOpen)

def closeUart (w : ServiceWorld) : ServiceWorld :=
  let fd := w.state.psudata.uartFd
  if fd > 0 then w.step (.close fd) ((w.state.setUartFd 0).release fd)
  else w.step .uartClear (w.state.setUartFd 0)

/-- A failed bind closes the new socket. -/
def startUdpSocket (o : Outcomes) (w : ServiceWorld) : ServiceWorld × Int :=
  if w.state.psudata.udpFd > 0 then (w, w.state.psudata.udpFd)
  else
    let fd := o.udpSocket
    if fd = -1 then (w.step (.udpSocket fd) (w.state.setUdpFd fd), -1)
    else
      let w := w.step (.udpSocket fd) ((w.state.setUdpFd fd).acquire fd)
      if o.bind then (w, fd)
      else (w.step (.close fd) ((w.state.setUdpFd 0).release fd), -2)

def closeUdpSocket (w : ServiceWorld) : ServiceWorld :=
  let fd := w.state.psudata.udpFd
  if fd > 0 then w.step (.close fd) ((w.state.setUdpFd 0).release fd) else w

/-- A connect that fails for another reason than `EINPROGRESS` closes the new socket. -/
def startTcpSocket (o : Outcomes) (w : ServiceWorld) : ServiceWorld × Int :=
  if w.state.psudata.tcpFd > 0 then (w, w.state.psudata.tcpFd)
  else
    let fd := o.tcpSocket
    if fd = -1 then (w.step (.tcpSocket fd) (w.state.setTcpFd fd), -1)
    else
      let w := w.step (.tcpSocket fd)
        { (w.state.setTcpFd fd).acquire fd with tcpConnected := 0 }
      if o.connect = .failed then (w.step (.close fd) ((w.state.setTcpFd 0).release fd), -2)
      else (w, fd)

def closeTcpSocket (w : ServiceWorld) : ServiceWorld :=
  let fd := w.state.psudata.tcpFd
  if fd > 0 then w.step (.close fd) ((w.state.setTcpFd 0).release fd) else w

def tcpSocketStatus (o : Outcomes) (w : ServiceWorld) : ServiceWorld × Int :=
  if w.state.psudata.tcpFd > 0 then
    match o.getsockopt with
    | none => (closeTcpSocket w, -2)
    | some err => if err ≠ 0 then (closeTcpSocket w, -3) else (w, 0)
  else (w, -1)

/-- A read of a negative descriptor fails. -/
def readFd {A : Type} (fd : Int) (outcome : Option A) : Option A := if fd < 0 then none else outcome

/-- The bit of a negative descriptor lies outside the set. -/
def fdIsset (fds : List Int) (ready : Int → Bool) (fd : Int) : Bool :=
  if fd < 0 then ready fd else fds.contains fd && ready fd

/-- The branch runs when `FD_ISSET` finds its descriptor. -/
def whenSet (set : Int → Bool) (fd : Int) (branch : ServiceWorld → ServiceWorld) (w : ServiceWorld) :
    ServiceWorld :=
  let w := w.step (.fdIsset fd) w.state
  if set fd then branch w else w

/-- The status call and the assignments behind it form one event. -/
def tcpWritable (o : Outcomes) (w : ServiceWorld) : ServiceWorld :=
  let fd := w.state.psudata.tcpFd
  let (w, ret) := tcpSocketStatus o w
  if ret = 0 then
    w.step (.tcpStatus fd ret) { w.state with tcpConnected := 1, rader := setRaderDlen w.state.rader 0 }
  else w.step (.tcpStatus fd ret) { w.state with tcpConnected := 0 }

def callRaderCmdFromStdin (fd : Int) (buf : List Byte) (w : ServiceWorld) : ServiceWorld :=
  let result := raderCmdFromStdin w.state.rader buf
  w.step (.raderCmdFromStdin fd buf result.written) { w.state with rader := result.state }

/-- A write takes the first bytes of the packet, and a failed write takes none. -/
def acceptedBytes (outcome : Option Nat) (written : Option (List Byte)) : List Byte :=
  match outcome, written with
  | some count, some packet => packet.take count
  | _, _ => []

/-- The data of the UART are handed to `rader_recv` or dropped. -/
def uartReadable (o : Outcomes) (uartFd tcpFd : Int) (w : ServiceWorld) : ServiceWorld :=
  match readFd uartFd o.uartRead with
  | none => w.step (.uartRead uartFd none) w.state
  | some data =>
      if data.val.length > 0 ∧ tcpFd > 0 ∧ w.state.tcpConnected ≠ 0 then
        let result := raderRecv w.state.rader data.val
        let accepted := acceptedBytes o.tcpWrite result.written
        let w := w.step (.raderRecv uartFd tcpFd data result.written accepted)
          { w.state with rader := result.state }
        if result.ret = dataFlagS then callRaderCmdFromStdin uartFd (stringBytes "F") w else w
      else w.step (.uartRead uartFd (some data)) w.state

/-- The result of `rader_cmd` comes back with the world. -/
def callRaderCmd (fd : Int) (data : ReadBytes) (past : Memory) (w : ServiceWorld) : ServiceWorld × Byte :=
  let result := raderCmd w.state.rader (recvArray data.val past) data.val.length
  (w.step (.raderCmd fd data result.written) { w.state with rader := result.state }, result.ret)

def tcpReadable (o : Outcomes) (uartFd tcpFd : Int) (w : ServiceWorld) : ServiceWorld :=
  let data := readFd tcpFd o.tcpRead
  let w := w.step (.tcpRead tcpFd data) w.state
  match data with
  | none => w
  | some data =>
      if data.val.length > 0 ∧ uartFd > 0 then (callRaderCmd uartFd data o.past w).1 else w

/-- A close command in a datagram ends the TCP connection. -/
def udpCommand (fd : Int) (data : ReadBytes) (past : Memory) (w : ServiceWorld) : ServiceWorld :=
  let (w, ret) := callRaderCmd fd data past w
  if ret = 1 then closeTcpSocket w else w

/-- The port is overwritten even when `recvfrom` fails. -/
def udpReadable (o : Outcomes) (uartFd udpFd : Int) (w : ServiceWorld) : ServiceWorld :=
  let port := htons w.state.psudata.udpport
  match readFd udpFd o.recvfrom with
  | none => w.step (.recvfrom udpFd none) (w.state.setNetAddr { w.state.psudata.netAddr with sinPort := port })
  | some (source, data) =>
      let w := w.step (.recvfrom udpFd (some data)) (w.state.setNetAddr { source with sinPort := port })
      if data.val.length > 0 ∧ udpFd > 0 then udpCommand uartFd data o.past w else w

def stdinReadable (o : Outcomes) (uartFd : Int) (w : ServiceWorld) : ServiceWorld :=
  callRaderCmdFromStdin uartFd (cString o.scanf.val) w

def watchedReads (s : Service) (uartFd tcpFd udpFd : Int) : List Int :=
  [0] ++ (if udpFd > 0 then [udpFd] else []) ++ (if uartFd > 0 then [uartFd] else []) ++
    (if tcpFd > 0 ∧ s.tcpConnected = 1 then [tcpFd] else [])

def watchedWrites (s : Service) (tcpFd : Int) : List Int :=
  if tcpFd > 0 ∧ s.tcpConnected = 0 then [tcpFd] else []

/-- The call of `select` waits on the sets of the iteration. -/
def selectFds (uartFd tcpFd udpFd : Int) (w : ServiceWorld) : ServiceWorld :=
  w.step (.select tcpFd (watchedReads w.state uartFd tcpFd udpFd) (watchedWrites w.state tcpFd)) w.state

/-- The UART branch follows the status check of the socket. -/
def handleUart (o : Outcomes) (readable writable : Int → Bool) (uartFd tcpFd : Int) (w : ServiceWorld) :
    ServiceWorld :=
  let w := whenSet writable tcpFd (tcpWritable o) w
  whenSet readable uartFd (uartReadable o uartFd tcpFd) w

/-- The datagram branch and the branch of the standard input end the iteration. -/
def handleDatagrams (o : Outcomes) (readable : Int → Bool) (uartFd udpFd : Int) (w : ServiceWorld) :
    ServiceWorld :=
  let w := whenSet readable udpFd (udpReadable o uartFd udpFd) w
  whenSet readable 0 (stdinReadable o uartFd) w

/-- The part of the iteration behind a successful `select`. -/
def handleMessages (o : Outcomes) (readable writable : Int → Bool) (uartFd tcpFd udpFd : Int)
    (w : ServiceWorld) : ServiceWorld :=
  let w := handleUart o readable writable uartFd tcpFd w
  let w := whenSet readable tcpFd (tcpReadable o uartFd tcpFd) w
  handleDatagrams o readable uartFd udpFd w

/-- A failed `select` closes the descriptors that are still set. -/
def closeMessages (readable : Int → Bool) (uartFd tcpFd udpFd : Int) (w : ServiceWorld) : ServiceWorld :=
  let w := whenSet readable tcpFd closeTcpSocket w
  let w := whenSet readable uartFd closeUart w
  whenSet readable udpFd closeUdpSocket w

/-- Each iteration first opens what is closed and keeps the three descriptors. -/
def openDescriptors (o : Outcomes) (w : ServiceWorld) : ServiceWorld × Int × Int × Int :=
  let (w, uartFd) := openUart o w
  let (w, tcpFd) := startTcpSocket o w
  let (w, udpFd) := startUdpSocket o w
  (w, uartFd, tcpFd, udpFd)

def waitMessageAndHandle (o : Outcomes) (w : ServiceWorld) : ServiceWorld × Int :=
  let (w, uartFd, tcpFd, udpFd) := openDescriptors o w
  if uartFd ≤ 0 ∧ udpFd ≤ 0 then (w, 0)
  else
    let readable := fdIsset (watchedReads w.state uartFd tcpFd udpFd) o.readable
    let writable := fdIsset (watchedWrites w.state tcpFd) o.writable
    let w := selectFds uartFd tcpFd udpFd w
    if 0 ≥ o.select then (closeMessages readable uartFd tcpFd udpFd w, 0)
    else (handleMessages o readable writable uartFd tcpFd udpFd w, o.select)

/-- The process starts with closed descriptors and an initialized collector. -/
def serviceStart (netAddr : SockaddrIn) (udpport : BitVec 16) : Service where
  psudata := ⟨netAddr, 0, 0, 0, udpport⟩
  tcpConnected := 0
  rader := raderInit raderStatic
  openFds := [0, 1, 2]

/-- The loop of `main` runs one iteration for each group of outcomes. -/
def serviceRun (start : Service) (outcomes : List Outcomes) : ServiceWorld :=
  outcomes.foldl (fun w o => (waitMessageAndHandle o w).1) ⟨start, []⟩

end Psuart

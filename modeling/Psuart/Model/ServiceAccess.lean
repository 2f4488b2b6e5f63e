import Psuart.Model.Service

namespace Psuart

/-- A test of `FD_ISSET` tells whether its branch is entered, and the state is the one of that moment. -/
structure FdTest where
  fd : Int
  entered : Bool
  state : Service

def fdTest (set : Int → Bool) (fd : Int) (w : ServiceWorld) : FdTest := ⟨fd, set fd, w.state⟩

/-- The tests behind a failed `select`. -/
def closeTests (readable : Int → Bool) (uartFd tcpFd udpFd : Int) (w : ServiceWorld) : List FdTest :=
  let tcp := whenSet readable tcpFd closeTcpSocket w
  let uart := whenSet readable uartFd closeUart tcp
  [fdTest readable tcpFd w, fdTest readable uartFd tcp, fdTest readable udpFd uart]

/-- The tests behind a successful `select`. -/
def handleTests (o : Outcomes) (readable writable : Int → Bool) (uartFd tcpFd udpFd : Int)
    (w : ServiceWorld) : List FdTest :=
  let status := whenSet writable tcpFd (tcpWritable o) w
  let uart := whenSet readable uartFd (uartReadable o uartFd tcpFd) status
  let tcp := whenSet readable tcpFd (tcpReadable o uartFd tcpFd) uart
  let udp := whenSet readable udpFd (udpReadable o uartFd udpFd) tcp
  [fdTest writable tcpFd w, fdTest readable uartFd status, fdTest readable tcpFd uart, fdTest readable udpFd tcp,
    fdTest readable 0 udp]

/-- The tests of one iteration in their order. -/
def waitMessageAndHandleTests (o : Outcomes) (w : ServiceWorld) : List FdTest :=
  let (w, uartFd, tcpFd, udpFd) := openDescriptors o w
  if uartFd ≤ 0 ∧ udpFd ≤ 0 then []
  else
    let readable := fdIsset (watchedReads w.state uartFd tcpFd udpFd) o.readable
    let writable := fdIsset (watchedWrites w.state tcpFd) o.writable
    let w := selectFds uartFd tcpFd udpFd w
    if 0 ≥ o.select then closeTests readable uartFd tcpFd udpFd w
    else handleTests o readable writable uartFd tcpFd udpFd w

end Psuart

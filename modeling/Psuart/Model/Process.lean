import Psuart.Model.Service

namespace Psuart

/-- The loop of `max_value` compares its first argument with as many further ones. -/
def maxValue (a : Nat) (args : List Int) : Int :=
  (args.take a).foldl (fun ret step => if ret > step then ret else step) a

/-- The first argument of `select`. -/
def selectNfds (tcpFd udpFd uartFd : Int) : Int := maxValue 3 [tcpFd, udpFd, uartFd] + 1

/-- The handler of the signals and the end of `main` close the three descriptors in the same order. -/
def closeDescriptors (w : ServiceWorld) : ServiceWorld := closeTcpSocket (closeUdpSocket (closeUart w))

/-- The two signals that `main` installs its handler for. -/
inductive SignNo where
  | sigint
  | sigquit
  deriving DecidableEq

/-- Both branches of the handler are the same, and `exit` follows them. -/
def signalFunc : SignNo → ServiceWorld → ServiceWorld
  | .sigint, w => closeDescriptors w
  | .sigquit, w => closeDescriptors w

/-- The loop of `main` ends behind a negative result. The flag tells that the end of `main` is reached. -/
def mainLoop (w : ServiceWorld) : List Outcomes → ServiceWorld × Bool
  | [] => (w, false)
  | o :: rest =>
      let (w, iRet) := waitMessageAndHandle o w
      if iRet ≥ 0 then mainLoop w rest else (closeDescriptors w, true)

end Psuart

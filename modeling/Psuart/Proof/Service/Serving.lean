import Psuart.Proof.Service.Teardown
import Psuart.Proof.Service.Waiting
import Psuart.Proof.Service.Gateway
import Psuart.Spec.Serving

namespace Psuart

/-- The world keeps its state and writes nothing. -/
structure Quiet (w after : ServiceWorld) : Prop where
  state : after.state = w.state
  writes : writesOf after.trace = writesOf w.trace

theorem Quiet.trans {first second third : ServiceWorld} (front : Quiet first second) (back : Quiet second third) :
    Quiet first third :=
  ⟨back.state.trans front.state, back.writes.trans front.writes⟩

/-- The world changes only its collector and adds the writes. -/
structure Serves (w after : ServiceWorld) (collector : Collector) (writes : List (Int × List Byte)) : Prop where
  state : ∃ rader, after.state = { w.state with rader := rader } ∧ rader.Represents collector
  writes : writesOf after.trace = writesOf w.trace ++ writes

theorem Serves.trans {first second third : ServiceWorld} {collector last : Collector}
    {writes more : List (Int × List Byte)} (front : Serves first second collector writes)
    (back : Serves second third last more) : Serves first third last (writes ++ more) where
  state := by
    obtain ⟨_, before, _⟩ := front.state
    obtain ⟨rader, same, represents⟩ := back.state
    exact ⟨rader, by rw [same, before], represents⟩
  writes := by rw [back.writes, front.writes, List.append_assoc]

section Quiet

variable {first second third : ServiceWorld} {collector : Collector} {writes : List (Int × List Byte)}

theorem Quiet.serves (front : Quiet first second) (back : Serves second third collector writes) :
    Serves first third collector writes :=
  ⟨front.state ▸ back.state, front.writes ▸ back.writes⟩

theorem Serves.quiet (front : Serves first second collector writes) (back : Quiet second third) :
    Serves first third collector writes :=
  ⟨back.state ▸ front.state, back.writes.trans front.writes⟩

end Quiet

/-- The descriptors are open, and the connection is confirmed. -/
structure Service.Live (s : Service) : Prop where
  uart : 0 < s.psudata.uartFd
  tcp : 0 < s.psudata.tcpFd
  udp : 0 < s.psudata.udpFd
  connected : s.tcpConnected = 1

section Branches

variable (o : Outcomes) {uartFd tcpFd : Int} {w : ServiceWorld}

section Pieces

variable {flag : Byte} {need : Nat} {acc : List Byte}
  (represents : w.state.rader.Represents (.collecting flag need acc)) (uart : 0 < uartFd) (tcp : 0 < tcpFd)
  (connected : w.state.tcpConnected = 1) (piece : o.chunk ≠ [])

include represents uart tcp connected piece

end Pieces

end Branches

theorem Service.Live.watched {s : Service} (live : s.Live) (fd : Int) :
    fd ∈ watchedReads s s.psudata.uartFd s.psudata.tcpFd s.psudata.udpFd ↔
      fd = 0 ∨ fd = s.psudata.udpFd ∨ fd = s.psudata.uartFd ∨ fd = s.psudata.tcpFd := by
  simp [watchedReads, live.uart, live.tcp, live.udp, live.connected]

section Iteration

variable {o : Outcomes} {w : ServiceWorld} (live : w.state.Live)

include live

variable (distinct : w.state.Distinct) {collector : Collector} {writes : List (Int × List Byte)}

include distinct

end Iteration

end Psuart

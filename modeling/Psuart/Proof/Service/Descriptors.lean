import Psuart.Proof.Service.Moves
import Psuart.Spec.Response

namespace Psuart

/-- The open descriptors of the service are different and belong to the process. -/
structure Service.Distinct (s : Service) : Prop where
  uart : 0 < s.psudata.uartFd → s.psudata.uartFd ∈ s.openFds
  tcp : 0 < s.psudata.tcpFd → s.psudata.tcpFd ∈ s.openFds
  udp : 0 < s.psudata.udpFd → s.psudata.udpFd ∈ s.openFds
  uartTcp : 0 < s.psudata.uartFd → s.psudata.uartFd ≠ s.psudata.tcpFd
  uartUdp : 0 < s.psudata.uartFd → s.psudata.uartFd ≠ s.psudata.udpFd
  tcpUdp : 0 < s.psudata.tcpFd → s.psudata.tcpFd ≠ s.psudata.udpFd

theorem freshTrace_snoc {trace : List ServiceTransition} {last : ServiceTransition}
    (fresh : FreshTrace (trace ++ [last])) :
    FreshTrace trace ∧ ∀ fd, last.event.opened = some fd → fd ∉ last.before.openFds :=
  ⟨fun transition member => fresh transition (List.mem_append_left _ member),
    fresh last (by simp)⟩

/-- A property that fresh moves keep holds at the end of a path with a fresh trace. -/
theorem FreshTrace.invariant (good : ServiceWorld → Prop)
    (keeps : ∀ world event after, good world → ServiceMoves world.state event after →
      (∀ fd, event.opened = some fd → fd ∉ world.state.openFds) → good (world.step event after))
    {first second : ServiceWorld} (fresh : FreshTrace second.trace) (path : ServicePath first second)
    (start : good first) : good second := by
  induction path with
  | refl => exact start
  | snoc _ move ih =>
      obtain ⟨before, last⟩ := freshTrace_snoc fresh
      exact keeps _ _ _ (ih before) move last

theorem serviceStart_distinct (netAddr : SockaddrIn) (udpport : BitVec 16) :
    (serviceStart netAddr udpport).Distinct := by
  constructor <;> intro positive <;> exact absurd positive (Int.lt_irrefl 0)

/-- The collector owns no descriptor. -/
theorem Service.Distinct.rader {s : Service} (distinct : s.Distinct) (rader : Rader) :
    Service.Distinct { s with rader := rader } :=
  ⟨distinct.uart, distinct.tcp, distinct.udp, distinct.uartTcp, distinct.uartUdp, distinct.tcpUdp⟩

/-- Every move keeps the descriptors different when the system hands out fresh ones. -/
theorem Service.Distinct.step {s after : Service} {event : ServiceEvent} (distinct : s.Distinct)
    (move : ServiceMoves s event after) (fresh : ∀ fd, event.opened = some fd → fd ∉ s.openFds) :
    after.Distinct := by
  obtain ⟨uart, tcp, udp, uartTcp, uartUdp, tcpUdp⟩ := distinct
  cases move with
  | selected | tested | tcpRead | confirmed | unconfirmed | dropped | received | addressed | commanded | typed =>
      exact ⟨uart, tcp, udp, uartTcp, uartUdp, tcpUdp⟩
  | uartFailed | uartCleared | udpFailed | tcpFailed =>
      constructor <;> grind [Service.setUartFd, Service.setUdpFd, Service.setTcpFd]
  | uartOpened fd _ opened =>
      have new : fd ∉ s.openFds := fresh fd (by simp [ServiceEvent.opened, opened])
      constructor <;> grind [Service.setUartFd, Service.acquire]
  | udpOpened fd _ opened =>
      have new : fd ∉ s.openFds := fresh fd (by simp [ServiceEvent.opened, opened])
      constructor <;> grind [Service.setUdpFd, Service.acquire]
  | tcpOpened fd _ opened =>
      have new : fd ∉ s.openFds := fresh fd (by simp [ServiceEvent.opened, opened])
      constructor <;> grind [Service.setTcpFd, Service.acquire]
  | uartClosed =>
      constructor <;> grind [Service.setUartFd, Service.release]
  | udpClosed =>
      constructor <;> grind [Service.setUdpFd, Service.release]
  | tcpClosed =>
      constructor <;> grind [Service.setTcpFd, Service.release]

/-- A path keeps the descriptors different when the system hands out fresh ones. -/
theorem Service.Distinct.path {first second : ServiceWorld} (distinct : first.state.Distinct)
    (path : ServicePath first second) (fresh : FreshTrace second.trace) : second.state.Distinct :=
  fresh.invariant (fun w => w.state.Distinct) (fun _ _ _ before move last => before.step move last)
    path distinct

theorem FreshTrace.front {first second : ServiceWorld} (fresh : FreshTrace second.trace)
    (path : ServicePath first second) : FreshTrace first.trace := by
  obtain ⟨added, equal, _⟩ := path.added
  intro transition member
  exact fresh transition (by rw [equal]; exact List.mem_append_left _ member)

/-- The local descriptors of an iteration agree with the fields. -/
structure LocalsHeld (uartFd tcpFd udpFd : Int) (s : Service) : Prop where
  uart : 0 < uartFd → s.psudata.uartFd = uartFd
  tcp : TcpHeld tcpFd s
  udp : 0 < udpFd → s.psudata.udpFd = udpFd

theorem openUart_held (o : Outcomes) (w : ServiceWorld) (positive : 0 < (openUart o w).2) :
    (openUart o w).1.state.psudata.uartFd = (openUart o w).2 := by
  unfold openUart at positive ⊢
  split
  · rfl
  · split
    · rename_i closed failed
      rw [if_neg closed, if_pos failed] at positive
      exact absurd positive (show ¬(0 : Int) < -1 by decide)
    · rfl

theorem startTcpSocket_uartFd (o : Outcomes) (w : ServiceWorld) :
    (startTcpSocket o w).1.state.psudata.uartFd = w.state.psudata.uartFd := by
  simp only [startTcpSocket]
  split
  · rfl
  · split
    · rfl
    · split <;> rfl

theorem startUdpSocket_held (o : Outcomes) (w : ServiceWorld) (positive : 0 < (startUdpSocket o w).2) :
    (startUdpSocket o w).1.state.psudata.udpFd = (startUdpSocket o w).2 := by
  simp only [startUdpSocket] at positive ⊢
  split
  · rfl
  · split
    · rename_i failed
      exact failed
    · split
      · rfl
      · rename_i closed opened unbound
        rw [if_neg closed, if_neg opened, if_neg unbound] at positive
        exact absurd positive (show ¬(0 : Int) < -2 by decide)

theorem openDescriptors_locals (o : Outcomes) (w : ServiceWorld) :
    LocalsHeld (openDescriptors o w).2.1 (openDescriptors o w).2.2.1 (openDescriptors o w).2.2.2
      (openDescriptors o w).1.state where
  uart positive := by
    have field := openUart_held o w positive
    exact ((startUdpSocket_fields o _).2.trans (startTcpSocket_uartFd o _)).trans field
  tcp := openDescriptors_held o w
  udp positive := startUdpSocket_held o _ positive

end Psuart

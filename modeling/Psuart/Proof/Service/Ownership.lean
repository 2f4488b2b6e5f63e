import Psuart.Proof.Service.Response
import Psuart.Spec.Ownership

namespace Psuart

theorem Service.mem_held {s : Service} {fd : Int} :
    fd ∈ s.held ↔ 0 < fd ∧ (fd = s.psudata.uartFd ∨ fd = s.psudata.tcpFd ∨ fd = s.psudata.udpFd) := by
  simp [Service.held, and_comm]

/-- The fields account for every open descriptor behind the standard ones. -/
structure Service.Accounted (s : Service) : Prop where
  distinct : s.Distinct
  once : s.openFds.Nodup
  known : ∀ fd ∈ s.openFds, 0 < fd → fd = 1 ∨ fd = 2 ∨ fd ∈ s.held
  standard : 1 ∈ s.openFds ∧ 2 ∈ s.openFds
  apart : 1 ∉ s.held ∧ 2 ∉ s.held

theorem Service.Accounted.held_open {s : Service} (accounted : s.Accounted) {fd : Int} (held : fd ∈ s.held) :
    fd ∈ s.openFds := by
  obtain ⟨positive, uart | tcp | udp⟩ := Service.mem_held.mp held
  · exact uart ▸ accounted.distinct.uart (uart ▸ positive)
  · exact tcp ▸ accounted.distinct.tcp (tcp ▸ positive)
  · exact udp ▸ accounted.distinct.udp (udp ▸ positive)

/-- Different fields hold different descriptors. -/
theorem Service.Distinct.held_nodup {s : Service} (distinct : s.Distinct) : s.held.Nodup := by
  obtain ⟨_, _, _, uartTcp, uartUdp, tcpUdp⟩ := distinct
  rw [Service.held]
  by_cases uart : 0 < s.psudata.uartFd <;> by_cases tcp : 0 < s.psudata.tcpFd <;>
    by_cases udp : 0 < s.psudata.udpFd <;> simp [uart, tcp, udp, uartTcp, uartUdp, tcpUdp]

/-- An account of the descriptors is exact. -/
theorem Service.Accounted.owns {s : Service} (accounted : s.Accounted) : s.Owns where
  once := accounted.once
  exact := by
    obtain ⟨one, two⟩ := accounted.apart
    have nodup : (s.held ++ [1, 2]).Nodup := by
      rw [List.nodup_append]
      refine ⟨accounted.distinct.held_nodup, by decide, ?_⟩
      intro fd held other standard
      grind
    apply (List.perm_ext_iff_of_nodup (accounted.once.filter _) nodup).mpr
    intro fd
    constructor
    · intro member
      obtain ⟨opened, positive⟩ := List.mem_filter.mp member
      rcases accounted.known fd opened (of_decide_eq_true positive) with rfl | rfl | held
      · simp
      · simp
      · exact List.mem_append_left _ held
    · intro member
      apply List.mem_filter.mpr
      rcases List.mem_append.mp member with held | standard
      · exact ⟨accounted.held_open held, decide_eq_true (Service.mem_held.mp held).1⟩
      · rcases List.mem_pair.mp standard with rfl | rfl
        · exact ⟨accounted.standard.1, by decide⟩
        · exact ⟨accounted.standard.2, by decide⟩

theorem serviceStart_accounted (netAddr : SockaddrIn) (udpport : BitVec 16) :
    (serviceStart netAddr udpport).Accounted where
  distinct := serviceStart_distinct netAddr udpport
  once := (by decide : ([0, 1, 2] : List Int).Nodup)
  known := (by decide : ∀ fd ∈ ([0, 1, 2] : List Int), 0 < fd → fd = 1 ∨ fd = 2 ∨ fd ∈ ([] : List Int))
  standard := (by decide : (1 : Int) ∈ ([0, 1, 2] : List Int) ∧ (2 : Int) ∈ ([0, 1, 2] : List Int))
  apart := (by decide : (1 : Int) ∉ ([] : List Int) ∧ (2 : Int) ∉ ([] : List Int))

/-- A step that keeps the open descriptors and the fields keeps the account. -/
theorem Service.Accounted.same {s after : Service} (accounted : s.Accounted) (distinct : after.Distinct)
    (opened : after.openFds = s.openFds) (held : after.held = s.held) : after.Accounted where
  distinct := distinct
  once := opened ▸ accounted.once
  known := by rw [opened, held]; exact accounted.known
  standard := opened ▸ accounted.standard
  apart := held ▸ accounted.apart

/-- A new descriptor is held by the field that was free. -/
theorem Service.Accounted.acquire {s after : Service} (accounted : s.Accounted) (distinct : after.Distinct)
    {fd : Int} (fresh : fd ∉ s.openFds) (opened : after.openFds = fd :: s.openFds)
    (held : ∀ other, other ∈ after.held ↔ other ∈ s.held ∨ (other = fd ∧ 0 < fd)) : after.Accounted where
  distinct := distinct
  once := opened ▸ List.nodup_cons.mpr ⟨fresh, accounted.once⟩
  known := by
    have known := accounted.known
    grind
  standard := by
    have standard := accounted.standard
    grind
  apart := by
    have standard := accounted.standard
    have apart := accounted.apart
    grind

/-- A closed descriptor is no longer held. -/
theorem Service.Accounted.release {s after : Service} (accounted : s.Accounted) (distinct : after.Distinct)
    {fd : Int} (opened : after.openFds = s.openFds.erase fd) (member : 0 < fd → fd ∈ s.held)
    (held : ∀ other, other ∈ after.held ↔ other ∈ s.held ∧ other ≠ fd) : after.Accounted where
  distinct := distinct
  once := opened ▸ accounted.once.erase fd
  known := by
    intro other kept positive
    rw [opened, accounted.once.mem_erase_iff] at kept
    have known := accounted.known other kept.2 positive
    grind
  standard := by
    have standard := accounted.standard
    have apart := accounted.apart
    rw [opened, accounted.once.mem_erase_iff, accounted.once.mem_erase_iff]
    grind
  apart := by
    have apart := accounted.apart
    grind

/-- Every move keeps the account when the system hands out fresh descriptors. -/
theorem Service.Accounted.step {s after : Service} {event : ServiceEvent} (accounted : s.Accounted)
    (move : ServiceMoves s event after) (fresh : ∀ fd, event.opened = some fd → fd ∉ s.openFds) :
    after.Accounted := by
  have distinct := accounted.distinct.step move fresh
  obtain ⟨_, _, _, uartTcp, uartUdp, tcpUdp⟩ := accounted.distinct
  cases move with
  | selected | tested | tcpRead | confirmed | unconfirmed | dropped | received | addressed | commanded | typed =>
      exact accounted.same distinct rfl rfl
  | uartFailed | uartCleared | udpFailed | tcpFailed =>
      apply accounted.same distinct rfl
      grind [Service.held, Service.setUartFd, Service.setUdpFd, Service.setTcpFd]
  | uartOpened fd _ opened =>
      apply accounted.acquire distinct (fresh fd (by simp [ServiceEvent.opened, opened])) rfl
      grind [Service.mem_held, Service.setUartFd, Service.acquire]
  | udpOpened fd _ opened =>
      apply accounted.acquire distinct (fresh fd (by simp [ServiceEvent.opened, opened])) rfl
      grind [Service.mem_held, Service.setUdpFd, Service.acquire]
  | tcpOpened fd _ opened =>
      apply accounted.acquire distinct (fresh fd (by simp [ServiceEvent.opened, opened])) rfl
      grind [Service.mem_held, Service.setTcpFd, Service.acquire]
  | uartClosed =>
      apply accounted.release distinct rfl <;> grind [Service.mem_held, Service.setUartFd, Service.release]
  | udpClosed =>
      apply accounted.release distinct rfl <;> grind [Service.mem_held, Service.setUdpFd, Service.release]
  | tcpClosed =>
      apply accounted.release distinct rfl <;> grind [Service.mem_held, Service.setTcpFd, Service.release]

section Close

variable {w : ServiceWorld} (accounted : w.state.Accounted)

include accounted

theorem closeUart_accounted :
    (closeUart w).state.Accounted ∧ (closeUart w).state.psudata =
      { w.state.psudata with uartFd := 0 } := by
  simp only [closeUart]
  split
  · rename_i opened
    exact ⟨accounted.step (.uartClosed opened) (fun fd none => by cases none), rfl⟩
  · rename_i closed
    exact ⟨accounted.step (.uartCleared (Int.not_lt.mp closed)) (fun fd none => by cases none), rfl⟩

theorem closeUdpSocket_accounted :
    (closeUdpSocket w).state.Accounted ∧ (closeUdpSocket w).state.psudata.udpFd ≤ 0 ∧
      (closeUdpSocket w).state.psudata.uartFd = w.state.psudata.uartFd := by
  simp only [closeUdpSocket]
  split
  · exact ⟨accounted.step .udpClosed (fun fd none => by cases none), Int.le_refl 0, rfl⟩
  · rename_i closed
    exact ⟨accounted, Int.not_lt.mp closed, rfl⟩

theorem closeTcpSocket_accounted :
    (closeTcpSocket w).state.Accounted ∧ (closeTcpSocket w).state.psudata.tcpFd ≤ 0 ∧
      (closeTcpSocket w).state.psudata.uartFd = w.state.psudata.uartFd ∧
      (closeTcpSocket w).state.psudata.udpFd = w.state.psudata.udpFd := by
  simp only [closeTcpSocket]
  split
  · exact ⟨accounted.step .tcpClosed (fun fd none => by cases none), Int.le_refl 0, rfl, rfl⟩
  · rename_i closed
    exact ⟨accounted, Int.not_lt.mp closed, rfl, rfl⟩

/-- The end of the process leaves only the standard descriptors open. -/
theorem closeDescriptors_standard : (closeDescriptors w).state.positiveFds.Perm [1, 2] := by
  obtain ⟨uart, fields⟩ := closeUart_accounted accounted
  obtain ⟨udp, udpClosed, udpUart⟩ := closeUdpSocket_accounted uart
  obtain ⟨tcp, tcpClosed, tcpUart, tcpUdp⟩ := closeTcpSocket_accounted udp
  have empty : (closeDescriptors w).state.held = [] := by
    apply List.eq_nil_iff_forall_not_mem.mpr
    intro fd held
    obtain ⟨positive, holder⟩ := Service.mem_held.mp held
    have uartClosed : (closeUart w).state.psudata.uartFd = 0 := by rw [fields]
    rw [closeDescriptors] at holder
    omega
  have exact := tcp.owns.exact
  rw [← closeDescriptors, empty] at exact
  exact exact

end Close

/-- The loop of `main` never comes to its end. -/
theorem waitMessageAndHandle_nonneg (o : Outcomes) (w : ServiceWorld) : 0 ≤ (waitMessageAndHandle o w).2 := by
  simp only [waitMessageAndHandle]
  split
  · exact Int.le_refl 0
  · split
    · exact Int.le_refl 0
    · rename_i ready
      exact Int.le_of_lt (Int.not_le.mp ready)

/-- The loop of `main` is the run of its iterations. -/
theorem mainLoop_eq (w : ServiceWorld) (outcomes : List Outcomes) :
    mainLoop w outcomes = (outcomes.foldl (fun w o => (waitMessageAndHandle o w).1) w, false) := by
  induction outcomes generalizing w with
  | nil => rfl
  | cons o rest ih =>
      simp only [mainLoop, ge_iff_le, if_pos (waitMessageAndHandle_nonneg o w), ih, List.foldl_cons]

/-- A close of a positive descriptor closes a held one. -/
theorem ServiceMoves.closes_held {s after : Service} {fd : Int} (move : ServiceMoves s (.close fd) after)
    (positive : 0 < fd) : fd ∈ s.held ∧ after.openFds = s.openFds.erase fd := by
  cases move with
  | uartClosed => exact ⟨Service.mem_held.mpr ⟨positive, Or.inl rfl⟩, rfl⟩
  | udpClosed => exact ⟨Service.mem_held.mpr ⟨positive, Or.inr (Or.inr rfl)⟩, rfl⟩
  | tcpClosed => exact ⟨Service.mem_held.mpr ⟨positive, Or.inr (Or.inl rfl)⟩, rfl⟩

theorem Service.Accounted.kept {s after : Service} {event : ServiceEvent} (accounted : s.Accounted)
    (move : ServiceMoves s event after) (fresh : ∀ fd, event.opened = some fd → fd ∉ s.openFds) :
    OwnershipKept ⟨s, event, after⟩ where
  before := accounted.owns
  after := (accounted.step move fresh).owns
  closes fd close positive := by
    obtain rfl : event = .close fd := close
    obtain ⟨held, erased⟩ := move.closes_held positive
    refine ⟨held, ?_⟩
    change fd ∉ after.openFds
    rw [erased, accounted.once.mem_erase_iff]
    exact fun kept => kept.1 rfl
  ends signNo past := by
    cases signNo <;> exact closeDescriptors_standard (w := ⟨after, past⟩) (accounted.step move fresh)

/-- The loop of `main` never ends, and between its steps exactly the held descriptors are open. -/
theorem mainLoop_owns (netAddr : SockaddrIn) (udpport : BitVec 16) (outcomes : List Outcomes)
    (fresh : FreshTrace (mainLoop ⟨serviceStart netAddr udpport, []⟩ outcomes).1.trace) :
    (mainLoop ⟨serviceStart netAddr udpport, []⟩ outcomes).2 = false ∧
      ∀ transition ∈ (mainLoop ⟨serviceStart netAddr udpport, []⟩ outcomes).1.trace,
        OwnershipKept transition := by
  rw [mainLoop_eq] at fresh ⊢
  refine ⟨rfl, ?_⟩
  have kept : (serviceRun (serviceStart netAddr udpport) outcomes).state.Accounted ∧
      ∀ transition ∈ (serviceRun (serviceStart netAddr udpport) outcomes).trace, OwnershipKept transition := by
    apply fresh.invariant (fun w => w.state.Accounted ∧ ∀ transition ∈ w.trace, OwnershipKept transition) _
      (serviceRun_path _ outcomes) ⟨serviceStart_accounted netAddr udpport, fun _ member => by cases member⟩
    intro world event after good move last
    refine ⟨good.1.step move last, ?_⟩
    intro transition member
    rcases List.mem_append.mp member with old | new
    · exact good.2 transition old
    · rw [List.mem_singleton.mp new]
      exact good.1.kept move last
  exact kept.2

/-- The run that writes a packet opens three descriptors and keeps them. -/
theorem mainLoop_owns_response :
    (mainLoop ⟨serviceStart ⟨0, 0, 0⟩ 5000, []⟩ responseOutcomes).2 = false ∧
      ∀ transition ∈ (mainLoop ⟨serviceStart ⟨0, 0, 0⟩ 5000, []⟩ responseOutcomes).1.trace,
        OwnershipKept transition :=
  mainLoop_owns ⟨0, 0, 0⟩ 5000 responseOutcomes (by decide +kernel)

end Psuart

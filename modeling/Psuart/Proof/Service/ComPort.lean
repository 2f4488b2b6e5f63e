import Psuart.Proof.Service.Tests
import Psuart.Proof.Utils.ComPort

namespace Psuart

/-- The UART descriptor is still the first one, or it was closed. -/
def UartStays (first : Int) (s : Service) : Prop := s.psudata.uartFd = first ∨ s.psudata.uartFd = 0

section Stays

variable {first : Int} {w : ServiceWorld} (stays : UartStays first w.state)
include stays

theorem UartStays.of_uartFd {s : Service} (same : s.psudata.uartFd = w.state.psudata.uartFd) : UartStays first s := by
  rw [UartStays, same]
  exact stays

theorem UartStays.closeTcpSocket : UartStays first (closeTcpSocket w).state :=
  stays.of_uartFd (closeTcpSocket_uartFd w)

theorem UartStays.closeUdpSocket : UartStays first (closeUdpSocket w).state := by
  simp only [Psuart.closeUdpSocket]
  split
  · exact stays.of_uartFd rfl
  · exact stays

omit stays in
theorem UartStays.closeUart : UartStays first (closeUart w).state := by
  simp only [Psuart.closeUart]
  split <;> exact Or.inr rfl

theorem UartStays.tcpWritable (o : Outcomes) : UartStays first (tcpWritable o w).state := by
  simp only [Psuart.tcpWritable]
  rcases tcpSocketStatus_cases o w with ⟨success, same, _⟩ | ⟨failure, closed | same⟩
  · rw [if_pos success, same]
    exact stays.of_uartFd rfl
  · rw [if_neg failure, closed]
    exact stays.closeTcpSocket.of_uartFd rfl
  · rw [if_neg failure, same]
    exact stays.of_uartFd rfl

theorem UartStays.uartReadable (o : Outcomes) (uartFd tcpFd : Int) :
    UartStays first (uartReadable o uartFd tcpFd w).state := by
  obtain ⟨rader, same⟩ := uartReadable_rader o uartFd tcpFd w
  exact stays.of_uartFd (by rw [same])

theorem UartStays.tcpReadable (o : Outcomes) (uartFd tcpFd : Int) :
    UartStays first (tcpReadable o uartFd tcpFd w).state := by
  obtain ⟨rader, same⟩ := tcpReadable_rader o uartFd tcpFd w
  exact stays.of_uartFd (by rw [same])

theorem UartStays.stdinReadable (o : Outcomes) (uartFd : Int) : UartStays first (stdinReadable o uartFd w).state :=
  stays.of_uartFd rfl

theorem UartStays.udpReadable (o : Outcomes) (uartFd udpFd : Int) :
    UartStays first (udpReadable o uartFd udpFd w).state := by
  simp only [Psuart.udpReadable]
  split
  · exact stays.of_uartFd rfl
  · split
    · simp only [udpCommand]
      split
      · exact UartStays.closeTcpSocket (stays.of_uartFd rfl)
      · exact stays.of_uartFd rfl
    · exact stays.of_uartFd rfl

theorem UartStays.closeMessages (readable : Int → Bool) (uartFd tcpFd udpFd : Int) :
    UartStays first (closeMessages readable uartFd tcpFd udpFd w).state := by
  have tcp : UartStays first (whenSet readable tcpFd Psuart.closeTcpSocket w).state :=
    whenSet_keeps (UartStays first) (fun w' same => UartStays.closeTcpSocket (same ▸ stays)) stays
  have uart : UartStays first (whenSet readable uartFd Psuart.closeUart
      (whenSet readable tcpFd Psuart.closeTcpSocket w)).state :=
    whenSet_keeps (UartStays first) (fun _ _ => UartStays.closeUart) tcp
  exact whenSet_keeps (UartStays first) (fun w' same => UartStays.closeUdpSocket (same ▸ uart)) uart

theorem UartStays.handleMessages (o : Outcomes) (readable writable : Int → Bool) (uartFd tcpFd udpFd : Int) :
    UartStays first (handleMessages o readable writable uartFd tcpFd udpFd w).state := by
  have status : UartStays first (whenSet writable tcpFd (Psuart.tcpWritable o) w).state :=
    whenSet_keeps (UartStays first) (fun w' same => UartStays.tcpWritable (same ▸ stays) o) stays
  have uart : UartStays first (handleUart o readable writable uartFd tcpFd w).state :=
    whenSet_keeps (UartStays first) (fun w' same => UartStays.uartReadable (same ▸ status) o uartFd tcpFd) status
  have tcp : UartStays first (whenSet readable tcpFd (Psuart.tcpReadable o uartFd tcpFd)
      (handleUart o readable writable uartFd tcpFd w)).state :=
    whenSet_keeps (UartStays first) (fun w' same => UartStays.tcpReadable (same ▸ uart) o uartFd tcpFd) uart
  have udp : UartStays first (whenSet readable udpFd (Psuart.udpReadable o uartFd udpFd)
      (whenSet readable tcpFd (Psuart.tcpReadable o uartFd tcpFd)
        (handleUart o readable writable uartFd tcpFd w))).state :=
    whenSet_keeps (UartStays first) (fun w' same => UartStays.udpReadable (same ▸ tcp) o uartFd udpFd) tcp
  exact whenSet_keeps (UartStays first) (fun w' same => UartStays.stdinReadable (same ▸ udp) o uartFd) udp

end Stays

/-- Behind an iteration the UART is open only when it was open before or `com_open` has opened it. -/
theorem waitMessageAndHandle_uartFd (o : Outcomes) (w : ServiceWorld)
    (positive : 0 < (waitMessageAndHandle o w).1.state.psudata.uartFd) :
    0 < w.state.psudata.uartFd ∨ 0 < o.comOpen := by
  have opening : 0 < (openDescriptors o w).1.state.psudata.uartFd →
      0 < w.state.psudata.uartFd ∨ 0 < o.comOpen := by
    have field : (openDescriptors o w).1.state.psudata.uartFd = (openUart o w).1.state.psudata.uartFd :=
      (startUdpSocket_fields o _).2.trans (startTcpSocket_uartFd o _)
    rw [field, openUart]
    intro opened
    by_cases held : w.state.psudata.uartFd > 0
    · exact Or.inl held
    · rw [if_neg held] at opened
      by_cases failed : o.comOpen ≤ 0
      · rw [if_pos failed] at opened
        exact Or.inr opened
      · exact Or.inr (by omega)
  obtain ⟨before, uartFd, tcpFd, udpFd, descriptors, ways⟩ := waitMessageAndHandle_cases o w
  rw [descriptors] at opening
  have start : UartStays before.state.psudata.uartFd before.state := Or.inl rfl
  have select : UartStays before.state.psudata.uartFd (selectFds uartFd tcpFd udpFd before).state := start
  have kept : UartStays before.state.psudata.uartFd (waitMessageAndHandle o w).1.state := by
    rcases ways with stopped | closed | handled
    · rw [stopped]
      exact start
    · rw [closed]
      exact select.closeMessages _ _ _ _
    · rw [handled]
      exact select.handleMessages _ _ _ _ _ _
  rcases kept with same | closed
  · exact opening (same ▸ positive)
  · omega

theorem portRun_snoc (dev : List Byte) (start : Service) (attributes : List Byte → Termios)
    (front : List (Outcomes × ComCalls)) (step : Outcomes × ComCalls) :
    portRun dev start attributes (front ++ [step]) = portStep dev (portRun dev start attributes front) step := by
  rw [portRun, List.foldl_append]
  rfl

/-- The account of the service counts the descriptors that `com_open` leaves open. -/
theorem openUart_comOpen (dev : List Byte) (attributes : List Byte → Termios) (o : Outcomes) (calls : ComCalls)
    {w : ServiceWorld} (closed : w.state.psudata.uartFd ≤ 0) (some : calls.openDev (comOpenPort dev).com ≠ 0) :
    (openUart { o with comOpen := (comOpen calls dev ⟨w.state.openFds, attributes⟩).1 } w).1.state.openFds =
      (comOpen calls dev ⟨w.state.openFds, attributes⟩).2.openFds := by
  obtain ⟨opens, fails⟩ := comOpen_descriptors calls dev ⟨w.state.openFds, attributes⟩
  rw [openUart, if_neg (by omega : ¬w.state.psudata.uartFd > 0)]
  by_cases failed : (comOpen calls dev ⟨w.state.openFds, attributes⟩).1 ≤ 0
  · rw [if_pos failed]
    exact (fails failed some).symm
  · rw [if_neg failed]
    exact (opens (by omega)).2.symm

section Configured

variable (settings : LineSettings) {count : Nat}

variable (omits : settings.Omits count)
include omits

/-- An iteration keeps what a run has reached. -/
theorem PortConfigured.step {start : Service} {attributes : List Byte → Termios}
    {front : List (Outcomes × ComCalls)} {state : ServiceWorld × ComWorld}
    (before : PortConfigured settings start attributes front state) (step : Outcomes × ComCalls) :
    PortConfigured settings start attributes (front ++ [step]) (portStep (settings.text count) state step) := by
  obtain ⟨w, port⟩ := state
  obtain ⟨⟨fds, length, run⟩, framed, clocked, others⟩ := before
  have service (fd : Int) : ∃ fds : List Int, fds.length = (front ++ [step]).length ∧
      (waitMessageAndHandle { step.1 with comOpen := fd } w).1 =
        serviceRun start (List.zipWith withComOpen (front ++ [step]) fds) := by
    refine ⟨fds ++ [fd], by simp [length], ?_⟩
    rw [List.zipWith_append length.symm, List.zipWith_cons_cons, List.zipWith_nil_left, serviceRun_snoc, ← run]
    rfl
  by_cases held : w.state.psudata.uartFd > 0
  · rw [portStep, if_pos held]
    exact {
      service := service step.1.comOpen
      framed := fun _ => framed held
      clocked := fun calls _ => clocked (fun step member => calls step (List.mem_append_left _ member)) held
      others := others }
  · rw [portStep, if_neg held]
    dsimp only
    have opened (positive : 0 < (waitMessageAndHandle { step.1 with comOpen :=
        (comOpen step.2 (settings.text count) { port with openFds := w.state.openFds }).1 } w).1.state.psudata.uartFd) :
        0 < (comOpen step.2 (settings.text count) { port with openFds := w.state.openFds }).1 :=
      (waitMessageAndHandle_uartFd _ w positive).resolve_left held
    exact {
      service := service _
      framed := fun positive => (settings.comOpen_framed omits step.2 _ (opened positive)).1
      clocked := fun calls positive => (settings.comOpen_framed omits step.2 _ (opened positive)).2
        (calls step (by simp))
      others := fun path other => by
        have device := settings.comOpenPort_text omits
        rw [comOpen_other step.2 (settings.text count) _ (by rw [device]; exact other)]
        exact others path other }

theorem portRun_keeps (start : Service) (closed : start.psudata.uartFd = 0) (attributes : List Byte → Termios)
    (steps : List (Outcomes × ComCalls)) :
    PortConfigured settings start attributes steps (portRun (settings.text count) start attributes steps) := by
  induction steps using List.reverseRecOn with
  | nil =>
      have positive : ¬0 < start.psudata.uartFd := by omega
      exact {
        service := ⟨[], rfl, rfl⟩
        framed := fun opened => absurd opened positive
        clocked := fun _ opened => absurd opened positive
        others := fun _ _ => rfl }
  | append_singleton front step ih =>
      rw [portRun_snoc]
      exact ih.step settings omits step

/-- In every run an open UART has the settings of its string, and the account of `com_open` is exact. -/
theorem portRun_configured (netAddr : SockaddrIn) (udpport : BitVec 16) (attributes : List Byte → Termios)
    (steps : List (Outcomes × ComCalls)) :
    let run := portRun (settings.text count) (serviceStart netAddr udpport) attributes steps
    PortConfigured settings (serviceStart netAddr udpport) attributes steps run ∧
      ∀ (o : Outcomes) (calls : ComCalls), run.1.state.psudata.uartFd ≤ 0 →
        calls.openDev settings.com ∉ run.1.state.openFds →
        let opened := comOpen calls (settings.text count) { run.2 with openFds := run.1.state.openFds }
        (openUart { o with comOpen := opened.1 } run.1).1.state.openFds = opened.2.openFds := by
  intro run
  have configured : PortConfigured settings (serviceStart netAddr udpport) attributes steps run :=
    portRun_keeps settings omits (serviceStart netAddr udpport) rfl attributes steps
  refine ⟨configured, ?_⟩
  intro o calls closed fresh
  obtain ⟨fds, _, service⟩ := configured.service
  have stdin : 0 ∈ run.1.state.openFds := service ▸ serviceRun_stdin netAddr udpport _
  apply openUart_comOpen (settings.text count) run.2.attributes o calls closed
  rw [settings.comOpenPort_text omits]
  intro zero
  exact fresh (zero ▸ stdin)

end Configured

/-- The first iteration fails to open the device, and the second one opens it. -/
def portSteps : List (Outcomes × ComCalls) :=
  [(quietOutcomes, { readyCalls with openDev := fun _ => -1 }), (quietOutcomes, readyCalls)]

theorem portRun_configured_even :
    (portRun (evenSettings.text 4) (serviceStart ⟨0, 0, 0⟩ 5000) (fun _ => cookedTermios)
        portSteps).1.state.psudata.uartFd = 3 ∧
      evenSettings.Framed ((portRun (evenSettings.text 4) (serviceStart ⟨0, 0, 0⟩ 5000) (fun _ => cookedTermios)
        portSteps).2.attributes (stringBytes "/dev/ttyS1")) := by
  have opened : (portRun (evenSettings.text 4) (serviceStart ⟨0, 0, 0⟩ 5000) (fun _ => cookedTermios)
      portSteps).1.state.psudata.uartFd = 3 := by decide +kernel
  have configured :=
    (portRun_configured evenSettings evenSettings_omits ⟨0, 0, 0⟩ 5000 (fun _ => cookedTermios) portSteps).1
  exact ⟨opened, configured.framed (by rw [opened]; decide)⟩

end Psuart

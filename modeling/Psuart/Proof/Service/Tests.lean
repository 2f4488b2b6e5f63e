import Psuart.Proof.Service.Teardown
import Psuart.Spec.Tests

namespace Psuart

/-- The descriptor is open and is not the TCP socket of the service. -/
structure OpenApart (fd : Int) (s : Service) : Prop where
  opened : fd ∈ s.openFds
  tcp : 0 < s.psudata.tcpFd → s.psudata.tcpFd ≠ fd

theorem OpenApart.stdin {s : Service} (opened : 0 ∈ s.openFds) : OpenApart 0 s :=
  ⟨opened, Int.ne_of_gt⟩

theorem Service.release_opened {fd other : Int} {s : Service} (different : other ≠ fd)
    (opened : fd ∈ s.openFds) : fd ∈ (s.release other).openFds :=
  (List.mem_erase_of_ne different.symm).mpr opened

/-- A close of the TCP socket leaves every other descriptor open. -/
theorem OpenApart.closeTcpSocket {fd : Int} {w : ServiceWorld} (apart : OpenApart fd w.state) :
    OpenApart fd (closeTcpSocket w).state := by
  simp only [Psuart.closeTcpSocket]
  split
  · rename_i positive
    exact ⟨Service.release_opened (apart.tcp positive) apart.opened,
      fun opened => absurd opened (Int.lt_irrefl 0)⟩
  · exact apart

theorem OpenApart.closeUart {fd : Int} {w : ServiceWorld} (apart : OpenApart fd w.state)
    (other : 0 < w.state.psudata.uartFd → w.state.psudata.uartFd ≠ fd) :
    OpenApart fd (closeUart w).state := by
  simp only [Psuart.closeUart]
  split
  · rename_i positive
    exact ⟨Service.release_opened (other positive) apart.opened, apart.tcp⟩
  · exact ⟨apart.opened, apart.tcp⟩

theorem OpenApart.closeUdpSocket {fd : Int} {w : ServiceWorld} (apart : OpenApart fd w.state)
    (other : 0 < w.state.psudata.udpFd → w.state.psudata.udpFd ≠ fd) :
    OpenApart fd (closeUdpSocket w).state := by
  simp only [Psuart.closeUdpSocket]
  split
  · rename_i positive
    exact ⟨Service.release_opened (other positive) apart.opened, apart.tcp⟩
  · exact apart

/-- The status check closes at most the TCP socket. -/
theorem OpenApart.tcpWritable {fd : Int} {w : ServiceWorld} (apart : OpenApart fd w.state) (o : Outcomes) :
    OpenApart fd (tcpWritable o w).state := by
  simp only [Psuart.tcpWritable]
  rcases tcpSocketStatus_cases o w with ⟨success, same, _⟩ | ⟨failure, closed | same⟩
  · rw [if_pos success, same]
    exact ⟨apart.opened, apart.tcp⟩
  · rw [if_neg failure, closed]
    exact ⟨apart.closeTcpSocket.opened, apart.closeTcpSocket.tcp⟩
  · rw [if_neg failure, same]
    exact ⟨apart.opened, apart.tcp⟩

theorem tcpReadable_rader (o : Outcomes) (uartFd tcpFd : Int) (w : ServiceWorld) :
    ∃ rader, (tcpReadable o uartFd tcpFd w).state = { w.state with rader := rader } := by
  simp only [tcpReadable]
  split
  · exact ⟨_, rfl⟩
  · split <;> exact ⟨_, rfl⟩

theorem OpenApart.uartReadable {fd : Int} {w : ServiceWorld} (apart : OpenApart fd w.state) (o : Outcomes)
    (uartFd tcpFd : Int) : OpenApart fd (uartReadable o uartFd tcpFd w).state := by
  obtain ⟨rader, same⟩ := uartReadable_rader o uartFd tcpFd w
  rw [same]
  exact ⟨apart.opened, apart.tcp⟩

theorem OpenApart.tcpReadable {fd : Int} {w : ServiceWorld} (apart : OpenApart fd w.state) (o : Outcomes)
    (uartFd tcpFd : Int) : OpenApart fd (tcpReadable o uartFd tcpFd w).state := by
  obtain ⟨rader, same⟩ := tcpReadable_rader o uartFd tcpFd w
  rw [same]
  exact ⟨apart.opened, apart.tcp⟩

/-- A datagram closes at most the TCP socket. -/
theorem OpenApart.udpReadable {fd : Int} {w : ServiceWorld} (apart : OpenApart fd w.state) (o : Outcomes)
    (uartFd udpFd : Int) : OpenApart fd (udpReadable o uartFd udpFd w).state := by
  simp only [Psuart.udpReadable]
  split
  · exact ⟨apart.opened, apart.tcp⟩
  · split
    · simp only [udpCommand]
      split
      · exact OpenApart.closeTcpSocket ⟨apart.opened, apart.tcp⟩
      · exact ⟨apart.opened, apart.tcp⟩
    · exact ⟨apart.opened, apart.tcp⟩

/-- A branch that keeps a property of the state keeps it behind its test. -/
theorem whenSet_keeps (good : Service → Prop) {set : Int → Bool} {fd : Int}
    {branch : ServiceWorld → ServiceWorld} {w : ServiceWorld}
    (keeps : ∀ w', w'.state = w.state → good (branch w').state) (before : good w.state) :
    good (whenSet set fd branch w).state := by
  simp only [whenSet]
  split
  · exact keeps _ rfl
  · exact before

/-- The standard input stays open behind a failed `select`. -/
theorem closeMessages_stdin (readable : Int → Bool) (uartFd tcpFd udpFd : Int) (w : ServiceWorld)
    (opened : 0 ∈ w.state.openFds) : 0 ∈ (closeMessages readable uartFd tcpFd udpFd w).state.openFds := by
  have start := OpenApart.stdin opened
  have tcp : OpenApart 0 (whenSet readable tcpFd closeTcpSocket w).state :=
    whenSet_keeps (OpenApart 0) (fun w' same => OpenApart.closeTcpSocket (same ▸ start)) start
  have uart : OpenApart 0 (whenSet readable uartFd closeUart (whenSet readable tcpFd closeTcpSocket w)).state :=
    whenSet_keeps (OpenApart 0) (fun w' same => OpenApart.closeUart (same ▸ tcp) Int.ne_of_gt) tcp
  have udp : OpenApart 0 (closeMessages readable uartFd tcpFd udpFd w).state :=
    whenSet_keeps (OpenApart 0) (fun w' same => OpenApart.closeUdpSocket (same ▸ uart) Int.ne_of_gt) uart
  exact udp.opened

/-- A descriptor apart from the TCP socket stays open until the datagrams are read. -/
theorem handled_apart {fd : Int} {w : ServiceWorld} (apart : OpenApart fd w.state) (o : Outcomes)
    (readable writable : Int → Bool) (uartFd tcpFd : Int) :
    OpenApart fd (whenSet writable tcpFd (tcpWritable o) w).state ∧
      OpenApart fd (whenSet readable tcpFd (tcpReadable o uartFd tcpFd)
        (handleUart o readable writable uartFd tcpFd w)).state := by
  have status : OpenApart fd (whenSet writable tcpFd (tcpWritable o) w).state :=
    whenSet_keeps (OpenApart fd) (fun w' same => OpenApart.tcpWritable (same ▸ apart) o) apart
  have uart : OpenApart fd (handleUart o readable writable uartFd tcpFd w).state :=
    whenSet_keeps (OpenApart fd) (fun w' same => OpenApart.uartReadable (same ▸ status) o uartFd tcpFd) status
  exact ⟨status,
    whenSet_keeps (OpenApart fd) (fun w' same => OpenApart.tcpReadable (same ▸ uart) o uartFd tcpFd) uart⟩

/-- The standard input stays open until its own test. -/
theorem handled_stdin (o : Outcomes) (readable writable : Int → Bool) (uartFd tcpFd udpFd : Int)
    {w : ServiceWorld} (opened : 0 ∈ w.state.openFds) :
    OpenApart 0 (whenSet readable udpFd (udpReadable o uartFd udpFd)
      (whenSet readable tcpFd (tcpReadable o uartFd tcpFd)
        (handleUart o readable writable uartFd tcpFd w))).state := by
  have tcp := (handled_apart (.stdin opened) o readable writable uartFd tcpFd).2
  exact whenSet_keeps (OpenApart 0) (fun w' same => OpenApart.udpReadable (same ▸ tcp) o uartFd udpFd) tcp

theorem handleMessages_stdin (o : Outcomes) (readable writable : Int → Bool) (uartFd tcpFd udpFd : Int)
    {w : ServiceWorld} (opened : 0 ∈ w.state.openFds) :
    0 ∈ (handleMessages o readable writable uartFd tcpFd udpFd w).state.openFds := by
  have udp := (handled_stdin o readable writable uartFd tcpFd udpFd opened).opened
  exact whenSet_keeps (fun s => 0 ∈ s.openFds) (fun w' same => show 0 ∈ w'.state.openFds from same ▸ udp) udp

theorem openUart_keeps {fd : Int} (o : Outcomes) (w : ServiceWorld) (opened : fd ∈ w.state.openFds) :
    fd ∈ (openUart o w).1.state.openFds := by
  simp only [openUart]
  split
  · exact opened
  · split
    · exact opened
    · exact List.mem_cons_of_mem _ opened

/-- A socket that is closed at once leaves the open descriptors as they were. -/
theorem startTcpSocket_keeps {fd : Int} (o : Outcomes) (w : ServiceWorld) (opened : fd ∈ w.state.openFds) :
    fd ∈ (startTcpSocket o w).1.state.openFds := by
  simp only [startTcpSocket]
  split
  · exact opened
  · split
    · exact opened
    · split
      · change fd ∈ (o.tcpSocket :: w.state.openFds).erase o.tcpSocket
        rwa [List.erase_cons_head]
      · exact List.mem_cons_of_mem _ opened

theorem startUdpSocket_keeps {fd : Int} (o : Outcomes) (w : ServiceWorld) (opened : fd ∈ w.state.openFds) :
    fd ∈ (startUdpSocket o w).1.state.openFds := by
  simp only [startUdpSocket]
  split
  · exact opened
  · split
    · exact opened
    · split
      · exact List.mem_cons_of_mem _ opened
      · change fd ∈ (o.udpSocket :: w.state.openFds).erase o.udpSocket
        rwa [List.erase_cons_head]

theorem openDescriptors_keeps {fd : Int} (o : Outcomes) (w : ServiceWorld) (opened : fd ∈ w.state.openFds) :
    fd ∈ (openDescriptors o w).1.state.openFds :=
  startUdpSocket_keeps o _ (startTcpSocket_keeps o _ (openUart_keeps o w opened))

/-- The standard input stays open in every iteration. -/
theorem waitMessageAndHandle_stdin (o : Outcomes) (w : ServiceWorld) (opened : 0 ∈ w.state.openFds) :
    0 ∈ (waitMessageAndHandle o w).1.state.openFds := by
  obtain ⟨before, uartFd, tcpFd, udpFd, descriptors, ways⟩ := waitMessageAndHandle_cases o w
  have start := openDescriptors_keeps o w opened
  rw [descriptors] at start
  rcases ways with stopped | closed | handled
  · rw [stopped]
    exact start
  · rw [closed]
    exact closeMessages_stdin _ _ _ _ _ start
  · rw [handled]
    exact handleMessages_stdin _ _ _ _ _ _ start

/-- The service never closes its standard input. -/
theorem serviceRun_stdin (netAddr : SockaddrIn) (udpport : BitVec 16) (outcomes : List Outcomes) :
    0 ∈ (serviceRun (serviceStart netAddr udpport) outcomes).state.openFds := by
  induction outcomes using List.reverseRecOn with
  | nil => exact List.mem_cons_self
  | append_singleton front o ih =>
      rw [serviceRun_snoc]
      exact waitMessageAndHandle_stdin o _ ih

/-- A local descriptor is positive behind a successful opening and negative behind a failed one. -/
def LocalOpens (opens : Prop) (fd : Int) : Prop := opens ∧ 0 < fd ∨ ¬opens ∧ fd < 0

theorem LocalOpens.index_iff {opens : Prop} {fd : Int} (way : LocalOpens opens fd) : 0 ≤ fd ↔ opens := by
  rcases way with ⟨opened, positive⟩ | ⟨failed, negative⟩
  · exact iff_of_true (Int.le_of_lt positive) opened
  · exact iff_of_false (Int.not_le.mpr negative) failed

theorem LocalOpens.positive_iff {opens : Prop} {fd : Int} (way : LocalOpens opens fd) : 0 < fd ↔ opens := by
  rcases way with ⟨opened, positive⟩ | ⟨failed, negative⟩
  · exact iff_of_true positive opened
  · exact iff_of_false (by omega) failed

theorem openUart_opens (o : Outcomes) (w : ServiceWorld) : LocalOpens (UartOpens o w.state) (openUart o w).2 := by
  unfold openUart UartOpens
  split
  · rename_i held
    exact Or.inl ⟨Or.inl held, held⟩
  · rename_i closed
    split
    · rename_i failed
      exact Or.inr ⟨by omega, (by decide : (-1 : Int) < 0)⟩
    · rename_i opened
      exact Or.inl ⟨Or.inr (Int.not_le.mp opened), Int.not_le.mp opened⟩

/-- The system hands out a new descriptor for a closed socket. -/
theorem startTcpSocket_fresh (o : Outcomes) (w : ServiceWorld) (closed : ¬w.state.psudata.tcpFd > 0)
    (fresh : FreshTrace (startTcpSocket o w).1.trace) (opened : o.tcpSocket ≠ -1) :
    o.tcpSocket ∉ w.state.openFds := by
  have logged : ∃ after, ⟨w.state, .tcpSocket o.tcpSocket, after⟩ ∈ (startTcpSocket o w).1.trace := by
    simp only [startTcpSocket, if_neg closed, if_neg opened]
    split
    · exact ⟨_, List.mem_append_left _ List.mem_concat_self⟩
    · exact ⟨_, List.mem_concat_self⟩
  obtain ⟨after, member⟩ := logged
  exact fresh _ member _ (by simp [ServiceEvent.opened, opened])

theorem startUdpSocket_fresh (o : Outcomes) (w : ServiceWorld) (closed : ¬w.state.psudata.udpFd > 0)
    (fresh : FreshTrace (startUdpSocket o w).1.trace) (opened : o.udpSocket ≠ -1) :
    o.udpSocket ∉ w.state.openFds := by
  have logged : ∃ after, ⟨w.state, .udpSocket o.udpSocket, after⟩ ∈ (startUdpSocket o w).1.trace := by
    simp only [startUdpSocket, if_neg closed, if_neg opened]
    split
    · exact ⟨_, List.mem_concat_self⟩
    · exact ⟨_, List.mem_append_left _ List.mem_concat_self⟩
  obtain ⟨after, member⟩ := logged
  exact fresh _ member _ (by simp [ServiceEvent.opened, opened])

/-- The descriptor of a new socket is not the standard input, since that is open. -/
theorem startTcpSocket_opens (o : Outcomes) (w : ServiceWorld) (stdin : 0 ∈ w.state.openFds)
    (fresh : FreshTrace (startTcpSocket o w).1.trace) :
    LocalOpens (TcpOpens o w.state) (startTcpSocket o w).2 := by
  by_cases held : w.state.psudata.tcpFd > 0
  · rw [startTcpSocket, if_pos held]
    exact Or.inl ⟨Or.inl held, held⟩
  · have new := startTcpSocket_fresh o w held fresh
    simp only [startTcpSocket, if_neg held]
    split
    · rename_i failed
      exact Or.inr ⟨by simp [TcpOpens, held, failed], (by decide : (-1 : Int) < 0)⟩
    · rename_i opened
      have other : o.tcpSocket ≠ 0 := fun zero => new opened (zero ▸ stdin)
      split
      · rename_i failed
        exact Or.inr ⟨by simp [TcpOpens, held, failed], (by decide : (-2 : Int) < 0)⟩
      · rename_i connects
        rcases Int.lt_or_lt_of_ne other with negative | positive
        · exact Or.inr ⟨by simp only [TcpOpens]; omega, negative⟩
        · exact Or.inl ⟨Or.inr ⟨positive, connects⟩, positive⟩

theorem startUdpSocket_opens (o : Outcomes) (w : ServiceWorld) (stdin : 0 ∈ w.state.openFds)
    (fresh : FreshTrace (startUdpSocket o w).1.trace) :
    LocalOpens (UdpOpens o w.state) (startUdpSocket o w).2 := by
  by_cases held : w.state.psudata.udpFd > 0
  · rw [startUdpSocket, if_pos held]
    exact Or.inl ⟨Or.inl held, held⟩
  · have new := startUdpSocket_fresh o w held fresh
    simp only [startUdpSocket, if_neg held]
    split
    · rename_i failed
      exact Or.inr ⟨by simp [UdpOpens, held, failed], (by decide : (-1 : Int) < 0)⟩
    · rename_i opened
      have other : o.udpSocket ≠ 0 := fun zero => new opened (zero ▸ stdin)
      split
      · rename_i bound
        rcases Int.lt_or_lt_of_ne other with negative | positive
        · exact Or.inr ⟨by simp only [UdpOpens]; omega, negative⟩
        · exact Or.inl ⟨Or.inr ⟨positive, bound⟩, positive⟩
      · rename_i unbound
        exact Or.inr ⟨by simp [UdpOpens, held, unbound], (by decide : (-2 : Int) < 0)⟩

theorem openUart_fields (o : Outcomes) (w : ServiceWorld) :
    (openUart o w).1.state.psudata.tcpFd = w.state.psudata.tcpFd ∧
      (openUart o w).1.state.psudata.udpFd = w.state.psudata.udpFd := by
  unfold openUart
  split
  · exact ⟨rfl, rfl⟩
  · split <;> exact ⟨rfl, rfl⟩

theorem startTcpSocket_udpFd (o : Outcomes) (w : ServiceWorld) :
    (startTcpSocket o w).1.state.psudata.udpFd = w.state.psudata.udpFd := by
  simp only [startTcpSocket]
  split
  · rfl
  · split
    · rfl
    · split <;> rfl

/-- The signs of the three locals tell which descriptors the iteration opens. -/
structure LocalsOpen (o : Outcomes) (s : Service) (uartFd tcpFd udpFd : Int) : Prop where
  uart : LocalOpens (UartOpens o s) uartFd
  tcp : LocalOpens (TcpOpens o s) tcpFd
  udp : LocalOpens (UdpOpens o s) udpFd

theorem openDescriptors_opens (o : Outcomes) (w : ServiceWorld) (stdin : 0 ∈ w.state.openFds)
    (fresh : FreshTrace (openDescriptors o w).1.trace) :
    LocalsOpen o w.state (openDescriptors o w).2.1 (openDescriptors o w).2.2.1 (openDescriptors o w).2.2.2 where
  uart := openUart_opens o w
  tcp := by
    have path := freePath_service (startUdpSocket_path o (startTcpSocket o (openUart o w).1).1)
    have opens := startTcpSocket_opens o (openUart o w).1 (openUart_keeps o w stdin) (fresh.front path)
    rwa [TcpOpens, (openUart_fields o w).1] at opens
  udp := by
    have opens := startUdpSocket_opens o (startTcpSocket o (openUart o w).1).1
      (startTcpSocket_keeps o _ (openUart_keeps o w stdin)) fresh
    rwa [UdpOpens, startTcpSocket_udpFd, (openUart_fields o w).2] at opens

/-- All three locals hold different open descriptors. -/
structure OpenLocals (uartFd tcpFd udpFd : Int) (s : Service) : Prop where
  held : LocalsHeld uartFd tcpFd udpFd s
  distinct : s.Distinct
  uart : 0 < uartFd
  tcp : 0 < tcpFd
  udp : 0 < udpFd

section OpenLocals

variable {uartFd tcpFd udpFd : Int} {s : Service} (locals : OpenLocals uartFd tcpFd udpFd s)

include locals

theorem OpenLocals.uartField : s.psudata.uartFd = uartFd := locals.held.uart locals.uart

theorem OpenLocals.tcpField : s.psudata.tcpFd = tcpFd := by
  rcases locals.held.tcp with same | ⟨negative, _⟩
  · exact same.symm
  · exact absurd locals.tcp (Int.not_lt.mpr negative)

theorem OpenLocals.udpField : s.psudata.udpFd = udpFd := locals.held.udp locals.udp

theorem OpenLocals.uartApart : OpenApart uartFd s := by
  have opened := locals.distinct.uart
  have other := locals.distinct.uartTcp
  rw [locals.uartField] at opened other
  exact ⟨opened locals.uart, fun _ => (other locals.uart).symm⟩

theorem OpenLocals.udpApart : OpenApart udpFd s := by
  have opened := locals.distinct.udp
  have other := locals.distinct.tcpUdp
  rw [locals.udpField] at opened other
  exact ⟨opened locals.udp, other⟩

theorem OpenLocals.tcpOpened : tcpFd ∈ s.openFds := by
  have opened := locals.distinct.tcp
  rw [locals.tcpField] at opened
  exact opened locals.tcp

theorem OpenLocals.uartUdp : s.psudata.uartFd ≠ udpFd := by
  have other := locals.distinct.uartUdp
  rw [locals.uartField, locals.udpField] at other
  rw [locals.uartField]
  exact other locals.uart

end OpenLocals

theorem closeTcpSocket_uartFd (w : ServiceWorld) :
    (closeTcpSocket w).state.psudata.uartFd = w.state.psudata.uartFd := by
  simp only [closeTcpSocket]
  split <;> rfl

/-- With three open descriptors a failed `select` is followed by safe tests. -/
theorem closeTests_safe {uartFd tcpFd udpFd : Int} {w : ServiceWorld}
    (locals : OpenLocals uartFd tcpFd udpFd w.state) (readable : Int → Bool) :
    ∀ test ∈ closeTests readable uartFd tcpFd udpFd w, test.Safe := by
  have uart : OpenApart uartFd (whenSet readable tcpFd closeTcpSocket w).state :=
    whenSet_keeps (OpenApart uartFd) (fun w' same => OpenApart.closeTcpSocket (same ▸ locals.uartApart))
      locals.uartApart
  have tcp : OpenApart udpFd (whenSet readable tcpFd closeTcpSocket w).state :=
    whenSet_keeps (OpenApart udpFd) (fun w' same => OpenApart.closeTcpSocket (same ▸ locals.udpApart))
      locals.udpApart
  have field : (whenSet readable tcpFd closeTcpSocket w).state.psudata.uartFd ≠ udpFd :=
    whenSet_keeps (fun s => s.psudata.uartFd ≠ udpFd)
      (fun w' same => by
        rw [closeTcpSocket_uartFd, same]
        exact locals.uartUdp)
      locals.uartUdp
  have udp : OpenApart udpFd
      (whenSet readable uartFd closeUart (whenSet readable tcpFd closeTcpSocket w)).state :=
    whenSet_keeps (OpenApart udpFd)
      (fun w' same => OpenApart.closeUart (same ▸ tcp) (fun _ => by rw [same]; exact field)) tcp
  simp only [closeTests, List.forall_mem_cons]
  exact ⟨⟨Int.le_of_lt locals.tcp, fun _ => locals.tcpOpened⟩,
    ⟨Int.le_of_lt locals.uart, fun _ => uart.opened⟩, ⟨Int.le_of_lt locals.udp, fun _ => udp.opened⟩,
    fun _ member => absurd member List.not_mem_nil⟩

/-- With three open descriptors a successful `select` is followed by safe tests. -/
theorem handleTests_safe {uartFd tcpFd udpFd : Int} {w : ServiceWorld} (o : Outcomes)
    (locals : OpenLocals uartFd tcpFd udpFd w.state) (stdin : 0 ∈ w.state.openFds) :
    ∀ test ∈ handleTests o (fdIsset (watchedReads w.state uartFd tcpFd udpFd) o.readable)
      (fdIsset (watchedWrites w.state tcpFd) o.writable) uartFd tcpFd udpFd w, test.Safe := by
  generalize readSet : fdIsset (watchedReads w.state uartFd tcpFd udpFd) o.readable = readable
  generalize writeSet : fdIsset (watchedWrites w.state tcpFd) o.writable = writable
  have uart := (handled_apart locals.uartApart o readable writable uartFd tcpFd).1
  have udp := (handled_apart locals.udpApart o readable writable uartFd tcpFd).2
  have typed := handled_stdin o readable writable uartFd tcpFd udpFd stdin
  -- a socket that is set for reading is connected, and then the status check before it was skipped
  have tcp (set : readable tcpFd = true) :
      tcpFd ∈ (handleUart o readable writable uartFd tcpFd w).state.openFds := by
    rw [← readSet] at set
    have unset : writable tcpFd = false :=
      writeSet ▸ watchedWrites_unset locals.held locals.distinct locals.tcp set o.writable
    have status : tcpFd ∈ (whenSet writable tcpFd (tcpWritable o) w).state.openFds := by
      simp only [whenSet, unset]
      exact locals.tcpOpened
    apply whenSet_keeps (fun s => tcpFd ∈ s.openFds) _ status
    intro w' same
    obtain ⟨rader, equal⟩ := uartReadable_rader o uartFd tcpFd w'
    rw [equal, same]
    exact status
  simp only [handleTests, List.forall_mem_cons]
  exact ⟨⟨Int.le_of_lt locals.tcp, fun _ => locals.tcpOpened⟩,
    ⟨Int.le_of_lt locals.uart, fun _ => uart.opened⟩, ⟨Int.le_of_lt locals.tcp, tcp⟩,
    ⟨Int.le_of_lt locals.udp, fun _ => udp.opened⟩,
    ⟨Int.le_refl 0, fun _ => typed.opened⟩, fun _ member => absurd member List.not_mem_nil⟩

/-- Behind `select` each of the three locals is tested. -/
theorem tests_index {o : Outcomes} {readable writable : Int → Bool} {uartFd tcpFd udpFd : Int}
    {w : ServiceWorld}
    (safe : ∀ test ∈ (if 0 ≥ o.select then closeTests readable uartFd tcpFd udpFd w
      else handleTests o readable writable uartFd tcpFd udpFd w), test.Safe) :
    0 ≤ uartFd ∧ 0 ≤ tcpFd ∧ 0 ≤ udpFd := by
  split at safe
  · simp only [closeTests, List.forall_mem_cons] at safe
    exact ⟨safe.2.1.index, safe.1.index, safe.2.2.1.index⟩
  · simp only [handleTests, List.forall_mem_cons] at safe
    exact ⟨safe.2.1.index, safe.1.index, safe.2.2.2.1.index⟩

/-- The tests of an iteration are safe exactly when it opens all three descriptors or stops before `select`. -/
theorem testsSafely_iff (o : Outcomes) (w : ServiceWorld) (stdin : 0 ∈ w.state.openFds)
    (distinct : (openDescriptors o w).1.state.Distinct) (fresh : FreshTrace (openDescriptors o w).1.trace) :
    TestsSafely o w ↔ OpensForTests o w.state := by
  have held := openDescriptors_locals o w
  have opens := openDescriptors_opens o w stdin fresh
  have kept := openDescriptors_keeps o w stdin
  rcases descriptors : openDescriptors o w with ⟨before, uartFd, tcpFd, udpFd⟩
  rw [descriptors] at held opens kept distinct
  simp only [TestsSafely, waitMessageAndHandleTests, descriptors]
  by_cases stops : uartFd ≤ 0 ∧ udpFd ≤ 0
  · rw [if_pos stops]
    apply iff_of_true
    · exact fun _ member => absurd member List.not_mem_nil
    · exact Or.inr ⟨fun opened => Int.not_lt.mpr stops.1 (opens.uart.positive_iff.mpr opened),
        fun opened => Int.not_lt.mpr stops.2 (opens.udp.positive_iff.mpr opened)⟩
  · rw [if_neg stops]
    constructor
    · intro safe
      obtain ⟨uart, tcp, udp⟩ := tests_index safe
      exact Or.inl ⟨opens.uart.index_iff.mp uart, opens.tcp.index_iff.mp tcp, opens.udp.index_iff.mp udp⟩
    · rintro (⟨uart, tcp, udp⟩ | ⟨uart, udp⟩)
      · have locals : OpenLocals uartFd tcpFd udpFd (selectFds uartFd tcpFd udpFd before).state :=
          ⟨held, distinct, opens.uart.positive_iff.mpr uart, opens.tcp.positive_iff.mpr tcp,
            opens.udp.positive_iff.mpr udp⟩
        split
        · exact closeTests_safe locals _
        · exact handleTests_safe o locals kept
      · rw [← opens.uart.positive_iff] at uart
        rw [← opens.udp.positive_iff] at udp
        exact absurd ⟨Int.not_lt.mp uart, Int.not_lt.mp udp⟩ stops

/-- The descriptors of an iteration are tested safely exactly when all three open in it or neither the UART
nor the datagram socket does. -/
theorem serviceRun_tests_iff (netAddr : SockaddrIn) (udpport : BitVec 16) (outcomes : List Outcomes)
    (fresh : FreshTrace (serviceRun (serviceStart netAddr udpport) outcomes).trace) :
    ∀ front o back, outcomes = front ++ o :: back →
      (TestsSafely o (serviceRun (serviceStart netAddr udpport) front) ↔
        OpensForTests o (serviceRun (serviceStart netAddr udpport) front).state) := by
  rintro front o back rfl
  exact testsSafely_iff o _ (serviceRun_stdin netAddr udpport front)
    (serviceRun_distinct netAddr udpport front back o fresh)
    (fresh.front (serviceRun_opening_rest netAddr udpport front back o))

/-- The datagram branch closes the socket of the confirmed connection before the last test. -/
theorem serviceRun_tests_closing :
    TestsSafely closingOutcomes (serviceRun (serviceStart ⟨0, 0, 0⟩ 5000) [confirmingOutcomes]) :=
  (serviceRun_tests_iff ⟨0, 0, 0⟩ 5000 [confirmingOutcomes, closingOutcomes, quietOutcomes] (by decide +kernel)
    [confirmingOutcomes] closingOutcomes [quietOutcomes] rfl).mpr
      (Or.inl ⟨Or.inr (by decide), Or.inr (by decide), Or.inr (by decide)⟩)

/-- The connection fails at once. -/
def refusedOutcomes : Outcomes := { quietOutcomes with connect := .failed }

/-- The failure code of the socket is tested for writing and for reading. -/
theorem waitMessageAndHandle_tests_failure :
    FreshTrace (serviceRun (serviceStart ⟨0, 0, 0⟩ 5000) [refusedOutcomes]).trace ∧
      (waitMessageAndHandleTests refusedOutcomes (serviceRun (serviceStart ⟨0, 0, 0⟩ 5000) [])).map FdTest.fd =
        [-2, 3, -2, 5, 0] ∧
      ¬TestsSafely refusedOutcomes (serviceRun (serviceStart ⟨0, 0, 0⟩ 5000) []) := by
  refine ⟨by decide +kernel, by decide +kernel, ?_⟩
  intro safe
  have index := (safe _ List.mem_cons_self).index
  exact absurd index (by decide)

end Psuart

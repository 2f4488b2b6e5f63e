import Psuart.Proof.Rader.FrameParser
import Psuart.Proof.Service.Teardown
import Psuart.Proof.Service.Waiting
import Psuart.Spec.Drops

namespace Psuart

theorem whenSet_descriptor {set : Int → Bool} {fd : Int} {branch : ServiceWorld → ServiceWorld} {w : ServiceWorld}
    {d : Descriptor} {value : Int} (closes : ∀ v, v.state = w.state → (branch v).state.descriptor d = value) :
    (whenSet set fd branch w).state.descriptor d = if set fd = true then value else w.state.descriptor d := by
  simp only [whenSet]
  split
  · exact closes _ rfl
  · rfl

theorem whenSet_descriptor_same {set : Int → Bool} {fd : Int} {branch : ServiceWorld → ServiceWorld}
    {w : ServiceWorld} {d : Descriptor}
    (keeps : ∀ v, (branch v).state.descriptor d = v.state.descriptor d) :
    (whenSet set fd branch w).state.descriptor d = w.state.descriptor d := by
  rw [whenSet_descriptor fun v same => (keeps v).trans (by rw [same]), ite_self]

/-- The functions of the TCP connection keep the other descriptors. -/
theorem closeTcpSocket_descriptor {d : Descriptor} (other : d ≠ .tcp) (w : ServiceWorld) :
    (closeTcpSocket w).state.descriptor d = w.state.descriptor d := by
  simp only [closeTcpSocket]
  split
  · cases d with
    | tcp => exact absurd rfl other
    | _ => rfl
  · rfl

theorem closeTcpSocket_tcp {w : ServiceWorld} (nonneg : 0 ≤ w.state.descriptor .tcp) :
    (closeTcpSocket w).state.descriptor .tcp = 0 := by
  simp only [closeTcpSocket]
  split
  · rfl
  · rename_i closed
    exact le_antisymm (Int.not_lt.mp closed) nonneg

theorem closeUart_descriptor (w : ServiceWorld) (d : Descriptor) :
    (closeUart w).state.descriptor d = if d = .uart then 0 else w.state.descriptor d := by
  simp only [closeUart]
  split <;> cases d <;> rfl

theorem closeUdpSocket_descriptor {d : Descriptor} (other : d ≠ .udp) (w : ServiceWorld) :
    (closeUdpSocket w).state.descriptor d = w.state.descriptor d := by
  simp only [closeUdpSocket]
  split
  · cases d with
    | udp => exact absurd rfl other
    | _ => rfl
  · rfl

theorem closeUdpSocket_udp {w : ServiceWorld} (opened : 0 < w.state.descriptor .udp) :
    (closeUdpSocket w).state.descriptor .udp = 0 := by
  have positive : w.state.psudata.udpFd > 0 := opened
  simp only [closeUdpSocket, if_pos positive]
  rfl

theorem tcpWritable_descriptor (o : Outcomes) {d : Descriptor} (other : d ≠ .tcp) (w : ServiceWorld) :
    (tcpWritable o w).state.descriptor d = w.state.descriptor d := by
  simp only [tcpWritable]
  rcases tcpSocketStatus_cases o w with ⟨success, same, _⟩ | ⟨failure, closed | same⟩
  · rw [if_pos success, same]
    cases d <;> rfl
  · rw [if_neg failure, closed]
    have keeps := closeTcpSocket_descriptor other w
    cases d <;> exact keeps
  · rw [if_neg failure, same]
    cases d <;> rfl

/-- The status of an open socket keeps it exactly without an error. -/
theorem tcpWritable_tcp (o : Outcomes) {w : ServiceWorld} (opened : 0 < w.state.descriptor .tcp) :
    (tcpWritable o w).state.descriptor .tcp =
      if o.getsockopt = some 0 then w.state.descriptor .tcp else 0 := by
  have closed := closeTcpSocket_tcp opened.le
  have positive : w.state.psudata.tcpFd > 0 := opened
  cases status : o.getsockopt with
  | none => simpa [tcpWritable, tcpSocketStatus, positive, status, Service.descriptor] using closed
  | some err =>
      by_cases success : err = 0
      · simp [tcpWritable, tcpSocketStatus, positive, status, success, Service.descriptor]
      · simpa [tcpWritable, tcpSocketStatus, positive, status, success, Service.descriptor] using closed

theorem uartReadable_descriptor (o : Outcomes) (uartFd tcpFd : Int) (w : ServiceWorld) (d : Descriptor) :
    (uartReadable o uartFd tcpFd w).state.descriptor d = w.state.descriptor d := by
  have same := uartReadable_psudata o uartFd tcpFd w
  cases d <;> simp only [Service.descriptor, same]

theorem tcpReadable_descriptor (o : Outcomes) (uartFd tcpFd : Int) (w : ServiceWorld) (d : Descriptor) :
    (tcpReadable o uartFd tcpFd w).state.descriptor d = w.state.descriptor d := by
  simp only [tcpReadable]
  split
  · rfl
  · split
    · cases d <;> rfl
    · rfl

theorem udpReadable_descriptor (o : Outcomes) (uartFd udpFd : Int) {d : Descriptor} (other : d ≠ .tcp)
    (w : ServiceWorld) : (udpReadable o uartFd udpFd w).state.descriptor d = w.state.descriptor d := by
  have command (data : ReadBytes) (v : ServiceWorld) :
      (udpCommand uartFd data o.past v).state.descriptor d = v.state.descriptor d := by
    simp only [udpCommand]
    split
    · rw [closeTcpSocket_descriptor other]
      cases d <;> rfl
    · cases d <;> rfl
  simp only [udpReadable]
  split
  · cases d <;> rfl
  · split
    · rw [command]
      cases d <;> rfl
    · cases d <;> rfl

/-- The close command in a datagram ends the connection. -/
theorem udpCommand_tcp (uartFd : Int) (data : ReadBytes) (past : Memory) {w : ServiceWorld}
    (nonneg : 0 ≤ w.state.descriptor .tcp) :
    ((∃ payload, Carries data.val payload ∧ raderCloses payload = true) →
        (udpCommand uartFd data past w).state.descriptor .tcp = 0) ∧
      ((¬∃ payload, Carries data.val payload ∧ raderCloses payload = true) →
        (udpCommand uartFd data past w).state.descriptor .tcp = w.state.descriptor .tcp) := by
  have ret : (callRaderCmd uartFd data past w).2 = 1 ↔
      ∃ payload, Carries data.val payload ∧ raderCloses payload = true := by
    rw [callRaderCmd, raderCmd_ret_iff, bytesAt_recvArray]
  constructor
  · intro closes
    simp only [udpCommand, if_pos (ret.mpr closes)]
    exact closeTcpSocket_tcp nonneg
  · intro other
    simp only [udpCommand, if_neg (mt ret.mp other)]
    rfl

/-- Only a datagram with the close command ends the connection. -/
theorem udpReadable_tcp (o : Outcomes) (uartFd udpFd : Int) {w : ServiceWorld}
    (nonneg : 0 ≤ w.state.descriptor .tcp) :
    (0 < udpFd ∧ o.Closes → (udpReadable o uartFd udpFd w).state.descriptor .tcp = 0) ∧
      (¬(0 < udpFd ∧ o.Closes) →
        (udpReadable o uartFd udpFd w).state.descriptor .tcp = w.state.descriptor .tcp) := by
  have command (data : ReadBytes) (source : SockaddrIn) := udpCommand_tcp uartFd data o.past
    (w := w.step (.recvfrom udpFd (some data))
      (w.state.setNetAddr { source with sinPort := htons w.state.psudata.udpport })) nonneg
  constructor
  · rintro ⟨positive, source, data, payload, received, carries, closes⟩
    have found : readFd udpFd o.recvfrom = some (source, data) := (if_neg (by omega)).trans received
    have handed : data.val.length > 0 ∧ udpFd > 0 := ⟨carries_nonempty carries, positive⟩
    simp only [udpReadable, found, if_pos handed]
    exact (command data source).1 ⟨payload, carries, closes⟩
  · intro other
    simp only [udpReadable]
    split
    · rfl
    · rename_i source data found
      split
      · rename_i handed
        have received : o.recvfrom = some (source, data) := (if_neg (by omega)).symm.trans found
        apply (command data source).2
        rintro ⟨payload, carries, closes⟩
        exact other ⟨handed.2, source, data, payload, received, carries, closes⟩
      · rfl

theorem stdinReadable_descriptor (o : Outcomes) (uartFd : Int) (w : ServiceWorld) (d : Descriptor) :
    (stdinReadable o uartFd w).state.descriptor d = w.state.descriptor d := by
  cases d <;> rfl

section Messages

variable (o : Outcomes) (readable writable : Int → Bool) (uartFd tcpFd udpFd : Int) (w : ServiceWorld)

/-- The messages of an iteration keep the UART and the UDP socket. -/
theorem handleMessages_descriptor {d : Descriptor} (other : d ≠ .tcp) :
    (handleMessages o readable writable uartFd tcpFd udpFd w).state.descriptor d = w.state.descriptor d :=
  calc (handleMessages o readable writable uartFd tcpFd udpFd w).state.descriptor d
    _ = (whenSet readable udpFd (udpReadable o uartFd udpFd)
          (whenSet readable tcpFd (tcpReadable o uartFd tcpFd)
            (handleUart o readable writable uartFd tcpFd w))).state.descriptor d :=
      whenSet_descriptor_same fun v => stdinReadable_descriptor o uartFd v d
    _ = (whenSet readable tcpFd (tcpReadable o uartFd tcpFd)
          (handleUart o readable writable uartFd tcpFd w)).state.descriptor d :=
      whenSet_descriptor_same fun v => udpReadable_descriptor o uartFd udpFd other v
    _ = (handleUart o readable writable uartFd tcpFd w).state.descriptor d :=
      whenSet_descriptor_same fun v => tcpReadable_descriptor o uartFd tcpFd v d
    _ = (whenSet writable tcpFd (tcpWritable o) w).state.descriptor d :=
      whenSet_descriptor_same fun v => uartReadable_descriptor o uartFd tcpFd v d
    _ = w.state.descriptor d := whenSet_descriptor_same fun v => tcpWritable_descriptor o other v

/-- Before the datagrams the connection ends only with an error of its status. -/
theorem handleUart_tcp (opened : 0 < w.state.descriptor .tcp) :
    (whenSet readable tcpFd (tcpReadable o uartFd tcpFd)
        (handleUart o readable writable uartFd tcpFd w)).state.descriptor .tcp =
      if writable tcpFd = true ∧ o.getsockopt ≠ some 0 then 0 else w.state.descriptor .tcp :=
  calc (whenSet readable tcpFd (tcpReadable o uartFd tcpFd)
        (handleUart o readable writable uartFd tcpFd w)).state.descriptor .tcp
    _ = (handleUart o readable writable uartFd tcpFd w).state.descriptor .tcp :=
      whenSet_descriptor_same fun v => tcpReadable_descriptor o uartFd tcpFd v _
    _ = (whenSet writable tcpFd (tcpWritable o) w).state.descriptor .tcp :=
      whenSet_descriptor_same fun v => uartReadable_descriptor o uartFd tcpFd v _
    _ = if writable tcpFd = true then
          if o.getsockopt = some 0 then w.state.descriptor .tcp else 0
        else w.state.descriptor .tcp :=
      whenSet_descriptor fun v same => by rw [← same] at opened ⊢; exact tcpWritable_tcp o opened
    _ = _ := by grind

end Messages

/-- The messages end the connection with an error of its status or a close command, and with nothing else. -/
theorem handleMessages_tcp (o : Outcomes) (readable writable : Int → Bool) (uartFd tcpFd udpFd : Int)
    {w : ServiceWorld} (opened : 0 < w.state.descriptor .tcp) :
    ((writable tcpFd = true ∧ o.getsockopt ≠ some 0) ∨ (readable udpFd = true ∧ 0 < udpFd ∧ o.Closes) →
        (handleMessages o readable writable uartFd tcpFd udpFd w).state.descriptor .tcp = 0) ∧
      (¬((writable tcpFd = true ∧ o.getsockopt ≠ some 0) ∨ (readable udpFd = true ∧ 0 < udpFd ∧ o.Closes)) →
        (handleMessages o readable writable uartFd tcpFd udpFd w).state.descriptor .tcp = w.state.descriptor .tcp) := by
  have front := handleUart_tcp o readable writable uartFd tcpFd w opened
  have last : (handleMessages o readable writable uartFd tcpFd udpFd w).state.descriptor .tcp =
      (whenSet readable udpFd (udpReadable o uartFd udpFd)
        (whenSet readable tcpFd (tcpReadable o uartFd tcpFd)
          (handleUart o readable writable uartFd tcpFd w))).state.descriptor .tcp :=
    whenSet_descriptor_same fun v => stdinReadable_descriptor o uartFd v _
  rw [last]
  generalize whenSet readable tcpFd (tcpReadable o uartFd tcpFd) (handleUart o readable writable uartFd tcpFd w) = u
    at front ⊢
  have nonneg : 0 ≤ u.state.descriptor .tcp := by
    rw [front]
    split
    · exact le_rfl
    · exact opened.le
  have datagram (v : ServiceWorld) (same : v.state = u.state) :=
    udpReadable_tcp o uartFd udpFd (w := v) (same ▸ nonneg)
  by_cases ordered : readable udpFd = true ∧ 0 < udpFd ∧ o.Closes
  · have cleared := (whenSet_descriptor fun v same => (datagram v same).1 ordered.2).trans (if_pos ordered.1)
    exact ⟨fun _ => cleared, fun neither => absurd (Or.inr ordered) neither⟩
  · have kept : (whenSet readable udpFd (udpReadable o uartFd udpFd) u).state.descriptor .tcp =
        u.state.descriptor .tcp := by
      by_cases set : readable udpFd = true
      · have same (v : ServiceWorld) (state : v.state = u.state) :=
          ((datagram v state).2 fun found => ordered ⟨set, found⟩).trans (by rw [state])
        rw [whenSet_descriptor same, ite_self]
      · simp only [whenSet, set, Bool.false_eq_true, if_false]
        rfl
    rw [kept, front]
    constructor
    · rintro (refused | found)
      · exact if_pos refused
      · exact absurd found ordered
    · exact fun neither => if_neg fun refused => neither (Or.inl refused)

theorem closeMessages_uart (readable : Int → Bool) (uartFd tcpFd udpFd : Int) (w : ServiceWorld) :
    (closeMessages readable uartFd tcpFd udpFd w).state.descriptor .uart =
      if readable uartFd = true then 0 else w.state.descriptor .uart := by
  have tcp : (whenSet readable tcpFd closeTcpSocket w).state.descriptor .uart = w.state.descriptor .uart :=
    whenSet_descriptor_same (closeTcpSocket_descriptor (by decide))
  calc (closeMessages readable uartFd tcpFd udpFd w).state.descriptor .uart
    _ = (whenSet readable uartFd closeUart (whenSet readable tcpFd closeTcpSocket w)).state.descriptor .uart :=
      whenSet_descriptor_same (closeUdpSocket_descriptor (by decide))
    _ = if readable uartFd = true then 0 else w.state.descriptor .uart := by
      rw [whenSet_descriptor fun v _ => (closeUart_descriptor v .uart).trans (if_pos rfl), tcp]

theorem closeMessages_tcp (readable : Int → Bool) (uartFd tcpFd udpFd : Int) {w : ServiceWorld}
    (nonneg : 0 ≤ w.state.descriptor .tcp) :
    (closeMessages readable uartFd tcpFd udpFd w).state.descriptor .tcp =
      if readable tcpFd = true then 0 else w.state.descriptor .tcp := by
  have closed (v : ServiceWorld) (same : v.state = w.state) : (closeTcpSocket v).state.descriptor .tcp = 0 :=
    closeTcpSocket_tcp (same ▸ nonneg)
  calc (closeMessages readable uartFd tcpFd udpFd w).state.descriptor .tcp
    _ = (whenSet readable uartFd closeUart (whenSet readable tcpFd closeTcpSocket w)).state.descriptor .tcp :=
      whenSet_descriptor_same (closeUdpSocket_descriptor (by decide))
    _ = (whenSet readable tcpFd closeTcpSocket w).state.descriptor .tcp :=
      whenSet_descriptor_same fun v => closeUart_descriptor v .tcp
    _ = if readable tcpFd = true then 0 else w.state.descriptor .tcp := whenSet_descriptor closed

theorem closeMessages_udp (readable : Int → Bool) (uartFd tcpFd udpFd : Int) {w : ServiceWorld}
    (opened : 0 < w.state.descriptor .udp) :
    (closeMessages readable uartFd tcpFd udpFd w).state.descriptor .udp =
      if readable udpFd = true then 0 else w.state.descriptor .udp := by
  have front : (whenSet readable uartFd closeUart (whenSet readable tcpFd closeTcpSocket w)).state.descriptor .udp =
      w.state.descriptor .udp :=
    (whenSet_descriptor_same fun v => closeUart_descriptor v .udp).trans
      (whenSet_descriptor_same (closeTcpSocket_descriptor (by decide)))
  have closed (v : ServiceWorld)
      (same : v.state = (whenSet readable uartFd closeUart (whenSet readable tcpFd closeTcpSocket w)).state) :
      (closeUdpSocket v).state.descriptor .udp = 0 :=
    closeUdpSocket_udp (by rw [same, front]; exact opened)
  rw [closeMessages, whenSet_descriptor closed, front]

theorem waiting_inj {first second : Int} (same : waiting first = waiting second) :
    (0 < first ↔ 0 < second) ∧ (0 < first → first = second) := by
  simp only [waiting] at same
  split at same <;> split at same <;> grind

theorem fdIsset_iff {fds : List Int} {ready : Int → Bool} {fd : Int} (positive : 0 < fd) :
    fdIsset fds ready fd = true ↔ fd ∈ fds ∧ ready fd = true := by
  rw [fdIsset, if_neg (by omega), Bool.and_eq_true, List.contains_iff_mem]

section Tests

variable {uartFd tcpFd udpFd : Int} {s : Service} (ready : Int → Bool)

theorem uart_test (tcpFd udpFd : Int) (s : Service) (ready : Int → Bool) (positive : 0 < uartFd) :
    fdIsset (watchedReads s uartFd tcpFd udpFd) ready uartFd = true ↔ ready uartFd = true := by
  rw [fdIsset_iff positive]
  simp [watchedReads, positive]

theorem udp_test (uartFd tcpFd : Int) (s : Service) (ready : Int → Bool) (positive : 0 < udpFd) :
    fdIsset (watchedReads s uartFd tcpFd udpFd) ready udpFd = true ↔ ready udpFd = true := by
  rw [fdIsset_iff positive]
  simp [watchedReads, positive]

/-- Only a confirmed connection is tested for reading. -/
theorem tcp_test (locals : LocalsHeld uartFd tcpFd udpFd s) (distinct : s.Distinct) (positive : 0 < tcpFd) :
    fdIsset (watchedReads s uartFd tcpFd udpFd) ready tcpFd = true ↔ s.tcpConnected = 1 ∧ ready tcpFd = true := by
  constructor
  · intro set
    exact ⟨(watchedReads_tcp locals distinct positive set).2, ((fdIsset_iff positive).mp set).2⟩
  · rintro ⟨connected, set⟩
    exact (fdIsset_iff positive).mpr ⟨by simp [watchedReads, positive, connected], set⟩

/-- Only a pending connection is tested for writing. -/
theorem write_test (positive : 0 < tcpFd) :
    fdIsset (watchedWrites s tcpFd) ready tcpFd = true ↔ s.tcpConnected = 0 ∧ ready tcpFd = true := by
  rw [fdIsset_iff positive, watchedWrites]
  split <;> simp_all

end Tests

theorem keepsOrDrops_of_ite {o : Outcomes} {s after : Service} {d : Descriptor} {closes : Prop} [Decidable closes]
    (value : after.descriptor d = if closes then 0 else s.descriptor d) (same : o.Drops s d ↔ closes) :
    KeepsOrDrops o s after d :=
  ⟨fun drops => value.trans (if_pos (same.mp drops)), fun keeps => value.trans (if_neg (mt same.mpr keeps))⟩

section Iteration

variable {o : Outcomes} (before : ServiceWorld) {uartFd tcpFd udpFd : Int}
  (exact : LocalsExact uartFd tcpFd udpFd before.state) (locals : LocalsHeld uartFd tcpFd udpFd before.state)
  (distinct : before.state.Distinct) {d : Descriptor} (opened : 0 < before.state.descriptor d)

include exact opened

/-- Without a UART and a UDP socket nothing happens. -/
theorem stops_keeps (stopped : uartFd ≤ 0 ∧ udpFd ≤ 0) : KeepsOrDrops o before.state before.state d := by
  have uart := (waiting_inj exact.uart).1
  have udp := (waiting_inj exact.udp).1
  refine ⟨?_, fun _ => rfl⟩
  intro drops
  cases d with
  | uart =>
      have positive := uart.mpr opened
      omega
  | udp =>
      have positive := udp.mpr opened
      omega
  | tcp =>
      have reached := drops.1
      omega

/-- The messages behind a successful `select` end only the connection. -/
theorem handleMessages_drops (reached : ¬(uartFd ≤ 0 ∧ udpFd ≤ 0)) (succeeded : 0 < o.select) :
    KeepsOrDrops o before.state
      (handleMessages o (fdIsset (watchedReads before.state uartFd tcpFd udpFd) o.readable)
        (fdIsset (watchedWrites before.state tcpFd) o.writable) uartFd tcpFd udpFd before).state d := by
  have uart := (waiting_inj exact.uart).1
  have udp := (waiting_inj exact.udp).1
  cases d with
  | uart =>
      have keeps := handleMessages_descriptor o (fdIsset (watchedReads before.state uartFd tcpFd udpFd) o.readable)
        (fdIsset (watchedWrites before.state tcpFd) o.writable) uartFd tcpFd udpFd before (d := .uart) (by decide)
      exact ⟨fun drops => absurd drops.1 (Int.not_le.mpr succeeded), fun _ => keeps⟩
  | udp =>
      have keeps := handleMessages_descriptor o (fdIsset (watchedReads before.state uartFd tcpFd udpFd) o.readable)
        (fdIsset (watchedWrites before.state tcpFd) o.writable) uartFd tcpFd udpFd before (d := .udp) (by decide)
      exact ⟨fun drops => absurd drops.1 (Int.not_le.mpr succeeded), fun _ => keeps⟩
  | tcp =>
      have positive := (waiting_inj exact.tcp).1.mpr opened
      have field := (waiting_inj exact.tcp).2 positive
      have ends := handleMessages_tcp o (fdIsset (watchedReads before.state uartFd tcpFd udpFd) o.readable)
        (fdIsset (watchedWrites before.state tcpFd) o.writable) uartFd tcpFd udpFd opened
      have datagram : fdIsset (watchedReads before.state uartFd tcpFd udpFd) o.readable udpFd = true ∧
          0 < udpFd ∧ o.Closes ↔ o.Orders before.state := by
        simp only [Outcomes.Orders, ← udp]
        constructor
        · rintro ⟨set, bound, closes⟩
          have same := (waiting_inj exact.udp).2 bound
          exact ⟨bound, same ▸ (udp_test uartFd tcpFd before.state o.readable bound).mp set, closes⟩
        · rintro ⟨bound, set, closes⟩
          have same := (waiting_inj exact.udp).2 bound
          exact ⟨(udp_test uartFd tcpFd before.state o.readable bound).mpr (same ▸ set), bound, closes⟩
      rw [datagram, write_test o.writable positive] at ends
      have same : o.Drops before.state .tcp ↔
          ((before.state.tcpConnected = 0 ∧ o.writable tcpFd = true) ∧ o.getsockopt ≠ some 0) ∨
            o.Orders before.state := by
        simp only [Outcomes.Drops, Outcomes.Fails, Outcomes.Refuses, ← field]
        grind
      exact ⟨fun drops => ends.1 (same.mp drops), fun keeps => ends.2 (mt same.mpr keeps)⟩

include locals distinct

/-- A failed `select` closes what is still set. -/
theorem closeMessages_drops (reached : ¬(uartFd ≤ 0 ∧ udpFd ≤ 0)) (failed : o.select ≤ 0) :
    KeepsOrDrops o before.state
      (closeMessages (fdIsset (watchedReads before.state uartFd tcpFd udpFd) o.readable) uartFd tcpFd udpFd
        before).state d := by
  have uart := (waiting_inj exact.uart).1
  have udp := (waiting_inj exact.udp).1
  cases d with
  | uart =>
      have positive := uart.mpr opened
      apply keepsOrDrops_of_ite (closeMessages_uart _ uartFd tcpFd udpFd _)
      rw [uart_test tcpFd udpFd before.state o.readable positive, (waiting_inj exact.uart).2 positive]
      exact and_iff_right failed
  | udp =>
      have positive := udp.mpr opened
      apply keepsOrDrops_of_ite (closeMessages_udp _ uartFd tcpFd udpFd opened)
      rw [udp_test uartFd tcpFd before.state o.readable positive, (waiting_inj exact.udp).2 positive]
      exact and_iff_right failed
  | tcp =>
      have positive := (waiting_inj exact.tcp).1.mpr opened
      apply keepsOrDrops_of_ite (closeMessages_tcp _ uartFd tcpFd udpFd opened.le)
      rw [tcp_test o.readable locals distinct positive, (waiting_inj exact.tcp).2 positive]
      simp only [Outcomes.Drops, Outcomes.Fails]
      grind

end Iteration

/-- Every iteration keeps or drops each open descriptor for exactly these reasons. -/
theorem waitMessageAndHandle_drops (o : Outcomes) (w : ServiceWorld)
    (distinct : (openDescriptors o w).1.state.Distinct) (d : Descriptor)
    (opened : 0 < (openDescriptors o w).1.state.descriptor d) :
    KeepsOrDrops o (openDescriptors o w).1.state (waitMessageAndHandle o w).1.state d := by
  have exact := openDescriptors_exact o w
  have locals := openDescriptors_locals o w
  rcases result : openDescriptors o w with ⟨before, uartFd, tcpFd, udpFd⟩
  rw [result] at distinct opened exact locals
  simp only [waitMessageAndHandle, result]
  split
  · rename_i stopped
    exact stops_keeps before exact opened stopped
  · rename_i reached
    split
    · rename_i failed
      exact closeMessages_drops (selectFds uartFd tcpFd udpFd before) exact locals distinct opened reached failed
    · rename_i succeeded
      exact handleMessages_drops (selectFds uartFd tcpFd udpFd before) exact opened reached (Int.not_le.mp succeeded)

section Opening

variable (o : Outcomes) {w : ServiceWorld} {d : Descriptor} (opened : 0 < w.state.descriptor d)

include opened

theorem openUart_descriptor : (openUart o w).1.state.descriptor d = w.state.descriptor d := by
  unfold openUart
  split
  · rfl
  · rename_i closed
    cases d with
    | uart => exact absurd opened closed
    | _ => split <;> rfl

theorem startTcpSocket_descriptor : (startTcpSocket o w).1.state.descriptor d = w.state.descriptor d := by
  simp only [startTcpSocket]
  split
  · rfl
  · rename_i closed
    cases d with
    | tcp => exact absurd opened closed
    | _ =>
        split
        · rfl
        · split <;> rfl

theorem startUdpSocket_descriptor : (startUdpSocket o w).1.state.descriptor d = w.state.descriptor d := by
  simp only [startUdpSocket]
  split
  · rfl
  · rename_i closed
    cases d with
    | udp => exact absurd opened closed
    | _ =>
        split
        · rfl
        · split <;> rfl

/-- An iteration does not open again what is open. -/
theorem openDescriptors_descriptor : (openDescriptors o w).1.state.descriptor d = w.state.descriptor d := by
  have uart := openUart_descriptor o opened
  have tcp := startTcpSocket_descriptor o (uart ▸ opened)
  have udp := startUdpSocket_descriptor o ((tcp.trans uart) ▸ opened)
  exact udp.trans (tcp.trans uart)

end Opening

/-- A run keeps an open descriptor exactly until an iteration has a reason to give it up. -/
theorem serviceRun_keeps_iff (netAddr : SockaddrIn) (udpport : BitVec 16) (past rest : List Outcomes)
    (d : Descriptor) (fresh : FreshTrace (serviceRun (serviceStart netAddr udpport) (past ++ rest)).trace)
    (opened : 0 < (serviceRun (serviceStart netAddr udpport) past).state.descriptor d) :
    (∀ front, front <+: rest →
        (serviceRun (serviceStart netAddr udpport) (past ++ front)).state.descriptor d =
          (serviceRun (serviceStart netAddr udpport) past).state.descriptor d) ↔
      ∀ front o back, rest = front ++ o :: back →
        ¬o.Drops (openDescriptors o (serviceRun (serviceStart netAddr udpport) (past ++ front))).1.state d := by
  have step (front : List Outcomes) (o : Outcomes) (back : List Outcomes) (split : rest = front ++ o :: back)
      (held : (serviceRun (serviceStart netAddr udpport) (past ++ front)).state.descriptor d =
        (serviceRun (serviceStart netAddr udpport) past).state.descriptor d) :
      ((openDescriptors o (serviceRun (serviceStart netAddr udpport) (past ++ front))).1.state.descriptor d =
        (serviceRun (serviceStart netAddr udpport) past).state.descriptor d) ∧
      KeepsOrDrops o (openDescriptors o (serviceRun (serviceStart netAddr udpport) (past ++ front))).1.state
        (serviceRun (serviceStart netAddr udpport) (past ++ (front ++ [o]))).state d := by
    have again := openDescriptors_descriptor o (held ▸ opened)
    rw [split, ← List.append_assoc] at fresh
    have distinct := serviceRun_distinct netAddr udpport (past ++ front) back o fresh
    rw [← List.append_assoc, serviceRun_snoc]
    exact ⟨again.trans held, waitMessageAndHandle_drops o _ distinct d (by rw [again, held]; exact opened)⟩
  constructor
  · rintro held front o back split drops
    have before := held front ⟨o :: back, split.symm⟩
    have after := held (front ++ [o]) ⟨back, by rw [split]; simp⟩
    rw [(step front o back split before).2.dropped drops] at after
    omega
  · intro kept front
    induction front using List.reverseRecOn with
    | nil =>
        intro _
        rw [List.append_nil]
    | append_singleton front o ih =>
        rintro ⟨back, split⟩
        rw [List.append_assoc, List.singleton_append] at split
        have before := ih ⟨o :: back, split⟩
        obtain ⟨same, ways⟩ := step front o back split.symm before
        exact (ways.kept (kept front o back split.symm)).trans same

/-- A confirmed connection is kept in an iteration with a result of `select` and without a datagram. -/
theorem Outcomes.keeps_tcp {o : Outcomes} {s : Service} (selected : 0 < o.select) (connected : s.tcpConnected ≠ 0)
    (silent : o.readable s.psudata.udpFd = false) : ¬o.Drops s .tcp := by
  rintro ⟨_, ⟨_, fails, _⟩ | ⟨_, ⟨pending, _⟩ | ⟨_, ready, _⟩⟩⟩
  · exact absurd selected (Int.not_lt.mpr fails)
  · exact connected pending
  · rw [silent] at ready
    cases ready

/-- The run with a response keeps its open connection behind the confirmation. -/
theorem serviceRun_keeps_response :
    0 < (serviceRun (serviceStart ⟨0, 0, 0⟩ 5000) (responseOutcomes.take 1)).state.descriptor .tcp ∧
      ∀ front, front <+: responseOutcomes.drop 1 →
        (serviceRun (serviceStart ⟨0, 0, 0⟩ 5000) (responseOutcomes.take 1 ++ front)).state.descriptor .tcp =
          (serviceRun (serviceStart ⟨0, 0, 0⟩ 5000) (responseOutcomes.take 1)).state.descriptor .tcp := by
  have opened : 0 < (serviceRun (serviceStart ⟨0, 0, 0⟩ 5000) (responseOutcomes.take 1)).state.descriptor .tcp := by
    decide +kernel
  refine ⟨opened, (serviceRun_keeps_iff ⟨0, 0, 0⟩ 5000 (responseOutcomes.take 1) (responseOutcomes.drop 1) .tcp
    (by decide +kernel) opened).mpr ?_⟩
  refine Trace.forall_places_cons.mpr ⟨Outcomes.keeps_tcp (by decide) (by decide +kernel) (by decide +kernel), ?_⟩
  refine Trace.forall_places_cons.mpr ⟨Outcomes.keeps_tcp (by decide) (by decide +kernel) (by decide +kernel), ?_⟩
  exact Trace.forall_places_nil

end Psuart

import Psuart.Spec.Teardown

namespace Psuart

/-- A move of the service with the guards that the code checks before it. -/
inductive ServiceMoves (s : Service) : ServiceEvent → Service → Prop where
  | selected (tcpFd : Int) (rfds wfds : List Int) : ServiceMoves s (.select tcpFd rfds wfds) s
  | tested (fd : Int) : ServiceMoves s (.fdIsset fd) s
  | tcpRead (fd : Int) (data : Option ReadBytes) : ServiceMoves s (.tcpRead fd data) s
  | uartFailed (fd : Int) (closed : s.psudata.uartFd ≤ 0) (failed : fd ≤ 0) :
      ServiceMoves s (.uartOpen fd) (s.setUartFd fd)
  | uartOpened (fd : Int) (closed : s.psudata.uartFd ≤ 0) (opened : 0 < fd) :
      ServiceMoves s (.uartOpen fd) ((s.setUartFd fd).acquire fd)
  | uartCleared (closed : s.psudata.uartFd ≤ 0) : ServiceMoves s .uartClear (s.setUartFd 0)
  | uartClosed (opened : 0 < s.psudata.uartFd) :
      ServiceMoves s (.close s.psudata.uartFd) ((s.setUartFd 0).release s.psudata.uartFd)
  | udpFailed (closed : s.psudata.udpFd ≤ 0) : ServiceMoves s (.udpSocket (-1)) (s.setUdpFd (-1))
  | udpOpened (fd : Int) (closed : s.psudata.udpFd ≤ 0) (opened : fd ≠ -1) :
      ServiceMoves s (.udpSocket fd) ((s.setUdpFd fd).acquire fd)
  | udpClosed : ServiceMoves s (.close s.psudata.udpFd) ((s.setUdpFd 0).release s.psudata.udpFd)
  | tcpFailed (closed : s.psudata.tcpFd ≤ 0) : ServiceMoves s (.tcpSocket (-1)) (s.setTcpFd (-1))
  | tcpOpened (fd : Int) (closed : s.psudata.tcpFd ≤ 0) (opened : fd ≠ -1) :
      ServiceMoves s (.tcpSocket fd) { (s.setTcpFd fd).acquire fd with tcpConnected := 0 }
  | tcpClosed : ServiceMoves s (.close s.psudata.tcpFd) ((s.setTcpFd 0).release s.psudata.tcpFd)
  | confirmed (opened : 0 < s.psudata.tcpFd) :
      ServiceMoves s (.tcpStatus s.psudata.tcpFd 0)
        { s with tcpConnected := 1, rader := setRaderDlen s.rader 0 }
  | unconfirmed (fd ret : Int) (failed : ret ≠ 0) :
      ServiceMoves s (.tcpStatus fd ret) { s with tcpConnected := 0 }
  | dropped (fd : Int) (data : Option ReadBytes)
      (lost : ∀ bytes, data = some bytes → 0 < bytes.val.length → 0 < s.psudata.tcpFd →
        s.tcpConnected = 0) :
      ServiceMoves s (.uartRead fd data) s
  | received (uartFd : Int) (data : ReadBytes) (accepted : List Byte) (opened : 0 < s.psudata.tcpFd)
      (connected : s.tcpConnected ≠ 0) (some : 0 < data.val.length)
      (part : accepted <+: (raderRecv s.rader data.val).written.getD []) :
      ServiceMoves s
        (.raderRecv uartFd s.psudata.tcpFd data (raderRecv s.rader data.val).written accepted)
        { s with rader := (raderRecv s.rader data.val).state }
  | addressed (fd : Int) (data : Option ReadBytes) (addr : SockaddrIn) :
      ServiceMoves s (.recvfrom fd data) (s.setNetAddr addr)
  | commanded (fd : Int) (data : ReadBytes) (past : Memory) :
      ServiceMoves s
        (.raderCmd fd data (raderCmd s.rader (recvArray data.val past) data.val.length).written)
        { s with rader := (raderCmd s.rader (recvArray data.val past) data.val.length).state }
  | typed (fd : Int) (buf : List Byte) :
      ServiceMoves s (.raderCmdFromStdin fd buf (raderCmdFromStdin s.rader buf).written)
        { s with rader := (raderCmdFromStdin s.rader buf).state }

/-- A path of the service. -/
abbrev ServicePath : ServiceWorld → ServiceWorld → Prop := Trace.Path ServiceMoves

/-- A move without a use of the TCP descriptor. -/
def FreeMoves (s : Service) (event : ServiceEvent) (after : Service) : Prop :=
  ServiceMoves s event after ∧ event.tcpUse = none

abbrev FreePath : ServiceWorld → ServiceWorld → Prop := Trace.Path FreeMoves

/-- A move that uses only the current socket and reads no end of the connection. -/
def HeldMoves (s : Service) (event : ServiceEvent) (after : Service) : Prop :=
  ServiceMoves s event after ∧ (∀ fd, event.tcpUse = some fd → 0 < fd → s.psudata.tcpFd = fd) ∧
    event.ends = none

abbrev HeldPath : ServiceWorld → ServiceWorld → Prop := Trace.Path HeldMoves

theorem ServiceEvent.ends_of_unused {event : ServiceEvent} (free : event.tcpUse = none) :
    event.ends = none := by
  cases event with
  | tcpRead => cases free
  | _ => rfl

theorem FreeMoves.held {s after : Service} {event : ServiceEvent} (move : FreeMoves s event after) :
    HeldMoves s event after := by
  refine ⟨move.1, ?_, ServiceEvent.ends_of_unused move.2⟩
  intro fd use
  rw [move.2] at use
  cases use

theorem freePath_held {first second : ServiceWorld} (path : FreePath first second) :
    HeldPath first second :=
  path.mono fun _ _ _ => FreeMoves.held

theorem heldPath_service {first second : ServiceWorld} (path : HeldPath first second) :
    ServicePath first second :=
  path.mono fun _ _ _ move => move.1

theorem freePath_service {first second : ServiceWorld} (path : FreePath first second) :
    ServicePath first second :=
  path.mono fun _ _ _ move => move.1

theorem openUart_path (o : Outcomes) (w : ServiceWorld) : FreePath w (openUart o w).1 := by
  unfold openUart
  split
  · exact .refl
  · rename_i closed
    split
    · rename_i failed
      exact .single ⟨.uartFailed _ (Int.not_lt.mp closed) failed, rfl⟩
    · rename_i opened
      exact .single ⟨.uartOpened _ (Int.not_lt.mp closed) (Int.not_le.mp opened), rfl⟩

theorem closeUart_path (w : ServiceWorld) : FreePath w (closeUart w) := by
  simp only [closeUart]
  split
  · rename_i opened
    exact .single ⟨.uartClosed opened, rfl⟩
  · rename_i closed
    exact .single ⟨.uartCleared (Int.not_lt.mp closed), rfl⟩

theorem startUdpSocket_path (o : Outcomes) (w : ServiceWorld) : FreePath w (startUdpSocket o w).1 := by
  simp only [startUdpSocket]
  split
  · exact .refl
  · rename_i closed
    split
    · rename_i failed
      rw [failed]
      exact .single ⟨.udpFailed (Int.not_lt.mp closed), rfl⟩
    · rename_i opened
      have move : FreePath w _ := .single ⟨.udpOpened o.udpSocket (Int.not_lt.mp closed) opened, rfl⟩
      split
      · exact move
      · exact move.snoc ⟨.udpClosed, rfl⟩

theorem closeUdpSocket_path (w : ServiceWorld) : FreePath w (closeUdpSocket w) := by
  simp only [closeUdpSocket]
  split
  · exact .single ⟨.udpClosed, rfl⟩
  · exact .refl

theorem startTcpSocket_path (o : Outcomes) (w : ServiceWorld) : FreePath w (startTcpSocket o w).1 := by
  simp only [startTcpSocket]
  split
  · exact .refl
  · rename_i closed
    split
    · rename_i failed
      rw [failed]
      exact .single ⟨.tcpFailed (Int.not_lt.mp closed), rfl⟩
    · rename_i opened
      have move : FreePath w _ := .single ⟨.tcpOpened o.tcpSocket (Int.not_lt.mp closed) opened, rfl⟩
      split
      · exact move.snoc ⟨.tcpClosed, rfl⟩
      · exact move

theorem closeTcpSocket_path (w : ServiceWorld) : FreePath w (closeTcpSocket w) := by
  simp only [closeTcpSocket]
  split
  · exact .single ⟨.tcpClosed, rfl⟩
  · exact .refl

/-- The status call closes the socket when it reports an error. -/
theorem tcpSocketStatus_cases (o : Outcomes) (w : ServiceWorld) :
    ((tcpSocketStatus o w).2 = 0 ∧ (tcpSocketStatus o w).1 = w ∧ 0 < w.state.psudata.tcpFd) ∨
      ((tcpSocketStatus o w).2 ≠ 0 ∧
        ((tcpSocketStatus o w).1 = closeTcpSocket w ∨ (tcpSocketStatus o w).1 = w)) := by
  unfold tcpSocketStatus
  split
  · rename_i opened
    split
    · exact Or.inr ⟨(by decide : (-2 : Int) ≠ 0), Or.inl rfl⟩
    · split
      · exact Or.inr ⟨(by decide : (-3 : Int) ≠ 0), Or.inl rfl⟩
      · exact Or.inl ⟨rfl, rfl, opened⟩
  · exact Or.inr ⟨(by decide : (-1 : Int) ≠ 0), Or.inr rfl⟩

theorem tcpWritable_path (o : Outcomes) (w : ServiceWorld) : FreePath w (tcpWritable o w) := by
  simp only [tcpWritable]
  rcases tcpSocketStatus_cases o w with ⟨success, same, opened⟩ | ⟨failure, world⟩
  · rw [if_pos success, success, same]
    exact .single ⟨.confirmed opened, rfl⟩
  · rw [if_neg failure]
    have path : FreePath w (tcpSocketStatus o w).1 := by
      rcases world with closed | same
      · rw [closed]
        exact closeTcpSocket_path w
      · rw [same]
        exact .refl
    exact path.snoc ⟨.unconfirmed _ _ failure, rfl⟩

theorem whenSet_path {moves : Service → ServiceEvent → Service → Prop}
    (larger : ∀ before event after, FreeMoves before event after → moves before event after)
    {set : Int → Bool} {fd : Int} {branch : ServiceWorld → ServiceWorld} {w : ServiceWorld}
    (path : ∀ w', w'.state = w.state → Trace.Path moves w' (branch w')) :
    Trace.Path moves w (whenSet set fd branch w) := by
  have tested : Trace.Path moves w (w.step (.fdIsset fd) w.state) :=
    .single (larger _ _ _ ⟨.tested fd, rfl⟩)
  simp only [whenSet]
  split
  · exact tested.trans (path _ rfl)
  · exact tested

theorem callRaderCmd_path (fd : Int) (data : ReadBytes) (past : Memory) (w : ServiceWorld) :
    FreePath w (callRaderCmd fd data past w).1 :=
  .single ⟨.commanded fd data past, rfl⟩

theorem callRaderCmdFromStdin_path (fd : Int) (buf : List Byte) (w : ServiceWorld) :
    FreePath w (callRaderCmdFromStdin fd buf w) :=
  .single ⟨.typed fd buf, rfl⟩

/-- The local descriptor agrees with the field while the field holds a socket or a confirmation. -/
structure TcpKnown (tcpFd : Int) (s : Service) : Prop where
  field : 0 < s.psudata.tcpFd → tcpFd = s.psudata.tcpFd
  connected : 0 < tcpFd → s.tcpConnected ≠ 0 → s.psudata.tcpFd = tcpFd

theorem acceptedBytes_part (outcome : Option Nat) (written : Option (List Byte)) :
    acceptedBytes outcome written <+: written.getD [] := by
  cases outcome with
  | none => exact List.nil_prefix
  | some count =>
      cases written with
      | none => exact List.nil_prefix
      | some packet => exact List.take_prefix count packet

theorem uartReadable_path (o : Outcomes) (uartFd tcpFd : Int) (w : ServiceWorld)
    (known : TcpKnown tcpFd w.state) : HeldPath w (uartReadable o uartFd tcpFd w) := by
  simp only [uartReadable]
  split
  · exact .single (FreeMoves.held ⟨.dropped uartFd none (fun bytes none => by cases none), rfl⟩)
  · rename_i data _
    split
    · rename_i handed
      obtain ⟨some, opened, connected⟩ := handed
      have same := known.connected opened connected
      have received := ServiceMoves.received uartFd data
        (acceptedBytes o.tcpWrite (raderRecv w.state.rader data.val).written) (by omega) connected some
        (acceptedBytes_part o.tcpWrite (raderRecv w.state.rader data.val).written)
      have move : HeldPath w _ :=
        .single ⟨received, fun fd use _ => Option.some.inj use, rfl⟩
      rw [same] at move
      split
      · exact move.trans (freePath_held (callRaderCmdFromStdin_path _ _ _))
      · exact move
    · rename_i kept
      refine .single (FreeMoves.held ⟨.dropped _ _ ?_, rfl⟩)
      rintro bytes equal some opened
      cases equal
      by_contra connected
      have field := known.field opened
      exact kept ⟨some, by omega, connected⟩

theorem tcpReadable_path (o : Outcomes) (uartFd tcpFd : Int) (w : ServiceWorld) :
    ServicePath w (tcpReadable o uartFd tcpFd w) := by
  have read : ServicePath w (w.step (.tcpRead tcpFd (readFd tcpFd o.tcpRead)) w.state) :=
    .single (.tcpRead _ _)
  simp only [tcpReadable]
  split
  · exact read
  · split
    · exact read.trans (freePath_service (callRaderCmd_path _ _ _ _))
    · exact read

theorem udpCommand_path (fd : Int) (data : ReadBytes) (past : Memory) (w : ServiceWorld) :
    FreePath w (udpCommand fd data past w) := by
  simp only [udpCommand]
  split
  · exact (callRaderCmd_path fd data past w).trans (closeTcpSocket_path _)
  · exact callRaderCmd_path fd data past w

theorem udpReadable_path (o : Outcomes) (uartFd udpFd : Int) (w : ServiceWorld) :
    FreePath w (udpReadable o uartFd udpFd w) := by
  simp only [udpReadable]
  split
  · exact .single ⟨.addressed _ _ _, rfl⟩
  · apply Trace.Path.trans (.single ⟨.addressed _ _ _, rfl⟩)
    split
    · exact udpCommand_path _ _ _ _
    · exact .refl

/-- The local descriptor is the field, or both hold no socket. -/
def TcpHeld (tcpFd : Int) (s : Service) : Prop :=
  tcpFd = s.psudata.tcpFd ∨ (tcpFd ≤ 0 ∧ s.psudata.tcpFd ≤ 0)

theorem TcpHeld.known {tcpFd : Int} {s : Service} (held : TcpHeld tcpFd s) : TcpKnown tcpFd s := by
  rcases held with same | ⟨negative, closed⟩
  · exact ⟨fun _ => same, fun _ _ => same.symm⟩
  · exact ⟨fun opened => by omega, fun opened => by omega⟩

theorem startTcpSocket_held (o : Outcomes) (w : ServiceWorld) :
    TcpHeld (startTcpSocket o w).2 (startTcpSocket o w).1.state := by
  simp only [startTcpSocket]
  split
  · exact Or.inl rfl
  · split
    · rename_i failed
      exact Or.inl failed.symm
    · split
      · exact Or.inr ⟨(by decide : (-2 : Int) ≤ 0), Int.le_refl 0⟩
      · exact Or.inl rfl

theorem startUdpSocket_fields (o : Outcomes) (w : ServiceWorld) :
    (startUdpSocket o w).1.state.psudata.tcpFd = w.state.psudata.tcpFd ∧
      (startUdpSocket o w).1.state.psudata.uartFd = w.state.psudata.uartFd := by
  simp only [startUdpSocket]
  split
  · exact ⟨rfl, rfl⟩
  · split
    · exact ⟨rfl, rfl⟩
    · split <;> exact ⟨rfl, rfl⟩

/-- After the status check a connected socket is still the local one. -/
theorem tcpWritable_known (o : Outcomes) (w : ServiceWorld) (tcpFd : Int) (held : TcpHeld tcpFd w.state) :
    TcpKnown tcpFd (tcpWritable o w).state := by
  simp only [tcpWritable]
  rcases tcpSocketStatus_cases o w with ⟨success, same, opened⟩ | ⟨failure, world⟩
  · rw [if_pos success, same]
    exact ⟨held.known.field, fun positive _ => by
      rcases held with same | ⟨negative, _⟩
      · exact same.symm
      · omega⟩
  · rw [if_neg failure]
    refine ⟨?_, fun _ connected => absurd rfl connected⟩
    intro positive
    rcases world with closed | same
    · exfalso
      rw [closed, closeTcpSocket] at positive
      split at positive
      · exact absurd positive (Int.lt_irrefl 0)
      · rename_i shut
        exact shut positive
    · rw [same] at positive ⊢
      exact held.known.field positive

theorem handleUart_path (o : Outcomes) (readable writable : Int → Bool) (uartFd tcpFd : Int)
    (w : ServiceWorld) (held : TcpHeld tcpFd w.state) :
    HeldPath w (handleUart o readable writable uartFd tcpFd w) := by
  have known : TcpKnown tcpFd (whenSet writable tcpFd (tcpWritable o) w).state := by
    simp only [whenSet]
    split
    · exact tcpWritable_known o _ tcpFd held
    · exact held.known
  apply (freePath_held (whenSet_path (fun _ _ _ move => move) fun w' _ => tcpWritable_path o w')).trans
  exact whenSet_path (fun _ _ _ => FreeMoves.held) fun w' same =>
    uartReadable_path o uartFd tcpFd w' (same ▸ known)

theorem handleDatagrams_path (o : Outcomes) (readable : Int → Bool) (uartFd udpFd : Int)
    (w : ServiceWorld) : FreePath w (handleDatagrams o readable uartFd udpFd w) := by
  apply (whenSet_path (fun _ _ _ move => move) fun w' _ => udpReadable_path o uartFd udpFd w').trans
  exact whenSet_path (fun _ _ _ move => move) fun w' _ => callRaderCmdFromStdin_path _ _ w'

theorem handleMessages_path (o : Outcomes) (readable writable : Int → Bool) (uartFd tcpFd udpFd : Int)
    (w : ServiceWorld) (held : TcpHeld tcpFd w.state) :
    ServicePath w (handleMessages o readable writable uartFd tcpFd udpFd w) := by
  apply (heldPath_service (handleUart_path o readable writable uartFd tcpFd w held)).trans
  apply (whenSet_path (fun _ _ _ move => move.1) fun w' _ => tcpReadable_path o uartFd tcpFd w').trans
  exact freePath_service (handleDatagrams_path o readable uartFd udpFd _)

theorem closeMessages_path (readable : Int → Bool) (uartFd tcpFd udpFd : Int) (w : ServiceWorld) :
    FreePath w (closeMessages readable uartFd tcpFd udpFd w) := by
  apply (whenSet_path (fun _ _ _ move => move) fun w' _ => closeTcpSocket_path w').trans
  apply (whenSet_path (fun _ _ _ move => move) fun w' _ => closeUart_path w').trans
  exact whenSet_path (fun _ _ _ move => move) fun w' _ => closeUdpSocket_path w'

theorem openDescriptors_path (o : Outcomes) (w : ServiceWorld) : FreePath w (openDescriptors o w).1 :=
  ((openUart_path o w).trans (startTcpSocket_path o _)).trans (startUdpSocket_path o _)

theorem openDescriptors_held (o : Outcomes) (w : ServiceWorld) :
    TcpHeld (openDescriptors o w).2.2.1 (openDescriptors o w).1.state := by
  have before := startTcpSocket_held o (openUart o w).1
  rwa [TcpHeld, ← (startUdpSocket_fields o _).1] at before

theorem selectFds_path (uartFd tcpFd udpFd : Int) (w : ServiceWorld) (held : TcpHeld tcpFd w.state) :
    HeldPath w (selectFds uartFd tcpFd udpFd w) := by
  refine .single ⟨.selected _ _ _, ?_, rfl⟩
  intro fd use positive
  have same : tcpFd = fd := Option.some.inj use
  rcases held with field | ⟨negative, _⟩
  · rw [← field, same]
  · omega

/-- An iteration stops before `select`, closes after a failed `select` or handles its messages. -/
theorem waitMessageAndHandle_cases (o : Outcomes) (w : ServiceWorld) :
    ∃ before uartFd tcpFd udpFd, openDescriptors o w = (before, uartFd, tcpFd, udpFd) ∧
      let readable := fdIsset (watchedReads before.state uartFd tcpFd udpFd) o.readable
      let writable := fdIsset (watchedWrites before.state tcpFd) o.writable
      let w' := selectFds uartFd tcpFd udpFd before
      (waitMessageAndHandle o w).1 = before ∨
        (waitMessageAndHandle o w).1 = closeMessages readable uartFd tcpFd udpFd w' ∨
        (waitMessageAndHandle o w).1 = handleMessages o readable writable uartFd tcpFd udpFd w' := by
  rcases opened : openDescriptors o w with ⟨before, uartFd, tcpFd, udpFd⟩
  refine ⟨before, uartFd, tcpFd, udpFd, rfl, ?_⟩
  simp only [waitMessageAndHandle, opened]
  split
  · exact Or.inl rfl
  · split
    · exact Or.inr (Or.inl rfl)
    · exact Or.inr (Or.inr rfl)

/-- The iteration continues behind its opening functions with guarded moves. -/
theorem openDescriptors_rest (o : Outcomes) (w : ServiceWorld) :
    ServicePath (openDescriptors o w).1 (waitMessageAndHandle o w).1 := by
  obtain ⟨before, uartFd, tcpFd, udpFd, opened, ways⟩ := waitMessageAndHandle_cases o w
  have held := openDescriptors_held o w
  rw [opened] at held ⊢
  have select := heldPath_service (selectFds_path uartFd tcpFd udpFd before held)
  rcases ways with stopped | closed | handled
  · rw [stopped]
    exact .refl
  · rw [closed]
    exact select.trans (freePath_service (closeMessages_path _ _ _ _ _))
  · rw [handled]
    exact select.trans (handleMessages_path _ _ _ _ _ _ _ held)

/-- One iteration is a path of guarded moves. -/
theorem waitMessageAndHandle_path (o : Outcomes) (w : ServiceWorld) :
    ServicePath w (waitMessageAndHandle o w).1 :=
  (freePath_service (openDescriptors_path o w)).trans (openDescriptors_rest o w)

/-- A run of the service is a path of guarded moves. -/
theorem serviceRun_path (start : Service) (outcomes : List Outcomes) :
    ServicePath ⟨start, []⟩ (serviceRun start outcomes) := by
  have general (w : ServiceWorld) :
      ServicePath w (outcomes.foldl (fun w o => (waitMessageAndHandle o w).1) w) := by
    induction outcomes generalizing w with
    | nil => exact .refl
    | cons o rest ih => exact (waitMessageAndHandle_path o w).trans (ih _)
  exact general ⟨start, []⟩

end Psuart

import Mathlib.Data.List.Induction
import Psuart.Proof.Rader.Acceptance
import Psuart.Proof.Service.Response

namespace Psuart

theorem fdIsset_nil (ready : Int → Bool) (fd : Int) (positive : 0 < fd) : fdIsset [] ready fd = false := by
  rw [fdIsset, if_neg (by omega)]
  rfl

/-- Only a connected socket is watched for reading. -/
theorem watchedReads_tcp {uartFd tcpFd udpFd : Int} {s : Service} {ready : Int → Bool}
    (locals : LocalsHeld uartFd tcpFd udpFd s) (distinct : s.Distinct) (positive : 0 < tcpFd)
    (set : fdIsset (watchedReads s uartFd tcpFd udpFd) ready tcpFd = true) :
    s.psudata.tcpFd = tcpFd ∧ s.tcpConnected = 1 := by
  have field : s.psudata.tcpFd = tcpFd := by
    rcases locals.tcp with same | ⟨negative, _⟩
    · exact same.symm
    · omega
  refine ⟨field, ?_⟩
  rw [fdIsset, if_neg (by omega), Bool.and_eq_true, List.contains_iff_mem] at set
  have member := set.1
  simp only [watchedReads, List.mem_append] at member
  rcases member with ((zero | udp) | uart) | tcp
  · exact absurd (List.mem_singleton.mp zero) (by omega)
  · split at udp
    · rename_i opened
      have same := List.mem_singleton.mp udp
      have other := distinct.tcpUdp (by omega)
      rw [field, locals.udp opened] at other
      exact absurd same other
    · cases udp
  · split at uart
    · rename_i opened
      have same := List.mem_singleton.mp uart
      have other := distinct.uartTcp (by rw [locals.uart opened]; exact opened)
      rw [field, locals.uart opened] at other
      exact absurd same.symm other
    · cases uart
  · split at tcp
    · rename_i connected
      exact connected.2
    · cases tcp

/-- A socket that is set for reading is not watched for writing. -/
theorem watchedWrites_unset {uartFd tcpFd udpFd : Int} {s : Service} {ready : Int → Bool}
    (locals : LocalsHeld uartFd tcpFd udpFd s) (distinct : s.Distinct) (positive : 0 < tcpFd)
    (set : fdIsset (watchedReads s uartFd tcpFd udpFd) ready tcpFd = true) (other : Int → Bool) :
    fdIsset (watchedWrites s tcpFd) other tcpFd = false := by
  have connected := (watchedReads_tcp locals distinct positive set).2
  rw [watchedWrites, if_neg (by rw [connected]; simp)]
  exact fdIsset_nil _ _ positive

/-- The bytes of the UART reach only the collector. -/
theorem uartReadable_rader (o : Outcomes) (uartFd tcpFd : Int) (w : ServiceWorld) :
    ∃ rader, (uartReadable o uartFd tcpFd w).state = { w.state with rader := rader } := by
  simp only [uartReadable]
  split
  · exact ⟨_, rfl⟩
  · split
    · split <;> exact ⟨_, rfl⟩
    · exact ⟨_, rfl⟩

theorem uartReadable_psudata (o : Outcomes) (uartFd tcpFd : Int) (w : ServiceWorld) :
    (uartReadable o uartFd tcpFd w).state.psudata = w.state.psudata := by
  obtain ⟨rader, same⟩ := uartReadable_rader o uartFd tcpFd w
  rw [same]

/-- Without a pending connection the UART side keeps the descriptors. -/
theorem handleUart_psudata (o : Outcomes) (readable writable : Int → Bool) (uartFd tcpFd : Int)
    (w : ServiceWorld) (unset : writable tcpFd = false) :
    (handleUart o readable writable uartFd tcpFd w).state.psudata = w.state.psudata := by
  simp only [handleUart, whenSet, unset]
  split
  · exact uartReadable_psudata o uartFd tcpFd _
  · rfl

/-- A read of the current socket that does not end it keeps the path held. -/
theorem tcpReadable_held (o : Outcomes) (uartFd tcpFd : Int) (w : ServiceWorld)
    (field : 0 < tcpFd → w.state.psudata.tcpFd = tcpFd)
    (lives : (ServiceEvent.tcpRead tcpFd (readFd tcpFd o.tcpRead)).ends = none) :
    HeldPath w (tcpReadable o uartFd tcpFd w) := by
  have read : HeldPath w (w.step (.tcpRead tcpFd (readFd tcpFd o.tcpRead)) w.state) :=
    .single ⟨.tcpRead _ _, fun fd use positive => by
      have same : tcpFd = fd := Option.some.inj use
      rw [← same]
      exact field (same ▸ positive), lives⟩
  simp only [tcpReadable]
  split
  · exact read
  · split
    · exact read.trans (freePath_held (callRaderCmd_path _ _ _ _))
    · exact read

/-- A read that ends the connection is followed by no command. -/
theorem tcpReadable_ends (o : Outcomes) (uartFd tcpFd : Int) (w : ServiceWorld)
    (ends : (ServiceEvent.tcpRead tcpFd (readFd tcpFd o.tcpRead)).ends ≠ none) :
    (ServiceEvent.tcpRead tcpFd (readFd tcpFd o.tcpRead)).ends = some tcpFd ∧ 0 < tcpFd ∧
      tcpReadable o uartFd tcpFd w = w.step (.tcpRead tcpFd (readFd tcpFd o.tcpRead)) w.state := by
  cases data : readFd tcpFd o.tcpRead with
  | none =>
      rw [data] at ends
      exact absurd rfl ends
  | some bytes =>
      rw [data] at ends
      simp only [ServiceEvent.ends] at ends ⊢
      split at ends
      · rename_i closed
        refine ⟨if_pos closed, closed.1, ?_⟩
        simp [tcpReadable, data, closed.2]
      · exact absurd rfl ends

/-- An iteration is held, or it reads the end of the current socket before its datagrams. -/
theorem waitMessageAndHandle_ends (o : Outcomes) (w : ServiceWorld)
    (distinct : (openDescriptors o w).1.state.Distinct) :
    HeldPath w (waitMessageAndHandle o w).1 ∨
      ∃ u data uartFd tcpFd udpFd readable, HeldPath w u ∧ 0 < tcpFd ∧
        u.state.psudata.tcpFd = tcpFd ∧ (ServiceEvent.tcpRead tcpFd data).ends = some tcpFd ∧
          (waitMessageAndHandle o w).1 =
            handleDatagrams o readable uartFd udpFd (u.step (.tcpRead tcpFd data) u.state) := by
  obtain ⟨before, uartFd, tcpFd, udpFd, opened, ways⟩ := waitMessageAndHandle_cases o w
  have start := freePath_held (openDescriptors_path o w)
  have locals := openDescriptors_locals o w
  rw [opened] at start locals distinct
  have select := start.trans (selectFds_path uartFd tcpFd udpFd before locals.tcp)
  rcases ways with stopped | closed | handled
  · exact Or.inl (stopped ▸ start)
  · exact Or.inl (closed ▸ select.trans (freePath_held (closeMessages_path _ _ _ _ _)))
  · rw [handled]
    generalize readSet : fdIsset (watchedReads before.state uartFd tcpFd udpFd) o.readable = readable
    generalize writeSet : fdIsset (watchedWrites before.state tcpFd) o.writable = writable
    have uart := select.trans (handleUart_path o readable writable uartFd tcpFd _ locals.tcp)
    have tested := uart.snoc (FreeMoves.held ⟨.tested tcpFd, rfl⟩)
    simp only [handleMessages]
    by_cases set : readable tcpFd = true
    · have field : 0 < tcpFd →
          (handleUart o readable writable uartFd tcpFd
            (selectFds uartFd tcpFd udpFd before)).state.psudata.tcpFd = tcpFd := by
        intro positive
        rw [← readSet] at set
        have unset : writable tcpFd = false :=
          writeSet ▸ watchedWrites_unset locals distinct positive set o.writable
        rw [handleUart_psudata _ _ _ _ _ _ unset]
        exact (watchedReads_tcp locals distinct positive set).1
      by_cases lives : (ServiceEvent.tcpRead tcpFd (readFd tcpFd o.tcpRead)).ends = none
      · left
        rw [whenSet, if_pos set]
        exact (tested.trans (tcpReadable_held o uartFd tcpFd _ field lives)).trans
          (freePath_held (handleDatagrams_path o readable uartFd udpFd _))
      · right
        obtain ⟨ends, positive, world⟩ := tcpReadable_ends o uartFd tcpFd
          ((handleUart o readable writable uartFd tcpFd (selectFds uartFd tcpFd udpFd before)).step
            (.fdIsset tcpFd) _) lives
        refine ⟨_, _, uartFd, tcpFd, udpFd, readable, tested, positive, field positive, ends, ?_⟩
        rw [whenSet, if_pos set, world]
    · left
      rw [whenSet, if_neg set]
      exact tested.trans (freePath_held (handleDatagrams_path o readable uartFd udpFd _))

/-- Between the two worlds a close command closes the socket, or neither happens. -/
def ClosesOnCommand (fd : Int) (first second : ServiceWorld) : Prop :=
  ∃ added, second.trace = first.trace ++ added ∧
    (((∃ transition ∈ added, transition.event.ReceivesClose) ∧
        (∃ transition ∈ added, transition.event = .close fd ∧ transition.after.psudata.tcpFd = 0) ∧
          second.state.psudata.tcpFd = 0) ∨
      ((∀ transition ∈ added, ¬transition.event.ReceivesClose) ∧ second.state.psudata.tcpFd = fd))

/-- A step of another kind in front changes nothing. -/
theorem ClosesOnCommand.behind {fd : Int} {first second : ServiceWorld} {event : ServiceEvent}
    {after : Service} (other : ¬event.ReceivesClose)
    (closes : ClosesOnCommand fd (first.step event after) second) : ClosesOnCommand fd first second := by
  obtain ⟨added, equal, ways⟩ := closes
  refine ⟨⟨first.state, event, after⟩ :: added, by rw [equal]; simp, ?_⟩
  rcases ways with ⟨⟨receiving, inside, received⟩, ⟨closing, within, closed⟩, cleared⟩ | ⟨silent, kept⟩
  · exact Or.inl ⟨⟨receiving, List.mem_cons_of_mem _ inside, received⟩,
      ⟨closing, List.mem_cons_of_mem _ within, closed⟩, cleared⟩
  · refine Or.inr ⟨?_, kept⟩
    intro transition member
    rcases List.mem_cons.mp member with rfl | later
    · exact other
    · exact silent transition later

/-- A step of another kind that keeps the descriptor changes nothing. -/
theorem ClosesOnCommand.step {fd : Int} {first second : ServiceWorld} {event : ServiceEvent}
    {after : Service} (closes : ClosesOnCommand fd first second) (other : ¬event.ReceivesClose)
    (field : after.psudata.tcpFd = second.state.psudata.tcpFd) :
    ClosesOnCommand fd first (second.step event after) := by
  obtain ⟨added, equal, ways⟩ := closes
  refine ⟨added ++ [⟨second.state, event, after⟩],
    by rw [Trace.World.step_trace, equal, List.append_assoc], ?_⟩
  rcases ways with ⟨⟨receiving, inside, received⟩, ⟨closing, within, closed⟩, cleared⟩ | ⟨silent, kept⟩
  · exact Or.inl ⟨⟨receiving, List.mem_append_left _ inside, received⟩,
      ⟨closing, List.mem_append_left _ within, closed⟩, field.trans cleared⟩
  · refine Or.inr ⟨?_, field.trans kept⟩
    intro transition member
    rw [List.mem_append, List.mem_singleton] at member
    rcases member with old | rfl
    · exact silent transition old
    · exact other

theorem ClosesOnCommand.refl {fd : Int} {w : ServiceWorld} (held : w.state.psudata.tcpFd = fd) :
    ClosesOnCommand fd w w :=
  ⟨[], by simp, Or.inr ⟨fun _ member => absurd member List.not_mem_nil, held⟩⟩

/-- A close command is followed by the close of an open socket. -/
theorem udpCommand_close (uartFd : Int) (data : ReadBytes) (past : Memory) (w : ServiceWorld)
    (opened : 0 < w.state.psudata.tcpFd)
    (closes : ∃ payload, Carries data.val payload ∧ raderCloses payload = true) :
    ∃ command middle after, udpCommand uartFd data past w =
        (w.step command middle).step (.close w.state.psudata.tcpFd) after ∧
      after.psudata.tcpFd = 0 := by
  have ret : (callRaderCmd uartFd data past w).2 = 1 := by
    rw [callRaderCmd, raderCmd_ret_iff, bytesAt_recvArray]
    exact closes
  simp only [udpCommand, if_pos ret, closeTcpSocket]
  rw [if_pos (show (callRaderCmd uartFd data past w).1.state.psudata.tcpFd > 0 from opened)]
  exact ⟨_, _, _, rfl, rfl⟩

/-- Any other command keeps the socket. -/
theorem udpCommand_keep (uartFd : Int) (data : ReadBytes) (past : Memory) (w : ServiceWorld)
    (other : ¬∃ payload, Carries data.val payload ∧ raderCloses payload = true) :
    ∃ written after, udpCommand uartFd data past w = w.step (.raderCmd uartFd data written) after ∧
      after.psudata.tcpFd = w.state.psudata.tcpFd := by
  have ret : ¬(callRaderCmd uartFd data past w).2 = 1 := by
    rw [callRaderCmd, raderCmd_ret_iff, bytesAt_recvArray]
    exact other
  simp only [udpCommand, if_neg ret]
  exact ⟨_, _, rfl, rfl⟩

/-- The datagram branch closes the socket exactly for a close command. -/
theorem udpReadable_closes (o : Outcomes) (uartFd udpFd : Int) (w : ServiceWorld) (fd : Int)
    (positive : 0 < fd) (held : w.state.psudata.tcpFd = fd) :
    ClosesOnCommand fd w (udpReadable o uartFd udpFd w) := by
  have keep (event : ServiceEvent) (after : Service) (other : ¬event.ReceivesClose)
      (field : after.psudata.tcpFd = fd) : ClosesOnCommand fd w (w.step event after) :=
    (ClosesOnCommand.refl held).step other (field.trans held.symm)
  simp only [udpReadable]
  split
  · exact keep _ _ (fun received => received) held
  · rename_i source data _
    split
    · rename_i handed
      have field : (w.state.setNetAddr { source with sinPort := htons w.state.psudata.udpport }).psudata.tcpFd =
          fd := held
      by_cases closes : ∃ payload, Carries data.val payload ∧ raderCloses payload = true
      · obtain ⟨command, middle, after, world, cleared⟩ := udpCommand_close uartFd data o.past
          (w.step (.recvfrom udpFd (some data))
            (w.state.setNetAddr { source with sinPort := htons w.state.psudata.udpport }))
          (by rw [Trace.World.step_state, field]; exact positive) closes
        rw [world, Trace.World.step_state, field]
        refine ⟨_, by simp only [Trace.World.step_trace, List.append_assoc]; rfl, Or.inl ⟨?_, ?_, cleared⟩⟩
        · exact ⟨_, List.mem_append_left _ (List.mem_singleton_self _), handed.2, closes⟩
        · exact ⟨⟨middle, .close fd, after⟩, by simp, rfl, cleared⟩
      · obtain ⟨written, after, world, same⟩ := udpCommand_keep uartFd data o.past
          (w.step (.recvfrom udpFd (some data))
            (w.state.setNetAddr { source with sinPort := htons w.state.psudata.udpport })) closes
        rw [world]
        exact (keep (.recvfrom udpFd (some data)) _ (fun received => closes received.2) field).step
          (fun received => received) same
    · rename_i kept
      refine keep _ _ ?_ held
      rintro ⟨opened, payload, ⟨_, front, flag, back, _, equal⟩, _⟩
      apply kept
      refine ⟨?_, opened⟩
      rw [equal]
      simp [erupFrame, erupHeader]

/-- The rest of the iteration closes the socket exactly for a close command. -/
theorem handleDatagrams_closes (o : Outcomes) (readable : Int → Bool) (uartFd udpFd : Int)
    (w : ServiceWorld) (fd : Int) (positive : 0 < fd) (held : w.state.psudata.tcpFd = fd) :
    ClosesOnCommand fd w (handleDatagrams o readable uartFd udpFd w) := by
  have test (set : Int) : ¬(ServiceEvent.fdIsset set).ReceivesClose := fun received => received
  have datagram : ClosesOnCommand fd w
      (whenSet readable udpFd (udpReadable o uartFd udpFd) w) := by
    simp only [whenSet]
    split
    · have branch := udpReadable_closes o uartFd udpFd (w.step (.fdIsset udpFd) w.state) fd positive held
      exact branch.behind (test udpFd)
    · exact (ClosesOnCommand.refl held).step (test udpFd) rfl
  have tested := datagram.step (test 0) rfl
  simp only [handleDatagrams]
  rw [whenSet]
  split
  · exact tested.step (fun received => received) rfl
  · exact tested

/-- A held path adds no end of a connection. -/
theorem heldPath_lives {first second : ServiceWorld} (path : HeldPath first second) :
    ∃ added, second.trace = first.trace ++ added ∧ ∀ transition ∈ added, transition.event.ends = none := by
  obtain ⟨added, equal, moves⟩ := path.added
  exact ⟨added, equal, fun transition member => (moves transition member).2.2⟩

/-- The read that ends the connection is the only one of its iteration. -/
theorem iterationTrace_ends {o : Outcomes} {w u : ServiceWorld} {data : Option ReadBytes}
    {uartFd tcpFd udpFd : Int} {readable : Int → Bool} (before : HeldPath w u)
    (final : (waitMessageAndHandle o w).1 =
      handleDatagrams o readable uartFd udpFd (u.step (.tcpRead tcpFd data) u.state)) :
    ∃ front back, iterationTrace o w = front ++ ⟨u.state, .tcpRead tcpFd data, u.state⟩ :: back ∧
      (waitMessageAndHandle o w).1.trace = (u.step (.tcpRead tcpFd data) u.state).trace ++ back ∧
        (∀ transition ∈ front, transition.event.ends = none) ∧
          ∀ transition ∈ back, transition.event.ends = none := by
  obtain ⟨front, equal, lives⟩ := heldPath_lives before
  obtain ⟨back, rest, others⟩ := heldPath_lives (freePath_held (handleDatagrams_path o readable uartFd udpFd
    (u.step (.tcpRead tcpFd data) u.state)))
  refine ⟨front, back, ?_, by rw [final, rest], lives, others⟩
  rw [iterationTrace, final, rest, Trace.World.step_trace, equal]
  simp

/-- One iteration closes an ended connection exactly when a close command arrives behind the read. -/
theorem noticesEnd_iff (o : Outcomes) (w : ServiceWorld)
    (distinct : (openDescriptors o w).1.state.Distinct) : NoticesEnd o w ↔ EndsWithClose o w := by
  rcases waitMessageAndHandle_ends o w distinct with held |
    ⟨u, data, uartFd, tcpFd, udpFd, readable, before, positive, field, ends, final⟩
  · obtain ⟨added, equal, lives⟩ := heldPath_lives held
    have silent (fd : Int) (front : List ServiceTransition) (reading : ServiceTransition)
        (back : List ServiceTransition) (split : iterationTrace o w = front ++ reading :: back)
        (ended : reading.event.ends = some fd) : False := by
      rw [iterationTrace, equal, List.drop_left] at split
      rw [lives reading (by rw [split]; simp)] at ended
      cases ended
    apply iff_of_true
    · intro fd front reading back split ended
      exact (silent fd front reading back split ended).elim
    · intro fd front reading back split ended
      exact (silent fd front reading back split ended).elim
  · obtain ⟨front, back, whole, rest, lives, others⟩ := iterationTrace_ends before final
    have unique (fd : Int) (left : List ServiceTransition) (reading : ServiceTransition)
        (right : List ServiceTransition) (split : iterationTrace o w = left ++ reading :: right)
        (ended : reading.event.ends = some fd) : fd = tcpFd ∧ right = back := by
      obtain ⟨_, same, tails⟩ := Trace.split_unique
        (fun transition : ServiceTransition => transition.event.ends ≠ none)
        (fun transition member => not_not.mpr (lives transition member))
        (fun transition member => not_not.mpr (others transition member))
        (by rw [ended]; simp) (whole.symm.trans split)
      rw [← same, ends] at ended
      exact ⟨(Option.some.inj ended).symm, tails.symm⟩
    obtain ⟨added, more, ways⟩ := handleDatagrams_closes o readable uartFd udpFd
      (u.step (.tcpRead tcpFd data) u.state) tcpFd positive field
    have same : added = back := by
      rw [final, more] at rest
      exact List.append_cancel_left rest
    rw [same, ← final] at ways
    rcases ways with ⟨received, closed, cleared⟩ | ⟨silent, kept⟩
    · apply iff_of_true
      · intro fd left reading right split ended
        obtain ⟨rfl, rfl⟩ := unique fd left reading right split ended
        exact ⟨closed, cleared⟩
      · intro fd left reading right split ended
        obtain ⟨rfl, rfl⟩ := unique fd left reading right split ended
        exact received
    · apply iff_of_false
      · intro notices
        have cleared := (notices tcpFd front _ back whole ends).2
        omega
      · intro received
        obtain ⟨transition, member, receives⟩ := received tcpFd front _ back whole ends
        exact silent transition member receives

/-- A move keeps the TCP descriptor, opens a socket or leaves none. -/
theorem ServiceMoves.tcpFd_cases {s after : Service} {event : ServiceEvent}
    (move : ServiceMoves s event after) :
    after.psudata.tcpFd = s.psudata.tcpFd ∨ event.socket = some after.psudata.tcpFd ∨
      after.psudata.tcpFd ≤ 0 := by
  cases move with
  | tcpFailed => exact Or.inr (Or.inl rfl)
  | tcpOpened => exact Or.inr (Or.inl rfl)
  | tcpClosed => exact Or.inr (Or.inr (Int.le_refl 0))
  | _ => exact Or.inl rfl

/-- The current socket is live, and so was every socket that the run used. -/
structure LiveSocket (w : ServiceWorld) : Prop where
  live : 0 < w.state.psudata.tcpFd → Live w.state.psudata.tcpFd w.trace
  uses : Trace.Always UsesLive w.trace

/-- A held move keeps the current socket live. -/
theorem LiveSocket.step {w : ServiceWorld} (socket : LiveSocket w) {event : ServiceEvent}
    {after : Service} (move : HeldMoves w.state event after) : LiveSocket (w.step event after) where
  live positive := by
    rcases move.1.tcpFd_cases with same | opened | closed
    · change Live after.psudata.tcpFd _
      rw [same]
      exact (socket.live (same ▸ positive)).snoc move.2.2
    · exact .begin opened
    · exact absurd positive (Int.not_lt.mpr closed)
  uses := socket.uses.snoc fun fd use positive => by
    have current := move.2.1 fd use positive
    exact current ▸ socket.live (current ▸ positive)

/-- An iteration that closes every ended connection keeps the current socket live. -/
theorem LiveSocket.iteration {w : ServiceWorld} (socket : LiveSocket w) (o : Outcomes)
    (distinct : (openDescriptors o w).1.state.Distinct) (notices : NoticesEnd o w) :
    LiveSocket (waitMessageAndHandle o w).1 := by
  have keeps (first second : ServiceWorld) (path : HeldPath first second) (start : LiveSocket first) :
      LiveSocket second :=
    path.invariant LiveSocket (fun _ _ _ before move => before.step move) start
  rcases waitMessageAndHandle_ends o w distinct with held |
    ⟨u, data, uartFd, tcpFd, udpFd, readable, before, positive, field, ends, final⟩
  · exact keeps _ _ held socket
  · have current := keeps _ _ before socket
    have read : Trace.Always UsesLive (u.step (.tcpRead tcpFd data) u.state).trace :=
      current.uses.snoc fun fd use opened => by
        have same : tcpFd = fd := Option.some.inj use
        rw [← same, ← field]
        exact current.live (field ▸ positive)
    have rest : Trace.Always UsesLive (waitMessageAndHandle o w).1.trace := by
      rw [final]
      apply (handleDatagrams_path o readable uartFd udpFd _).invariant fun w => Trace.Always UsesLive w.trace
      · intro w event after uses move
        refine uses.snoc ?_
        intro fd use
        rw [show event.tcpUse = none from move.2] at use
        cases use
      · exact read
    obtain ⟨front, back, whole, _⟩ := iterationTrace_ends before final
    have cleared := (notices tcpFd front _ back whole ends).2
    exact ⟨fun opened => by omega, rest⟩

theorem serviceRun_snoc (start : Service) (outcomes : List Outcomes) (o : Outcomes) :
    serviceRun start (outcomes ++ [o]) = (waitMessageAndHandle o (serviceRun start outcomes)).1 := by
  rw [serviceRun, List.foldl_append]
  rfl

/-- The rest of a run extends the path of its front. -/
theorem serviceRun_append_path (start : Service) (front back : List Outcomes) :
    ServicePath (serviceRun start front) (serviceRun start (front ++ back)) := by
  induction back using List.reverseRecOn with
  | nil =>
      rw [List.append_nil]
      exact .refl
  | append_singleton rest o ih =>
      rw [← List.append_assoc, serviceRun_snoc]
      exact ih.trans (waitMessageAndHandle_path o _)

section Run

variable (netAddr : SockaddrIn) (udpport : BitVec 16)

/-- The rest of the run extends the path of the opening functions of an iteration. -/
theorem serviceRun_opening_rest (front back : List Outcomes) (o : Outcomes) :
    ServicePath (openDescriptors o (serviceRun (serviceStart netAddr udpport) front)).1
      (serviceRun (serviceStart netAddr udpport) (front ++ o :: back)) := by
  have rest := serviceRun_append_path (serviceStart netAddr udpport) (front ++ [o]) back
  rw [serviceRun_snoc, List.append_assoc] at rest
  exact (openDescriptors_rest o _).trans rest

/-- The descriptors are different behind the opening functions of every iteration. -/
theorem serviceRun_distinct (front back : List Outcomes) (o : Outcomes)
    (fresh : FreshTrace (serviceRun (serviceStart netAddr udpport) (front ++ o :: back)).trace) :
    (openDescriptors o (serviceRun (serviceStart netAddr udpport) front)).1.state.Distinct := by
  have start := serviceRun_path (serviceStart netAddr udpport) front
  have opening := freePath_service (openDescriptors_path o (serviceRun (serviceStart netAddr udpport) front))
  exact (serviceStart_distinct netAddr udpport).path (start.trans opening)
    (fresh.front (serviceRun_opening_rest netAddr udpport front back o))

/-- With close commands behind the ended reads the run uses only live connections. -/
theorem serviceRun_liveSocket (outcomes : List Outcomes)
    (fresh : FreshTrace (serviceRun (serviceStart netAddr udpport) outcomes).trace)
    (closes : ∀ front o back, outcomes = front ++ o :: back →
      EndsWithClose o (serviceRun (serviceStart netAddr udpport) front)) :
    LiveSocket (serviceRun (serviceStart netAddr udpport) outcomes) := by
  induction outcomes using List.reverseRecOn with
  | nil => exact ⟨fun positive => absurd positive (Int.lt_irrefl 0), Trace.always_nil _⟩
  | append_singleton front o ih =>
      have distinct := serviceRun_distinct netAddr udpport front [] o fresh
      have before := ih (fresh.front (serviceRun_append_path _ front [o]))
        fun first other rest equal => closes first other (rest ++ [o]) (by rw [equal]; simp)
      rw [serviceRun_snoc]
      exact before.iteration o distinct
        ((noticesEnd_iff o _ distinct).mpr (closes front o [] rfl))

/-- Every ended connection is closed in its iteration exactly when close commands arrive, and then the
service uses only live connections. -/
theorem serviceRun_notices_end_iff (outcomes : List Outcomes)
    (fresh : FreshTrace (serviceRun (serviceStart netAddr udpport) outcomes).trace) :
    ((∀ front o back, outcomes = front ++ o :: back →
        NoticesEnd o (serviceRun (serviceStart netAddr udpport) front)) ↔
      ∀ front o back, outcomes = front ++ o :: back →
        EndsWithClose o (serviceRun (serviceStart netAddr udpport) front)) ∧
      ((∀ front o back, outcomes = front ++ o :: back →
          EndsWithClose o (serviceRun (serviceStart netAddr udpport) front)) →
        Trace.Always UsesLive (serviceRun (serviceStart netAddr udpport) outcomes).trace) := by
  refine ⟨?_, fun closes => (serviceRun_liveSocket netAddr udpport outcomes fresh closes).uses⟩
  have each (front : List Outcomes) (o : Outcomes) (back : List Outcomes)
      (split : outcomes = front ++ o :: back) :=
    noticesEnd_iff o (serviceRun (serviceStart netAddr udpport) front)
      (serviceRun_distinct netAddr udpport front back o (split ▸ fresh))
  constructor
  · intro notices front o back split
    exact (each front o back split).mp (notices front o back split)
  · intro closes front o back split
    exact (each front o back split).mpr (closes front o back split)

end Run

/-- The connection is confirmed in the first iteration. -/
def confirmingOutcomes : Outcomes := { quietOutcomes with writable := fun fd => fd == 4 }

/-- The peer closes the connection. -/
def endingOutcomes : Outcomes :=
  { quietOutcomes with readable := fun fd => fd == 4, tcpRead := some ⟨[], by decide⟩ }

/-- A close command arrives together with the end of the connection. -/
def closingOutcomes : Outcomes :=
  { endingOutcomes with
    readable := fun fd => fd == 4 || fd == 5
    recvfrom := some (⟨0, 0, 0⟩, ⟨erupFrame 0 (stringBytes "close socket!"), by decide⟩) }

/-- An iteration that reads no end needs no close command. -/
theorem EndsWithClose.of_none {o : Outcomes} {w : ServiceWorld}
    (never : ∀ transition ∈ iterationTrace o w, transition.event.ends = none) : EndsWithClose o w := by
  intro fd front reading back split ends
  have none := never reading (by rw [split]; simp)
  rw [ends] at none
  cases none

/-- A close command behind a number of transitions is behind every end among them. -/
theorem EndsWithClose.of_drop {o : Outcomes} {w : ServiceWorld} (count : Nat)
    (never : ∀ transition ∈ (iterationTrace o w).drop count, transition.event.ends = none)
    (closes : ∃ transition ∈ (iterationTrace o w).drop count, transition.event.ReceivesClose) :
    EndsWithClose o w := by
  intro fd front reading back split ends
  obtain ⟨transition, member, receives⟩ := closes
  refine ⟨transition, ?_, receives⟩
  by_cases early : front.length < count
  · have behind : (iterationTrace o w).drop (front.length + 1) = back := by
      rw [split, ← List.drop_drop, List.drop_left]
      rfl
    rw [← behind]
    exact List.drop_subset_drop_left _ early member
  · have late : reading ∈ (iterationTrace o w).drop count := by
      rw [split, List.drop_append_of_le_length (Nat.not_lt.mp early)]
      simp
    have none := never reading late
    rw [ends] at none
    cases none

/-- The close command arrives behind the end, and the descriptor 4 is free again. -/
theorem serviceRun_notices_end_closing :
    (∀ front o back, [confirmingOutcomes, closingOutcomes, quietOutcomes] = front ++ o :: back →
        NoticesEnd o (serviceRun (serviceStart ⟨0, 0, 0⟩ 5000) front)) ∧
      Trace.Always UsesLive (serviceRun (serviceStart ⟨0, 0, 0⟩ 5000)
        [confirmingOutcomes, closingOutcomes, quietOutcomes]).trace := by
  have received : ∃ transition ∈ (iterationTrace closingOutcomes
      (serviceRun (serviceStart ⟨0, 0, 0⟩ 5000) [confirmingOutcomes])).drop 5,
      transition.event = .recvfrom 5 (some ⟨erupFrame 0 (stringBytes "close socket!"), by decide⟩) := by
    decide +kernel
  have closing : EndsWithClose closingOutcomes (serviceRun (serviceStart ⟨0, 0, 0⟩ 5000) [confirmingOutcomes]) := by
    obtain ⟨transition, member, event⟩ := received
    refine .of_drop 5 (by decide +kernel) ⟨transition, member, ?_⟩
    rw [event]
    exact ⟨by decide, stringBytes "close socket!", ⟨by decide, [], 0, [], by simp, by simp⟩, by decide⟩
  have closes : ∀ front o back, [confirmingOutcomes, closingOutcomes, quietOutcomes] = front ++ o :: back →
      EndsWithClose o (serviceRun (serviceStart ⟨0, 0, 0⟩ 5000) front) := by
    refine Trace.forall_places_cons.mpr ⟨.of_none (by decide +kernel), ?_⟩
    refine Trace.forall_places_cons.mpr ⟨closing, ?_⟩
    exact Trace.forall_places_cons.mpr ⟨.of_none (by decide +kernel), Trace.forall_places_nil⟩
  have run := serviceRun_notices_end_iff ⟨0, 0, 0⟩ 5000 [confirmingOutcomes, closingOutcomes, quietOutcomes]
    (by decide +kernel)
  exact ⟨run.1.mpr closes, run.2 closes⟩

/-- The service of this run goes on with the ended connection. -/
def endedRun : ServiceWorld :=
  serviceRun (serviceStart ⟨0, 0, 0⟩ 5000) [confirmingOutcomes, endingOutcomes, quietOutcomes]

/-- The ended connection is not closed, and the next iteration waits on it. -/
theorem serviceRun_misses_end :
    (¬∀ front o back, [confirmingOutcomes, endingOutcomes, quietOutcomes] = front ++ o :: back →
        NoticesEnd o (serviceRun (serviceStart ⟨0, 0, 0⟩ 5000) front)) ∧
      (∀ transition ∈ endedRun.trace, transition.event ≠ .close 4) ∧
        ∃ transition ∈ iterationTrace quietOutcomes
            (serviceRun (serviceStart ⟨0, 0, 0⟩ 5000) [confirmingOutcomes, endingOutcomes]),
          transition.event = .select 4 [0, 5, 3, 4] [] := by
  refine ⟨?_, by decide +kernel, by decide +kernel⟩
  intro notices
  have reads : ∃ index, ∃ inside : index < (iterationTrace endingOutcomes
      (serviceRun (serviceStart ⟨0, 0, 0⟩ 5000) [confirmingOutcomes])).length,
      ((iterationTrace endingOutcomes
        (serviceRun (serviceStart ⟨0, 0, 0⟩ 5000) [confirmingOutcomes])).get ⟨index, inside⟩).event.ends =
        some 4 :=
    ⟨4, by decide +kernel, by decide +kernel⟩
  obtain ⟨index, inside, ended⟩ := reads
  have split := (List.take_append_drop index (iterationTrace endingOutcomes
    (serviceRun (serviceStart ⟨0, 0, 0⟩ 5000) [confirmingOutcomes]))).symm
  rw [List.drop_eq_getElem_cons inside] at split
  have cleared := (notices [confirmingOutcomes] endingOutcomes [quietOutcomes] rfl 4 _ _ _ split ended).2
  have kept : (waitMessageAndHandle endingOutcomes (serviceRun (serviceStart ⟨0, 0, 0⟩ 5000)
      [confirmingOutcomes])).1.state.psudata.tcpFd = 4 := by
    decide +kernel
  omega

end Psuart

import Psuart.Proof.Service.Ownership
import Psuart.Proof.Service.Tests
import Psuart.Spec.Waiting

namespace Psuart

/-- The field of the connection is a truth value. -/
def Service.Flagged (s : Service) : Prop := s.tcpConnected = 0 ∨ s.tcpConnected = 1

theorem Service.Flagged.step {s after : Service} {event : ServiceEvent} (flagged : s.Flagged)
    (move : ServiceMoves s event after) : after.Flagged := by
  cases move with
  | confirmed => exact Or.inr rfl
  | unconfirmed | tcpOpened => exact Or.inl rfl
  | _ => exact flagged

/-- An open descriptor is waited on once. -/
def waiting (fd : Int) : List Int := if 0 < fd then [fd] else []

theorem Service.held_eq (s : Service) :
    s.held = waiting s.psudata.uartFd ++ waiting s.psudata.tcpFd ++ waiting s.psudata.udpFd := by
  simp only [Service.held, waiting, List.filter_cons, List.filter_nil, decide_eq_true_eq]
  split <;> split <;> split <;> rfl

/-- The local descriptors of the iteration are those of the fields. -/
structure LocalsExact (uartFd tcpFd udpFd : Int) (s : Service) : Prop where
  uart : waiting uartFd = waiting s.psudata.uartFd
  tcp : waiting tcpFd = waiting s.psudata.tcpFd
  udp : waiting udpFd = waiting s.psudata.udpFd

theorem waiting_closed {fd : Int} (closed : fd ≤ 0) : waiting fd = [] := if_neg (Int.not_lt.mpr closed)

theorem openUart_exact (o : Outcomes) (w : ServiceWorld) :
    waiting (openUart o w).2 = waiting (openUart o w).1.state.psudata.uartFd := by
  unfold openUart
  split
  · rfl
  · split
    · rename_i failed
      exact (waiting_closed (by decide : (-1 : Int) ≤ 0)).trans (waiting_closed failed).symm
    · rfl

theorem startUdpSocket_exact (o : Outcomes) (w : ServiceWorld) :
    waiting (startUdpSocket o w).2 = waiting (startUdpSocket o w).1.state.psudata.udpFd := by
  simp only [startUdpSocket]
  split
  · rfl
  · split
    · rename_i failed
      exact congrArg waiting failed.symm
    · split <;> rfl

theorem TcpHeld.exact {tcpFd : Int} {s : Service} (held : TcpHeld tcpFd s) :
    waiting tcpFd = waiting s.psudata.tcpFd := by
  rcases held with same | ⟨closed, shut⟩
  · rw [same]
  · rw [waiting_closed closed, waiting_closed shut]

theorem openDescriptors_exact (o : Outcomes) (w : ServiceWorld) :
    LocalsExact (openDescriptors o w).2.1 (openDescriptors o w).2.2.1 (openDescriptors o w).2.2.2
      (openDescriptors o w).1.state where
  uart := by
    have field := ((startUdpSocket_fields o (startTcpSocket o (openUart o w).1).1).2.trans
      (startTcpSocket_uartFd o (openUart o w).1))
    exact (openUart_exact o w).trans (congrArg waiting field.symm)
  tcp := (openDescriptors_held o w).exact
  udp := startUdpSocket_exact o _

theorem le_selectNfds (tcpFd udpFd uartFd : Int) :
    3 < selectNfds tcpFd udpFd uartFd ∧ tcpFd < selectNfds tcpFd udpFd uartFd ∧
      udpFd < selectNfds tcpFd udpFd uartFd ∧ uartFd < selectNfds tcpFd udpFd uartFd := by
  simp only [selectNfds, maxValue, List.take_succ_cons, List.take_zero, List.foldl_cons, List.foldl_nil]
  grind

/-- The sets name the standard input, and each descriptor of the fields is in one of them. -/
theorem watched_perm {uartFd tcpFd udpFd : Int} {s : Service} (exact : LocalsExact uartFd tcpFd udpFd s)
    (flagged : s.Flagged) :
    (watchedReads s uartFd tcpFd udpFd ++ watchedWrites s tcpFd).Perm (0 :: s.held) := by
  have tcp : (if tcpFd > 0 ∧ s.tcpConnected = 1 then [tcpFd] else []) ++ watchedWrites s tcpFd =
      waiting tcpFd := by
    rw [watchedWrites, waiting]
    rcases flagged with connecting | connected
    · simp [connecting]
    · simp [connected]
  have sets : watchedReads s uartFd tcpFd udpFd ++ watchedWrites s tcpFd =
      0 :: (waiting udpFd ++ (waiting uartFd ++ waiting tcpFd)) := by
    simp only [watchedReads, List.append_assoc, tcp]
    rfl
  rw [sets, s.held_eq, ← exact.uart, ← exact.tcp, ← exact.udp]
  exact List.perm_append_comm.cons 0

theorem mem_waiting {fd other : Int} : other ∈ waiting fd ↔ 0 < fd ∧ other = fd := by
  rw [waiting]
  split <;> simp_all

theorem waitsOnHeld {uartFd tcpFd udpFd : Int} {s : Service} (exact : LocalsExact uartFd tcpFd udpFd s)
    (flagged : s.Flagged) : WaitsOnHeld s uartFd tcpFd udpFd where
  watched := watched_perm exact flagged
  covered fd member := by
    have bounds := le_selectNfds tcpFd udpFd uartFd
    rw [(watched_perm exact flagged).mem_iff, s.held_eq, ← exact.uart, ← exact.tcp, ← exact.udp] at member
    simp only [List.mem_cons, List.mem_append, mem_waiting] at member
    omega

/-- In every iteration of a run the service waits exactly on what it holds. -/
theorem serviceRun_waits (netAddr : SockaddrIn) (udpport : BitVec 16) (outcomes : List Outcomes) (o : Outcomes)
    (fresh : FreshTrace (openDescriptors o (serviceRun (serviceStart netAddr udpport) outcomes)).1.trace) :
    let opened := openDescriptors o (serviceRun (serviceStart netAddr udpport) outcomes)
    WaitSound opened.1 opened.2.1 opened.2.2.1 opened.2.2.2 := by
  intro opened
  have path : ServicePath ⟨serviceStart netAddr udpport, []⟩ opened.1 :=
    (serviceRun_path _ outcomes).trans (freePath_service (openDescriptors_path o _))
  have exact := openDescriptors_exact o (serviceRun (serviceStart netAddr udpport) outcomes)
  have flagged : opened.1.state.Flagged :=
    path.invariant (fun w => w.state.Flagged) (fun _ _ _ good move => good.step move) (Or.inl rfl)
  have tracked : Tracked opened.1 :=
    fresh.invariant Tracked (fun _ _ _ tracked move last => tracked.step move last) path
      (serviceStart_tracked netAddr udpport)
  have accounted : opened.1.state.Accounted :=
    fresh.invariant (fun w => w.state.Accounted) (fun _ _ _ good move last => good.step move last) path
      (serviceStart_accounted netAddr udpport)
  have held := waitsOnHeld exact flagged
  refine ⟨held, ?_, ?_⟩
  · intro fd member
    rw [held.watched.mem_iff, List.mem_cons] at member
    rcases member with rfl | member
    · exact openDescriptors_keeps o _ (serviceRun_stdin netAddr udpport outcomes)
    · exact accounted.held_open member
  · intro positive unwatched
    have field : opened.1.state.psudata.tcpFd = opened.2.2.1 := by
      have same := exact.tcp
      rw [waiting, if_pos positive] at same
      have member : opened.2.2.1 ∈ waiting opened.1.state.psudata.tcpFd := same ▸ List.mem_singleton_self _
      exact (mem_waiting.mp member).2.symm
    have connected : opened.1.state.tcpConnected ≠ 0 := by
      intro connecting
      apply unwatched
      rw [watchedWrites, if_pos ⟨positive, connecting⟩]
      exact List.mem_singleton_self _
    rw [← field] at positive ⊢
    exact tracked.confirmed positive connected

/-- Behind a whole response the next iteration waits on the three descriptors. -/
theorem serviceRun_waits_response :
    let opened := openDescriptors quietOutcomes (serviceRun (serviceStart ⟨0, 0, 0⟩ 5000) responseOutcomes)
    WaitSound opened.1 opened.2.1 opened.2.2.1 opened.2.2.2 :=
  serviceRun_waits ⟨0, 0, 0⟩ 5000 responseOutcomes quietOutcomes (by decide +kernel)

end Psuart

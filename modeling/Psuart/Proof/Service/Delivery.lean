import Psuart.Proof.Service.Response

namespace Psuart

/-- Every move keeps the collector in a sound state. -/
theorem ServiceMoves.sound {s after : Service} {event : ServiceEvent} (sound : s.rader.Sound)
    (move : ServiceMoves s event after) : after.rader.Sound := by
  cases move with
  | confirmed => exact sound.disarm _
  | received _ data => exact raderRecv_sound sound data
  | commanded => exact (raderCmd_effect _ _ _).sound sound
  | typed => exact (raderCmdFromStdin_effect _ _).sound sound
  | _ => exact sound

/-- A sound collector writes whole frames. -/
theorem raderRecv_written_frame {s : Rader} (sound : s.Sound) (data : ReadBytes) (packet : List Byte)
    (written : (raderRecv s data.val).written = some packet) :
    ∃ flag payload, packet = erupFrame flag payload := by
  rcases sound with rests | ⟨acc, collects⟩
  · rw [raderRecv_rests rests] at written
    cases written
  · obtain ⟨waits, releases⟩ := raderRecv_collects collects data
    by_cases enough : s.raderDlen.toNat ≤ acc.length + data.val.length
    · rw [(releases enough).2.1] at written
      exact ⟨_, _, (Option.some.inj written).symm⟩
    · rw [(waits (by omega)).2.2.2.1] at written
      cases written

/-- The accepted bytes of a move are the first bytes of its packet. -/
theorem ServiceMoves.accepted_part {s after : Service} {event : ServiceEvent}
    (move : ServiceMoves s event after) (fd : Int) : event.accepted fd <+: event.packet fd := by
  cases move with
  | received uartFd data accepted _ _ _ part =>
      cases written : (raderRecv s.rader data.val).written with
      | none =>
          rw [written] at part
          have empty : accepted = [] := List.prefix_nil.mp part
          simp [ServiceEvent.accepted, ServiceEvent.packet, empty]
      | some packet =>
          rw [written] at part
          simp only [ServiceEvent.accepted, ServiceEvent.packet]
          split
          · exact part
          · exact List.prefix_rfl
  | _ => exact List.nil_prefix

/-- A packet of a move is a whole frame. -/
theorem ServiceMoves.packet_frame {s after : Service} {event : ServiceEvent} (sound : s.rader.Sound)
    (move : ServiceMoves s event after) (fd : Int) :
    event.packet fd = [] ∨ ∃ flag payload, event.packet fd = erupFrame flag payload := by
  cases move with
  | received uartFd data =>
      cases written : (raderRecv s.rader data.val).written with
      | none => exact Or.inl rfl
      | some packet =>
          simp only [ServiceEvent.packet]
          split
          · exact Or.inr (raderRecv_written_frame sound data packet written)
          · exact Or.inl rfl
  | _ => exact Or.inl rfl

/-- A connection carries its whole packets exactly when each of its writes takes all bytes. -/
theorem serviceRun_delivers_iff (netAddr : SockaddrIn) (udpport : BitVec 16) (outcomes : List Outcomes)
    (fd : Int) (connection : List ServiceTransition)
    (during : Connection fd (serviceRun (serviceStart netAddr udpport) outcomes).trace connection) :
    (∀ transition ∈ connection, transition.event.packet fd = [] ∨
        ∃ flag payload, transition.event.packet fd = erupFrame flag payload) ∧
      (connection.flatMap (fun transition => transition.event.accepted fd) =
          connection.flatMap (fun transition => transition.event.packet fd) ↔
        ∀ transition ∈ connection,
          (transition.event.accepted fd).length = (transition.event.packet fd).length) := by
  obtain ⟨past, opening, future, run, _, _⟩ := during
  have path := serviceRun_path (serviceStart netAddr udpport) outcomes
  have member (transition : ServiceTransition) (inside : transition ∈ connection) :
      transition ∈ (serviceRun (serviceStart netAddr udpport) outcomes).trace := by
    rw [run]
    simp [inside]
  have sound := (path.mem_invariant (fun s => s.rader.Sound) (fun _ _ _ sound move => move.sound sound)
    (Or.inl raderInit_rests)).2
  have parts (transition : ServiceTransition) (inside : transition ∈ connection) :=
    (path.mem_moves _ (member _ inside)).accepted_part fd
  constructor
  · intro transition inside
    exact (path.mem_moves _ (member _ inside)).packet_frame (sound _ (member _ inside)) fd
  · rw [Trace.flatMap_eq_iff_of_prefix _ _ _ parts]
    exact forall₂_congr fun transition inside =>
      ⟨congrArg List.length, (parts transition inside).eq_of_length⟩

theorem connection_of_drop (run : List ServiceTransition) (fd : Int) (index : Nat)
    (opening : (run[index]?.map fun transition => transition.event.socket) = some (some fd))
    (same : ∀ transition ∈ run.drop (index + 1), transition.event.socket = none) :
    Connection fd run (run.drop (index + 1)) := by
  obtain ⟨transition, found, socket⟩ := Option.map_eq_some_iff.mp opening
  obtain ⟨inside, equal⟩ := List.getElem?_eq_some_iff.mp found
  refine ⟨run.take index, transition, [], ?_, socket, same⟩
  rw [List.append_nil, ← equal, ← List.drop_eq_getElem_cons inside, List.take_append_drop]

theorem responseTrace_connection : Connection 4 responseTrace (responseTrace.drop 2) :=
  connection_of_drop responseTrace 4 1 (by decide +kernel) (by decide +kernel)

/-- The socket accepts the whole packet of this run. -/
theorem serviceRun_delivers_response :
    (responseTrace.drop 2).flatMap (fun transition => transition.event.accepted 4) =
      (responseTrace.drop 2).flatMap fun transition => transition.event.packet 4 :=
  (serviceRun_delivers_iff ⟨0, 0, 0⟩ 5000 responseOutcomes 4 (responseTrace.drop 2)
    responseTrace_connection).2.mpr (by decide +kernel)

/-- The socket accepts only three bytes of the packet. -/
def shortTrace : List ServiceTransition :=
  (serviceRun (serviceStart ⟨0, 0, 0⟩ 5000)
    (responseOutcomes.map fun o => { o with tcpWrite := some 3 })).trace

/-- The tail of the packet is lost in this run. -/
theorem serviceRun_truncates_packet : Connection 4 shortTrace (shortTrace.drop 2) ∧
    (shortTrace.drop 2).flatMap (fun transition => transition.event.accepted 4) = [0xFB, 0, 10] ∧
      (shortTrace.drop 2).flatMap (fun transition => transition.event.packet 4) =
        erupFrame dataFlagS (List.replicate 10 7) :=
  ⟨connection_of_drop shortTrace 4 1 (by decide +kernel) (by decide +kernel), by decide +kernel,
    by decide +kernel⟩

end Psuart

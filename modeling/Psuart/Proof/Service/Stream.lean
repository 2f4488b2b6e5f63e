import Psuart.Proof.Service.Gateway
import Psuart.Spec.Stream

namespace Psuart

/-- A released packet is the frame of the collected flag and length. -/
theorem raderRecv_frame {s : Rader} (sound : s.Sound) (data : ReadBytes) {packet : List Byte}
    (written : (raderRecv s data.val).written = some packet) :
    ∃ payload, packet = erupFrame s.rdaerCmdFlag payload ∧
      payload.length = (raderDlenOf s.rdaerCmdFlag).toNat ∧ payload ≠ [] := by
  rcases sound with rests | ⟨acc, collects⟩
  · rw [raderRecv_rests rests] at written
    cases written
  · obtain ⟨waits, releases⟩ := raderRecv_collects collects data
    by_cases enough : s.raderDlen.toNat ≤ acc.length + data.val.length
    · rw [(releases enough).2.1] at written
      have partly := collects.partly
      have length : ((acc ++ data.val).take s.raderDlen.toNat).length = s.raderDlen.toNat := by
        rw [List.length_take, List.length_append]
        omega
      refine ⟨_, (Option.some.inj written).symm, by rw [length, collects.length], ?_⟩
      apply List.length_pos_iff.mp
      omega
    · rw [(waits (by omega)).2.2.2.1] at written
      cases written

theorem frameAnswers {frame : Frame} (length : frame.2.length = (raderDlenOf frame.1).toNat)
    (visible : frame.2 ≠ []) : FrameAnswers frame where
  length := length
  visible := visible
  peer s past idle := by
    have bound := raderDlenOf_le frame.1
    rw [raderCmd_written_iff s idle, bytesAt_recvArray]
    exact ⟨by omega, [], frame.1, [], List.not_mem_nil, by simp [Frame.bytes]⟩

/-- A move sends no frame, or one that answers a command. -/
theorem ServiceMoves.frame {s after : Service} {event : ServiceEvent} (sound : s.rader.Sound)
    (move : ServiceMoves s event after) (fd : Int) :
    (event.packet fd = [] ∧ event.frame fd = none) ∨
      ∃ frame, event.packet fd = frame.bytes ∧ event.frame fd = some frame ∧ FrameAnswers frame := by
  cases move with
  | received uartFd data =>
      cases written : (raderRecv s.rader data.val).written with
      | none => exact Or.inl ⟨rfl, rfl⟩
      | some packet =>
          simp only [ServiceEvent.frame, ServiceEvent.packet]
          split
          · obtain ⟨payload, rfl, length, visible⟩ := raderRecv_frame sound data written
            have bound := raderDlenOf_le s.rader.rdaerCmdFlag
            have parsed : parseFrame (erupFrame s.rader.rdaerCmdFlag payload) =
                some ((s.rader.rdaerCmdFlag, payload), []) :=
              parseFrame_iff.mpr ⟨by omega, (List.append_nil _).symm⟩
            exact Or.inr ⟨(s.rader.rdaerCmdFlag, payload), rfl, by rw [parsed]; rfl, frameAnswers length visible⟩
          · exact Or.inl ⟨rfl, rfl⟩
  | _ => exact Or.inl ⟨rfl, rfl⟩

/-- The packets of a connection are its frames in their order. -/
theorem packets_frames {fd : Int} {connection : List ServiceTransition}
    (frames : ∀ transition ∈ connection,
      (transition.event.packet fd = [] ∧ transition.event.frame fd = none) ∨
        ∃ frame, transition.event.packet fd = frame.bytes ∧ transition.event.frame fd = some frame ∧
          FrameAnswers frame) :
    connection.flatMap (fun transition => transition.event.packet fd) =
        (connectionFrames fd connection).flatMap Frame.bytes ∧
      ∀ frame ∈ connectionFrames fd connection, FrameAnswers frame := by
  induction connection with
  | nil => exact ⟨rfl, fun _ member => by cases member⟩
  | cons transition rest ih =>
      obtain ⟨bytes, answers⟩ := ih fun other member => frames other (List.mem_cons_of_mem _ member)
      rcases frames transition List.mem_cons_self with ⟨silent, none⟩ | ⟨frame, packet, found, sound⟩
      · have same : connectionFrames fd (transition :: rest) = connectionFrames fd rest :=
          List.filterMap_cons_none none
        rw [same, List.flatMap_cons, silent]
        exact ⟨bytes, answers⟩
      · have same : connectionFrames fd (transition :: rest) = frame :: connectionFrames fd rest :=
          List.filterMap_cons_some found
        rw [same, List.flatMap_cons, List.flatMap_cons, packet, bytes]
        refine ⟨rfl, ?_⟩
        intro other member
        rcases List.mem_cons.mp member with rfl | later
        · exact sound
        · exact answers other later

/-- The server reads exactly the frames of a connection whose writes take all their bytes. -/
theorem serviceRun_stream (netAddr : SockaddrIn) (udpport : BitVec 16) (outcomes : List Outcomes)
    (fd : Int) (connection : List ServiceTransition)
    (during : Connection fd (serviceRun (serviceStart netAddr udpport) outcomes).trace connection)
    (whole : ∀ transition ∈ connection,
      (transition.event.accepted fd).length = (transition.event.packet fd).length) :
    StreamDecodes fd connection := by
  obtain ⟨past, opening, future, run, _, _⟩ := during
  have path := serviceRun_path (serviceStart netAddr udpport) outcomes
  have member (transition : ServiceTransition) (inside : transition ∈ connection) :
      transition ∈ (serviceRun (serviceStart netAddr udpport) outcomes).trace := by
    rw [run]
    simp [inside]
  have sound := (path.mem_invariant (fun s => s.rader.Sound) (fun _ _ _ sound move => move.sound sound)
    (Or.inl raderInit_rests)).2
  obtain ⟨packets, answers⟩ := packets_frames fun transition inside =>
    (path.mem_moves _ (member _ inside)).frame (sound _ (member _ inside)) fd
  have bytes : acceptedBytesOf fd connection = (connectionFrames fd connection).flatMap Frame.bytes := by
    rw [← packets]
    exact List.flatMap_congr fun transition inside =>
      ((path.mem_moves _ (member _ inside)).accepted_part fd).eq_of_length (whole transition inside)
  refine ⟨answers, bytes, ?_⟩
  intro arrived part
  apply frames_delimit.splitAll_part _ (bytes ▸ part)
  intro frame inside
  have length := (answers frame inside).length
  have bound := raderDlenOf_le frame.1
  omega

/-- The socket accepts the whole packet of the run with a response. -/
theorem serviceRun_stream_response : StreamDecodes 4 (responseTrace.drop 2) :=
  serviceRun_stream ⟨0, 0, 0⟩ 5000 responseOutcomes 4 (responseTrace.drop 2) responseTrace_connection
    (by decide +kernel)

end Psuart

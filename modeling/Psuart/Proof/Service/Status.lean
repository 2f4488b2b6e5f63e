import Psuart.Proof.Service.Requests
import Psuart.Proof.Service.Stream
import Psuart.Spec.Status

namespace Psuart

/-- A status is followed at once by the command of the scan. -/
abbrev StatusAnswered : List ServiceTransition → Prop := Trace.Answered SendsStatus StartsScan

/-- The world extends another by transitions in which every status is answered. -/
def Extends (first second : ServiceWorld) : Prop :=
  ∃ added, second.trace = first.trace ++ added ∧ StatusAnswered added

theorem Extends.trans {first second third : ServiceWorld} (front : Extends first second)
    (back : Extends second third) : Extends first third := by
  obtain ⟨early, equal, answered⟩ := front
  obtain ⟨late, same, also⟩ := back
  exact ⟨early ++ late, by rw [same, equal, List.append_assoc], answered.append also⟩

theorem sendsStatus_free {transition : ServiceTransition} (free : transition.event.tcpUse = none) :
    ¬SendsStatus transition := by
  rintro ⟨payload, sent⟩
  cases shape : transition.event with
  | raderRecv =>
      rw [shape] at free
      cases free
  | _ =>
      rw [shape] at sent
      cases sent

theorem freePath_extends {first second : ServiceWorld} (path : FreePath first second) :
    Extends first second := by
  obtain ⟨added, equal, each⟩ := path.added
  exact ⟨added, equal, Trace.answered_of_none fun transition member => sendsStatus_free (each transition member).2⟩

theorem step_extends (w : ServiceWorld) {event : ServiceEvent} (silent : event.sent.2 = none) :
    Extends w (w.step event w.state) := by
  refine ⟨[⟨w.state, event, w.state⟩], rfl, Trace.answered_of_none ?_⟩
  intro transition member
  rw [List.mem_singleton.mp member]
  rintro ⟨payload, sent⟩
  rw [silent] at sent
  cases sent

/-- The flag stands behind the length in a frame. -/
theorem erupFrame_flag {flag other : Byte} {first second : List Byte}
    (same : erupFrame flag first = erupFrame other second) : flag = other := by
  have fourth := congrArg (fun bytes => bytes[3]?) same
  simpa [erupFrame, erupHeader] using fourth

/-- The result reports a written status. -/
theorem raderRecv_status {s : Rader} (sound : s.Sound) (data : ReadBytes) {payload : List Byte}
    (written : (raderRecv s data.val).written = some (erupFrame dataFlagS payload)) :
    (raderRecv s data.val).ret = dataFlagS ∧ (raderRecv s data.val).state.raderDlen = 0 := by
  rcases sound with rests | ⟨acc, collects⟩
  · rw [raderRecv_rests rests] at written
    cases written
  · obtain ⟨waits, releases⟩ := raderRecv_collects collects data
    by_cases enough : s.raderDlen.toNat ≤ acc.length + data.val.length
    · obtain ⟨rests, packet, ret⟩ := releases enough
      rw [packet] at written
      rw [ret, if_pos (erupFrame_flag (Option.some.inj written))]
      exact ⟨rfl, rests.idle⟩
    · rw [(waits (by omega)).2.2.2.1] at written
      cases written

/-- An idle collector sends the command of the scan and collects its response. -/
theorem callRaderCmdFromStdin_scan {w : ServiceWorld} (idle : w.state.rader.raderDlen = 0) (fd : Int) :
    ∃ after, callRaderCmdFromStdin fd (stringBytes "F") w =
        w.step (.raderCmdFromStdin fd (stringBytes "F") (some (stringBytes "F"))) after ∧
      after.rader.rdaerCmdFlag = dataFlagF ∧ after.rader.raderDlen = raderDlenOf dataFlagF := by
  have result : raderCmdFromStdin w.state.rader (stringBytes "F") =
      ⟨raderStart w.state.rader (stringBytes "F"), some (stringBytes "F"), 0⟩ := by
    have kept : ¬((stringBytes "F").length ≥ 3 ∧ strcasecmp (stringBytes "F") (stringBytes "cls") = 0) := by
      decide
    have plain : stdinCommand (stringBytes "F") = stringBytes "F" := by decide
    rw [raderCmdFromStdin, if_neg kept, plain, raderForward, if_pos idle]
  refine ⟨{ w.state with rader := raderStart w.state.rader (stringBytes "F") }, ?_, ?_, ?_⟩
  · simp only [callRaderCmdFromStdin, result]
  · exact (by decide : raderFlag (stringBytes "F") = dataFlagF)
  · exact (by decide : raderDlenOf (raderFlag (stringBytes "F")) = raderDlenOf dataFlagF)

theorem not_sendsStatus_of_typed (transition : ServiceTransition) {fd : Int} {buf : List Byte}
    {written : Option (List Byte)} (typed : transition.event = .raderCmdFromStdin fd buf written) : ¬SendsStatus transition := by
  apply sendsStatus_free
  rw [typed]
  rfl

/-- The command of the scan follows a status in the same call. -/
theorem uartReadable_extends (o : Outcomes) (uartFd tcpFd : Int) {w : ServiceWorld}
    (sound : w.state.rader.Sound) : Extends w (uartReadable o uartFd tcpFd w) := by
  simp only [uartReadable]
  split
  · exact step_extends w rfl
  · rename_i data _
    split
    · generalize accepted : acceptedBytes o.tcpWrite (raderRecv w.state.rader data.val).written = part
      generalize received : w.step (.raderRecv uartFd tcpFd data (raderRecv w.state.rader data.val).written part)
        { w.state with rader := (raderRecv w.state.rader data.val).state } = front
      have trace : front.trace = w.trace ++ [⟨w.state, .raderRecv uartFd tcpFd data
          (raderRecv w.state.rader data.val).written part, front.state⟩] := by
        rw [← received]
        rfl
      by_cases status : ∃ payload, (raderRecv w.state.rader data.val).written = some (erupFrame dataFlagS payload)
      · obtain ⟨payload, written⟩ := status
        obtain ⟨ret, idle⟩ := raderRecv_status sound data written
        rw [if_pos ret]
        have idle : front.state.rader.raderDlen = 0 := by
          rw [← received]
          exact idle
        obtain ⟨after, scan, flag, length⟩ := callRaderCmdFromStdin_scan idle uartFd
        rw [scan]
        refine ⟨_, by rw [Trace.World.step_trace, trace, List.append_assoc], ?_⟩
        exact Trace.answered_pair ⟨uartFd, tcpFd, data, _, part, rfl, rfl, flag, length⟩
          (not_sendsStatus_of_typed _ rfl)
      · have quiet : Extends w front := by
          refine ⟨_, trace, Trace.answered_of_none ?_⟩
          intro transition member
          rw [List.mem_singleton.mp member]
          exact status
        split
        · exact quiet.trans (freePath_extends (callRaderCmdFromStdin_path _ _ _))
        · exact quiet
    · exact step_extends w rfl

theorem whenSet_extends {set : Int → Bool} {fd : Int} {branch : ServiceWorld → ServiceWorld} {w : ServiceWorld}
    (grows : ∀ w', w'.state = w.state → Extends w' (branch w')) : Extends w (whenSet set fd branch w) := by
  have tested : Extends w (w.step (.fdIsset fd) w.state) := step_extends w rfl
  simp only [whenSet]
  split
  · exact tested.trans (grows _ rfl)
  · exact tested

theorem tcpReadable_extends (o : Outcomes) (uartFd tcpFd : Int) (w : ServiceWorld) :
    Extends w (tcpReadable o uartFd tcpFd w) := by
  have read : Extends w (w.step (.tcpRead tcpFd (readFd tcpFd o.tcpRead)) w.state) := step_extends w rfl
  simp only [tcpReadable]
  split
  · exact read
  · split
    · exact read.trans (freePath_extends (callRaderCmd_path _ _ _ _))
    · exact read

theorem servicePath_sound {first second : ServiceWorld} (path : ServicePath first second)
    (sound : first.state.rader.Sound) : second.state.rader.Sound :=
  path.invariant (fun w => w.state.rader.Sound) (fun _ _ _ sound move => move.sound sound) sound

theorem handleUart_extends (o : Outcomes) (readable writable : Int → Bool) (uartFd tcpFd : Int)
    {w : ServiceWorld} (sound : w.state.rader.Sound) :
    Extends w (handleUart o readable writable uartFd tcpFd w) := by
  have written : FreePath w (whenSet writable tcpFd (tcpWritable o) w) :=
    whenSet_path (fun _ _ _ move => move) fun w' _ => tcpWritable_path o w'
  have kept := servicePath_sound (freePath_service written) sound
  exact (freePath_extends written).trans
    (whenSet_extends fun w' same => uartReadable_extends o uartFd tcpFd (same ▸ kept))

theorem handleMessages_extends (o : Outcomes) (readable writable : Int → Bool) (uartFd tcpFd udpFd : Int)
    {w : ServiceWorld} (sound : w.state.rader.Sound) :
    Extends w (handleMessages o readable writable uartFd tcpFd udpFd w) := by
  apply (handleUart_extends o readable writable uartFd tcpFd sound).trans
  apply Extends.trans (whenSet_extends fun w' _ => tcpReadable_extends o uartFd tcpFd w')
  exact freePath_extends (handleDatagrams_path o readable uartFd udpFd _)

/-- Each iteration answers its own status. -/
theorem waitMessageAndHandle_extends (o : Outcomes) {w : ServiceWorld} (sound : w.state.rader.Sound) :
    Extends w (waitMessageAndHandle o w).1 := by
  obtain ⟨before, uartFd, tcpFd, udpFd, opened, ways⟩ := waitMessageAndHandle_cases o w
  have opening : FreePath w before := by
    have path := openDescriptors_path o w
    rwa [opened] at path
  have start := freePath_extends opening
  have kept := servicePath_sound (freePath_service opening) sound
  have select : Extends before (selectFds uartFd tcpFd udpFd before) := step_extends before rfl
  rcases ways with stopped | closed | handled
  · rw [stopped]
    exact start
  · rw [closed]
    exact (start.trans select).trans (freePath_extends (closeMessages_path _ _ _ _ _))
  · rw [handled]
    exact (start.trans select).trans (handleMessages_extends o _ _ _ _ _ kept)

theorem serviceRun_extends {start : Service} (sound : start.rader.Sound) (outcomes : List Outcomes) :
    Extends ⟨start, []⟩ (serviceRun start outcomes) := by
  have general (w : ServiceWorld) (sound : w.state.rader.Sound) :
      Extends w (outcomes.foldl (fun w o => (waitMessageAndHandle o w).1) w) := by
    induction outcomes generalizing w with
    | nil => exact freePath_extends .refl
    | cons o rest ih =>
        have kept := servicePath_sound (waitMessageAndHandle_path o w) sound
        exact (waitMessageAndHandle_extends o sound).trans (ih _ kept)
  exact general ⟨start, []⟩ sound

/-- A busy collector keeps its request until the wait ends. -/
theorem ServiceMoves.keeps_request {s after : Service} {event : ServiceEvent} (sound : s.rader.Sound)
    (move : ServiceMoves s event after) (busy : s.rader.raderDlen ≠ 0) (kept : ¬event.Releases) :
    after.rader.rdaerCmdFlag = s.rader.rdaerCmdFlag ∧ after.rader.raderDlen = s.rader.raderDlen := by
  have effect_keeps {written : Option (List Byte)} {rader : Rader} (effect : CommandEffect s.rader written rader)
      (held : rader.raderDlen ≠ 0) :
      rader.rdaerCmdFlag = s.rader.rdaerCmdFlag ∧ rader.raderDlen = s.rader.raderDlen := by
    cases effect with
    | refused => exact ⟨rfl, rfl⟩
    | disarmed => exact absurd rfl held
    | started idle payload => exact absurd idle busy
  have held := move.requests.mpr (Or.inr ⟨busy, kept⟩)
  cases move with
  | confirmed => exact absurd rfl kept
  | received uartFd data =>
      rcases sound with rests | ⟨acc, collects⟩
      · exact absurd rests.idle busy
      · obtain ⟨waits, releases⟩ := raderRecv_collects collects data
        by_cases enough : s.rader.raderDlen.toNat ≤ acc.length + data.val.length
        · exact absurd (releases enough).1.idle held
        · have waiting := waits (by omega)
          exact ⟨waiting.2.1, waiting.2.2.1⟩
  | commanded => exact effect_keeps (raderCmd_effect _ _ _) held
  | typed => exact effect_keeps (raderCmdFromStdin_effect _ _) held
  | _ => exact ⟨rfl, rfl⟩

theorem serviceRun_scan_pending (netAddr : SockaddrIn) (udpport : BitVec 16) (outcomes : List Outcomes) :
    Trace.Always (fun past transition => ScanPending past → WaitsForScan transition.before)
      (serviceRun (serviceStart netAddr udpport) outcomes).trace := by
  have record := (serviceRun_path (serviceStart netAddr udpport) outcomes).invariant
    (fun w => w.state.rader.Sound ∧ (ScanPending w.trace → WaitsForScan w.state) ∧
      Trace.Always (fun past transition => ScanPending past → WaitsForScan transition.before) w.trace) ?_
    ⟨Or.inl raderInit_rests, fun pending => absurd pending Trace.since_nil, Trace.always_nil _⟩
  · exact record.2.2
  · rintro world event after ⟨sound, waits, always⟩ move
    refine ⟨move.sound sound, ?_, always.snoc waits⟩
    intro pending
    rcases Trace.since_snoc_iff.mp pending with starts | ⟨before, kept⟩
    · exact starts
    · obtain ⟨flag, length⟩ := waits before
      have busy : world.state.rader.raderDlen ≠ 0 := by
        rw [length]
        decide
      obtain ⟨sameFlag, sameLength⟩ := move.keeps_request sound busy kept
      exact ⟨sameFlag.trans flag, sameLength.trans length⟩

theorem ServiceMoves.packet_frame_of_scan {s after : Service} {event : ServiceEvent} (sound : s.rader.Sound)
    (move : ServiceMoves s event after) (waits : WaitsForScan s) {packet : List Byte}
    (sent : event.sent.2 = some packet) :
    ∃ payload, packet = erupFrame dataFlagF payload ∧ payload.length = 3178 := by
  cases move with
  | received uartFd data =>
      obtain ⟨payload, frame, length, _⟩ := raderRecv_frame sound data sent
      rw [waits.1] at frame length
      exact ⟨payload, frame, length.trans (by decide)⟩
  | _ => cases sent

/-- In every run a status is followed at once by the command of the scan, and the next packet is the whole scan. -/
theorem serviceRun_scan_follows (netAddr : SockaddrIn) (udpport : BitVec 16) (outcomes : List Outcomes) :
    let run := serviceRun (serviceStart netAddr udpport) outcomes
    Trace.Answered SendsStatus StartsScan run.trace ∧ ScanFollows run.trace := by
  intro run
  have path := serviceRun_path (serviceStart netAddr udpport) outcomes
  have rests : (serviceStart netAddr udpport).rader.Sound := Or.inl raderInit_rests
  obtain ⟨added, grown, answered⟩ := serviceRun_extends rests outcomes
  have answered : StatusAnswered run.trace := by
    rw [grown]
    exact answered
  have sound := (path.mem_invariant (fun s => s.rader.Sound) (fun _ _ _ sound move => move.sound sound)
    (Or.inl raderInit_rests)).2
  refine ⟨answered, ?_⟩
  intro past status between answer future packet trace sends kept sent
  have member : answer ∈ run.trace := by
    rw [trace]
    simp
  obtain ⟨next, rest, equal, uartFd, fd, data, part, accepted, _, typed, scan⟩ :=
    answered past status (between ++ answer :: future) (by rw [trace]; simp) sends
  cases between with
  | nil =>
      obtain ⟨rfl, _⟩ := List.cons.inj equal
      rw [typed] at sent
      cases sent
  | cons first later =>
      obtain ⟨rfl, _⟩ := List.cons.inj equal
      have pending : ScanPending (past ++ status :: first :: later) :=
        ⟨past ++ [status], first, later, by simp, scan,
          fun transition inside => kept transition (List.mem_cons_of_mem _ inside)⟩
      have waits := serviceRun_scan_pending netAddr udpport outcomes
        (past ++ status :: first :: later) answer future (by simpa using trace) pending
      exact (path.mem_moves answer member).packet_frame_of_scan (sound answer member) waits sent

end Psuart

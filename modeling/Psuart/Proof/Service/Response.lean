import Psuart.Proof.Rader.Commands
import Psuart.Proof.Service.Descriptors

namespace Psuart

/-- The socket, its confirmation and the collection agree with the trace. -/
structure Tracked (w : ServiceWorld) : Prop where
  distinct : w.state.Distinct
  sound : w.state.rader.Sound
  opened : 0 < w.state.psudata.tcpFd → Opened w.state.psudata.tcpFd w.trace
  confirmed : 0 < w.state.psudata.tcpFd → w.state.tcpConnected ≠ 0 →
    Confirmed w.state.psudata.tcpFd w.trace
  response : 0 < w.state.psudata.tcpFd → w.state.tcpConnected ≠ 0 → w.state.rader.raderDlen ≠ 0 →
    ∃ payload acc, w.state.rader.Collects acc ∧ w.state.rader.rdaerCmdFlag = raderFlag payload ∧
      Response w.state.psudata.tcpFd payload w.trace acc
  packets : Trace.Always PacketSound w.trace

/-- The event writes no packet. -/
def ServiceEvent.NoPacket (event : ServiceEvent) : Prop :=
  ∀ uartFd fd data packet accepted, event ≠ .raderRecv uartFd fd data (some packet) accepted

theorem ServiceEvent.NoPacket.sound {transition : ServiceTransition}
    (none : transition.event.NoPacket) (past : List ServiceTransition) : PacketSound past transition :=
  fun uartFd fd data packet accepted equal => absurd equal (none uartFd fd data packet accepted)

section Step

variable {w : ServiceWorld} (tracked : Tracked w) {event : ServiceEvent} {after : Service}
  (distinct : after.Distinct)

include tracked distinct

/-- A transition that leaves no socket keeps the record. -/
theorem Tracked.shut (sound : after.rader.Sound) (closed : after.psudata.tcpFd ≤ 0)
    (none : event.NoPacket) : Tracked (w.step event after) where
  distinct := distinct
  sound := sound
  opened positive := absurd positive (Int.not_lt.mpr closed)
  confirmed positive := absurd positive (Int.not_lt.mpr closed)
  response positive := absurd positive (Int.not_lt.mpr closed)
  packets := tracked.packets.snoc (none.sound _)

/-- A transition without a confirmation keeps the record of the opening. -/
theorem Tracked.wait (sound : after.rader.Sound)
    (keeps : 0 < after.psudata.tcpFd → after.psudata.tcpFd = w.state.psudata.tcpFd ∧
      KeepsSocket after.psudata.tcpFd ⟨w.state, event, after⟩)
    (waiting : 0 < after.psudata.tcpFd → after.tcpConnected = 0)
    (none : event.NoPacket) : Tracked (w.step event after) where
  distinct := distinct
  sound := sound
  opened positive := by
    obtain ⟨same, socket⟩ := keeps positive
    have opened := tracked.opened (same ▸ positive)
    rw [← same] at opened
    exact opened.snoc socket
  confirmed positive connected := absurd (waiting positive) connected
  response positive connected := absurd (waiting positive) connected
  packets := tracked.packets.snoc (none.sound _)

/-- A transition that keeps the socket and reads nothing keeps the record. -/
theorem Tracked.calm (rader : after.rader = w.state.rader)
    (field : after.psudata.tcpFd = w.state.psudata.tcpFd)
    (status : after.tcpConnected = w.state.tcpConnected)
    (alive : 0 < w.state.psudata.tcpFd → event ≠ .close w.state.psudata.tcpFd)
    (same : event.socket = none) (silent : event.uartBytes = [])
    (none : event.NoPacket) : Tracked (w.step event after) where
  distinct := distinct
  sound := rader ▸ tracked.sound
  opened positive := by
    change 0 < after.psudata.tcpFd at positive
    change Opened after.psudata.tcpFd _
    rw [field] at positive ⊢
    exact (tracked.opened positive).snoc ⟨field, alive positive, same⟩
  confirmed positive connected := by
    change 0 < after.psudata.tcpFd at positive
    change after.tcpConnected ≠ 0 at connected
    change Confirmed after.psudata.tcpFd _
    rw [field] at positive ⊢
    rw [status] at connected
    exact (tracked.confirmed positive connected).snoc ⟨field, alive positive, same⟩
  response positive connected busy := by
    change 0 < after.psudata.tcpFd at positive
    change after.tcpConnected ≠ 0 at connected
    change after.rader.raderDlen ≠ 0 at busy
    change ∃ payload acc, after.rader.Collects acc ∧ after.rader.rdaerCmdFlag = raderFlag payload ∧
      Response after.psudata.tcpFd payload _ acc
    rw [field] at positive ⊢
    rw [status] at connected
    rw [rader] at busy ⊢
    obtain ⟨payload, acc, collects, flag, response⟩ := tracked.response positive connected busy
    have kept : KeepsCollection w.state.psudata.tcpFd payload ⟨w.state, event, after⟩ :=
      ⟨⟨field, alive positive, same⟩, by rw [rader, collects.length, flag]⟩
    have next := response.snoc kept
    rw [silent, List.append_nil] at next
    exact ⟨payload, acc, collects, flag, next⟩
  packets := tracked.packets.snoc (none.sound _)

end Step

/-- A command keeps the record, and a started collection belongs to the confirmed socket. -/
theorem Tracked.command {w : ServiceWorld} (tracked : Tracked w) {event : ServiceEvent} {rader : Rader}
    (effect : CommandEffect w.state.rader event.forwarded rader) (silent : event.uartBytes = [])
    (alive : event ≠ .close w.state.psudata.tcpFd) (same : event.socket = none)
    (none : event.NoPacket) : Tracked (w.step event { w.state with rader := rader }) := by
  have socket : KeepsSocket w.state.psudata.tcpFd ⟨w.state, event, { w.state with rader := rader }⟩ :=
    ⟨rfl, alive, same⟩
  generalize written : event.forwarded = forwarded at effect
  cases effect with
  | refused => exact tracked.calm tracked.distinct rfl rfl rfl (fun _ => alive) same silent none
  | disarmed =>
      exact {
        distinct := tracked.distinct.rader _
        sound := tracked.sound.disarm 0
        opened positive := (tracked.opened positive).snoc socket
        confirmed positive connected := (tracked.confirmed positive connected).snoc socket
        response _ _ busy := absurd rfl busy
        packets := tracked.packets.snoc (none.sound _) }
  | started idle payload =>
      exact {
        distinct := tracked.distinct.rader _
        sound := (CommandEffect.started idle payload).sound tracked.sound
        opened positive := (tracked.opened positive).snoc socket
        confirmed positive connected := (tracked.confirmed positive connected).snoc socket
        response positive connected busy := by
          rcases tracked.sound.start payload with rests | collects
          · exact absurd rests.idle busy
          · exact ⟨payload, [], collects, rfl,
              .begin ⟨tracked.confirmed positive connected, idle, written, rfl, socket⟩⟩
        packets := tracked.packets.snoc (none.sound _) }

/-- A received chunk extends the response, and the packet carries the first bytes of it. -/
theorem Tracked.receive {w : ServiceWorld} (tracked : Tracked w) (uartFd : Int) (data : ReadBytes)
    (accepted : List Byte) (positive : 0 < w.state.psudata.tcpFd) (connected : w.state.tcpConnected ≠ 0) :
    Tracked (w.step
      (.raderRecv uartFd w.state.psudata.tcpFd data (raderRecv w.state.rader data.val).written accepted)
      { w.state with rader := (raderRecv w.state.rader data.val).state }) := by
  have socket : KeepsSocket w.state.psudata.tcpFd ⟨w.state,
      .raderRecv uartFd w.state.psudata.tcpFd data (raderRecv w.state.rader data.val).written accepted,
      { w.state with rader := (raderRecv w.state.rader data.val).state }⟩ :=
    ⟨rfl, by simp, rfl⟩
  have confirmed := tracked.confirmed positive connected
  by_cases busy : w.state.rader.raderDlen = 0
  · have rests : w.state.rader.Rests := ⟨tracked.sound.ring, busy⟩
    rw [raderRecv_rests rests] at socket ⊢
    exact {
      distinct := tracked.distinct
      sound := tracked.sound
      opened positive := (tracked.opened positive).snoc socket
      confirmed _ _ := confirmed.snoc socket
      response _ _ armed := absurd busy armed
      packets := tracked.packets.snoc fun _ _ _ _ _ equal => by cases equal }
  · obtain ⟨payload, acc, collects, flag, response⟩ := tracked.response positive connected busy
    obtain ⟨waits, releases⟩ := raderRecv_collects collects data
    have need : w.state.rader.raderDlen = raderDlenOf (raderFlag payload) := by
      rw [collects.length, flag]
    by_cases enough : w.state.rader.raderDlen.toNat ≤ acc.length + data.val.length
    · obtain ⟨rests, written, _⟩ := releases enough
      exact {
        distinct := tracked.distinct.rader _
        sound := Or.inl rests
        opened positive := (tracked.opened positive).snoc socket
        confirmed _ _ := confirmed.snoc socket
        response _ _ armed := absurd rests.idle armed
        packets := by
          apply tracked.packets.snoc
          intro _ fd bytes packet _ equal
          rw [written, need, flag] at equal
          simp only [ServiceEvent.raderRecv.injEq, Option.some.injEq] at equal
          obtain ⟨_, rfl, rfl, rfl, _⟩ := equal
          rw [need] at enough
          exact ⟨positive, rfl, confirmed, payload, acc, response, need,
            by rw [List.length_append]; exact enough, rfl⟩ }
    · obtain ⟨grown, sameFlag, sameLength, written, _⟩ := waits (by omega)
      have kept : KeepsCollection w.state.psudata.tcpFd payload ⟨w.state,
          .raderRecv uartFd w.state.psudata.tcpFd data (raderRecv w.state.rader data.val).written accepted,
          { w.state with rader := (raderRecv w.state.rader data.val).state }⟩ :=
        ⟨socket, by rw [← need]; exact sameLength⟩
      have next := response.snoc kept
      exact {
        distinct := tracked.distinct.rader _
        sound := Or.inr ⟨_, grown⟩
        opened positive := (tracked.opened positive).snoc socket
        confirmed _ _ := confirmed.snoc socket
        response _ _ _ := ⟨payload, acc ++ data.val, grown, sameFlag.trans flag, next⟩
        packets := by
          apply tracked.packets.snoc
          intro _ _ _ packet _ equal
          rw [written] at equal
          cases equal }

/-- Every move keeps the record when the system hands out fresh descriptors. -/
theorem Tracked.step {w : ServiceWorld} (tracked : Tracked w) {event : ServiceEvent} {after : Service}
    (move : ServiceMoves w.state event after)
    (fresh : ∀ fd, event.opened = some fd → fd ∉ w.state.openFds) : Tracked (w.step event after) := by
  have distinct := tracked.distinct.step move fresh
  cases move with
  | selected | tested | tcpRead | uartFailed | uartOpened | uartCleared | udpFailed | udpOpened
  | addressed =>
      exact tracked.calm distinct rfl rfl rfl (fun _ => by simp) rfl rfl (by intros _ _ _ _ _; simp)
  | uartClosed opened =>
      exact tracked.calm distinct rfl rfl rfl
        (fun _ => by simpa using tracked.distinct.uartTcp opened) rfl rfl
        (by intros _ _ _ _ _; simp)
  | udpClosed =>
      exact tracked.calm distinct rfl rfl rfl
        (fun positive => by simpa using (tracked.distinct.tcpUdp positive).symm) rfl rfl
        (by intros _ _ _ _ _; simp)
  | tcpFailed =>
      exact tracked.shut distinct tracked.sound (by simp [Service.setTcpFd]) (by intros _ _ _ _ _; simp)
  | tcpClosed =>
      exact tracked.shut distinct tracked.sound (Int.le_refl 0) (by intros _ _ _ _ _; simp)
  | tcpOpened fd =>
      exact {
        distinct := distinct
        sound := tracked.sound
        opened _ := .begin rfl
        confirmed _ connected := absurd rfl connected
        response _ connected := absurd rfl connected
        packets := tracked.packets.snoc fun _ _ _ _ _ equal => by cases equal }
  | confirmed opened =>
      have socket : KeepsSocket w.state.psudata.tcpFd ⟨w.state, .tcpStatus w.state.psudata.tcpFd 0,
          { w.state with tcpConnected := 1, rader := setRaderDlen w.state.rader 0 }⟩ :=
        ⟨rfl, by simp, rfl⟩
      exact {
        distinct := distinct
        sound := tracked.sound.disarm _
        opened positive := (tracked.opened positive).snoc socket
        confirmed positive _ := .begin ⟨tracked.opened positive, rfl, socket⟩
        response _ _ busy := absurd rfl busy
        packets := tracked.packets.snoc fun _ _ _ _ _ equal => by cases equal }
  | unconfirmed fd ret =>
      exact tracked.wait distinct tracked.sound (fun _ => ⟨rfl, rfl, by simp, rfl⟩) (fun _ => rfl)
        (by intros _ _ _ _ _; simp)
  | dropped fd data lost =>
      by_cases live : 0 < w.state.psudata.tcpFd ∧ w.state.tcpConnected ≠ 0
      · have silent : (ServiceEvent.uartRead fd data).uartBytes = [] := by
          cases data with
          | none => rfl
          | some bytes =>
              rw [ServiceEvent.uartBytes, ← List.length_eq_zero_iff]
              by_contra some
              exact live.2 (lost bytes rfl (Nat.pos_of_ne_zero some) live.1)
        exact tracked.calm distinct rfl rfl rfl (fun _ => by simp) rfl silent
          (by intros _ _ _ _ _; simp)
      · exact tracked.wait distinct tracked.sound (fun _ => ⟨rfl, rfl, by simp, rfl⟩)
          (fun positive => by
            by_contra connected
            exact live ⟨positive, connected⟩)
          (by intros _ _ _ _ _; simp)
  | received uartFd data accepted opened connected =>
      exact tracked.receive uartFd data accepted opened connected
  | commanded fd data past =>
      exact tracked.command (raderCmd_effect _ _ _) rfl (by simp) rfl (by intros _ _ _ _ _; simp)
  | typed fd buf =>
      exact tracked.command (raderCmdFromStdin_effect _ _) rfl (by simp) rfl
        (by intros _ _ _ _ _; simp)

/-- The record starts with closed descriptors and an idle collector. -/
theorem serviceStart_tracked (netAddr : SockaddrIn) (udpport : BitVec 16) :
    Tracked ⟨serviceStart netAddr udpport, []⟩ where
  distinct := serviceStart_distinct netAddr udpport
  sound := Or.inl raderInit_rests
  opened positive := absurd positive (Int.lt_irrefl 0)
  confirmed positive := absurd positive (Int.lt_irrefl 0)
  response positive := absurd positive (Int.lt_irrefl 0)
  packets := Trace.always_nil _

/-- The record holds after every run with fresh descriptors. -/
theorem serviceRun_tracked (netAddr : SockaddrIn) (udpport : BitVec 16) (outcomes : List Outcomes)
    (fresh : FreshTrace (serviceRun (serviceStart netAddr udpport) outcomes).trace) :
    Tracked (serviceRun (serviceStart netAddr udpport) outcomes) :=
  fresh.invariant Tracked (fun _ _ _ tracked move last => tracked.step move last)
    (serviceRun_path _ outcomes) (serviceStart_tracked netAddr udpport)

/-- No packet of a run mixes two connections or has a hole. -/
theorem serviceRun_packets_sound (netAddr : SockaddrIn) (udpport : BitVec 16) (outcomes : List Outcomes)
    (fresh : FreshTrace (serviceRun (serviceStart netAddr udpport) outcomes).trace) :
    Trace.Always PacketSound (serviceRun (serviceStart netAddr udpport) outcomes).trace :=
  (serviceRun_tracked netAddr udpport outcomes fresh).packets

/-- The system opens the descriptors 3, 4 and 5, and no descriptor is ready. -/
def quietOutcomes : Outcomes where
  comOpen := 3
  tcpSocket := 4
  connect := .inProgress
  udpSocket := 5
  bind := true
  select := 1
  readable := fun _ => false
  writable := fun _ => false
  getsockopt := some 0
  uartRead := none
  tcpWrite := some recvSize
  tcpRead := none
  recvfrom := none
  past := fun _ => 0
  scanf := ⟨[], by decide⟩

/-- The connection is confirmed, a token arms the collection, and the UART answers with eleven bytes. -/
def responseOutcomes : List Outcomes :=
  [{ quietOutcomes with writable := fun fd => fd == 4 },
    { quietOutcomes with readable := fun fd => fd == 0, scanf := ⟨stringBytes "S", by decide⟩ },
    { quietOutcomes with
      readable := fun fd => fd == 3, uartRead := some ⟨List.replicate 11 7, by decide⟩ }]

def responseTrace : List ServiceTransition :=
  (serviceRun (serviceStart ⟨0, 0, 0⟩ 5000) responseOutcomes).trace

/-- The run writes one packet of ten bytes. -/
example : responseTrace.flatMap (fun transition => transition.event.packet 4) =
    erupFrame dataFlagS (List.replicate 10 7) := by
  decide +kernel

theorem serviceRun_packets_sound_response : Trace.Always PacketSound responseTrace :=
  serviceRun_packets_sound ⟨0, 0, 0⟩ 5000 responseOutcomes (by decide +kernel)

end Psuart

import Psuart.Library.Machine
import Psuart.Proof.RingBuffer.Refinement
import Psuart.Proof.Rader.Packet
import Psuart.Proof.Utils.Strings
import Psuart.Spec.Collector

namespace Psuart

/-- The collector step calls the function of the event. -/
def collectorStep (s : Rader) : CollectorEvent → Rader × CollectorOutput
  | .command command past =>
      let result := raderCmd s (recvArray command.bytes past) command.bytes.length
      (result.state, ⟨result.written, none, 0⟩)
  | .token token =>
      let result := raderCmdFromStdin s token.bytes
      (result.state, ⟨result.written, none, 0⟩)
  | .chunk bytes =>
      let result := raderRecv s bytes.val
      (result.state, ⟨none, result.written, result.ret⟩)
  | .disarm => (setRaderDlen s 0, .silent)

/-- The ring of a collecting state holds the bytes that arrived since the command. -/
structure Rader.Collects (s : Rader) (acc : List Byte) : Prop where
  holds : s.raderFifo.Holds raderBufSize acc
  length : s.raderDlen = raderDlenOf s.rdaerCmdFlag
  partly : acc.length < s.raderDlen.toNat

/-- An idle state may keep stale bytes in its ring. -/
structure Rader.Rests (s : Rader) : Prop where
  stale : ∃ bytes, s.raderFifo.Holds raderBufSize bytes
  idle : s.raderDlen = 0

/-- The state of the module represents the abstract collector. -/
def Rader.Represents (s : Rader) : Collector → Prop
  | .idle => s.Rests
  | .collecting flag need acc => s.Collects acc ∧ s.rdaerCmdFlag = flag ∧ s.raderDlen.toNat = need

/-- The initialized module is idle. -/
theorem raderInit_rests : (raderInit raderStatic).Rests :=
  ⟨⟨[], ringbufferInit_holds _ _ raderBufSize (by decide) (by decide)⟩, rfl⟩

theorem Rader.Collects.busy {s : Rader} {acc : List Byte} (collects : s.Collects acc) :
    s.raderDlen ≠ 0 := by
  intro idle
  have partly := collects.partly
  rw [idle] at partly
  exact absurd partly (Nat.not_lt_zero _)

theorem Rader.Collects.need_le {s : Rader} {acc : List Byte} (collects : s.Collects acc) :
    s.raderDlen.toNat ≤ 3178 := by
  rw [collects.length]
  exact raderDlenOf_le s.rdaerCmdFlag

section Start

variable {s : Rader} {stale : List Byte} (holds : s.raderFifo.Holds raderBufSize stale)
  (payload : List Byte)
include holds

/-- A command with a response collects it from an empty ring. -/
theorem raderStart_collects (armed : 0 < (raderDlenOf (raderFlag payload)).toNat) :
    (raderStart s payload).Collects [] := ⟨holds.reset, rfl, armed⟩

/-- A command without a response leaves the state idle. -/
theorem raderStart_rests (unarmed : ¬0 < (raderDlenOf (raderFlag payload)).toNat) :
    (raderStart s payload).Rests := by
  refine ⟨⟨[], holds.reset⟩, ?_⟩
  apply BitVec.eq_of_toNat_eq
  exact Nat.eq_zero_of_not_pos unarmed

/-- A started state collects from an empty ring or rests. -/
theorem raderStart_represents : (raderStart s payload).Represents (.start payload) := by
  unfold Collector.start
  by_cases armed : 0 < (raderDlenOf (raderFlag payload)).toNat
  · simp only [if_pos armed]
    exact ⟨raderStart_collects holds payload armed, rfl, rfl⟩
  · simp only [if_neg armed]
    exact raderStart_rests holds payload armed

end Start

/-- Forwarding a command follows the abstract collector. -/
theorem raderForward_represents {s : Rader} {collector : Collector} (represents : s.Represents collector)
    (payload : List Byte) :
    (raderForward s payload).1.Represents (collector.forward payload).1 ∧
      ⟨(raderForward s payload).2, none, 0⟩ = (collector.forward payload).2 := by
  cases collector with
  | idle =>
      obtain ⟨stale, holds⟩ := represents.stale
      rw [raderForward, if_pos represents.idle]
      exact ⟨raderStart_represents holds payload, rfl⟩
  | collecting flag need acc =>
      rw [raderForward, if_neg represents.1.busy]
      exact ⟨represents, rfl⟩

/-- A chunk in a collecting state is stored whole, and the last needed byte releases the packet. -/
theorem raderRecv_collects {s : Rader} {acc : List Byte} (collects : s.Collects acc) (bytes : ReadBytes) :
    (acc.length + bytes.val.length < s.raderDlen.toNat →
        (raderRecv s bytes.val).state.Collects (acc ++ bytes.val) ∧
          (raderRecv s bytes.val).state.rdaerCmdFlag = s.rdaerCmdFlag ∧
          (raderRecv s bytes.val).state.raderDlen = s.raderDlen ∧
          (raderRecv s bytes.val).written = none ∧ (raderRecv s bytes.val).ret = 0) ∧
      (s.raderDlen.toNat ≤ acc.length + bytes.val.length →
        (raderRecv s bytes.val).state.Rests ∧
          (raderRecv s bytes.val).written =
            some (erupFrame s.rdaerCmdFlag ((acc ++ bytes.val).take s.raderDlen.toNat)) ∧
          (raderRecv s bytes.val).ret = if s.rdaerCmdFlag = dataFlagS then dataFlagS else 0) := by
  have limit := collects.need_le
  have partly := collects.partly
  have size : bytes.val.length ≤ 4096 := bytes.property
  have room : acc.length + bytes.val.length < raderBufSize := by unfold raderBufSize; omega
  obtain ⟨stored, count⟩ := ringbufferIn_holds collects.holds bytes.val room
  have positive : s.raderDlen > 0 := by
    change (0 : Nat) < s.raderDlen.toNat
    omega
  constructor
  · intro short
    have waits : ¬(ringbufferIn s.raderFifo bytes.val).2.toNat ≥ s.raderDlen.toNat := by omega
    simp only [raderRecv, if_pos positive, if_neg waits]
    exact ⟨⟨stored, collects.length, by rw [List.length_append]; exact short⟩, trivial, trivial, trivial, trivial⟩
  · intro enough
    have releases : (ringbufferIn s.raderFifo bytes.val).2.toNat ≥ s.raderDlen.toNat := by omega
    obtain ⟨remains, _, delivered⟩ := ringbufferOut_holds stored s.raderDlen.toNat
    have packet := raderPacket_eq_frame s.rdaerCmdFlag s.raderDlen
      ((acc ++ bytes.val).take s.raderDlen.toNat) (by simp; omega)
      (by rw [collects.length]; exact raderDlenOf_plain _)
    simp only [raderRecv, if_pos positive, if_pos releases, delivered, packet]
    exact ⟨⟨⟨_, remains⟩, rfl⟩, trivial, trivial⟩

/-- An idle state discards a chunk. -/
theorem raderRecv_rests {s : Rader} (rests : s.Rests) (bytes : List Byte) :
    raderRecv s bytes = ⟨s, none, 0⟩ := by
  have idle : ¬s.raderDlen > 0 := by rw [rests.idle]; decide
  rw [raderRecv, if_neg idle]

/-- A received chunk follows the abstract collector. -/
theorem raderRecv_represents {s : Rader} {collector : Collector} (represents : s.Represents collector)
    (bytes : ReadBytes) :
    (raderRecv s bytes.val).state.Represents (collector.collect bytes.val).1 ∧
      ⟨none, (raderRecv s bytes.val).written, (raderRecv s bytes.val).ret⟩ =
        (collector.collect bytes.val).2 := by
  cases collector with
  | idle =>
      rw [raderRecv_rests represents]
      exact ⟨represents, rfl⟩
  | collecting flag need acc =>
      obtain ⟨collects, rfl, rfl⟩ := represents
      obtain ⟨waits, releases⟩ := raderRecv_collects collects bytes
      simp only [Collector.collect, List.length_append]
      by_cases enough : s.raderDlen.toNat ≤ acc.length + bytes.val.length
      · obtain ⟨rests, written, ret⟩ := releases enough
        rw [if_pos enough, written, ret]
        exact ⟨rests, rfl⟩
      · obtain ⟨grown, flag, length, written, ret⟩ := waits (by omega)
        rw [if_neg enough, written, ret]
        exact ⟨⟨grown, flag, congrArg BitVec.toNat length⟩, rfl⟩

/-- Disarming keeps the ring and leaves the state idle. -/
theorem setRaderDlen_represents {s : Rader} {collector : Collector} (represents : s.Represents collector)
    (flag : Byte) : Rader.Represents { s with rdaerCmdFlag := flag, raderDlen := 0 } .idle := by
  cases collector with
  | idle => exact ⟨represents.stale, rfl⟩
  | collecting _ _ acc => exact ⟨⟨acc, represents.1.holds⟩, rfl⟩

/-- A token clears the collector exactly when the source compares it with `cls`. -/
theorem token_clears_iff (token : StdinToken) :
    (token.bytes.length ≥ 3 ∧ strcasecmp token.bytes (stringBytes "cls") = 0) ↔ token.clears := by
  have lower : (stringBytes "cls").map tolower = stringBytes "cls" := by decide
  rw [strcasecmp, cString_eq token.terminated, cString_eq (by decide : (0 : Byte) ∉ stringBytes "cls"),
    compareLower_eq_zero token.terminated (by decide), lower, StdinToken.clears]
  constructor
  · exact fun both => both.2
  · intro same
    have length := congrArg List.length same
    rw [List.length_map] at length
    exact ⟨length ▸ by decide, same⟩

theorem stdinCommand_plain (token : StdinToken) : stdinCommand token.bytes = token.bytes := by
  have plain := token.plain
  unfold stdinCommand
  split
  · rename_i first second third rest shape
    rw [if_neg]
    rintro ⟨zero, small | large⟩
    · exact plain ⟨third :: rest, Or.inl (by rw [shape, zero, small])⟩
    · exact plain ⟨third :: rest, Or.inr (by rw [shape, zero, large])⟩
  · rfl

/-- Every event follows the abstract collector. -/
theorem collectorStep_matches :
    Machine.Matches Rader.Represents (fun _ _ => True) collectorStep Collector.step := by
  intro s collector event represents _
  cases event with
  | command command past =>
      have carries : Carries (bytesAt (recvArray command.bytes past) 0 command.bytes.length)
          command.payload := by
        rw [bytesAt_recvArray]
        exact ⟨command.short, command.front, command.flag, command.back, command.absent, rfl⟩
      simp only [collectorStep, Collector.step, raderCmd_carries s _ _ _ carries]
      exact raderForward_represents represents command.payload
  | token token =>
      simp only [collectorStep, Collector.step, raderCmdFromStdin, token_clears_iff]
      by_cases clears : token.clears
      · simp only [if_pos clears]
        exact ⟨setRaderDlen_represents represents 0, rfl⟩
      · simp only [if_neg clears, stdinCommand_plain]
        exact raderForward_represents represents token.bytes
  | chunk bytes => exact raderRecv_represents represents bytes
  | disarm => exact ⟨setRaderDlen_represents represents s.rdaerCmdFlag, rfl⟩

/-- The abstract collector turns successive chunks into one packet of their concatenation. -/
theorem collector_packets_of_chunks (collector : Collector) (chunks : List ReadBytes)
    (partly : collector.Partly) :
    CollectorOutput.packets (Machine.outputs Collector.step collector (chunks.map .chunk)) =
      collector.released (chunks.map Subtype.val).flatten := by
  induction chunks generalizing collector with
  | nil =>
      cases collector with
      | idle => rfl
      | collecting flag need acc =>
          have waits : ¬need ≤ (acc ++ ([] : List Byte)).length := by
            rw [List.append_nil]
            exact Nat.not_le_of_lt partly
          simp only [Collector.released, List.map_nil, List.flatten_nil, if_neg waits]
          rfl
  | cons chunk rest ih =>
      cases collector with
      | idle => exact ih .idle trivial
      | collecting flag need acc =>
          simp only [List.map_cons, List.flatten_cons, Machine.outputs_cons, Collector.step,
            CollectorOutput.packets_cons, Collector.collect]
          by_cases enough : need ≤ (acc ++ chunk.val).length
          · have total : need ≤ (acc ++ (chunk.val ++ (rest.map Subtype.val).flatten)).length := by
              simp only [List.length_append] at enough ⊢
              omega
            simp only [if_pos enough, Collector.released, if_pos total]
            rw [ih .idle trivial, ← List.append_assoc, List.take_append_of_le_length enough]
            rfl
          · simp only [if_neg enough]
            rw [ih (.collecting flag need (acc ++ chunk.val)) (Nat.lt_of_not_le enough)]
            simp only [Collector.released, List.append_assoc]
            rfl

theorem Rader.Represents.partly {s : Rader} {collector : Collector} (represents : s.Represents collector) :
    collector.Partly := by
  cases collector with
  | idle => trivial
  | collecting flag need acc => exact represents.2.2 ▸ represents.1.partly

/-- The module behaves as the abstract collector, and the cut of a response into chunks is not visible. -/
theorem rader_refines_collector (events : List CollectorEvent) :
    let reached := Machine.run collectorStep (raderInit raderStatic) events
    Machine.outputs collectorStep (raderInit raderStatic) events =
        Machine.outputs Collector.step .idle events ∧
      ∀ first second : List ReadBytes,
        (first.map Subtype.val).flatten = (second.map Subtype.val).flatten →
          CollectorOutput.packets (Machine.outputs collectorStep reached (first.map .chunk)) =
            CollectorOutput.packets (Machine.outputs collectorStep reached (second.map .chunk)) := by
  intro reached
  obtain ⟨represents, same⟩ := Machine.simulation collectorStep_matches _ .idle events raderInit_rests
    (Machine.admitted_of_forall (fun _ _ => trivial) _ _ _)
  refine ⟨same, ?_⟩
  intro first second joined
  have packets (chunks : List ReadBytes) :
      CollectorOutput.packets (Machine.outputs collectorStep reached (chunks.map .chunk)) =
        (Machine.run Collector.step .idle events).released (chunks.map Subtype.val).flatten := by
    rw [(Machine.simulation collectorStep_matches reached _ _ represents
      (Machine.admitted_of_forall (fun _ _ => trivial) _ _ _)).2]
    exact collector_packets_of_chunks _ chunks represents.partly
  rw [packets first, packets second, joined]

end Psuart

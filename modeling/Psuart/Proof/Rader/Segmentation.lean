import Mathlib.Data.List.ReduceOption
import Psuart.Library.Machine
import Psuart.Proof.Rader.Acceptance

namespace Psuart

/-- A TCP read returns at least one byte of the command stream. -/
structure TcpRead where
  bytes : ReadBytes
  past : Memory
  some : bytes.val ≠ []

/-- The TCP branch hands each read to `rader_cmd`. -/
def tcpStep (s : Rader) (read : TcpRead) : Rader × Option (List Byte) :=
  let result := raderCmd s (recvArray read.bytes.val read.past) read.bytes.val.length
  (result.state, result.written)

/-- The writes to the UART appear in the order of the reads. -/
def uartWrites (s : Rader) (reads : List TcpRead) : List (List Byte) :=
  (Machine.outputs tcpStep s reads).reduceOption

/-- A plain command arms no response. -/
structure PlainCommand where
  flag : Byte
  payload : List Byte
  short : payload.length ≤ 4090
  unarmed : ∀ first rest, payload = first :: rest → first ∉ stringBytes "fFpmMS"

def PlainCommand.frame (command : PlainCommand) : List Byte := erupFrame command.flag command.payload

theorem PlainCommand.raderDlenOf_eq_zero (command : PlainCommand) :
    raderDlenOf (raderFlag command.payload) = 0 := by
  have unarmed := command.unarmed
  cases shape : command.payload with
  | nil => decide
  | cons first rest =>
      have other := unarmed first rest shape
      simp only [stringBytes, String.toList] at other
      revert other
      exact (by decide : ∀ first : Byte, first ∉ stringBytes "fFpmMS" →
        raderDlenOf (raderFlag [first]) = 0) first

/-- A written command occupies a whole frame of its read. -/
theorem tcpStep_written_le (s : Rader) (read : TcpRead) (payload : List Byte)
    (written : (tcpStep s read).2 = some payload) : payload.length + 6 ≤ read.bytes.val.length := by
  by_cases idle : s.raderDlen = 0
  · obtain ⟨_, front, flag, back, _, data⟩ := (raderCmd_written_iff s idle _ _ _).mp written
    rw [bytesAt_recvArray] at data
    rw [data, List.length_append, List.length_append, erupFrame_length]
    omega
  · have refused := (raderCmd_busy s idle _ _).1.symm.trans written
    cases refused

/-- The writes of a run fit into its reads, and equality leaves one whole frame in each read. -/
theorem uartWrites_le (s : Rader) (reads : List TcpRead) :
    ((uartWrites s reads).map fun payload => payload.length + 6).sum ≤
        (reads.map fun read => read.bytes.val.length).sum ∧
      (((uartWrites s reads).map fun payload => payload.length + 6).sum =
          (reads.map fun read => read.bytes.val.length).sum →
        (uartWrites s reads).map (fun payload => payload.length + 6) =
          reads.map fun read => read.bytes.val.length) := by
  induction reads generalizing s with
  | nil => exact ⟨Nat.le_refl _, fun _ => rfl⟩
  | cons read rest ih =>
      obtain ⟨below, exact⟩ := ih (tcpStep s read).1
      have positive : 0 < read.bytes.val.length := List.length_pos_of_ne_nil read.some
      rw [uartWrites, Machine.outputs_cons]
      cases written : (tcpStep s read).2 with
      | none =>
          rw [List.reduceOption_cons_of_none, ← uartWrites, List.map_cons, List.sum_cons]
          exact ⟨by omega, fun equal => by omega⟩
      | some payload =>
          have fits := tcpStep_written_le s read payload written
          rw [List.reduceOption_cons_of_some, ← uartWrites, List.map_cons, List.map_cons,
            List.sum_cons, List.sum_cons]
          refine ⟨by omega, fun equal => ?_⟩
          rw [exact (by omega), show payload.length + 6 = read.bytes.val.length by omega]

/-- A read that is one plain frame is written and leaves the collector idle. -/
theorem tcpStep_frame (s : Rader) (idle : s.raderDlen = 0) (read : TcpRead) (command : PlainCommand)
    (whole : read.bytes.val = command.frame) :
    (tcpStep s read).2 = some command.payload ∧ (tcpStep s read).1.raderDlen = 0 := by
  have short := command.short
  have carries : Carries (bytesAt (recvArray read.bytes.val read.past) 0 read.bytes.val.length)
      command.payload := by
    rw [bytesAt_recvArray, whole]
    exact ⟨by omega, [], command.flag, [], by simp, by simp [PlainCommand.frame]⟩
  rw [tcpStep, raderCmd_carries s _ _ _ carries, raderForward, if_pos idle]
  exact ⟨rfl, command.raderDlenOf_eq_zero⟩

/-- Reads that are the frames deliver every payload. -/
theorem uartWrites_frames (s : Rader) (idle : s.raderDlen = 0) (commands : List PlainCommand)
    (reads : List TcpRead)
    (aligned : reads.map (fun read => read.bytes.val) = commands.map PlainCommand.frame) :
    uartWrites s reads = commands.map PlainCommand.payload := by
  induction commands generalizing s reads with
  | nil =>
      rw [List.map_nil, List.map_eq_nil_iff] at aligned
      rw [aligned]
      rfl
  | cons command rest ih =>
      cases reads with
      | nil => simp at aligned
      | cons read others =>
          rw [List.map_cons, List.map_cons, List.cons.injEq] at aligned
          obtain ⟨written, next⟩ := tcpStep_frame s idle read command aligned.1
          rw [uartWrites, Machine.outputs_cons, written, List.reduceOption_cons_of_some, ← uartWrites,
            ih _ next others aligned.2, List.map_cons]

/-- The UART receives every payload once and in order exactly when every read is one whole frame. -/
theorem uartWrites_eq_payloads_iff (s : Rader) (idle : s.raderDlen = 0) (commands : List PlainCommand)
    (reads : List TcpRead)
    (cut : (reads.map fun read => read.bytes.val).flatten = (commands.map PlainCommand.frame).flatten) :
    (uartWrites s reads = commands.map PlainCommand.payload ↔
        reads.map (fun read => read.bytes.val) = commands.map PlainCommand.frame) ∧
      (reads.map (fun read => read.bytes.val) = commands.map PlainCommand.frame →
        (uartWrites s reads).flatten = (commands.map PlainCommand.payload).flatten) := by
  refine ⟨⟨?_, uartWrites_frames s idle commands reads⟩, fun aligned =>
    congrArg List.flatten (uartWrites_frames s idle commands reads aligned)⟩
  intro written
  have sizes : (uartWrites s reads).map (fun payload => payload.length + 6) =
      (commands.map PlainCommand.frame).map List.length := by
    rw [written, List.map_map, List.map_map]
    apply List.map_congr_left
    intro command _
    simp [PlainCommand.frame]
  have total : ((uartWrites s reads).map fun payload => payload.length + 6).sum =
      (reads.map fun read => read.bytes.val.length).sum := by
    have lengths := congrArg List.length cut
    rw [List.length_flatten, List.length_flatten, List.map_map] at lengths
    rw [sizes, ← lengths]
    rfl
  apply List.eq_iff_flatten_eq.mpr
  refine ⟨cut, ?_⟩
  rw [← sizes, (uartWrites_le s reads).2 total, List.map_map]
  rfl

/-- A command of one ordinary byte. -/
def oneByteCommand (byte : Byte) (ordinary : byte ∉ stringBytes "fFpmMS") : PlainCommand where
  flag := 0
  payload := [byte]
  short := by simp
  unarmed := by
    intro first rest shape
    rw [(List.cons.inj shape).1.symm]
    exact ordinary

def tcpRead (bytes : List Byte) (short : bytes.length ≤ recvSize) (some : bytes ≠ []) : TcpRead :=
  ⟨⟨bytes, short⟩, fun _ => 0, some⟩

/-- A frame in one read delivers its payload. -/
theorem uartWrites_eq_payloads_whole :
    uartWrites raderStatic [tcpRead (erupFrame 0 [0x41]) (by decide) (by decide)] = [[0x41]] :=
  (uartWrites_eq_payloads_iff raderStatic rfl [oneByteCommand 0x41 (by decide)]
    [tcpRead (erupFrame 0 [0x41]) (by decide) (by decide)] rfl).1.mpr rfl

/-- The first read ends inside the length field. -/
def cutReads : List TcpRead :=
  [tcpRead ((erupFrame 0 [0x41]).take 2) (by decide) (by decide),
    tcpRead ((erupFrame 0 [0x41]).drop 2) (by decide) (by decide)]

/-- One read joins two frames. -/
def joinedReads : List TcpRead :=
  [tcpRead (erupFrame 0 [0x41] ++ erupFrame 0 [0x42]) (by decide) (by decide)]

/-- A cut frame is lost, and of two joined frames the second is lost. -/
theorem uartWrites_lose_frames :
    ((cutReads.map fun read => read.bytes.val).flatten =
        ([oneByteCommand 0x41 (by decide)].map PlainCommand.frame).flatten ∧
      (uartWrites raderStatic cutReads).flatten ≠ [0x41]) ∧
    (joinedReads.map fun read => read.bytes.val).flatten =
        ([oneByteCommand 0x41 (by decide), oneByteCommand 0x42 (by decide)].map
          PlainCommand.frame).flatten ∧
      (uartWrites raderStatic joinedReads).flatten ≠ [0x41, 0x42] := by
  decide

end Psuart

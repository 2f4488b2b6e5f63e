import Psuart.Proof.RingBuffer.Fifo

namespace Psuart

/-- A ring step calls the exported function of the operation. -/
def ringStep (fifo : RingBuffer) : Queue.Op Byte → RingBuffer × Queue.Reply Byte
  | .insert block =>
      let (next, len) := ringbufferIn fifo block
      (next, .count len.toNat)
  | .insertOne value =>
      let (next, len) := ringbufferInByte fifo value
      (next, .count len.toNat)
  | .remove count =>
      let (next, len, bytes) := ringbufferOut fifo count
      (next, .block len.toNat bytes)
  | .removeOne =>
      let (next, byte) := ringbufferOutByte fifo
      (next, .value (some byte))
  | .peek count =>
      let (len, bytes) := ringbufferOutPeek fifo count
      (fifo, .block len.toNat bytes)
  | .peekOne => (fifo, .value (some (ringbufferPeekByte fifo)))
  | .clear => (ringbufferReset fifo, .done)
  | .length => (fifo, .count (ringbufferLen fifo).toNat)

/-- An initialized ring of an admitted capacity represents the empty queue. -/
theorem ringbufferInit_holds (fifo : RingBuffer) (buffer : Memory) (capacity : Nat)
    (low : 2 ≤ capacity) (high : capacity ≤ 2 ^ 31) :
    (ringbufferInit fifo buffer capacity).1.Holds capacity [] := by
  have mask : (BitVec.ofNat 32 (capacity - 1)).toNat = capacity - 1 := word_toNat (by omega)
  have empty : ringbufferLen ⟨0, 0, BitVec.ofNat 32 (capacity - 1), buffer⟩ = 0 := by
    simp [ringbufferLen]
  simp only [ringbufferInit, if_neg (show ¬capacity < 2 by omega)]
  refine ⟨⟨⟨Nat.zero_le _, Nat.zero_le _⟩, ?_⟩, ?_, ?_⟩
  · rw [RingBuffer.size, mask]; omega
  · rw [RingBuffer.size, mask]; omega
  · rw [RingBuffer.content, empty]
    rfl

/-- Each operation that fits acts on the represented queue. -/
theorem ringStep_matches (capacity : Nat) (positive : 0 < capacity) :
    Machine.Matches (fun fifo queue => fifo.Holds capacity queue) (Queue.Fits (capacity - 1))
      ringStep Queue.step := by
  intro fifo queue op holds fits
  cases op with
  | insert block =>
      obtain ⟨next, count⟩ := ringbufferIn_holds holds block
        (by simp only [Queue.Fits] at fits; omega)
      exact ⟨next, congrArg Queue.Reply.count count⟩
  | insertOne value =>
      obtain ⟨next, count⟩ := ringbufferInByte_holds holds value
        (by simp only [Queue.Fits] at fits; omega)
      exact ⟨next, congrArg Queue.Reply.count count⟩
  | remove count =>
      obtain ⟨next, length, bytes⟩ := ringbufferOut_holds holds count
      exact ⟨next, congrArg₂ Queue.Reply.block length bytes⟩
  | removeOne =>
      obtain ⟨next, byte⟩ := ringbufferOutByte_holds holds fits
      exact ⟨next, congrArg Queue.Reply.value byte.symm⟩
  | peek count =>
      obtain ⟨length, bytes⟩ := ringbufferOutPeek_holds holds count
      exact ⟨holds, congrArg₂ Queue.Reply.block length bytes⟩
  | peekOne => exact ⟨holds, congrArg Queue.Reply.value (ringbufferPeekByte_holds holds fits).symm⟩
  | clear => exact ⟨holds.reset, rfl⟩
  | length => exact ⟨holds, congrArg Queue.Reply.count holds.length⟩

/-- A ring that is never overfilled replies as the ideal queue over every run. -/
theorem ringBuffer_refines_queue (fifo : RingBuffer) (buffer : Memory) (capacity : Nat)
    (low : 2 ≤ capacity) (high : capacity ≤ 2 ^ 31) (ops : List (Queue.Op Byte))
    (admitted : Machine.Admitted (Queue.Fits (capacity - 1)) Queue.step [] ops) :
    Machine.outputs ringStep (ringbufferInit fifo buffer capacity).1 ops =
        Machine.outputs Queue.step [] ops ∧
      (ringbufferLen (Machine.run ringStep (ringbufferInit fifo buffer capacity).1 ops)).toNat =
        (Machine.run Queue.step [] ops).length := by
  obtain ⟨holds, same⟩ := Machine.simulation (ringStep_matches capacity (by omega)) _ _ ops
    (ringbufferInit_holds fifo buffer capacity low high) admitted
  exact ⟨same, holds.length⟩

/-- A ring of three cells wraps twice in this run. -/
theorem ringBuffer_refines_queue_wraps :
    Machine.outputs ringStep (ringbufferInit ⟨0, 0, 0, fun _ => 0⟩ (fun _ => 0) 3).1
        [.insert [1, 2], .removeOne, .insertOne 3, .peek 5, .remove 2, .insert [4, 5], .length] =
      [.count 2, .value (some 1), .count 2, .block 2 [2, 3], .block 2 [2, 3], .count 2, .count 2] :=
  (ringBuffer_refines_queue ⟨0, 0, 0, fun _ => 0⟩ (fun _ => 0) 3 (by decide) (by decide)
    [.insert [1, 2], .removeOne, .insertOne 3, .peek 5, .remove 2, .insert [4, 5], .length]
    (by simp [Machine.Admitted, Queue.Fits, Queue.step])).1.trans (by decide)

end Psuart

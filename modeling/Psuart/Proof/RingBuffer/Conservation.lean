import Psuart.Proof.RingBuffer.Bounds

namespace Psuart

/-- The two consumer calls of the ring. -/
inductive Consumer where
  | out (count : Nat)
  | outByte

def Consumer.next (fifo : RingBuffer) : Consumer → RingBuffer
  | .out count => (ringbufferOut fifo count).1
  | .outByte => (ringbufferOutByte fifo).1

/-- The byte that `ringbuffer_out_byte` returns is a buffered one unless the ring is empty. -/
def Consumer.delivered (fifo : RingBuffer) : Consumer → Nat
  | .out count => (ringbufferOut fifo count).2.2.length
  | .outByte => min 1 (ringbufferLen fifo).toNat

/-- A consumer call takes its delivered bytes off the length and leaves an empty ring empty. -/
structure Conserves (fifo : RingBuffer) (consumer : Consumer) : Prop where
  length : (ringbufferLen (consumer.next fifo)).toNat + consumer.delivered fifo =
    (ringbufferLen fifo).toNat
  empty : (ringbufferLen fifo).toNat = 0 → (ringbufferLen (consumer.next fifo)).toNat = 0

/-- A block call conserves while the output index does not overflow, and a byte call conserves while
the ring is not empty. -/
def Consumer.Within (fifo : RingBuffer) : Consumer → Prop
  | .out count => fifo.outIdx.toNat + min count (ringbufferLen fifo).toNat < 2 ^ 32 ∨ fifo.size = 2 ^ 32
  | .outByte => (ringbufferLen fifo).toNat ≠ 0 ∨ fifo.size = 1

/-- The length of a ring over the whole index range is the difference of its indices. -/
theorem ringbufferLen_whole {fifo : RingBuffer} (whole : fifo.size = 2 ^ 32) :
    ringbufferLen fifo = fifo.inIdx - fifo.outIdx := by
  unfold ringbufferLen RingBuffer.size at *
  split <;> bv_omega

theorem ringbufferCopyOut_length (fifo : RingBuffer) (len off : RbUint) :
    (ringbufferCopyOut fifo len off).length = len.toNat := by
  have first := minRbUint_toNat len ((fifo.mask + 1) - off)
  unfold ringbufferCopyOut
  dsimp only
  rw [List.length_append]
  split <;> split <;> simp only [bytesAt_length, List.length_nil] <;> bv_omega

/-- The block call delivers the clamped count. -/
theorem ringbufferOut_delivers (fifo : RingBuffer) (count : Nat) :
    (ringbufferOut fifo count).2.2.length = ringRead fifo count := by
  simp only [ringbufferOut, ringbufferOutPeek, ringbufferLen_clamp]
  rw [ringbufferCopyOut_length, taken_toNat (ringRead_le fifo count)]

section Taken

variable {fifo : RingBuffer} (inside : fifo.InRange) {taken : Nat}
  (unread : taken ≤ (ringbufferLen fifo).toNat)
include inside unread

/-- A move without overflow takes its bytes off the length. -/
theorem takenOut_fits (fits : fifo.outIdx.toNat + taken < 2 ^ 32) :
    (ringbufferLen (takenOut fifo taken)).toNat + taken = (ringbufferLen fifo).toNat := by
  have value := taken_toNat unread
  have length := ringbufferLen_lt inside
  have moved : (takenOut fifo taken).outIdx.toNat =
      Cells.circular fifo.size fifo.outIdx.toNat taken := by
    have advanced := @advanceIdx_toNat fifo.mask fifo.outIdx (BitVec.ofNat 32 taken) (by omega)
      (by rw [value]; exact taken_turns inside unread)
    rwa [value] at advanced
  have left := ringbufferLen_unique (takenOut_inRange inside unread)
    ((ringbufferLen fifo).toNat - taken) (by change _ < fifo.size; omega) (by
      change fifo.inIdx.toNat = Cells.circular fifo.size (takenOut fifo taken).outIdx.toNat _
      rw [moved, Cells.circular_circular, Nat.add_sub_cancel' unread]
      exact inIdx_circular inside)
  omega

omit inside in
/-- A move over the whole index range takes its bytes off the length. -/
theorem takenOut_whole (whole : fifo.size = 2 ^ 32) :
    (ringbufferLen (takenOut fifo taken)).toNat + taken = (ringbufferLen fifo).toNat := by
  have value := taken_toNat unread
  have moved : (takenOut fifo taken).outIdx = fifo.outIdx + BitVec.ofNat 32 taken := by
    unfold takenOut advanceIdx RingBuffer.size at *
    dsimp only
    split <;> bv_omega
  have after : ringbufferLen (takenOut fifo taken) = fifo.inIdx - (takenOut fifo taken).outIdx :=
    ringbufferLen_whole whole
  rw [ringbufferLen_whole whole] at unread ⊢
  rw [after, moved]
  bv_omega

/-- A move that overflows adds the bytes between the ring and the index range. -/
theorem takenOut_overflows (overflow : 2 ^ 32 ≤ fifo.outIdx.toNat + taken) :
    (ringbufferLen (takenOut fifo taken)).toNat + taken =
      (ringbufferLen fifo).toNat + (2 ^ 32 - fifo.size) := by
  have value := taken_toNat unread
  have length := ringbufferLen_toNat inside
  have turns := taken_turns inside unread
  have moved : (takenOut fifo taken).outIdx.toNat = fifo.outIdx.toNat + taken - 2 ^ 32 := by
    obtain ⟨inRange, outRange⟩ := inside
    unfold takenOut advanceIdx
    dsimp only
    split <;> bv_omega
  have after := ringbufferLen_toNat (takenOut_inRange inside unread)
  obtain ⟨inRange, outRange⟩ := inside
  have sameSize : (takenOut fifo taken).size = fifo.size := rfl
  have sameIn : (takenOut fifo taken).inIdx = fifo.inIdx := rfl
  have limit := fifo.mask.isLt
  rw [sameSize, sameIn] at after
  unfold RingBuffer.size at *
  split at after <;> split at length <;> bv_omega

/-- The length loses the taken bytes exactly when the move does not overflow a smaller ring. -/
theorem takenOut_conserves_iff :
    (ringbufferLen (takenOut fifo taken)).toNat + taken = (ringbufferLen fifo).toNat ↔
      fifo.outIdx.toNat + taken < 2 ^ 32 ∨ fifo.size = 2 ^ 32 := by
  constructor
  · intro conserved
    by_contra outside
    simp only [not_or, Nat.not_lt] at outside
    have extra := takenOut_overflows inside unread outside.1
    have limit := fifo.mask.isLt
    unfold RingBuffer.size at *
    omega
  · rintro (fits | whole)
    · exact takenOut_fits inside unread fits
    · exact takenOut_whole unread whole

end Taken

/-- A block call conserves exactly when its move does not overflow. -/
theorem ringbufferOut_conserves_iff {fifo : RingBuffer} (inside : fifo.InRange) (count : Nat) :
    Conserves fifo (.out count) ↔ Consumer.Within fifo (.out count) := by
  have moved : Consumer.next fifo (.out count) = takenOut fifo (ringRead fifo count) :=
    ringbufferOut_eq fifo count
  have conserves := takenOut_conserves_iff inside (Nat.min_le_right count (ringbufferLen fifo).toNat)
  change _ ↔ Consumer.Within fifo (.out count) at conserves
  rw [← conserves]
  constructor
  · intro call
    have length := call.length
    rwa [moved, Consumer.delivered, ringbufferOut_delivers] at length
  · intro length
    refine ⟨?_, fun none => ?_⟩
    · rwa [moved, Consumer.delivered, ringbufferOut_delivers]
    · rw [moved]
      unfold ringRead
      omega

/-- A byte call moves an empty ring to the full length of its mask. -/
theorem ringbufferOutByte_empty {fifo : RingBuffer} (inside : fifo.InRange)
    (none : (ringbufferLen fifo).toNat = 0) :
    (ringbufferLen (ringbufferOutByte fifo).1).toNat = fifo.mask.toNat := by
  have length := ringbufferLen_toNat inside
  have stays : (ringbufferOutByte fifo).1.InRange := ⟨inside.inRange, advanceIdx_one_le inside.outRange⟩
  have after := ringbufferLen_toNat stays
  have moved : (ringbufferOutByte fifo).1.outIdx.toNat =
      if fifo.outIdx = fifo.mask then 0 else fifo.outIdx.toNat + 1 := by
    obtain ⟨inRange, outRange⟩ := inside
    simp only [ringbufferOutByte, advanceIdx]
    split <;> split <;> bv_omega
  obtain ⟨inRange, outRange⟩ := inside
  have sameSize : (ringbufferOutByte fifo).1.size = fifo.size := rfl
  have sameIn : (ringbufferOutByte fifo).1.inIdx = fifo.inIdx := rfl
  rw [sameSize, sameIn] at after
  unfold RingBuffer.size at *
  split at moved <;> split at after <;> split at length <;> bv_omega

/-- A byte call conserves exactly when a byte is unread or the ring has no cell for one. -/
theorem ringbufferOutByte_conserves_iff {fifo : RingBuffer} (inside : fifo.InRange) :
    Conserves fifo .outByte ↔ Consumer.Within fifo .outByte := by
  by_cases none : (ringbufferLen fifo).toNat = 0
  · have after := ringbufferOutByte_empty inside none
    have delivered : Consumer.delivered fifo .outByte = 0 := by
      simp only [Consumer.delivered, none, Nat.zero_le, Nat.min_eq_right]
    constructor
    · intro call
      have zero := call.empty none
      change (ringbufferLen (ringbufferOutByte fifo).1).toNat = 0 at zero
      exact Or.inr (by unfold RingBuffer.size; omega)
    · rintro (some | single)
      · exact absurd none some
      · have zero : (ringbufferLen (Consumer.next fifo .outByte)).toNat = 0 := by
          change (ringbufferLen (ringbufferOutByte fifo).1).toNat = 0
          unfold RingBuffer.size at single
          omega
        exact ⟨by rw [zero, delivered, none], fun _ => zero⟩
  · refine iff_of_true ⟨?_, fun zero => absurd zero none⟩ (Or.inl none)
    have delivered : Consumer.delivered fifo .outByte = 1 := by
      simp only [Consumer.delivered]
      omega
    have one : 1 ≤ (ringbufferLen fifo).toNat := by omega
    rw [delivered]
    refine (takenOut_conserves_iff inside one).mpr ?_
    have outRange := inside.outRange
    unfold RingBuffer.size
    bv_omega

/-- In every reachable ring a consumer call conserves the buffered bytes exactly within these limits. -/
theorem ringBuffer_conserves_iff (fifo : RingBuffer) (buffer : Memory) (capacity : Nat)
    (ops : List (Queue.Op Byte)) (consumer : Consumer) :
    Conserves (Machine.run ringStep (ringbufferInit fifo buffer capacity).1 ops) consumer ↔
      consumer.Within (Machine.run ringStep (ringbufferInit fifo buffer capacity).1 ops) := by
  have inside := ringRun_stays ops (ringbufferInit_inRange fifo buffer capacity)
  cases consumer with
  | out count => exact ringbufferOut_conserves_iff inside count
  | outByte => exact ringbufferOutByte_conserves_iff inside

/-- A byte call on an initialized ring of two makes a byte. -/
theorem ringbufferOutByte_makes_byte :
    ¬Conserves (ringbufferInit ⟨0, 0, 0, fun _ => 0⟩ (fun _ => 0) 2).1 .outByte := by
  intro call
  exact absurd (call.empty (by decide)) (by decide)

end Psuart

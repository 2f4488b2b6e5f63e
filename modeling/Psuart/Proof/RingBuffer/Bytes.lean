import Psuart.Proof.RingBuffer.Bounds

namespace Psuart

/-- The ring behind any number of stored bytes. -/
def storedRing (fifo : RingBuffer) (block : List Byte) : RingBuffer :=
  { fifo with
    rdata := Cells.store fifo.rdata (ringCell fifo.size fifo.inIdx.toNat) block
    inIdx := BitVec.ofNat 32 (Cells.circular fifo.size fifo.inIdx.toNat block.length) }

/-- The ring behind any number of removed bytes. -/
def removedRing (fifo : RingBuffer) (count : Nat) : RingBuffer :=
  { fifo with outIdx := BitVec.ofNat 32 (Cells.circular fifo.size fifo.outIdx.toNat count) }

/-- The bytes from the output index on, around the ring. -/
def ringAhead (fifo : RingBuffer) (count : Nat) : List Byte :=
  Cells.load fifo.rdata (ringCell fifo.size fifo.outIdx.toNat) count

/-- An index that moves along the ring is the circular position. -/
theorem advanceIdx_eq {mask idx len : RbUint} (fits : idx.toNat + len.toNat < 2 ^ 32)
    (turns : idx.toNat + len.toNat ≤ 2 * mask.toNat + 1) :
    advanceIdx mask idx len = BitVec.ofNat 32 (Cells.circular (mask.toNat + 1) idx.toNat len.toNat) := by
  rw [← advanceIdx_toNat fits turns, BitVec.ofNat_toNat, BitVec.setWidth_eq]

section Circular

variable {fifo : RingBuffer} (sound : fifo.Sound)
include sound

theorem RingBuffer.Sound.circular_lt (start count : Nat) : Cells.circular fifo.size start count < 2 ^ 32 :=
  Nat.lt_trans (Nat.mod_lt _ (Nat.succ_pos _)) sound.below

theorem RingBuffer.Sound.circular_toNat (start count : Nat) :
    (BitVec.ofNat 32 (Cells.circular fifo.size start count)).toNat = Cells.circular fifo.size start count :=
  word_toNat (sound.circular_lt start count)

theorem RingBuffer.Sound.circular_le (start count : Nat) :
    BitVec.ofNat 32 (Cells.circular fifo.size start count) ≤ fifo.mask := by
  have inside : Cells.circular fifo.size start count < fifo.size := Nat.mod_lt _ (Nat.succ_pos _)
  rw [BitVec.le_def, sound.circular_toNat]
  exact Nat.le_of_lt_succ inside

theorem storedRing_sound (block : List Byte) : (storedRing fifo block).Sound :=
  ⟨⟨sound.circular_le _ _, sound.outRange⟩, sound.half⟩

theorem removedRing_sound (count : Nat) : (removedRing fifo count).Sound :=
  ⟨⟨sound.inRange, sound.circular_le _ _⟩, sound.half⟩

/-- A turn continues where the last one stopped. -/
theorem ringCell_circular (start first : Nat) :
    ringCell fifo.size (BitVec.ofNat 32 (Cells.circular fifo.size start first)).toNat =
      fun index => ringCell fifo.size start (first + index) := by
  funext index
  rw [sound.circular_toNat, ringCell, Cells.circular_circular]
  rfl

theorem storedRing_append (first second : List Byte) :
    storedRing (storedRing fifo first) second = storedRing fifo (first ++ second) := by
  have cells := ringCell_circular sound fifo.inIdx.toNat first.length
  have place := sound.circular_toNat fifo.inIdx.toNat first.length
  rw [place] at cells
  simp only [RingBuffer.size] at cells place
  simp only [storedRing, RingBuffer.size, place, cells, Cells.circular_circular, List.length_append,
    Cells.store_append]

theorem removedRing_add (first second : Nat) :
    removedRing (removedRing fifo first) second = removedRing fifo (first + second) := by
  have place := sound.circular_toNat fifo.outIdx.toNat first
  simp only [RingBuffer.size] at place
  simp only [removedRing, RingBuffer.size, place, Cells.circular_circular]

theorem ringAhead_add (first second : Nat) :
    ringAhead fifo (first + second) = ringAhead fifo first ++ ringAhead (removedRing fifo first) second := by
  have cells := ringCell_circular sound fifo.outIdx.toNat first
  simp only [RingBuffer.size] at cells
  simp only [ringAhead, removedRing, RingBuffer.size, cells, Cells.load_add]

/-- A byte is always stored, since the free space of a ring in range is never zero. -/
theorem ringStep_insertOne (value : Byte) : (ringStep fifo (.insertOne value)).1 = storedRing fifo [value] := by
  have holds : fifo.Holds fifo.size fifo.content := ⟨sound, rfl, rfl⟩
  have free := ringbufferLen_le_unused sound
  have unread := ringbufferLen_lt sound.toInRange
  have room : ringbufferUnused fifo > 0 := by bv_omega
  have start := idx_lt_size sound.inRange
  have half := sound.half
  have cell : memcpy fifo.rdata fifo.inIdx.toNat [value] =
      Cells.store fifo.rdata (ringCell fifo.size fifo.inIdx.toNat) [value] := by
    apply Cells.store_congr
    intro index bound
    rw [List.length_singleton] at bound
    exact (ringCell_low (by omega)).symm
  have next : advanceIdx fifo.mask fifo.inIdx 1 =
      BitVec.ofNat 32 (Cells.circular fifo.size fifo.inIdx.toNat 1) :=
    advanceIdx_eq (by unfold RingBuffer.size at *; bv_omega) (by unfold RingBuffer.size at *; bv_omega)
  simp only [ringStep, ringbufferInByte, if_pos room, bytePosition_eq holds fifo.inIdx sound.inRange]
  rw [cell, next]
  rfl

theorem ringStep_removeOne :
    ringStep fifo .removeOne = (removedRing fifo 1, .value (ringAhead fifo 1).head?) := by
  have holds : fifo.Holds fifo.size fifo.content := ⟨sound, rfl, rfl⟩
  have start := idx_lt_size sound.outRange
  have half := sound.half
  have next : advanceIdx fifo.mask fifo.outIdx 1 =
      BitVec.ofNat 32 (Cells.circular fifo.size fifo.outIdx.toNat 1) :=
    advanceIdx_eq (by unfold RingBuffer.size at *; bv_omega) (by unfold RingBuffer.size at *; bv_omega)
  have byte : ringbufferPeekByte fifo = fifo.rdata (ringCell fifo.size fifo.outIdx.toNat 0) := by
    rw [ringbufferPeekByte, bytePosition_eq holds fifo.outIdx sound.outRange, ringCell_low (by omega)]
    simp
  simp only [ringStep, ringbufferOutByte, next, byte]
  rfl

end Circular

/-- The run of byte insertions stores the whole block. -/
theorem ringRun_insertOne {fifo : RingBuffer} (sound : fifo.Sound) (block : List Byte) :
    Machine.run ringStep fifo (block.map Queue.Op.insertOne) = storedRing fifo block := by
  induction block generalizing fifo with
  | nil =>
      have start := idx_lt_size sound.inRange
      simp [Machine.run, storedRing, Cells.store, Cells.circular, Nat.mod_eq_of_lt start]
  | cons byte rest ih =>
      rw [List.map_cons, Machine.run, ringStep_insertOne sound, ih (storedRing_sound sound [byte]),
        storedRing_append sound, List.singleton_append]

/-- The run of byte removals delivers the bytes ahead. -/
theorem ringRun_removeOne {fifo : RingBuffer} (sound : fifo.Sound) (count : Nat) :
    Machine.run ringStep fifo (List.replicate count .removeOne) = removedRing fifo count ∧
      Machine.outputs ringStep fifo (List.replicate count .removeOne) =
        (ringAhead fifo count).map fun byte => Queue.Reply.value (some byte) := by
  induction count generalizing fifo with
  | zero =>
      have start := idx_lt_size sound.outRange
      exact ⟨by simp [Machine.run, removedRing, Cells.circular, Nat.mod_eq_of_lt start], rfl⟩
  | succ count ih =>
      obtain ⟨last, replies⟩ := ih (removedRing_sound sound 1)
      rw [List.replicate_succ, Machine.run, Machine.outputs_cons, ringStep_removeOne sound, Nat.add_comm count 1,
        last, replies, removedRing_add sound, ringAhead_add sound, List.map_append]
      exact ⟨rfl, rfl⟩

/-- A block that fits into the free space is inserted as its bytes. -/
theorem ringStep_insert {fifo : RingBuffer} (sound : fifo.Sound) (block : List Byte)
    (fits : block.length ≤ (ringbufferUnused fifo).toNat) :
    (ringStep fifo (.insert block)).1 = storedRing fifo block := by
  have taken : ringTaken fifo block = block.length := Nat.min_eq_left fits
  have turns := ringTaken_le sound.toInRange sound.below block
  have start := idx_lt_size sound.outRange
  have half := sound.half
  have count := ringTaken_toNat fifo block
  change (ringbufferIn fifo block).1 = _
  rw [ringbufferIn_eq sound.toInRange sound.below, advanceIdx_eq, count, taken, List.take_length]
  · rfl
  · rw [count]
    omega
  · rw [count]
    unfold RingBuffer.size at *
    omega

/-- A removal of unread bytes is the removal of each byte. -/
theorem ringStep_remove {fifo : RingBuffer} (sound : fifo.Sound) (count : Nat)
    (unread : count ≤ (ringbufferLen fifo).toNat) :
    ringStep fifo (.remove count) = (removedRing fifo count, .block count (ringAhead fifo count)) := by
  have taken : ringRead fifo count = count := Nat.min_eq_left unread
  have turns := taken_turns sound.toInRange unread
  have small := taken_toNat unread
  have half := sound.half
  simp only [ringStep, ringbufferOut, ringbufferOutPeek, ringbufferLen_clamp, taken, small]
  rw [advanceIdx_eq (by rw [small]; unfold RingBuffer.size at *; omega) (by rw [small]; exact turns), small,
    ringbufferCopyOut_eq _ sound.below sound.outRange (by rw [small]; unfold RingBuffer.size; omega), small]
  rfl

/-- In every run from an initialized ring the block calls act as the calls of their bytes. -/
theorem ringBuffer_blocks_as_bytes (fifo : RingBuffer) (buffer : Memory) (capacity : Nat)
    (low : 2 ≤ capacity) (high : capacity ≤ 2 ^ 31) (ops : List (Queue.Op Byte)) :
    let ring := Machine.run ringStep (ringbufferInit fifo buffer capacity).1 ops
    (∀ block : List Byte, block.length ≤ (ringbufferUnused ring).toNat →
        (ringStep ring (.insert block)).1 = Machine.run ringStep ring (block.map .insertOne)) ∧
      ∀ count, count ≤ (ringbufferLen ring).toNat → ∃ bytes,
        ringStep ring (.remove count) =
            (Machine.run ringStep ring (List.replicate count .removeOne), .block count bytes) ∧
          Machine.outputs ringStep ring (List.replicate count .removeOne) =
            bytes.map fun byte => .value (some byte) := by
  intro ring
  have keeps (ring : RingBuffer) (op : Queue.Op Byte) (kept : ring.mask = BitVec.ofNat 32 (capacity - 1)) :
      (ringStep ring op).1.mask = BitVec.ofNat 32 (capacity - 1) := by
    cases op with
    | insertOne value =>
        simp only [ringStep, ringbufferInByte]
        split <;> exact kept
    | _ => exact kept
  have start : (ringbufferInit fifo buffer capacity).1.mask = BitVec.ofNat 32 (capacity - 1) := by
    simp only [ringbufferInit, if_neg (show ¬capacity < 2 by omega)]
  have mask := Machine.run_invariant keeps _ ops start
  have sound : ring.Sound := by
    refine ⟨ringRun_stays ops (ringbufferInit_inRange fifo buffer capacity), ?_⟩
    rw [RingBuffer.size, mask, word_toNat (by omega)]
    omega
  constructor
  · intro block fits
    rw [ringStep_insert sound block fits, ringRun_insertOne sound]
  · intro count unread
    obtain ⟨last, replies⟩ := ringRun_removeOne sound count
    exact ⟨ringAhead ring count, by rw [ringStep_remove sound count unread, last], replies⟩

/-- A ring of four cells takes and delivers two bytes across its end. -/
theorem ringBuffer_blocks_as_bytes_wraps :
    let ring := Machine.run ringStep (ringbufferInit ⟨0, 0, 0, fun _ => 0⟩ (fun _ => 0) 4).1
      [.insert [1, 2, 3], .remove 3]
    (ringStep ring (.insert [4, 5])).1 = Machine.run ringStep ring [.insertOne 4, .insertOne 5] :=
  (ringBuffer_blocks_as_bytes ⟨0, 0, 0, fun _ => 0⟩ (fun _ => 0) 4 (by decide) (by decide)
    [.insert [1, 2, 3], .remove 3]).1 [4, 5] (by decide)

end Psuart

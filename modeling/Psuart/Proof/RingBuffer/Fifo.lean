import Psuart.Library.Machine
import Psuart.Library.Queue
import Psuart.Proof.RingBuffer.Layout

namespace Psuart

/-- A ring of at most half the index range counts its free cells without wrapping. -/
structure RingBuffer.Sound (fifo : RingBuffer) : Prop extends fifo.InRange where
  half : fifo.size ≤ 2 ^ 31

theorem ringbufferUnused_toNat {fifo : RingBuffer} (sound : fifo.Sound) :
    (ringbufferUnused fifo).toNat =
      if fifo.outIdx ≤ fifo.inIdx then fifo.size - (fifo.inIdx.toNat - fifo.outIdx.toNat)
      else fifo.size + (fifo.outIdx.toNat - fifo.inIdx.toNat) := by
  obtain ⟨⟨inRange, outRange⟩, half⟩ := sound
  unfold ringbufferUnused RingBuffer.size at *
  split <;> bv_omega

/-- The clamp of an insertion never acts on a block that fits. -/
theorem ringbufferLen_le_unused {fifo : RingBuffer} (sound : fifo.Sound) :
    fifo.size ≤ (ringbufferLen fifo).toNat + (ringbufferUnused fifo).toNat := by
  have length := ringbufferLen_toNat sound.toInRange
  have unused := ringbufferUnused_toNat sound
  have inside := ringbufferLen_lt sound.toInRange
  split at length
  · rename_i above
    rw [if_pos above] at unused
    omega
  · rename_i under
    rw [if_neg under] at unused
    omega

/-- A move of less than one turn stays in the ring and follows its cells. -/
theorem advanceIdx_half {mask idx len : RbUint} (half : mask.toNat + 1 ≤ 2 ^ 31)
    (inside : idx ≤ mask) (short : len ≤ mask) :
    advanceIdx mask idx len ≤ mask ∧
      (advanceIdx mask idx len).toNat = Cells.circular (mask.toNat + 1) idx.toNat len.toNat :=
  ⟨advanceIdx_le (by bv_omega), advanceIdx_toNat (by bv_omega) (by bv_omega)⟩

theorem RingBuffer.Sound.below {fifo : RingBuffer} (sound : fifo.Sound) : fifo.size < 2 ^ 32 :=
  Nat.lt_of_le_of_lt sound.half (by decide)

/-- The ring represents a queue when its unread bytes are the queue. -/
structure RingBuffer.Holds (fifo : RingBuffer) (capacity : Nat) (queue : List Byte) : Prop
    extends fifo.Sound where
  capacity : fifo.size = capacity
  content : fifo.content = queue

theorem RingBuffer.Holds.length {fifo : RingBuffer} {capacity : Nat} {queue : List Byte}
    (holds : fifo.Holds capacity queue) : (ringbufferLen fifo).toNat = queue.length := by
  rw [← holds.content, RingBuffer.content_length]

section Queue

variable {fifo : RingBuffer} {capacity : Nat} {queue : List Byte} (holds : fifo.Holds capacity queue)
include holds

/-- A stored block behind the input index extends the queue. -/
theorem RingBuffer.Holds.store (block : List Byte) (fits : queue.length + block.length < capacity) :
    RingBuffer.Holds
      { fifo with
        rdata := Cells.store fifo.rdata (ringCell fifo.size fifo.inIdx.toNat) block
        inIdx := advanceIdx fifo.mask fifo.inIdx (BitVec.ofNat 32 block.length) }
      capacity (queue ++ block) := by
  obtain ⟨⟨⟨inRange, outRange⟩, half⟩, sameSize, sameContent⟩ := holds
  have length : (ringbufferLen fifo).toNat = queue.length := by
    rw [← sameContent, RingBuffer.content_length]
  have count : (BitVec.ofNat 32 block.length).toNat = block.length := word_toNat (by omega)
  have short : BitVec.ofNat 32 block.length ≤ fifo.mask := by
    rw [BitVec.le_def, count]; unfold RingBuffer.size at *; omega
  obtain ⟨stays, value⟩ := advanceIdx_half half inRange short
  have moved : RingBuffer.InRange
      { fifo with
        rdata := Cells.store fifo.rdata (ringCell fifo.size fifo.inIdx.toNat) block
        inIdx := advanceIdx fifo.mask fifo.inIdx (BitVec.ofNat 32 block.length) } :=
    ⟨stays, outRange⟩
  have reached := inIdx_circular ⟨inRange, outRange⟩
  have total := ringbufferLen_unique moved (queue.length + block.length)
    (by change _ < fifo.size; omega)
    (by
      change _ = Cells.circular fifo.size fifo.outIdx.toNat _
      rw [count, reached, length] at value
      exact value.trans (Cells.circular_circular _ _ _ _))
  refine ⟨⟨moved, half⟩, sameSize, ?_⟩
  rw [RingBuffer.content, total, ← sameContent]
  exact load_store_content ⟨inRange, outRange⟩ block (by rw [sameContent]; omega)

/-- A moved output index drops the oldest bytes. -/
theorem RingBuffer.Holds.drop (count : Nat) (fits : count ≤ queue.length) :
    RingBuffer.Holds
      { fifo with outIdx := advanceIdx fifo.mask fifo.outIdx (BitVec.ofNat 32 count) }
      capacity (queue.drop count) := by
  obtain ⟨⟨⟨inRange, outRange⟩, half⟩, sameSize, sameContent⟩ := holds
  have length : (ringbufferLen fifo).toNat = queue.length := by
    rw [← sameContent, RingBuffer.content_length]
  have turn := ringbufferLen_lt ⟨inRange, outRange⟩
  have moves : (BitVec.ofNat 32 count).toNat = count := word_toNat (by omega)
  have short : BitVec.ofNat 32 count ≤ fifo.mask := by
    rw [BitVec.le_def, moves]; unfold RingBuffer.size at *; omega
  obtain ⟨stays, value⟩ := advanceIdx_half half outRange short
  rw [moves] at value
  have moved : RingBuffer.InRange
      { fifo with outIdx := advanceIdx fifo.mask fifo.outIdx (BitVec.ofNat 32 count) } :=
    ⟨inRange, stays⟩
  have reached := inIdx_circular ⟨inRange, outRange⟩
  have total := ringbufferLen_unique moved (queue.length - count)
    (by change _ < fifo.size; omega)
    (by
      change _ = Cells.circular fifo.size (advanceIdx fifo.mask fifo.outIdx _).toNat _
      rw [value, reached, length]
      change _ = Cells.circular fifo.size (Cells.circular fifo.size _ _) _
      rw [Cells.circular_circular]
      congr 1
      omega)
  refine ⟨⟨moved, half⟩, sameSize, ?_⟩
  rw [RingBuffer.content, total, ← length, ← sameContent, RingBuffer.content, Cells.load_drop]
  apply Cells.load_congr
  intro index _
  change fifo.rdata (ringCell fifo.size (advanceIdx fifo.mask fifo.outIdx _).toNat _) = _
  rw [value, ringCell, ringCell]
  change fifo.rdata (Cells.circular fifo.size (Cells.circular fifo.size _ _) _ : Nat) = _
  rw [Cells.circular_circular]

theorem RingBuffer.Holds.reset : (ringbufferReset fifo).Holds capacity [] := by
  have empty : ringbufferLen (ringbufferReset fifo) = 0 := by
    simp [ringbufferLen, ringbufferReset]
  refine ⟨⟨⟨?_, ?_⟩, holds.half⟩, holds.capacity, ?_⟩
  · exact Nat.zero_le _
  · exact Nat.zero_le _
  · rw [RingBuffer.content, empty]
    rfl

/-- An insertion that fits appends its block and returns the new length. -/
theorem ringbufferIn_holds (block : List Byte) (fits : queue.length + block.length < capacity) :
    (ringbufferIn fifo block).1.Holds capacity (queue ++ block) ∧
      (ringbufferIn fifo block).2.toNat = queue.length + block.length := by
  have below := holds.below
  have free := ringbufferLen_le_unused holds.toSound
  have unclamped : ¬block.length > (ringbufferUnused fifo).toNat := by
    rw [holds.length, holds.capacity] at free
    omega
  have size := holds.capacity
  have count : (BitVec.ofNat 32 block.length).toNat = block.length := word_toNat (by omega)
  have start := idx_lt_size holds.inRange
  have stored := ringbufferCopyIn_rdata (BitVec.ofNat 32 block.length) below holds.inRange block
    (by rw [count]) (by rw [count, holds.capacity]; rw [holds.capacity] at start; omega)
  rw [count, List.take_length] at stored
  have next : (ringbufferIn fifo block).1.Holds capacity (queue ++ block) := by
    simp only [ringbufferIn, if_neg unclamped]
    rw [stored]
    exact holds.store block fits
  refine ⟨next, ?_⟩
  have length := next.length
  rw [List.length_append] at length
  exact length

/-- A peek delivers the oldest bytes and removes nothing. -/
theorem ringbufferOutPeek_holds (count : Nat) :
    (ringbufferOutPeek fifo count).1.toNat = min count queue.length ∧
      (ringbufferOutPeek fifo count).2 = queue.take count := by
  have below := holds.below
  have length := holds.length
  have turn := ringbufferLen_lt holds.toInRange
  have clamp : (if count > (ringbufferLen fifo).toNat then (ringbufferLen fifo).toNat else count) =
      min count queue.length := by
    rw [length]
    split <;> omega
  have moves : (BitVec.ofNat 32 (min count queue.length)).toNat = min count queue.length :=
    word_toNat (by omega)
  have start := idx_lt_size holds.outRange
  simp only [ringbufferOutPeek, clamp, moves, true_and]
  rw [ringbufferCopyOut_eq _ below holds.outRange (by rw [moves]; omega), moves, ← length,
    ← holds.content, RingBuffer.content, Cells.load_take]

/-- A removal delivers the oldest bytes and drops them. -/
theorem ringbufferOut_holds (count : Nat) :
    (ringbufferOut fifo count).1.Holds capacity (queue.drop count) ∧
      (ringbufferOut fifo count).2.1.toNat = min count queue.length ∧
      (ringbufferOut fifo count).2.2 = queue.take count := by
  obtain ⟨moves, bytes⟩ := ringbufferOutPeek_holds holds count
  refine ⟨?_, moves, bytes⟩
  have dropped := holds.drop (min count queue.length) (by omega)
  rw [← moves, BitVec.ofNat_toNat, BitVec.setWidth_eq, moves] at dropped
  rw [show queue.drop count = queue.drop (min count queue.length) by
    rcases Nat.le_total count queue.length with short | long
    · rw [Nat.min_eq_left short]
    · rw [Nat.min_eq_right long, List.drop_of_length_le long, List.drop_length]]
  exact dropped

/-- The byte position of an index in range is the index. -/
theorem bytePosition_eq (off : RbUint) (inside : off ≤ fifo.mask) :
    bytePosition fifo off = off.toNat := by
  have below := holds.below
  have room : minRbUint 1 ((fifo.mask + 1) - off) > 0 := by
    have value := minRbUint_toNat 1 ((fifo.mask + 1) - off)
    unfold RingBuffer.size at below
    bv_omega
  rw [bytePosition, if_pos room]

/-- The byte insertion stores through its own position and agrees with a block of one byte. -/
theorem ringbufferInByte_holds (value : Byte) (fits : queue.length + 1 < capacity) :
    (ringbufferInByte fifo value).1.Holds capacity (queue ++ [value]) ∧
      (ringbufferInByte fifo value).2.toNat = queue.length + 1 := by
  have free := ringbufferLen_le_unused holds.toSound
  rw [holds.length, holds.capacity] at free
  have room : ringbufferUnused fifo > 0 := by bv_omega
  have start := idx_lt_size holds.inRange
  have cell : memcpy fifo.rdata fifo.inIdx.toNat [value] =
      Cells.store fifo.rdata (ringCell fifo.size fifo.inIdx.toNat) [value] := by
    apply Cells.store_congr
    intro index bound
    rw [List.length_singleton] at bound
    exact (ringCell_low (by omega)).symm
  have next : (ringbufferInByte fifo value).1.Holds capacity (queue ++ [value]) := by
    simp only [ringbufferInByte, if_pos room, bytePosition_eq holds fifo.inIdx holds.inRange]
    rw [cell]
    exact holds.store [value] fits
  refine ⟨next, ?_⟩
  have length := next.length
  rw [List.length_append] at length
  exact length

/-- The byte reader returns the oldest byte. -/
theorem ringbufferPeekByte_holds (some : queue ≠ []) :
    queue.head? = Option.some (ringbufferPeekByte fifo) := by
  have positive : 0 < (ringbufferLen fifo).toNat := by
    rw [holds.length]; exact List.length_pos_of_ne_nil some
  have start := idx_lt_size holds.outRange
  rw [← holds.content, RingBuffer.content, List.head?_eq_getElem?,
    List.getElem?_eq_getElem (by simpa using positive), Cells.load_getElem, ringbufferPeekByte,
    bytePosition_eq holds fifo.outIdx holds.outRange, ringCell_low (by omega)]
  simp

theorem ringbufferOutByte_holds (some : queue ≠ []) :
    (ringbufferOutByte fifo).1.Holds capacity queue.tail ∧
      queue.head? = Option.some (ringbufferOutByte fifo).2 := by
  refine ⟨?_, ringbufferPeekByte_holds holds some⟩
  have dropped := holds.drop 1 (List.length_pos_of_ne_nil some)
  rw [List.drop_one] at dropped
  exact dropped

end Queue

end Psuart

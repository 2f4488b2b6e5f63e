import Psuart.Model.RingBuffer

namespace Psuart

/-- The capacity of a ring is one more than its mask. -/
def RingBuffer.size (fifo : RingBuffer) : Nat := fifo.mask.toNat + 1

/-- Both indices point into the ring. -/
structure RingBuffer.InRange (fifo : RingBuffer) : Prop where
  inRange : fifo.inIdx ≤ fifo.mask
  outRange : fifo.outIdx ≤ fifo.mask

/-- The ring cells follow a start position around the ring. -/
def ringCell (size start index : Nat) : Int := Cells.circular size start index

/-- The unread bytes stand between the two indices. -/
def RingBuffer.content (fifo : RingBuffer) : List Byte :=
  Cells.load fifo.rdata (ringCell fifo.size fifo.outIdx.toNat) (ringbufferLen fifo).toNat

@[simp] theorem RingBuffer.content_length (fifo : RingBuffer) :
    fifo.content.length = (ringbufferLen fifo).toNat := Cells.load_length _ _ _

/-- An index in range is a cell of the ring. -/
theorem idx_lt_size {fifo : RingBuffer} {idx : RbUint} (inside : idx ≤ fifo.mask) :
    idx.toNat < fifo.size := by
  unfold RingBuffer.size
  bv_omega

/-- A ring that reaches the index range covers it. -/
theorem size_eq_of_not_lt {fifo : RingBuffer} (above : ¬fifo.size < 2 ^ 32) :
    fifo.size = 2 ^ 32 := by
  have bound := fifo.mask.isLt
  unfold RingBuffer.size at *
  omega

theorem minRbUint_toNat (x y : RbUint) : (minRbUint x y).toNat = min x.toNat y.toNat := by
  unfold minRbUint
  split <;> bv_omega

/-- A position before the end of the ring is its own cell. -/
theorem ringCell_low {size start index : Nat} (low : start + index < size) :
    ringCell size start index = ((start : Int) + index) := by
  rw [ringCell, Cells.circular, Nat.mod_eq_of_lt low]
  push_cast
  rfl

/-- A position behind the end of the ring wraps once. -/
theorem ringCell_high {size start index : Nat} (high : size ≤ start + index)
    (once : start + index < 2 * size) :
    ringCell size start index = ((start + index - size : Nat) : Int) := by
  rw [ringCell, Cells.circular, Nat.mod_eq_sub_mod high, Nat.mod_eq_of_lt (by omega)]

/-- A shifted start visits the later cells. -/
theorem ringCell_add (size start first index : Nat) :
    ringCell size start (first + index) = ringCell size (start + first) index := by
  rw [ringCell, ringCell, Cells.circular, Cells.circular, Nat.add_assoc]

/-- The cells of one turn are distinct. -/
theorem ringCell_ne {size start left right : Nat} (before : left < right)
    (turn : right < left + size) : ringCell size start right ≠ ringCell size start left := by
  intro equal
  exact Cells.circular_ne before turn (Int.natCast_inj.mp equal)

section Copy

variable {fifo : RingBuffer} {off : RbUint} (len : RbUint)
  (below : fifo.size < 2 ^ 32) (start : off ≤ fifo.mask)
include below start

/-- The first copy ends at the end of the ring. -/
theorem copy_slen_toNat :
    (minRbUint len ((fifo.mask + 1) - off)).toNat = min len.toNat (fifo.size - off.toNat) := by
  rw [minRbUint_toNat]
  unfold RingBuffer.size at *
  bv_omega

/-- The second copy takes what the first one left. -/
theorem copy_rest_toNat :
    (len - minRbUint len ((fifo.mask + 1) - off)).toNat =
      len.toNat - min len.toNat (fifo.size - off.toNat) := by
  have first := copy_slen_toNat len below start
  rw [← first]
  have small : (minRbUint len ((fifo.mask + 1) - off)).toNat ≤ len.toNat := by omega
  bv_omega

/-- The two copies of `ringbuffer_copy_in` store along the ring cells. -/
theorem ringbufferCopyIn_rdata (src : List Byte) (enough : len.toNat ≤ src.length)
    (turns : off.toNat + len.toNat < 2 * fifo.size) :
    (ringbufferCopyIn fifo src len off).rdata =
      Cells.store fifo.rdata (ringCell fifo.size off.toNat) (src.take len.toNat) := by
  have first := copy_slen_toNat len below start
  have second := copy_rest_toNat len below start
  have inside := idx_lt_size start
  have whole : src.take len.toNat = src.take (min len.toNat (fifo.size - off.toNat)) ++
      (src.drop (min len.toNat (fifo.size - off.toNat))).take
        (len.toNat - min len.toNat (fifo.size - off.toNat)) := by
    rw [← List.take_add]
    congr 1
    omega
  have copyIf (condition : Prop) [Decidable condition] (memory : Memory) (place : Int)
      (bytes : List Byte) (empty : ¬condition → bytes = []) :
      (if condition then memcpy memory place bytes else memory) = memcpy memory place bytes := by
    split
    · rfl
    · rename_i none
      rw [empty none]
      rfl
  have low : memcpy fifo.rdata off.toNat (src.take (min len.toNat (fifo.size - off.toNat))) =
      Cells.store fifo.rdata (ringCell fifo.size off.toNat)
        (src.take (min len.toNat (fifo.size - off.toNat))) := by
    apply Cells.store_congr
    intro index bound
    simp only [List.length_take] at bound
    exact (ringCell_low (by omega)).symm
  simp only [ringbufferCopyIn]
  rw [copyIf, copyIf, first, second, whole, Cells.store_append, low]
  · apply Cells.store_congr
    intro index bound
    simp only [List.length_take, List.length_drop] at bound ⊢
    rw [ringCell_high (by omega) (by omega)]
    omega
  · intro none
    have zero : (minRbUint len ((fifo.mask + 1) - off)).toNat = 0 := by bv_omega
    rw [zero, List.take_zero]
  · intro none
    have zero : (len - minRbUint len ((fifo.mask + 1) - off)).toNat = 0 := by bv_omega
    rw [zero, List.take_zero]

/-- The two copies of `ringbuffer_copy_out` load along the ring cells. -/
theorem ringbufferCopyOut_eq (turns : off.toNat + len.toNat < 2 * fifo.size) :
    ringbufferCopyOut fifo len off =
      Cells.load fifo.rdata (ringCell fifo.size off.toNat) len.toNat := by
  have first := copy_slen_toNat len below start
  have second := copy_rest_toNat len below start
  have inside := idx_lt_size start
  have loadIf (condition : Prop) [Decidable condition] (place : Int) (count : Nat)
      (empty : ¬condition → count = 0) :
      (if condition then bytesAt fifo.rdata place count else []) = bytesAt fifo.rdata place count := by
    split
    · rfl
    · rename_i none
      rw [empty none]
      rfl
  simp only [ringbufferCopyOut]
  rw [loadIf, loadIf, first, second]
  · conv_rhs => rw [show len.toNat = min len.toNat (fifo.size - off.toNat) +
      (len.toNat - min len.toNat (fifo.size - off.toNat)) by omega, Cells.load_add]
    congr 1
    · apply Cells.load_congr
      intro index bound
      rw [ringCell_low (by omega)]
    · apply Cells.load_congr
      intro index bound
      rw [ringCell_high (by omega) (by omega)]
      congr 1
      omega
  · intro none
    bv_omega
  · intro none
    bv_omega

end Copy

/-- The length of a ring in range is the distance between its indices. -/
theorem ringbufferLen_toNat {fifo : RingBuffer} (inside : fifo.InRange) :
    (ringbufferLen fifo).toNat =
      if fifo.outIdx ≤ fifo.inIdx then fifo.inIdx.toNat - fifo.outIdx.toNat
      else fifo.inIdx.toNat + fifo.size - fifo.outIdx.toNat := by
  obtain ⟨inRange, outRange⟩ := inside
  unfold ringbufferLen RingBuffer.size
  split <;> bv_omega

/-- The unread bytes leave at least one cell free. -/
theorem ringbufferLen_lt {fifo : RingBuffer} (inside : fifo.InRange) :
    (ringbufferLen fifo).toNat < fifo.size := by
  rw [ringbufferLen_toNat inside]
  obtain ⟨inRange, outRange⟩ := inside
  unfold RingBuffer.size
  split <;> bv_omega

/-- The input index stands behind the unread bytes. -/
theorem inIdx_circular {fifo : RingBuffer} (inside : fifo.InRange) :
    fifo.inIdx.toNat = Cells.circular fifo.size fifo.outIdx.toNat (ringbufferLen fifo).toNat := by
  have length := ringbufferLen_toNat inside
  obtain ⟨inRange, outRange⟩ := inside
  have below := idx_lt_size inRange
  unfold Cells.circular
  rw [length]
  split
  · rename_i above
    rw [show fifo.outIdx.toNat + (fifo.inIdx.toNat - fifo.outIdx.toNat) = fifo.inIdx.toNat by bv_omega,
      Nat.mod_eq_of_lt below]
  · rename_i under
    rw [show fifo.outIdx.toNat + (fifo.inIdx.toNat + fifo.size - fifo.outIdx.toNat) =
      fifo.inIdx.toNat + fifo.size by unfold RingBuffer.size; bv_omega,
      Nat.add_mod_right, Nat.mod_eq_of_lt below]

/-- The length is the only distance below one turn from the output index to the input index. -/
theorem ringbufferLen_unique {fifo : RingBuffer} (inside : fifo.InRange) (distance : Nat)
    (turn : distance < fifo.size)
    (reached : fifo.inIdx.toNat = Cells.circular fifo.size fifo.outIdx.toNat distance) :
    (ringbufferLen fifo).toNat = distance :=
  Cells.circular_injective (ringbufferLen_lt inside) turn
    ((inIdx_circular inside).symm.trans reached)

/-- A move that does not overflow follows the ring cells. -/
theorem advanceIdx_toNat {mask idx len : RbUint} (fits : idx.toNat + len.toNat < 2 ^ 32)
    (turns : idx.toNat + len.toNat ≤ 2 * mask.toNat + 1) :
    (advanceIdx mask idx len).toNat = Cells.circular (mask.toNat + 1) idx.toNat len.toNat := by
  unfold advanceIdx Cells.circular
  dsimp only
  split
  · rename_i above
    rw [Nat.mod_eq_sub_mod (by bv_omega), Nat.mod_eq_of_lt (by bv_omega)]
    bv_omega
  · rename_i under
    rw [Nat.mod_eq_of_lt (by bv_omega)]
    bv_omega

/-- A move of less than two turns stays in the ring even when it overflows. -/
theorem advanceIdx_le {mask idx len : RbUint}
    (turns : idx.toNat + len.toNat ≤ 2 * mask.toNat + 1) : advanceIdx mask idx len ≤ mask := by
  unfold advanceIdx
  dsimp only
  split <;> bv_omega

/-- Bytes stored behind the input index extend the unread bytes. -/
theorem load_store_content {fifo : RingBuffer} (inside : fifo.InRange) (block : List Byte)
    (fits : fifo.content.length + block.length ≤ fifo.size) :
    Cells.load (Cells.store fifo.rdata (ringCell fifo.size fifo.inIdx.toNat) block)
        (ringCell fifo.size fifo.outIdx.toNat) (fifo.content.length + block.length) =
      fifo.content ++ block := by
  have behind : ringCell fifo.size fifo.inIdx.toNat =
      fun index => ringCell fifo.size fifo.outIdx.toNat (fifo.content.length + index) := by
    funext index
    rw [inIdx_circular inside, ringCell_add, RingBuffer.content_length, ringCell, ringCell,
      Cells.circular, Cells.circular, Cells.circular, Nat.mod_add_mod]
  rw [Cells.load_add, behind, Cells.load_store_disjoint, Cells.load_store]
  · rw [RingBuffer.content_length]
    rfl
  · intro left right before bound
    exact ringCell_ne (by omega) (by omega)
  · intro left right bound before
    exact ringCell_ne (by omega) (by omega)

end Psuart

import Psuart.Proof.Rader.Commands
import Psuart.Proof.RingBuffer.Bounds
import Psuart.Spec.Capacity

namespace Psuart

section Packet

variable (flag : Byte) {dlen : BitVec 16} {data : List Byte}

/-- A copy behind the header keeps its length. -/
theorem erupGetLen_memcpy (buf : Memory) {off : Int} (behind : 3 ≤ off) (src : List Byte) :
    erupGetLen promoteChar (memcpy buf off src) = erupGetLen promoteChar buf := by
  have kept (place : Int) (front : place < 3) : memcpy buf off src place = buf place := by
    apply Cells.store_outside
    intro index _ equal
    omega
  rw [erupGetLen, erupGetLen, kept 1 (by omega), kept 2 (by omega)]

theorem packetFilled_length (length : data.length = dlen.toNat) (plain : PlainLength dlen.toNat) :
    erupGetLen promoteChar (packetFilled flag dlen data) = BitVec.ofNat 32 dlen.toNat := by
  rw [packetFilled, ← length, erupSet_header]
  exact erupGetLen_header _ flag data.length data (length ▸ plain)

theorem dlen_toInt (dlen : BitVec 16) : (BitVec.ofNat 32 dlen.toNat).toInt = dlen.toNat :=
  word_toInt (Nat.lt_trans dlen.isLt (by decide))

theorem packetChecked_length (length : data.length = dlen.toNat) (plain : PlainLength dlen.toNat) :
    erupGetLen promoteChar (packetChecked flag dlen data) = BitVec.ofNat 32 dlen.toNat := by
  have filled := packetFilled_length flag length plain
  rw [packetChecked, erupSetCrc, filled, dlen_toInt, erupGetLen_memcpy _ (by omega), filled]

/-- Each macro reads the length of the response. -/
theorem packetLengths_eq (length : data.length = dlen.toNat) (plain : PlainLength dlen.toNat) :
    packetLengths flag dlen data = List.replicate 3 (BitVec.ofNat 32 dlen.toNat) := by
  have filled := packetFilled_length flag length plain
  have checked := packetChecked_length flag length plain
  have closed : erupGetLen promoteChar (packetClosed flag dlen data) = BitVec.ofNat 32 dlen.toNat := by
    rw [packetClosed, erupSetEnd, checked, dlen_toInt, erupGetLen_memcpy _ (by omega), checked]
  rw [packetLengths, filled, checked, closed]
  rfl

/-- No statement writes behind the array when the response leaves room for the frame. -/
theorem packetWrites_inside (length : data.length = dlen.toNat) (plain : PlainLength dlen.toNat)
    (room : dlen.toNat + 6 ≤ packetSize) :
    ∀ i ∈ packetWrites flag dlen data, 0 ≤ i ∧ i < packetSize := by
  have size : packetSize = 4096 := rfl
  intro i member
  rw [packetWrites, packetFilled_length flag length plain, packetChecked_length flag length plain, dlen_toInt,
    List.mem_append, List.mem_append, List.mem_append, mem_touched, mem_touched] at member
  simp only [List.mem_cons, List.not_mem_nil, or_false] at member
  omega

/-- The statements write only the listed indices. -/
theorem packetWrites_frame {place : Int} (outside : place ∉ packetWrites flag dlen data) :
    packetClosed flag dlen data place = 0 := by
  rw [packetWrites, List.mem_append, List.mem_append, List.mem_append, not_or, not_or, not_or] at outside
  obtain ⟨⟨⟨_, header⟩, response⟩, last⟩ := outside
  simp only [List.mem_cons, List.not_mem_nil, or_false, not_or] at header last
  have single (buf : Memory) {off : Int} (byte : Byte) (other : place ≠ off) :
      memcpy buf off [byte] place = buf place := by
    apply Cells.store_outside
    intro index inside equal
    rw [List.length_singleton] at inside
    omega
  have lengthBytes (buf : Memory) (first second : Byte) : memcpy buf 1 [first, second] place = buf place := by
    apply Cells.store_outside
    intro index inside equal
    rw [List.length_cons, List.length_singleton] at inside
    omega
  have copied (buf : Memory) : memcpy buf 4 data place = buf place := memcpy_untouched buf 4 data le_rfl response
  rw [packetClosed, erupSetEnd, single _ _ last.2, packetChecked, erupSetCrc, single _ _ last.1, packetFilled,
    copied, erupSetFlag, single _ _ header.2.2.2, erupSetLen, lengthBytes,
    erupSetBegin, single _ _ header.1]

end Packet

section Ring

variable {fifo : RingBuffer} {acc : List Byte} (holds : fifo.Holds raderBufSize acc) (front : fifo.outIdx = 0)
include holds front

/-- The unread bytes of an unmoved ring stand at its start. -/
theorem front_bytes : bytesAt fifo.rdata 0 acc.length = acc := by
  have length := holds.length
  have turn := ringbufferLen_lt holds.toInRange
  conv_rhs => rw [← holds.content, RingBuffer.content, length, front]
  apply Cells.load_congr
  intro index inside
  rw [ringCell_low (by change 0 + index < _; omega)]
  rfl

/-- Reading the response starts at the first byte. -/
theorem front_delivers (count : Nat) (enough : count ≤ acc.length) :
    (ringbufferOut fifo count).2.1.toNat = count ∧ (ringbufferOut fifo count).2.2 = bytesAt fifo.rdata 0 count := by
  obtain ⟨_, moved, delivered⟩ := ringbufferOut_holds holds count
  refine ⟨by omega, ?_⟩
  conv_lhs => rw [delivered, ← front_bytes holds front, bytesAt, Cells.load_take, Nat.min_eq_left enough]
  rfl

end Ring

/-- The ring of an armed state has not moved its output index since the command. -/
structure Rader.Waits (s : Rader) : Prop where
  sound : s.Sound
  front : s.raderDlen ≠ 0 → s.raderFifo.outIdx = 0

theorem CommandEffect.waits {s after : Rader} {written : Option (List Byte)} (waits : s.Waits)
    (effect : CommandEffect s written after) : after.Waits := by
  refine ⟨effect.sound waits.sound, ?_⟩
  cases effect with
  | refused => exact waits.front
  | disarmed => exact fun armed => absurd rfl armed
  | started _ payload => exact fun _ => rfl

/-- An armed state collects in front of an unmoved output index. -/
theorem Rader.Waits.collects {s : Rader} (waits : s.Waits) (armed : 0 < s.raderDlen) :
    ∃ acc, s.Collects acc ∧ s.raderFifo.outIdx = 0 := by
  rcases waits.sound with rests | ⟨acc, collects⟩
  · rw [rests.idle] at armed
    exact absurd armed (by decide)
  · exact ⟨acc, collects, waits.front collects.busy⟩

theorem Rader.Waits.capacity {s : Rader} (waits : s.Waits) : CapacityInvariant s where
  length armed := by
    obtain ⟨acc, collects, _⟩ := waits.collects armed
    exact collects.length
  front armed := by
    obtain ⟨acc, _, front⟩ := waits.collects armed
    exact front
  occupancy armed := by
    obtain ⟨acc, collects, _⟩ := waits.collects armed
    rw [collects.holds.length]
    exact collects.partly

/-- The largest response and a full read leave room in the ring. -/
theorem Rader.Collects.room {s : Rader} {acc : List Byte} (collects : s.Collects acc) (data : ReadBytes) :
    acc.length + data.val.length < raderBufSize := by
  have limit := collects.need_le
  have partly := collects.partly
  have size : data.val.length ≤ 4096 := data.property
  have ring : raderBufSize = 8192 := rfl
  omega

/-- The packet holds the bytes that the ring delivers. -/
theorem raderRecv_packet {s : Rader} {data : List Byte} (armed : s.raderDlen > 0)
    (enough : (ringbufferIn s.raderFifo data).2.toNat ≥ s.raderDlen.toNat) :
    (raderRecv s data).written = some (raderPacket s.rdaerCmdFlag s.raderDlen (recvDelivered s data).2) := by
  simp only [raderRecv, if_pos armed, if_pos enough]
  rfl

/-- The chunk that completes a response leaves a packet inside its array. -/
theorem Rader.Waits.packet {s : Rader} (waits : s.Waits) (armed : 0 < s.raderDlen) (data : ReadBytes)
    (enough : s.raderDlen.toNat ≤ (ringbufferIn s.raderFifo data.val).2.toNat) : PacketFits s data.val := by
  obtain ⟨acc, collects, front⟩ := waits.collects armed
  obtain ⟨stored, count⟩ := ringbufferIn_holds collects.holds data.val (collects.room data)
  rw [count, ← List.length_append] at enough
  obtain ⟨moved, delivered⟩ := front_delivers stored front s.raderDlen.toNat enough
  have plain : PlainLength s.raderDlen.toNat := by
    rw [collects.length]
    exact raderDlenOf_plain _
  have limit := collects.need_le
  have length : (recvDelivered s data.val).2.length = s.raderDlen.toNat := by
    rw [recvDelivered, delivered, bytesAt_length]
  refine ⟨moved, delivered, fun len member => ?_, packetWrites_inside _ length plain ?_⟩
  · rw [packetLengths_eq _ length plain] at member
    rw [(List.mem_replicate.mp member).2, dlen_toInt]
  · have size : packetSize = 4096 := rfl
    omega

end Psuart

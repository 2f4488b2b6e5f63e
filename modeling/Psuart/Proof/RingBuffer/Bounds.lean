import Psuart.Model.RingAccess
import Psuart.Proof.RingBuffer.Overfill
import Psuart.Proof.RingBuffer.Refinement

namespace Psuart

/-- A call returns the next ring and the indices that it touched. -/
def ringCallStep (fifo : RingBuffer) (call : RingCall) : RingBuffer × List Int :=
  (match call with
    | .op op => (ringStep fifo op).1
    | .skip => ringbufferSkip fifo,
    ringAccesses fifo call)

/-- The indices stay in the ring around the call, and the call touches only bytes of the ring. -/
structure KeepsRange (fifo : RingBuffer) (call : RingCall) : Prop where
  before : fifo.InRange
  accesses : ∀ place ∈ ringAccesses fifo call, 0 ≤ place ∧ place ≤ fifo.mask.toNat
  after : (ringCallStep fifo call).1.InRange

/-- A skip over the last cell leaves the ring, unless the mask covers the whole index range. -/
def SkipsPast (fifo : RingBuffer) (call : RingCall) : Prop :=
  call = .skip ∧ ringbufferLen fifo > 0 ∧ fifo.outIdx = fifo.mask ∧ fifo.mask ≠ BitVec.allOnes 32

theorem mem_touched {start count : Nat} {place : Int} :
    place ∈ touched start count ↔ (start : Int) ≤ place ∧ place < start + count := by
  simp only [touched, List.mem_map, List.mem_range]
  constructor
  · rintro ⟨index, inside, rfl⟩
    omega
  · rintro ⟨low, high⟩
    exact ⟨(place - start).toNat, by omega, by omega⟩

/-- Two copies of less than two turns touch only bytes of the ring. -/
theorem copyAccesses_inRange {fifo : RingBuffer} {off : RbUint} (len : RbUint) (start : off ≤ fifo.mask)
    (turns : off.toNat + len.toNat ≤ 2 * fifo.size) :
    ∀ place ∈ ringbufferCopyAccesses fifo len off, 0 ≤ place ∧ place ≤ fifo.mask.toNat := by
  intro place member
  have small := minRbUint_toNat len ((fifo.mask + 1) - off)
  have rest : (len - minRbUint len ((fifo.mask + 1) - off)).toNat =
      len.toNat - (minRbUint len ((fifo.mask + 1) - off)).toNat := by bv_omega
  unfold RingBuffer.size at turns
  simp only [ringbufferCopyAccesses, List.mem_append] at member
  rcases member with first | second
  · split at first
    · rw [mem_touched] at first
      bv_omega
    · cases first
  · split at second
    · rw [mem_touched, rest] at second
      bv_omega
    · cases second

/-- The byte position of an index in range is the index, also in a ring over the whole range. -/
theorem bytePosition_inRange {fifo : RingBuffer} {off : RbUint} (inside : off ≤ fifo.mask) :
    bytePosition fifo off = off.toNat := by
  have value := minRbUint_toNat 1 ((fifo.mask + 1) - off)
  unfold bytePosition
  split
  · rfl
  · bv_omega

/-- A ring that covers the index range keeps every index. -/
theorem RingBuffer.InRange.of_whole {fifo : RingBuffer} (whole : ¬fifo.size < 2 ^ 32) : fifo.InRange := by
  have full := size_eq_of_not_lt whole
  unfold RingBuffer.size at full
  constructor <;> bv_omega

/-- The clamped block reaches at most one turn behind the output index, or the ring covers the range. -/
theorem ringTaken_turns {fifo : RingBuffer} (inside : fifo.InRange) (block : List Byte) :
    fifo.inIdx.toNat + ringTaken fifo block ≤ 2 * fifo.size := by
  by_cases below : fifo.size < 2 ^ 32
  · have turns := ringTaken_le inside below block
    have outBelow := idx_lt_size inside.outRange
    omega
  · have full := size_eq_of_not_lt below
    have small := ringTaken_lt fifo block
    have inBelow := idx_lt_size inside.inRange
    omega

theorem ringbufferIn_stays {fifo : RingBuffer} (inside : fifo.InRange) (block : List Byte) :
    (ringbufferIn fifo block).1.InRange := by
  by_cases below : fifo.size < 2 ^ 32
  · exact ringbufferIn_inRange inside below block
  · exact .of_whole below

/-- Both consumer calls move the output index behind the taken bytes. -/
def takenOut (fifo : RingBuffer) (taken : Nat) : RingBuffer :=
  { fifo with outIdx := advanceIdx fifo.mask fifo.outIdx (BitVec.ofNat 32 taken) }

theorem taken_toNat {fifo : RingBuffer} {taken : Nat} (unread : taken ≤ (ringbufferLen fifo).toNat) :
    (BitVec.ofNat 32 taken).toNat = taken :=
  word_toNat (Nat.lt_of_le_of_lt unread (ringbufferLen fifo).isLt)

section TakenTurns

variable {fifo : RingBuffer} (inside : fifo.InRange) {taken : Nat}
  (unread : taken ≤ (ringbufferLen fifo).toNat)
include inside unread

/-- The move behind the taken bytes stays below two turns. -/
theorem taken_turns : fifo.outIdx.toNat + taken ≤ 2 * fifo.mask.toNat + 1 := by
  have length := ringbufferLen_lt inside
  have below := idx_lt_size inside.outRange
  unfold RingBuffer.size at *
  omega

theorem takenOut_inRange : (takenOut fifo taken).InRange := by
  refine ⟨inside.inRange, advanceIdx_le ?_⟩
  rw [taken_toNat unread]
  exact taken_turns inside unread

end TakenTurns

/-- The clamp of a read takes at most the unread bytes. -/
def ringRead (fifo : RingBuffer) (count : Nat) : Nat := min count (ringbufferLen fifo).toNat

theorem ringRead_le (fifo : RingBuffer) (count : Nat) : ringRead fifo count ≤ (ringbufferLen fifo).toNat :=
  Nat.min_le_right _ _

theorem ringbufferLen_clamp (fifo : RingBuffer) (count : Nat) :
    (if count > (ringbufferLen fifo).toNat then (ringbufferLen fifo).toNat else count) =
      ringRead fifo count := by
  unfold ringRead
  split <;> omega

/-- A removal moves the output index by the clamped count. -/
theorem ringbufferOut_eq (fifo : RingBuffer) (count : Nat) :
    (ringbufferOut fifo count).1 = takenOut fifo (ringRead fifo count) := by
  simp only [ringbufferOut, ringbufferOutPeek, ringbufferLen_clamp, takenOut]

theorem ringbufferOut_stays {fifo : RingBuffer} (inside : fifo.InRange) (count : Nat) :
    (ringbufferOut fifo count).1.InRange := by
  rw [ringbufferOut_eq]
  exact takenOut_inRange inside (ringRead_le fifo count)

/-- A move by one byte stays in the ring. -/
theorem advanceIdx_one_le {mask idx : RbUint} (inside : idx ≤ mask) : advanceIdx mask idx 1 ≤ mask := by
  unfold advanceIdx
  dsimp only
  split <;> bv_omega

/-- Every operation of the queue keeps the indices in the ring. -/
theorem ringStep_stays {fifo : RingBuffer} (inside : fifo.InRange) (op : Queue.Op Byte) :
    (ringStep fifo op).1.InRange := by
  cases op with
  | insert block => exact ringbufferIn_stays inside block
  | insertOne value =>
      simp only [ringStep, ringbufferInByte]
      split <;> exact ⟨advanceIdx_one_le inside.inRange, inside.outRange⟩
  | remove count => exact ringbufferOut_stays inside count
  | removeOne => exact ⟨inside.inRange, advanceIdx_one_le inside.outRange⟩
  | clear => exact ⟨Nat.zero_le _, Nat.zero_le _⟩
  | peek _ => exact inside
  | peekOne => exact inside
  | length => exact inside

/-- A run of queue operations stays in the ring. -/
theorem ringRun_stays {fifo : RingBuffer} (ops : List (Queue.Op Byte)) (start : fifo.InRange) :
    (Machine.run ringStep fifo ops).InRange := by
  have keeps (ring : RingBuffer) (op : Queue.Op Byte) (inside : ring.InRange) :
      (ringStep ring op).1.InRange := ringStep_stays inside op
  exact Machine.run_invariant keeps fifo ops start

/-- The initialized ring is in range for every capacity. -/
theorem ringbufferInit_inRange (fifo : RingBuffer) (buffer : Memory) (capacity : Nat) :
    (ringbufferInit fifo buffer capacity).1.InRange := by
  unfold ringbufferInit
  dsimp only
  split <;> exact ⟨Nat.zero_le _, Nat.zero_le _⟩

theorem ringbufferIn_accesses {fifo : RingBuffer} (inside : fifo.InRange) (block : List Byte) :
    ∀ place ∈ ringbufferInAccesses fifo block, 0 ≤ place ∧ place ≤ fifo.mask.toNat := by
  have clamp : (if block.length > (ringbufferUnused fifo).toNat then (ringbufferUnused fifo).toNat
      else block.length) = ringTaken fifo block := by
    unfold ringTaken
    split <;> omega
  simp only [ringbufferInAccesses, clamp]
  apply copyAccesses_inRange _ inside.inRange
  rw [ringTaken_toNat]
  exact ringTaken_turns inside block

theorem ringbufferOutPeek_accesses {fifo : RingBuffer} (inside : fifo.InRange) (count : Nat) :
    ∀ place ∈ ringbufferOutPeekAccesses fifo count, 0 ≤ place ∧ place ≤ fifo.mask.toNat := by
  simp only [ringbufferOutPeekAccesses, ringbufferLen_clamp]
  apply copyAccesses_inRange _ inside.outRange
  have turns := taken_turns inside (ringRead_le fifo count)
  rw [taken_toNat (ringRead_le fifo count)]
  unfold RingBuffer.size
  omega

/-- A byte function touches only the byte of its index. -/
theorem bytePosition_access {fifo : RingBuffer} {off : RbUint} (inside : off ≤ fifo.mask) :
    ∀ place ∈ [bytePosition fifo off], 0 ≤ place ∧ place ≤ fifo.mask.toNat := by
  intro place member
  rw [List.mem_singleton, bytePosition_inRange inside] at member
  have bound : off.toNat ≤ fifo.mask.toNat := inside
  omega

/-- Every call touches only bytes of the ring. -/
theorem ringAccesses_inRange {fifo : RingBuffer} (inside : fifo.InRange) (call : RingCall) :
    ∀ place ∈ ringAccesses fifo call, 0 ≤ place ∧ place ≤ fifo.mask.toNat := by
  cases call with
  | skip => exact fun _ member => by cases member
  | op op =>
      cases op with
      | insert block => exact ringbufferIn_accesses inside block
      | insertOne value =>
          simp only [ringAccesses, ringbufferInByteAccesses]
          split
          · exact bytePosition_access inside.inRange
          · exact fun _ member => by cases member
      | remove count => exact ringbufferOutPeek_accesses inside count
      | removeOne => exact bytePosition_access inside.outRange
      | peek count => exact ringbufferOutPeek_accesses inside count
      | peekOne => exact bytePosition_access inside.outRange
      | clear => exact fun _ member => by cases member
      | length => exact fun _ member => by cases member

/-- A copy writes only the bytes that it touches. -/
theorem memcpy_untouched (dst : Memory) (start : Nat) (src : List Byte) {count : Nat} {place : Int}
    (short : src.length ≤ count) (outside : place ∉ touched start count) :
    memcpy dst start src place = dst place := by
  apply Cells.store_outside
  intro index bound equal
  apply outside
  rw [mem_touched]
  omega

/-- A load reads only the bytes that it touches. -/
theorem bytesAt_touched {first second : Memory} {start count : Nat}
    (same : ∀ place ∈ touched start count, first place = second place) :
    bytesAt first start count = bytesAt second start count := by
  apply Cells.load_congr
  intro index bound
  apply same
  rw [mem_touched]
  omega

/-- The copy in writes only the bytes that it touches. -/
theorem ringbufferCopyIn_frame (fifo : RingBuffer) (src : List Byte) (len off : RbUint) {place : Int}
    (outside : place ∉ ringbufferCopyAccesses fifo len off) :
    (ringbufferCopyIn fifo src len off).rdata place = fifo.rdata place := by
  simp only [ringbufferCopyAccesses, List.mem_append, not_or] at outside
  obtain ⟨low, high⟩ := outside
  have first : (if minRbUint len ((fifo.mask + 1) - off) > 0 then
      memcpy fifo.rdata off.toNat (src.take (minRbUint len ((fifo.mask + 1) - off)).toNat)
      else fifo.rdata) place = fifo.rdata place := by
    split
    · rename_i some
      rw [if_pos some] at low
      exact memcpy_untouched _ _ _ (List.length_take_le _ _) low
    · rfl
  simp only [ringbufferCopyIn]
  split
  · rename_i some
    rw [if_pos some] at high
    rw [← first]
    exact memcpy_untouched _ 0 _ (List.length_take_le _ _) high
  · exact first

/-- The copy out reads only the bytes that it touches. -/
theorem ringbufferCopyOut_reads (fifo : RingBuffer) (other : Memory) (len off : RbUint)
    (same : ∀ place ∈ ringbufferCopyAccesses fifo len off, fifo.rdata place = other place) :
    ringbufferCopyOut { fifo with rdata := other } len off = ringbufferCopyOut fifo len off := by
  simp only [ringbufferCopyAccesses, List.mem_append] at same
  unfold ringbufferCopyOut
  dsimp only
  congr 1
  · split
    · rename_i some
      rw [if_pos some] at same
      exact (bytesAt_touched fun place member => same place (Or.inl member)).symm
    · rfl
  · split
    · rename_i some
      rw [if_pos some] at same
      have start : bytesAt fifo.rdata (0 : Nat) _ = bytesAt other (0 : Nat) _ :=
        bytesAt_touched fun place member => same place (Or.inr member)
      exact start.symm
    · rfl

/-- A call keeps every byte that it does not touch. -/
theorem ringCall_frame (fifo : RingBuffer) (call : RingCall) {place : Int}
    (outside : place ∉ ringAccesses fifo call) :
    (ringCallStep fifo call).1.rdata place = fifo.rdata place := by
  cases call with
  | skip =>
      simp only [ringCallStep, ringbufferSkip]
      split <;> rfl
  | op op =>
      cases op with
      | insert block => exact ringbufferCopyIn_frame _ _ _ _ outside
      | insertOne value =>
          simp only [ringAccesses, ringbufferInByteAccesses] at outside
          simp only [ringCallStep, ringStep, ringbufferInByte]
          split
          · rename_i free
            rw [if_pos free, List.mem_singleton] at outside
            apply Cells.store_outside
            intro index bound
            simp only [List.length_singleton] at bound
            omega
          · rfl
      | remove _ => rfl
      | removeOne => rfl
      | peek _ => rfl
      | peekOne => rfl
      | clear => rfl
      | length => rfl

/-- The reply of an operation depends only on the bytes that it touches. -/
theorem ringStep_reads (fifo : RingBuffer) (op : Queue.Op Byte) (other : Memory)
    (same : ∀ place ∈ ringAccesses fifo (.op op), fifo.rdata place = other place) :
    (ringStep { fifo with rdata := other } op).2 = (ringStep fifo op).2 := by
  cases op with
  | insert block => rfl
  | insertOne value =>
      have unused : ringbufferUnused { fifo with rdata := other } = ringbufferUnused fifo := rfl
      by_cases free : ringbufferUnused fifo > 0
      · simp only [ringStep, ringbufferInByte, unused, if_pos free]
        rfl
      · simp only [ringStep, ringbufferInByte, unused, if_neg free]
        rfl
  | remove count =>
      exact congrArg (Queue.Reply.block _) (ringbufferCopyOut_reads fifo other _ _ same)
  | removeOne =>
      exact congrArg (fun byte => Queue.Reply.value (some byte))
        (same _ (List.mem_singleton_self _)).symm
  | peek count =>
      exact congrArg (Queue.Reply.block _) (ringbufferCopyOut_reads fifo other _ _ same)
  | peekOne =>
      exact congrArg (fun byte => Queue.Reply.value (some byte))
        (same _ (List.mem_singleton_self _)).symm
  | clear => rfl
  | length => rfl

/-- A skip keeps the ring in range exactly when it does not pass the last cell. -/
theorem ringbufferSkip_stays_iff {fifo : RingBuffer} (inside : fifo.InRange) :
    (ringbufferSkip fifo).InRange ↔ ¬SkipsPast fifo .skip := by
  obtain ⟨inRange, outRange⟩ := inside
  unfold ringbufferSkip
  split
  · rename_i unread
    constructor
    · rintro stays ⟨_, _, last, partly⟩
      have moved : fifo.outIdx + 1 ≤ fifo.mask := stays.outRange
      rw [last] at moved
      apply partly
      apply BitVec.eq_of_toNat_eq
      rw [BitVec.toNat_allOnes]
      bv_omega
    · intro stays
      refine ⟨inRange, ?_⟩
      by_contra leaves
      apply stays
      change ¬fifo.outIdx + 1 ≤ fifo.mask at leaves
      refine ⟨rfl, unread, by bv_omega, ?_⟩
      intro whole
      have top := congrArg BitVec.toNat whole
      rw [BitVec.toNat_allOnes] at top
      bv_omega
  · rename_i empty
    exact iff_of_true ⟨inRange, outRange⟩ fun past => empty past.2.1

/-- A call keeps the range exactly when it is no skip past the last cell. -/
theorem keepsRange_iff {fifo : RingBuffer} (inside : fifo.InRange) (call : RingCall) :
    KeepsRange fifo call ↔ ¬SkipsPast fifo call := by
  cases call with
  | op op =>
      refine iff_of_true ⟨inside, ringAccesses_inRange inside _, ringStep_stays inside op⟩ ?_
      rintro ⟨other, _⟩
      cases other
  | skip =>
      rw [← ringbufferSkip_stays_iff inside]
      exact ⟨fun keeps => keeps.after, fun stays => ⟨inside, ringAccesses_inRange inside _, stays⟩⟩

/-- In every run the indices and the touched bytes stay in the ring exactly when no skip passes the
last cell. -/
theorem ringBuffer_keeps_range_iff (fifo : RingBuffer) (buffer : Memory) (capacity : Nat)
    (calls : List RingCall) :
    Machine.Admitted KeepsRange ringCallStep (ringbufferInit fifo buffer capacity).1 calls ↔
      Machine.Admitted (fun fifo call => ¬SkipsPast fifo call) ringCallStep
        (ringbufferInit fifo buffer capacity).1 calls :=
  Machine.admitted_iff_of_invariant (fun _ call inside => keepsRange_iff inside call)
    (fun _ _ _ keeps => keeps.after) _ calls (ringbufferInit_inRange fifo buffer capacity)

/-- A ring of two holds its unread byte in the last cell and the skip moves the output index behind it. -/
theorem ringbufferSkip_leaves_ring :
    ¬Machine.Admitted KeepsRange ringCallStep (ringbufferInit ⟨0, 0, 0, fun _ => 0⟩ (fun _ => 0) 2).1
      [.op (.insert [1]), .op (.remove 1), .op (.insert [2]), .skip] := by
  rintro ⟨_, _, _, last, _⟩
  exact absurd last.after.outRange (by decide)

end Psuart

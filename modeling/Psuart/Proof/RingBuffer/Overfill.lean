import Psuart.Proof.RingBuffer.Layout

namespace Psuart

/-- Draining takes every byte that the ring counts as unread. -/
def ringDrain (fifo : RingBuffer) : List Byte :=
  (ringbufferOut fifo (ringbufferLen fifo).toNat).2.2

/-- These rings follow an initialization by block calls and resets. -/
inductive RingReachable (capacity : Nat) : RingBuffer → Prop where
  | init (fifo : RingBuffer) (buffer : Memory) :
      RingReachable capacity (ringbufferInit fifo buffer capacity).1
  | insert {fifo : RingBuffer} (reached : RingReachable capacity fifo) (block : List Byte) :
      RingReachable capacity (ringbufferIn fifo block).1
  | remove {fifo : RingBuffer} (reached : RingReachable capacity fifo) (count : Nat) :
      RingReachable capacity (ringbufferOut fifo count).1
  | reset {fifo : RingBuffer} (reached : RingReachable capacity fifo) :
      RingReachable capacity (ringbufferReset fifo)

/-- The clamp takes at most the computed free space. -/
def ringTaken (fifo : RingBuffer) (block : List Byte) : Nat :=
  min block.length (ringbufferUnused fifo).toNat

/-- An insertion is harmless when the ring is empty or a cell stays free.
The other two cases are an overflow of the index of a ring above 2^31 bytes, and a block that
overwrites the whole ring with a copy of the unread bytes. -/
def KeepsUnread (fifo : RingBuffer) (block : List Byte) : Prop :=
  (ringbufferLen fifo).toNat = 0 ∨
    (ringbufferLen fifo).toNat + ringTaken fifo block < fifo.size ∨
    (fifo.outIdx ≤ fifo.inIdx ∧ fifo.size < 2 ^ 32 ∧
      2 ^ 32 ≤ fifo.inIdx.toNat + ringTaken fifo block) ∨
    (fifo.size ≤ ringTaken fifo block ∧
      (ringbufferLen fifo).toNat + ringTaken fifo block < 2 * fifo.size ∧
      fifo.inIdx.toNat + ringTaken fifo block < 2 ^ 32 ∧
      (block.take (ringTaken fifo block)).drop (fifo.size - (ringbufferLen fifo).toNat) =
        ringDrain fifo ++ block.take (ringTaken fifo block - fifo.size))

/-- A ring over the whole index range is always empty. -/
structure RingBuffer.Usable (fifo : RingBuffer) : Prop extends fifo.InRange where
  whole : fifo.size < 2 ^ 32 ∨ fifo.inIdx = fifo.outIdx

/-- The free space is exact only while the input index is not below the output index. -/
theorem ringbufferUnused_wraps {fifo : RingBuffer} (inside : fifo.InRange)
    (below : fifo.size < 2 ^ 32) :
    (ringbufferUnused fifo).toNat =
      if fifo.outIdx ≤ fifo.inIdx then fifo.size - (fifo.inIdx.toNat - fifo.outIdx.toNat)
      else (fifo.size + (fifo.outIdx.toNat - fifo.inIdx.toNat)) % 2 ^ 32 := by
  obtain ⟨inRange, outRange⟩ := inside
  unfold ringbufferUnused RingBuffer.size at *
  split <;> bv_omega

/-- An insertion ends at most one turn behind the output index. -/
theorem ringTaken_le {fifo : RingBuffer} (inside : fifo.InRange) (below : fifo.size < 2 ^ 32)
    (block : List Byte) :
    fifo.inIdx.toNat + ringTaken fifo block ≤ fifo.size + fifo.outIdx.toNat := by
  have unused := ringbufferUnused_wraps inside below
  obtain ⟨inRange, outRange⟩ := inside
  unfold ringTaken RingBuffer.size at *
  split at unused <;> bv_omega

theorem ringTaken_le_length (fifo : RingBuffer) (block : List Byte) :
    ringTaken fifo block ≤ block.length := Nat.min_le_left _ _

theorem ringTaken_lt (fifo : RingBuffer) (block : List Byte) : ringTaken fifo block < 2 ^ 32 :=
  Nat.lt_of_le_of_lt (Nat.min_le_right _ _) (ringbufferUnused fifo).isLt

theorem ringTaken_toNat (fifo : RingBuffer) (block : List Byte) :
    (BitVec.ofNat 32 (ringTaken fifo block)).toNat = ringTaken fifo block :=
  word_toNat (ringTaken_lt fifo block)

/-- The insertion stores the clamped block and moves the input index behind it. -/
theorem ringbufferIn_eq {fifo : RingBuffer} (inside : fifo.InRange) (below : fifo.size < 2 ^ 32)
    (block : List Byte) :
    (ringbufferIn fifo block).1 =
      { fifo with
        rdata := Cells.store fifo.rdata (ringCell fifo.size fifo.inIdx.toNat)
          (block.take (ringTaken fifo block))
        inIdx := advanceIdx fifo.mask fifo.inIdx (BitVec.ofNat 32 (ringTaken fifo block)) } := by
  have clamp : (if block.length > (ringbufferUnused fifo).toNat then (ringbufferUnused fifo).toNat
      else block.length) = ringTaken fifo block := by
    unfold ringTaken
    split <;> omega
  have turns := ringTaken_le inside below block
  have outBelow := idx_lt_size inside.outRange
  have stored := ringbufferCopyIn_rdata (BitVec.ofNat 32 (ringTaken fifo block)) below
    inside.inRange block (by rw [ringTaken_toNat]; exact ringTaken_le_length fifo block)
    (by rw [ringTaken_toNat]; omega)
  rw [ringTaken_toNat] at stored
  simp only [ringbufferIn, clamp]
  rw [stored]
  rfl

/-- An empty copy changes nothing. -/
theorem ringbufferCopyIn_zero (fifo : RingBuffer) (src : List Byte) (off : RbUint) :
    ringbufferCopyIn fifo src (BitVec.ofNat 32 0) off = fifo := by
  have slen : minRbUint (BitVec.ofNat 32 0) ((fifo.mask + 1) - off) = BitVec.ofNat 32 0 := by
    have value := minRbUint_toNat (BitVec.ofNat 32 0) ((fifo.mask + 1) - off)
    bv_omega
  simp only [ringbufferCopyIn, slen]
  rfl

/-- A ring over the whole index range accepts no byte. -/
theorem ringbufferIn_whole {fifo : RingBuffer} (whole : fifo.size = 2 ^ 32)
    (same : fifo.inIdx = fifo.outIdx) (block : List Byte) : (ringbufferIn fifo block).1 = fifo := by
  have unused : (ringbufferUnused fifo).toNat = 0 := by
    unfold ringbufferUnused RingBuffer.size at *
    bv_omega
  have clamp : (if block.length > (ringbufferUnused fifo).toNat then (ringbufferUnused fifo).toNat
      else block.length) = 0 := by
    rw [unused]
    split <;> omega
  have stays : advanceIdx fifo.mask fifo.inIdx (BitVec.ofNat 32 0) = fifo.inIdx := by
    unfold advanceIdx RingBuffer.size at *
    dsimp only
    split <;> bv_omega
  simp only [ringbufferIn, clamp]
  rw [ringbufferCopyIn_zero, stays]

theorem RingBuffer.Usable.insert {fifo : RingBuffer} (usable : fifo.Usable) (block : List Byte) :
    (ringbufferIn fifo block).1.Usable := by
  obtain ⟨inside, whole⟩ := usable
  by_cases below : fifo.size < 2 ^ 32
  · have turns := ringTaken_le inside below block
    have outBelow := idx_lt_size inside.outRange
    rw [ringbufferIn_eq inside below]
    refine ⟨⟨advanceIdx_le ?_, inside.outRange⟩, Or.inl below⟩
    rw [ringTaken_toNat]
    unfold RingBuffer.size at *
    omega
  · have same := whole.resolve_left below
    rw [ringbufferIn_whole (size_eq_of_not_lt below) same]
    exact ⟨inside, whole⟩

theorem RingBuffer.Usable.remove {fifo : RingBuffer} (usable : fifo.Usable) (count : Nat) :
    (ringbufferOut fifo count).1.Usable := by
  obtain ⟨inside, whole⟩ := usable
  have length := ringbufferLen_lt inside
  have clamp : (if count > (ringbufferLen fifo).toNat then (ringbufferLen fifo).toNat else count) =
      min count (ringbufferLen fifo).toNat := by
    split <;> omega
  have moves : (BitVec.ofNat 32 (min count (ringbufferLen fifo).toNat)).toNat =
      min count (ringbufferLen fifo).toNat :=
    word_toNat (Nat.lt_of_le_of_lt (Nat.min_le_right _ _) (ringbufferLen fifo).isLt)
  have outRange := inside.outRange
  simp only [ringbufferOut, ringbufferOutPeek, clamp]
  refine ⟨⟨inside.inRange, advanceIdx_le ?_⟩, ?_⟩
  · rw [moves]
    unfold RingBuffer.size at *
    bv_omega
  · rcases whole with below | same
    · exact Or.inl below
    · have empty : (ringbufferLen fifo).toNat = 0 := by
        rw [ringbufferLen_toNat inside, same]
        simp
      right
      change fifo.inIdx = advanceIdx fifo.mask fifo.outIdx _
      rw [empty, Nat.min_zero, same]
      unfold advanceIdx
      dsimp only
      split <;> bv_omega

theorem RingReachable.usable {capacity : Nat} {fifo : RingBuffer}
    (reached : RingReachable capacity fifo) : fifo.Usable := by
  induction reached with
  | init fifo buffer =>
      unfold ringbufferInit
      dsimp only
      split <;> exact ⟨⟨Nat.zero_le _, Nat.zero_le _⟩, Or.inr rfl⟩
  | insert _ block ih => exact ih.insert block
  | remove _ count ih => exact ih.remove count
  | reset _ ih => exact ⟨⟨Nat.zero_le _, Nat.zero_le _⟩, Or.inr rfl⟩

/-- Draining a ring below the index range yields its unread bytes. -/
theorem ringDrain_eq {fifo : RingBuffer} (inside : fifo.InRange) (below : fifo.size < 2 ^ 32) :
    ringDrain fifo = fifo.content := by
  have length := ringbufferLen_lt inside
  have outBelow := idx_lt_size inside.outRange
  simp only [ringDrain, ringbufferOut, ringbufferOutPeek, gt_iff_lt, lt_self_iff_false, if_false,
    BitVec.ofNat_toNat, BitVec.setWidth_eq]
  exact ringbufferCopyOut_eq _ below inside.outRange (by omega)

section Insert

variable {fifo : RingBuffer} (inside : fifo.InRange) (below : fifo.size < 2 ^ 32) (block : List Byte)
include inside below

theorem ringbufferIn_inRange : (ringbufferIn fifo block).1.InRange :=
  (RingBuffer.Usable.insert ⟨inside, Or.inl below⟩ block).toInRange

/-- Without an overflow the length counts modulo the capacity. -/
theorem ringbufferIn_length
    (fits : fifo.inIdx.toNat + ringTaken fifo block < 2 ^ 32) :
    (ringbufferLen (ringbufferIn fifo block).1).toNat =
      ((ringbufferLen fifo).toNat + ringTaken fifo block) % fifo.size := by
  have turns := ringTaken_le inside below block
  have outBelow := idx_lt_size inside.outRange
  have moved := ringbufferIn_inRange inside below block
  rw [ringbufferIn_eq inside below] at moved ⊢
  apply ringbufferLen_unique moved
  · exact Nat.mod_lt _ (by omega)
  · have value := @advanceIdx_toNat fifo.mask fifo.inIdx (BitVec.ofNat 32 (ringTaken fifo block))
      (by rw [ringTaken_toNat]; exact fits)
      (by rw [ringTaken_toNat]; unfold RingBuffer.size at *; omega)
    rw [ringTaken_toNat] at value
    change (advanceIdx _ _ _).toNat = Cells.circular fifo.size fifo.outIdx.toNat _
    rw [value, inIdx_circular inside]
    change Cells.circular fifo.size (Cells.circular fifo.size _ _) _ = _
    rw [Cells.circular_circular, Cells.circular, Cells.circular, Nat.add_mod_mod]

/-- An overflow of the index loses the distance from the capacity to the index range. -/
theorem ringbufferIn_length_overflow
    (overflow : 2 ^ 32 ≤ fifo.inIdx.toNat + ringTaken fifo block) :
    (ringbufferLen (ringbufferIn fifo block).1).toNat + fifo.outIdx.toNat + 2 ^ 32 =
      fifo.inIdx.toNat + ringTaken fifo block + fifo.size := by
  have turns := ringTaken_le inside below block
  have moved := ringbufferIn_inRange inside below block
  have count := ringTaken_toNat fifo block
  obtain ⟨inRange, outRange⟩ := inside
  rw [ringbufferIn_eq ⟨inRange, outRange⟩ below] at moved ⊢
  rw [ringbufferLen_toNat moved]
  have value : (advanceIdx fifo.mask fifo.inIdx (BitVec.ofNat 32 (ringTaken fifo block))).toNat + 2 ^ 32 =
      fifo.inIdx.toNat + ringTaken fifo block := by
    unfold advanceIdx RingBuffer.size at *
    dsimp only
    split <;> bv_omega
  change (if fifo.outIdx ≤ advanceIdx _ _ _ then _ - _ else (advanceIdx _ _ _).toNat + fifo.size - _) + _ + _ = _
  rw [if_neg (by unfold RingBuffer.size at *; bv_omega)]
  unfold RingBuffer.size at *
  bv_omega

/-- Every read of at most one turn after a fitting block sees the old bytes and then the block. -/
theorem load_ringbufferIn (fits : (ringbufferLen fifo).toNat + ringTaken fifo block ≤ fifo.size)
    (count : Nat) (short : count ≤ (ringbufferLen fifo).toNat + ringTaken fifo block) :
    Cells.load (ringbufferIn fifo block).1.rdata (ringCell fifo.size fifo.outIdx.toNat) count =
      (fifo.content ++ block.take (ringTaken fifo block)).take count := by
  have taken : (block.take (ringTaken fifo block)).length = ringTaken fifo block :=
    List.length_take_of_le (ringTaken_le_length fifo block)
  have whole := load_store_content inside (block.take (ringTaken fifo block))
    (by rw [RingBuffer.content_length, taken]; exact fits)
  rw [ringbufferIn_eq inside below, ← whole, Cells.load_take, RingBuffer.content_length, taken,
    Nat.min_eq_left short]

/-- A block of at least one turn replaces every unread byte. -/
theorem load_ringbufferIn_over (beyond : fifo.size ≤ ringTaken fifo block)
    (once : (ringbufferLen fifo).toNat + ringTaken fifo block < 2 * fifo.size) :
    Cells.load (ringbufferIn fifo block).1.rdata (ringCell fifo.size fifo.outIdx.toNat)
        ((ringbufferLen fifo).toNat + ringTaken fifo block - fifo.size) =
      (block.take (ringTaken fifo block)).drop (fifo.size - (ringbufferLen fifo).toNat) := by
  have taken : (block.take (ringTaken fifo block)).length = ringTaken fifo block :=
    List.length_take_of_le (ringTaken_le_length fifo block)
  have turn := ringbufferLen_lt inside
  rw [ringbufferIn_eq inside below]
  apply List.ext_getElem
  · rw [Cells.load_length, List.length_drop, taken]
    omega
  · intro index left right
    rw [Cells.load_length] at left
    rw [Cells.load_getElem, List.getElem_drop]
    have cell : ringCell fifo.size fifo.outIdx.toNat index =
        ringCell fifo.size fifo.inIdx.toNat (fifo.size - (ringbufferLen fifo).toNat + index) := by
      rw [inIdx_circular inside, ringCell, ringCell, Cells.circular_circular, Cells.circular,
        Cells.circular, show fifo.outIdx.toNat + ((ringbufferLen fifo).toNat +
          (fifo.size - (ringbufferLen fifo).toNat + index)) = fifo.outIdx.toNat + index + fifo.size by omega,
        Nat.add_mod_right]
    dsimp only
    rw [cell]
    apply Cells.store_last
    intro later above bound
    exact ringCell_ne above (by omega)

/-- Draining after the insertion reads from the old output index. -/
theorem ringDrain_ringbufferIn :
    ringDrain (ringbufferIn fifo block).1 =
      Cells.load (ringbufferIn fifo block).1.rdata (ringCell fifo.size fifo.outIdx.toNat)
        (ringbufferLen (ringbufferIn fifo block).1).toNat :=
  ringDrain_eq (ringbufferIn_inRange inside below block) below

/-- A fitting block keeps every unread byte when the length does not fall. -/
theorem ringDrain_keeps (fits : (ringbufferLen fifo).toNat + ringTaken fifo block ≤ fifo.size)
    (grows : (ringbufferLen fifo).toNat ≤ (ringbufferLen (ringbufferIn fifo block).1).toNat)
    (short : (ringbufferLen (ringbufferIn fifo block).1).toNat ≤
      (ringbufferLen fifo).toNat + ringTaken fifo block) :
    ∃ count, ringDrain (ringbufferIn fifo block).1 = ringDrain fifo ++ block.take count := by
  rw [ringDrain_ringbufferIn inside below, load_ringbufferIn inside below block fits _ short,
    ringDrain_eq inside below, List.take_append, RingBuffer.content_length, List.take_take,
    List.take_of_length_le (by rw [RingBuffer.content_length]; exact grows)]
  exact ⟨_, rfl⟩

/-- A falling length loses unread bytes. -/
theorem ringDrain_loses
    (falls : (ringbufferLen (ringbufferIn fifo block).1).toNat < (ringbufferLen fifo).toNat) :
    ¬∃ count, ringDrain (ringbufferIn fifo block).1 = ringDrain fifo ++ block.take count := by
  rintro ⟨count, equal⟩
  have lengths := congrArg List.length equal
  rw [ringDrain_ringbufferIn inside below, ringDrain_eq inside below, Cells.load_length,
    List.length_append, RingBuffer.content_length] at lengths
  omega

/-- A block that replaces the whole ring keeps the unread bytes only by repeating them. -/
theorem ringDrain_over_iff (beyond : fifo.size ≤ ringTaken fifo block)
    (once : (ringbufferLen fifo).toNat + ringTaken fifo block < 2 * fifo.size)
    (fits : fifo.inIdx.toNat + ringTaken fifo block < 2 ^ 32) :
    (∃ count, ringDrain (ringbufferIn fifo block).1 = ringDrain fifo ++ block.take count) ↔
      (block.take (ringTaken fifo block)).drop (fifo.size - (ringbufferLen fifo).toNat) =
        ringDrain fifo ++ block.take (ringTaken fifo block - fifo.size) := by
  have turn := ringbufferLen_lt inside
  have short := ringTaken_le_length fifo block
  have length := ringbufferIn_length inside below block fits
  rw [Nat.mod_eq_sub_mod (by omega), Nat.mod_eq_of_lt (by omega)] at length
  rw [ringDrain_ringbufferIn inside below, length, load_ringbufferIn_over inside below block beyond once]
  constructor
  · rintro ⟨count, equal⟩
    have lengths := congrArg List.length equal
    rw [ringDrain_eq inside below, List.length_append, RingBuffer.content_length, List.length_drop,
      List.length_take_of_le short, List.length_take] at lengths
    rw [equal]
    congr 1
    rw [List.take_eq_take_iff]
    omega
  · intro equal
    exact ⟨_, equal⟩

/-- An overflow keeps the unread bytes exactly when they do not wrap around the ring. -/
theorem ringDrain_overflow_iff (overflow : 2 ^ 32 ≤ fifo.inIdx.toNat + ringTaken fifo block) :
    (∃ count, ringDrain (ringbufferIn fifo block).1 = ringDrain fifo ++ block.take count) ↔
      fifo.outIdx ≤ fifo.inIdx := by
  have held := ringbufferLen_toNat inside
  have turns := ringTaken_le inside below block
  have small := ringTaken_lt fifo block
  have length := ringbufferIn_length_overflow inside below block overflow
  have inBelow := idx_lt_size inside.inRange
  have outBelow := idx_lt_size inside.outRange
  by_cases above : fifo.outIdx ≤ fifo.inIdx
  · rw [if_pos above] at held
    have order : fifo.outIdx.toNat ≤ fifo.inIdx.toNat := above
    exact iff_of_true
      (ringDrain_keeps inside below block (by omega) (by omega) (by omega)) above
  · rw [if_neg above] at held
    have order : ¬fifo.outIdx.toNat ≤ fifo.inIdx.toNat := above
    exact iff_of_false (ringDrain_loses inside below block (by omega)) above

/-- An insertion into an empty ring loses nothing. -/
theorem ringDrain_keeps_empty (fits : fifo.inIdx.toNat + ringTaken fifo block < 2 ^ 32)
    (empty : (ringbufferLen fifo).toNat = 0) :
    ∃ count, ringDrain (ringbufferIn fifo block).1 = ringDrain fifo ++ block.take count := by
  have held := ringbufferLen_toNat inside
  have turns := ringTaken_le inside below block
  have length := ringbufferIn_length inside below block fits
  have outBelow := idx_lt_size inside.outRange
  have turnTaken : ringTaken fifo block ≤ fifo.size := by
    split at held
    · rename_i above
      have order : fifo.outIdx.toNat ≤ fifo.inIdx.toNat := above
      omega
    · omega
  have modulo := Nat.mod_le ((ringbufferLen fifo).toNat + ringTaken fifo block) fifo.size
  exact ringDrain_keeps inside below block (by omega) (by omega) (by omega)

/-- A ring filled by less than one turn, or by two turns together, counts fewer bytes. -/
theorem ringDrain_loses_full (fits : fifo.inIdx.toNat + ringTaken fifo block < 2 ^ 32)
    (some : (ringbufferLen fifo).toNat ≠ 0)
    (full : fifo.size ≤ (ringbufferLen fifo).toNat + ringTaken fifo block)
    (once : ¬(fifo.size ≤ ringTaken fifo block ∧
      (ringbufferLen fifo).toNat + ringTaken fifo block < 2 * fifo.size)) :
    ¬∃ count, ringDrain (ringbufferIn fifo block).1 = ringDrain fifo ++ block.take count := by
  have held := ringbufferLen_toNat inside
  have turn := ringbufferLen_lt inside
  have turns := ringTaken_le inside below block
  have length := ringbufferIn_length inside below block fits
  apply ringDrain_loses inside below block
  rw [length]
  by_cases turned : (ringbufferLen fifo).toNat + ringTaken fifo block < 2 * fifo.size
  · rw [Nat.mod_eq_sub_mod full, Nat.mod_eq_of_lt (by omega)]
    omega
  · have twice : (ringbufferLen fifo).toNat + ringTaken fifo block = 2 * fifo.size := by
      split at held
      · rename_i above
        have order : fifo.outIdx.toNat ≤ fifo.inIdx.toNat := above
        omega
      · omega
    rw [twice, Nat.mul_mod_left]
    omega

/-- Below the index range the unread bytes stay exactly under the named condition. -/
theorem ringDrain_keeps_iff :
    (∃ count, ringDrain (ringbufferIn fifo block).1 = ringDrain fifo ++ block.take count) ↔
      KeepsUnread fifo block := by
  have held := ringbufferLen_toNat inside
  have turns := ringTaken_le inside below block
  have inBelow := idx_lt_size inside.inRange
  have outBelow := idx_lt_size inside.outRange
  by_cases overflow : 2 ^ 32 ≤ fifo.inIdx.toNat + ringTaken fifo block
  · rw [ringDrain_overflow_iff inside below block overflow]
    constructor
    · intro above
      exact Or.inr (Or.inr (Or.inl ⟨above, below, overflow⟩))
    · intro keeps
      by_contra under
      rw [if_neg under] at held
      have order : ¬fifo.outIdx.toNat ≤ fifo.inIdx.toNat := under
      rcases keeps with empty | free | ⟨above, _⟩ | ⟨_, _, fits, _⟩
      · omega
      · omega
      · exact under above
      · omega
  · have fits : fifo.inIdx.toNat + ringTaken fifo block < 2 ^ 32 := by omega
    by_cases empty : (ringbufferLen fifo).toNat = 0
    · exact iff_of_true (ringDrain_keeps_empty inside below block fits empty) (Or.inl empty)
    by_cases free : (ringbufferLen fifo).toNat + ringTaken fifo block < fifo.size
    · have length := ringbufferIn_length inside below block fits
      rw [Nat.mod_eq_of_lt free] at length
      exact iff_of_true (ringDrain_keeps inside below block (by omega) (by omega) (by omega))
        (Or.inr (Or.inl free))
    by_cases once : fifo.size ≤ ringTaken fifo block ∧
        (ringbufferLen fifo).toNat + ringTaken fifo block < 2 * fifo.size
    · rw [ringDrain_over_iff inside below block once.1 once.2 fits]
      constructor
      · intro repeats
        exact Or.inr (Or.inr (Or.inr ⟨once.1, once.2, fits, repeats⟩))
      · rintro (none | free' | ⟨_, _, overflow'⟩ | ⟨_, _, _, repeats⟩)
        · exact absurd none empty
        · exact absurd free' free
        · exact absurd overflow' overflow
        · exact repeats
    · refine iff_of_false
        (ringDrain_loses_full inside below block fits empty (by omega) once) ?_
      rintro (none | free' | ⟨_, _, overflow'⟩ | ⟨beyond, turned, _, _⟩)
      · exact empty none
      · exact free free'
      · exact overflow overflow'
      · exact once ⟨beyond, turned⟩

end Insert

/-- The insertion keeps the unread bytes exactly under the named condition. -/
theorem ringbufferIn_keeps_iff {fifo : RingBuffer} (usable : fifo.Usable) (block : List Byte) :
    (∃ count, ringDrain (ringbufferIn fifo block).1 = ringDrain fifo ++ block.take count) ↔
      KeepsUnread fifo block := by
  obtain ⟨inside, whole⟩ := usable
  by_cases below : fifo.size < 2 ^ 32
  · exact ringDrain_keeps_iff inside below block
  · have same := whole.resolve_left below
    rw [ringbufferIn_whole (size_eq_of_not_lt below) same]
    refine ⟨fun _ => Or.inl ?_, fun _ => ⟨0, by simp⟩⟩
    rw [ringbufferLen_toNat inside, same]
    simp

/-- In every reachable ring the insertion keeps the unread bytes exactly under the condition. -/
theorem insert_keeps_unread_iff (capacity : Nat) (fifo : RingBuffer)
    (reached : RingReachable capacity fifo) (block : List Byte) :
    (∃ count, ringDrain (ringbufferIn fifo block).1 = ringDrain fifo ++ block.take count) ↔
      KeepsUnread fifo block :=
  ringbufferIn_keeps_iff reached.usable block

/-- This ring holds one byte. -/
def ringOfOne (capacity : Nat) : RingBuffer :=
  (ringbufferIn (ringbufferInit ⟨0, 0, 0, fun _ => 0⟩ (fun _ => 0) capacity).1 [1]).1

theorem ringOfOne_reachable (capacity : Nat) : RingReachable capacity (ringOfOne capacity) :=
  (RingReachable.init _ _).insert [1]

/-- A free cell behind the block keeps the unread byte. -/
theorem insert_keeps_unread_of_free : ∃ count,
    ringDrain (ringbufferIn (ringOfOne 3) [2]).1 = ringDrain (ringOfOne 3) ++ [2].take count :=
  (insert_keeps_unread_iff 3 (ringOfOne 3) (ringOfOne_reachable 3) [2]).mpr
    (Or.inr (Or.inl (by decide)))

/-- The second byte fills the ring of two, which then counts as empty. -/
theorem insert_fills_ring : RingReachable 2 (ringOfOne 2) ∧
    ¬∃ count, ringDrain (ringbufferIn (ringOfOne 2) [2]).1 = ringDrain (ringOfOne 2) ++ [2].take count := by
  have before : ringDrain (ringOfOne 2) = [1] := by decide
  have after : ringDrain (ringbufferIn (ringOfOne 2) [2]).1 = [] := by decide
  refine ⟨ringOfOne_reachable 2, ?_⟩
  rw [before, after]
  rintro ⟨count, equal⟩
  simp at equal

end Psuart

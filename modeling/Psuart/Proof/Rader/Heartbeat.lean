import Psuart.Proof.Rader.Acceptance
import Psuart.Proof.Rader.Packet

namespace Psuart

/-- A plain payload is written as one frame. -/
theorem raderHeart_frame (buf : Memory) (data : List Byte) (plain : PlainLength data.length) :
    raderHeart buf data =
      (memcpy buf 0 (erupFrame 0 data), BitVec.ofNat 32 (data.length + 6)) := by
  have frame := erupSet_frame buf 0 data plain
  simp only [raderHeart]
  rw [frame, erupGetPacketLen_frame _ _ _ plain]

/-- The returned length is read from the header that stands in the buffer at the end. -/
theorem raderHeart_ret (buf : Memory) (data : List Byte) :
    (raderHeart buf data).2 = erupGetPacketLen promoteChar (raderHeart buf data).1 := rfl

/-- A length byte with its sign bit makes the length of the signed characters negative. -/
theorem erupGetLen_char_msb (buf : Memory) :
    (erupGetLen promoteChar buf).msb = ((buf 1).msb || (buf 2).msb) := by
  rw [erupGetLen, BitVec.msb_eq_getLsbD_last, BitVec.getLsbD_or, BitVec.getLsbD_shiftLeft,
    promoteChar, promoteChar, BitVec.getLsbD_signExtend, BitVec.getLsbD_signExtend]
  simp

/-- The header bytes of a length have no sign bit exactly when the length is plain. -/
theorem plainLength_iff_msb {length : Nat} (short : length < 2 ^ 16) :
    PlainLength length ↔ (BitVec.ofNat 8 (length >>> 8)).msb = false ∧
      (BitVec.ofNat 8 length).msb = false := by
  rw [BitVec.msb_eq_decide, BitVec.msb_eq_decide, BitVec.toNat_ofNat, BitVec.toNat_ofNat,
    Nat.shiftRight_eq_div_pow, decide_eq_false_iff_not, decide_eq_false_iff_not]
  constructor
  · rintro ⟨high, low⟩
    omega
  · rintro ⟨high, low⟩
    exact ⟨by omega, by omega⟩

/-- A length that the signed characters give back is plain. -/
theorem plainLength_of_erupGetLen {buf : Memory} {length : Nat} (short : length < 2 ^ 16)
    (high : buf 1 = BitVec.ofNat 8 (length >>> 8)) (low : buf 2 = BitVec.ofNat 8 length)
    (same : erupGetLen promoteChar buf = BitVec.ofNat 32 length) : PlainLength length := by
  have sign := erupGetLen_char_msb buf
  have positive : (BitVec.ofNat 32 length).msb = false := by
    rw [BitVec.msb_eq_decide, BitVec.toNat_ofNat, decide_eq_false_iff_not]
    omega
  rw [same, positive, high, low, eq_comm, Bool.or_eq_false_iff] at sign
  exact (plainLength_iff_msb short).mpr sign

/-- A payload whose length and bytes come back is plain. -/
theorem plainLength_of_raderHeart {buf : Memory} {data : List Byte} (short : data.length < 2 ^ 16)
    (ret : (raderHeart buf data).2.toInt = data.length + 6)
    (bytes : bytesAt (raderHeart buf data).1 0 (data.length + 6) = erupFrame 0 data) :
    PlainLength data.length := by
  rw [bytesAt_frame, erupFrame, erupHeader] at bytes
  obtain ⟨front, _⟩ := List.append_inj bytes (by simp)
  obtain ⟨head, _⟩ := List.append_inj front (by simp)
  simp only [List.cons.injEq, and_true] at head
  have sum : (BitVec.ofNat 32 data.length + 6).toNat = data.length + 6 := by
    rw [BitVec.toNat_add, BitVec.toNat_ofNat]
    change (data.length % 2 ^ 32 + 6) % 2 ^ 32 = _
    omega
  have total : erupGetLen promoteChar (raderHeart buf data).1 + 6 =
      BitVec.ofNat 32 data.length + 6 := by
    rw [← erupGetPacketLen, ← raderHeart_ret]
    apply BitVec.eq_of_toInt_eq
    rw [ret, BitVec.toInt_eq_toNat_of_lt] <;> rw [sum]
    · push_cast
      rfl
    · omega
  exact plainLength_of_erupGetLen short head.2.1 head.2.2.1 (by bv_omega)

/-- The encoded payload is decoded exactly when neither length byte has its sign bit. -/
theorem raderHeart_roundtrip_iff (buf : Memory) (data : List Byte) (short : data.length < 2 ^ 16) :
    ((raderHeart buf data).2.toInt = data.length + 6 ∧
        bytesAt (raderHeart buf data).1 0 (data.length + 6) = erupFrame 0 data ∧
          ∀ s : Rader, s.raderDlen = 0 →
            (raderCmd s (raderHeart buf data).1 (data.length + 6)).written = some data) ↔
      PlainLength data.length := by
  constructor
  · rintro ⟨ret, bytes, _⟩
    exact plainLength_of_raderHeart short ret bytes
  · intro plain
    have frame := raderHeart_frame buf data plain
    have bound := plain.high
    have bytes : bytesAt (raderHeart buf data).1 0 (data.length + 6) = erupFrame 0 data := by
      have read := bytesAt_memcpy buf 0 (erupFrame 0 data)
      rw [erupFrame_length] at read
      rw [frame]
      exact read
    refine ⟨?_, bytes, ?_⟩
    · rw [frame, BitVec.toInt_eq_toNat_of_lt] <;> rw [BitVec.toNat_ofNat] <;> push_cast <;> omega
    · intro s idle
      rw [raderCmd_written_iff s idle, bytes]
      exact ⟨short, [], 0, [], by simp, by simp⟩

/-- A payload of three bytes is plain. -/
theorem raderHeart_roundtrip_three :
    (raderHeart (fun _ => 0) [1, 2, 3]).2.toInt = 9 ∧
      bytesAt (raderHeart (fun _ => 0) [1, 2, 3]).1 0 9 = erupFrame 0 [1, 2, 3] ∧
        ∀ s : Rader, s.raderDlen = 0 →
          (raderCmd s (raderHeart (fun _ => 0) [1, 2, 3]).1 9).written = some [1, 2, 3] :=
  (raderHeart_roundtrip_iff (fun _ => 0) [1, 2, 3] (by decide)).mpr ⟨by decide, by decide⟩

/-- This payload has the sign bit in its low length byte. -/
def longHeart : List Byte := List.replicate 128 0

theorem longHeart_length : longHeart.length = 128 := List.length_replicate

theorem raderHeart_breaks_length :
    ¬((raderHeart (fun _ => 0) longHeart).2.toInt = longHeart.length + 6 ∧
      bytesAt (raderHeart (fun _ => 0) longHeart).1 0 (longHeart.length + 6) = erupFrame 0 longHeart ∧
        ∀ s : Rader, s.raderDlen = 0 →
          (raderCmd s (raderHeart (fun _ => 0) longHeart).1 (longHeart.length + 6)).written =
            some longHeart) := by
  rintro ⟨ret, bytes, _⟩
  have plain := plainLength_of_raderHeart (by rw [longHeart_length]; decide) ret bytes
  have low := plain.low
  rw [longHeart_length] at low
  exact absurd low (by decide)

end Psuart

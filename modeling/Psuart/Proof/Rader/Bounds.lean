import Psuart.Model.RaderAccess
import Psuart.Proof.Rader.Frame
import Psuart.Proof.Utils.Strings

namespace Psuart

/-- The array reads stay below 4096 and the scratch reads stay below 30. -/
structure ReadsInside (s : Rader) (buf : Memory) (len : Nat) (past : Memory) : Prop where
  array : ∀ place ∈ raderCmdReads s buf len, place < recvSize
  scratch : ∀ place ∈ raderCmdScratchReads buf len past, place < scratchSize

/-- The bytes that the scan passes. -/
def raderNoise (data : List Byte) : List Byte := data.takeWhile (· ≠ erupBegin)

theorem raderNoise_le (p : Memory) (len : Nat) : (raderNoise (bytesAt p 0 len)).length ≤ len := by
  have short := (List.takeWhile_sublist (· ≠ erupBegin) (l := bytesAt p 0 len)).length_le
  rwa [bytesAt_length] at short

theorem raderNoise_skip {p : Memory} (other : erupGetBegin p ≠ erupBegin) (len : Nat) :
    (raderNoise (bytesAt p 0 (len + 1))).length =
      (raderNoise (bytesAt (fun off => p (off + 1)) 0 len)).length + 1 := by
  rw [bytesAt_succ, raderNoise, List.takeWhile_cons_of_pos]
  · rfl
  · exact decide_eq_true other

theorem raderNoise_stop {p : Memory} (marker : erupGetBegin p = erupBegin) (len : Nat) :
    (raderNoise (bytesAt p 0 (len + 1))).length = 0 := by
  rw [bytesAt_succ, raderNoise, List.takeWhile_cons_of_neg]
  · rfl
  · rw [decide_eq_true_eq]
    exact not_not.mpr marker

/-- The scan moves the pointer behind the noise. -/
theorem raderScan_eq (p : Memory) (len : Nat) :
    raderScan p len = (fun off => p (off + (raderNoise (bytesAt p 0 len)).length),
      len - (raderNoise (bytesAt p 0 len)).length) := by
  induction len generalizing p with
  | zero => simp [raderScan, bytesAt, raderNoise]
  | succ len ih =>
      by_cases marker : erupGetBegin p = erupBegin
      · rw [raderScan, if_neg (not_not.mpr marker), raderNoise_stop marker]
        simp
      · rw [raderScan, if_pos marker, ih, raderNoise_skip marker, Nat.add_sub_add_right]
        congr 1
        funext off
        congr 1
        push_cast
        ring

/-- The scan reads the noise and the marker behind it. -/
theorem raderScanReads_eq (p : Memory) (len : Nat) :
    raderScanReads p len = List.range (min len ((raderNoise (bytesAt p 0 len)).length + 1)) := by
  induction len generalizing p with
  | zero => simp [raderScanReads]
  | succ len ih =>
      by_cases marker : erupGetBegin p = erupBegin
      · rw [raderScanReads, if_neg (not_not.mpr marker), raderNoise_stop marker,
          Nat.min_eq_right (by omega)]
        rfl
      · rw [raderScanReads, if_pos marker, ih, raderNoise_skip marker, Nat.add_min_add_right,
          List.range_succ_eq_map]

theorem forall_mem_ite {A : Type} {property : A → Prop} {condition : Prop} [Decidable condition]
    {first second : List A} (yes : condition → ∀ value ∈ first, property value)
    (no : ¬condition → ∀ value ∈ second, property value) :
    ∀ value ∈ if condition then first else second, property value := by
  split
  · exact yes ‹_›
  · exact no ‹_›

/-- Every read lies in the received bytes or in the header behind the noise. -/
theorem raderCmdReads_lt (s : Rader) (buf : Memory) (len : Nat) :
    ∀ place ∈ raderCmdReads s buf len,
      place < len ∨ place ≤ (raderNoise (bytesAt buf 0 len)).length + 2 := by
  have noise := raderNoise_le buf len
  simp only [raderCmdReads, raderScan_eq, raderScanReads_eq, Nat.sub_sub_self noise,
    erupGetPacketLen_uchar]
  generalize (raderNoise (bytesAt buf 0 len)).length = off at *
  generalize lengthEq : (erupGetLen promoteUchar fun index => buf (index + off)).toNat = dlen
  have nothing : ∀ place ∈ ([] : List Nat), place < len ∨ place ≤ off + 2 := List.forall_mem_nil _
  have header : ∀ place ∈ [off + 1, off + 2], place < len ∨ place ≤ off + 2 :=
    List.forall_mem_cons.mpr ⟨by omega, List.forall_mem_cons.mpr ⟨by omega, nothing⟩⟩
  refine List.forall_mem_append.mpr ⟨List.forall_mem_append.mpr ⟨List.forall_mem_append.mpr
    ⟨by simp, ?_⟩, header⟩, forall_mem_ite (fun _ => nothing) fun enough => ?_⟩
  · intro place member
    rw [List.mem_range] at member
    omega
  have payload : ∀ place ∈ [off + 1, off + 2] ++ (List.range dlen).map fun index => off + 4 + index,
      place < len ∨ place ≤ off + 2 := by
    refine List.forall_mem_append.mpr ⟨header, ?_⟩
    intro place member
    obtain ⟨index, inside, rfl⟩ := List.mem_map.mp member
    rw [List.mem_range] at inside
    omega
  have crc : ∀ place ∈ [off + 1, off + 2] ++ [off + dlen + 4], place < len ∨ place ≤ off + 2 :=
    List.forall_mem_append.mpr ⟨header, by simp only [List.forall_mem_singleton]; omega⟩
  have marker : ∀ place ∈ [off + 1, off + 2] ++ [off + dlen + 5], place < len ∨ place ≤ off + 2 :=
    List.forall_mem_append.mpr ⟨header, by simp only [List.forall_mem_singleton]; omega⟩
  have first : ∀ place ∈ if dlen < 1 then [] else [off + 4], place < len ∨ place ≤ off + 2 :=
    forall_mem_ite (fun _ => nothing) fun some => by
      simp only [List.forall_mem_singleton]; omega
  have dispatch : ∀ place ∈ if s.raderDlen = 0 then
      [off + 1, off + 2] ++ (if dlen < 1 then [] else [off + 4]) ++
        ([off + 1, off + 2] ++ (List.range dlen).map fun index => off + 4 + index) else [],
      place < len ∨ place ≤ off + 2 :=
    forall_mem_ite (fun _ => List.forall_mem_append.mpr
      ⟨List.forall_mem_append.mpr ⟨header, first⟩, payload⟩) fun _ => nothing
  have checked := List.forall_mem_append.mpr ⟨crc, payload⟩
  refine List.forall_mem_append.mpr ⟨List.forall_mem_append.mpr ⟨checked, marker⟩,
    forall_mem_ite (fun _ => nothing) fun _ => List.forall_mem_append.mpr ⟨checked,
      forall_mem_ite (fun _ => nothing) fun _ => List.forall_mem_append.mpr
        ⟨List.forall_mem_append.mpr ⟨dispatch, header⟩,
          forall_mem_ite (fun _ => payload) fun _ => nothing⟩⟩⟩

/-- The header behind the noise is always read. -/
theorem raderCmdReads_header (s : Rader) (buf : Memory) (len : Nat) :
    (raderNoise (bytesAt buf 0 len)).length + 2 ∈ raderCmdReads s buf len := by
  simp only [raderCmdReads, raderScan_eq, Nat.sub_sub_self (raderNoise_le buf len)]
  exact List.mem_append_left _ (List.mem_append_right _ (by simp))

/-- A complete packet is read up to its end marker. -/
theorem raderCmdReads_packet (s : Rader) {buf : Memory} {len off dlen : Nat}
    (noise : (raderNoise (bytesAt buf 0 len)).length = off)
    (length : (erupGetLen promoteUchar fun index => buf (index + off)).toNat = dlen)
    (enough : ¬len - off < dlen + 6) :
    (∀ index, index < dlen → off + 4 + index ∈ raderCmdReads s buf len) ∧
      off + dlen + 4 ∈ raderCmdReads s buf len ∧ off + dlen + 5 ∈ raderCmdReads s buf len := by
  have short := raderNoise_le buf len
  rw [noise] at short
  simp only [raderCmdReads, raderScan_eq, noise, Nat.sub_sub_self short, erupGetPacketLen_uchar,
    length, if_neg enough]
  refine ⟨fun index inside => ?_, ?_, ?_⟩
  all_goals refine List.mem_append_right _ (List.mem_append_left _ ?_)
  · exact List.mem_append_left _ (List.mem_append_right _ (List.mem_append_right _
      (List.mem_map.mpr ⟨index, List.mem_range.mpr inside, rfl⟩)))
  · exact List.mem_append_left _ (List.mem_append_left _ (by simp))
  · exact List.mem_append_right _ (by simp)

/-- The noise depends only on the bytes that the scan reads. -/
theorem raderNoise_congr {p q : Memory} {len : Nat}
    (same : ∀ place ∈ raderScanReads p len, p place = q place) :
    (raderNoise (bytesAt q 0 len)).length = (raderNoise (bytesAt p 0 len)).length := by
  induction len generalizing p q with
  | zero => rfl
  | succ len ih =>
      have first : p 0 = q 0 := same 0 (List.mem_cons_self ..)
      by_cases marker : erupGetBegin p = erupBegin
      · rw [raderNoise_stop marker, raderNoise_stop (first.symm.trans marker)]
      · have other : erupGetBegin q ≠ erupBegin := fun equal => marker (first.trans equal)
        rw [raderNoise_skip marker, raderNoise_skip other]
        refine congrArg (· + 1) (ih fun place member => ?_)
        rw [raderScanReads, if_pos marker] at same
        exact same (place + 1) (List.mem_cons_of_mem _ (List.mem_map_of_mem member))

/-- The result of `rader_cmd` depends only on the bytes that it reads. -/
theorem raderCmd_reads (s : Rader) (buf other : Memory) (len : Nat)
    (same : ∀ place ∈ raderCmdReads s buf len, buf place = other place) :
    raderCmd s other len = raderCmd s buf len := by
  have scanned : ∀ place ∈ raderScanReads buf len, buf place = other place := by
    intro place member
    apply same
    exact List.mem_append_left _ (List.mem_append_left _ (List.mem_append_right _ member))
  have noise := raderNoise_congr scanned
  generalize offEq : (raderNoise (bytesAt buf 0 len)).length = off at noise
  have short : off ≤ len := offEq ▸ raderNoise_le buf len
  have view (index : Nat) (read : off + index ∈ raderCmdReads s buf len) :
      other (index + off) = buf (index + off) := by
    have equal := same _ read
    rw [Nat.cast_add, add_comm] at equal
    exact equal.symm
  have first := view 1 (by
    simp only [raderCmdReads, raderScan_eq, offEq, Nat.sub_sub_self short]
    exact List.mem_append_left _ (List.mem_append_right _ (by simp)))
  have second := view 2 (offEq ▸ raderCmdReads_header s buf len)
  have header : erupGetLen promoteUchar (fun index => other (index + off)) =
      erupGetLen promoteUchar fun index => buf (index + off) :=
    congrArg₂ (fun high low : Byte => promoteUchar high <<< 8 ||| promoteUchar low) first second
  simp only [raderCmd, raderScan_eq, offEq, noise, erupGetPacketLen_uchar, header]
  generalize dlenEq : (erupGetLen promoteUchar fun index => buf (index + off)).toNat = dlen
  by_cases enough : len - off < dlen + 6
  · rw [if_pos enough, if_pos enough]
  · obtain ⟨payload, crc, marker⟩ := raderCmdReads_packet s offEq dlenEq enough
    have toInt : (erupGetLen promoteUchar fun index => buf (index + off)).toInt = dlen := by
      rw [erupGetLen_uchar_toInt, dlenEq]
    have sameCrc : erupGetCrc promoteUchar (fun index => other (index + off)) =
        erupGetCrc promoteUchar fun index => buf (index + off) := by
      rw [erupGetCrc, erupGetCrc, header, toInt]
      exact view (dlen + 4) crc
    have sameEnd : erupGetEnd promoteUchar (fun index => other (index + off)) =
        erupGetEnd promoteUchar fun index => buf (index + off) := by
      rw [erupGetEnd, erupGetEnd, header, toInt]
      exact view (dlen + 5) marker
    have sameData : bytesAt (erupGetData fun index => other (index + off)) 0 dlen =
        bytesAt (erupGetData fun index => buf (index + off)) 0 dlen := by
      rw [bytesAt_data, bytesAt_data]
      apply Cells.load_congr
      intro index inside
      exact view (4 + index) (by rw [← Nat.add_assoc]; exact payload index inside)
    rw [sameCrc, sameEnd, sameData]

/-- The array reads stay inside exactly when the header behind the noise does. -/
theorem raderCmdReads_inside_iff (s : Rader) (data : ReadBytes) (past : Memory) :
    (∀ place ∈ raderCmdReads s (recvArray data.val past) data.val.length, place < recvSize) ↔
      (raderNoise data.val).length ≤ 4093 := by
  have bound := data.property
  have header := raderCmdReads_header s (recvArray data.val past) data.val.length
  have reads := raderCmdReads_lt s (recvArray data.val past) data.val.length
  rw [bytesAt_recvArray] at header reads
  unfold recvSize at *
  constructor
  · intro inside
    have last := inside _ header
    omega
  · intro noise place member
    have range := reads place member
    omega

/-- The comparison stops at the terminator of the literal. -/
theorem strcasecmpReads_lt (first : Memory) (second : List Byte) :
    ∀ place ∈ strcasecmpReads first second, place < second.length := by
  induction second generalizing first with
  | nil => exact List.forall_mem_nil _
  | cons char rest ih =>
      refine List.forall_mem_cons.mpr ⟨by simp, forall_mem_ite (fun _ => ?_) fun _ => List.forall_mem_nil _⟩
      intro place member
      obtain ⟨index, inside, rfl⟩ := List.mem_map.mp member
      have behind := ih _ index inside
      simpa using behind

/-- The comparison with the close command reads at most fourteen bytes. -/
theorem raderCmdScratchReads_lt (buf : Memory) (len : Nat) (past : Memory) :
    ∀ place ∈ raderCmdScratchReads buf len past, place < scratchSize := by
  have literal : closeLiteral.length ≤ scratchSize := by decide
  have nothing : ∀ place ∈ ([] : List Nat), place < scratchSize := List.forall_mem_nil _
  refine forall_mem_ite (fun _ => nothing) fun _ => forall_mem_ite (fun _ => nothing) fun _ =>
    forall_mem_ite (fun _ => ?_) fun _ => nothing
  intro place member
  exact Nat.lt_of_lt_of_le (strcasecmpReads_lt _ _ place member) literal

/-- The byte loop compares as the library function when the memory holds more bytes than the literal. -/
theorem strcasecmpAt_eq {first : Memory} {bytes second : List Byte} (visible : 0 ∉ second)
    (stands : bytesAt first 0 bytes.length = bytes) (longer : second.length < bytes.length) :
    strcasecmpAt first (second ++ [0]) = compareLower (cString bytes) second := by
  induction second generalizing first bytes with
  | nil =>
      obtain ⟨byte, rest, rfl⟩ := List.exists_cons_of_length_pos longer
      rw [List.length_cons, bytesAt_succ, List.cons.injEq] at stands
      rw [List.nil_append, strcasecmpAt, if_neg (by simp), stands.1, cString]
      by_cases zero : byte = 0
      · rw [zero]
        rfl
      · rw [List.takeWhile_cons_of_pos (by simpa using zero), compareLower]
        simp [tolower_zero]
  | cons char tail ih =>
      obtain ⟨byte, rest, rfl⟩ := List.exists_cons_of_length_pos (Nat.lt_of_le_of_lt (Nat.zero_le _) longer)
      rw [List.length_cons, bytesAt_succ, List.cons.injEq] at stands
      rw [List.mem_cons, not_or] at visible
      rw [List.cons_append, strcasecmpAt, stands.1, cString]
      by_cases zero : byte = 0
      · have differ : ¬(tolower byte = tolower char ∧ char ≠ 0) := by
          rintro ⟨same, _⟩
          rw [(tolower_eq_zero byte).mpr zero] at same
          exact visible.1 ((tolower_eq_zero char).mp same.symm).symm
        rw [if_neg differ, zero]
        simp [compareLower, tolower_zero]
      · rw [List.takeWhile_cons_of_pos (by simpa using zero), compareLower]
        by_cases same : tolower byte = tolower char
        · rw [if_pos ⟨same, Ne.symm visible.1⟩, if_pos same]
          exact ih visible.2 stands.2 (by simpa using longer)
        · rw [if_neg fun both => same both.1, if_neg same]

/-- The zeroed scratch buffer holds the payload in front of its zero bytes. -/
theorem bytesAt_raderScratch (cmd : List Byte) (past : Memory) (short : cmd.length ≤ 30) :
    bytesAt (raderScratch cmd past) 0 30 = cmd ++ List.replicate (30 - cmd.length) 0 := by
  apply List.ext_getElem
  · simp
    omega
  · intro index left right
    rw [bytesAt_length] at left
    have size : (scratchSize : Int) = 30 := rfl
    simp only [bytesAt, Cells.load_getElem, raderScratch]
    by_cases inside : index < cmd.length
    · rw [if_pos (by omega), List.getElem_append_left inside]
      simp [inside]
    · rw [if_neg (by omega), if_pos (by omega), List.getElem_append_right (by omega)]
      simp

/-- The check for the close command is the byte loop over the scratch buffer. -/
theorem raderCloses_scratch (cmd : List Byte) (past : Memory) (short : cmd.length ≤ 30) :
    raderCloses cmd = (strcasecmpAt (raderScratch cmd past) closeLiteral == 0) := by
  have stands := bytesAt_raderScratch cmd past short
  have length : (cmd ++ List.replicate (30 - cmd.length) (0 : Byte)).length = 30 := by
    simp
    omega
  have literal : 0 ∉ stringBytes "close socket!" ∧ (stringBytes "close socket!").length < 30 := by
    decide
  rw [closeLiteral, strcasecmpAt_eq literal.1 (by rwa [length]) (by rw [length]; exact literal.2),
    raderCloses, decide_eq_true short, Bool.true_and, strcasecmp, cString_eq literal.1]

/-- The function `rader_cmd` reads inside its buffers exactly when the noise leaves room for a header. -/
theorem raderCmd_reads_inside_iff (s : Rader) (data : ReadBytes) (past stack : Memory) :
    ReadsInside s (recvArray data.val past) data.val.length stack ↔
      (raderNoise data.val).length ≤ 4093 := by
  rw [← raderCmdReads_inside_iff s data past]
  exact ⟨fun inside => inside.array, fun array => ⟨array, raderCmdScratchReads_lt _ _ _⟩⟩

/-- This datagram fills the receive array without a start marker. -/
def fullNoise : ReadBytes := ⟨List.replicate recvSize 0, by rw [List.length_replicate]⟩

/-- The header of a full array of noise lies behind the array. -/
theorem raderCmd_reads_past :
    ¬ReadsInside raderStatic (recvArray fullNoise.val fun _ => 0) fullNoise.val.length fun _ => 0 := by
  intro inside
  have short := (raderCmdReads_inside_iff raderStatic fullNoise fun _ => 0).mp inside.array
  have noise : raderNoise fullNoise.val = List.replicate recvSize 0 := by
    rw [fullNoise, raderNoise, List.takeWhile_replicate, if_pos (by decide)]
  rw [noise, List.length_replicate] at short
  exact absurd short (by decide)

end Psuart

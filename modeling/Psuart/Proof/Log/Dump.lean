import Psuart.Model.LogSink
import Psuart.Proof.Rader.Frame
import Psuart.Proof.Utils.Hex
import Psuart.Proof.Utils.Strings

namespace Psuart

variable {pstr : Memory}

theorem bytesAt_offset (p : Int) (count : Nat) :
    bytesAt (fun place => pstr (p + place)) 0 count = bytesAt pstr p count := by
  simp only [bytesAt, Cells.load, zero_add]

/-- The next line and the bytes behind it. -/
theorem bytesAt_line (p : Int) (count : Nat) :
    bytesAt pstr p count = bytesAt pstr p (min 16 count) ++ bytesAt pstr (p + 16) (count - 16) := by
  rcases Nat.le_total count 16 with short | long
  · rw [Nat.min_eq_right short, Nat.sub_eq_zero_of_le short, bytesAt, bytesAt, Cells.load_zero, List.append_nil]
  · rw [Nat.min_eq_left long, ← Nat.cast_ofNat (R := Int) (n := 16), ← bytesAt_add, Nat.add_sub_cancel' long]

theorem hexPairs_append (source text : List Byte) :
    hexPairs (source.flatMap hexPair ++ text) = source ++ hexPairs text := by
  induction source with
  | nil => rfl
  | cons ch rest ih => rw [List.flatMap_cons, List.append_assoc, hexPairs_cons, ih, List.cons_append]

/-- The digits of a line are those of its bytes. -/
theorem dumpLine_digits {line : HexCall} {source : List Byte} (written : line.written = source.flatMap hexPair) :
    (dumpLine line).filter isHexDigit = source.flatMap hexPair := by
  have digits := (hexPairs_flatMap source).2.1
  have zero : (0 : Byte) ∉ source.flatMap hexPair := fun member => by
    have digit := List.all_eq_true.mp digits 0 member
    revert digit
    decide
  have tab : isHexDigit (charByte '\t') = false := by decide
  have blank : (stringBytes " \n").filter isHexDigit = [] := by decide
  rw [dumpLine, written, cString_eq zero, List.cons_append, List.filter_cons_of_neg (by rw [tab]; decide),
    List.filter_append, blank, List.append_nil, List.filter_eq_self.mpr (List.all_eq_true.mp digits)]

/-- The length of the next line. -/
theorem lineSize_toInt (size : CInt) :
    (if (16 : CInt).slt size then (16 : CInt) else size).toInt = min 16 size.toInt := by
  have sixteen : (16 : CInt).toInt = 16 := by decide
  by_cases long : (16 : CInt).slt size = true
  · rw [if_pos long]
    rw [BitVec.slt_iff_toInt_lt, sixteen] at long
    omega
  · rw [if_neg long]
    rw [BitVec.slt_iff_toInt_lt, sixteen] at long
    omega

theorem nextSize_toInt {size : CInt} (positive : 0 < size.toInt) : (size - 16).toInt = size.toInt - 16 := by
  have bound := BitVec.toInt_lt (x := size)
  have sixteen : (16 : CInt).toInt = 16 := by decide
  rw [BitVec.toInt_sub, sixteen, Int.bmod_eq_of_le (by omega) (by omega)]

/-- A round encodes the next bytes into its text. -/
theorem dumpBufferLoop_round {size : CInt} (positive : 0 < size.toInt) (left : Nat) (p : Int) :
    dumpBufferLoop pstr (left + 1) size p =
      ⟨true, (bytesAt pstr p (min 16 size.toInt.toNat)).flatMap hexPair,
        BitVec.ofNat 32 (2 * min 16 size.toInt.toNat), List.range' 0 (min 16 size.toInt.toNat)⟩ ::
        dumpBufferLoop pstr left (size - 16) (p + 16) := by
  have runs : (0 : CInt).slt size = true := by
    rw [BitVec.slt_iff_toInt_lt]
    exact positive
  have line := lineSize_toInt size
  have room : (40 : CInt).toInt = 40 := by decide
  have count : (min 16 size.toInt).toNat = min 16 size.toInt.toNat := by omega
  rw [dumpBufferLoop, if_pos runs, hexEncode_eq (by omega) (by omega), line, count, bytesAt_offset]

/-- The lines spell the bytes, and every text has room for its terminator. -/
structure DumpsBytes (lines : List HexCall) (bytes : List Byte) : Prop where
  spells : hexPairs ((lines.flatMap dumpLine).filter isHexDigit) = bytes
  count : lines.length = (bytes.length + 15) / 16
  room : ∀ line ∈ lines, line.ret = true ∧ line.written.length < 40

theorem DumpsBytes.nil : DumpsBytes [] [] := ⟨rfl, rfl, fun _ member => by cases member⟩

/-- A line in front of others has all of the next sixteen bytes, or the last ones. -/
theorem DumpsBytes.cons {line : HexCall} {lines : List HexCall} {source rest : List Byte}
    (behind : DumpsBytes lines rest) (encoded : line.ret = true) (written : line.written = source.flatMap hexPair)
    (some : source ≠ []) (whole : source.length ≤ 16) (last : source.length = 16 ∨ rest = []) :
    DumpsBytes (line :: lines) (source ++ rest) := by
  have positive := List.length_pos_iff.mpr some
  refine ⟨?_, ?_, ?_⟩
  · rw [List.flatMap_cons, List.filter_append, dumpLine_digits written, hexPairs_append, behind.spells]
  · rw [List.length_cons, behind.count, List.length_append]
    rcases last with full | none
    · omega
    · rw [none, List.length_nil]
      omega
  · refine List.forall_mem_cons.mpr ⟨⟨encoded, ?_⟩, behind.room⟩
    rw [written, hexPair_length]
    omega

/-- The loop dumps the bytes from its place on. -/
theorem dumpBufferLoop_dumps (pstr : Memory) {size : CInt} {left : Nat} (enough : size.toInt.toNat ≤ left) (p : Int) :
    DumpsBytes (dumpBufferLoop pstr left size p) (bytesAt pstr p size.toInt.toNat) := by
  induction left generalizing size p with
  | zero =>
      rw [Nat.le_zero.mp enough]
      exact .nil
  | succ left ih =>
      by_cases positive : 0 < size.toInt
      · have next := nextSize_toInt positive
        have behind : DumpsBytes (dumpBufferLoop pstr left (size - 16) (p + 16))
            (bytesAt pstr (p + 16) (size.toInt.toNat - 16)) := by
          have rest : (size - 16).toInt.toNat = size.toInt.toNat - 16 := by omega
          rw [← rest]
          exact ih (by omega) (p + 16)
        rw [bytesAt_line, dumpBufferLoop_round positive]
        refine behind.cons rfl rfl ?_ ?_ ?_
        · rw [← List.length_pos_iff, bytesAt_length]
          omega
        · rw [bytesAt_length]
          exact Nat.min_le_left ..
        · rw [bytesAt_length, ← List.length_eq_zero_iff, bytesAt_length]
          omega
      · have stops : ¬(0 : CInt).slt size = true := by
          rw [BitVec.slt_iff_toInt_lt]
          exact positive
        rw [dumpBufferLoop, if_neg stops, Int.toNat_of_nonpos (by omega)]
        exact .nil

/-- The loop prints the same for the same bytes. -/
theorem dumpBufferLoop_congr {other : Memory} {size : CInt} {left : Nat} {p : Int}
    (same : bytesAt other p size.toInt.toNat = bytesAt pstr p size.toInt.toNat) :
    dumpBufferLoop other left size p = dumpBufferLoop pstr left size p := by
  induction left generalizing size p with
  | zero => rfl
  | succ left ih =>
      by_cases positive : 0 < size.toInt
      · have next := nextSize_toInt positive
        have rest : (size - 16).toInt.toNat = size.toInt.toNat - 16 := by omega
        have parts : bytesAt other p (min 16 size.toInt.toNat) ++ bytesAt other (p + 16) (size.toInt.toNat - 16) =
            bytesAt pstr p (min 16 size.toInt.toNat) ++ bytesAt pstr (p + 16) (size.toInt.toNat - 16) := by
          rw [← bytesAt_line, ← bytesAt_line, same]
        obtain ⟨line, behind⟩ := List.append_inj parts (by rw [bytesAt_length, bytesAt_length])
        rw [dumpBufferLoop_round positive, dumpBufferLoop_round positive, line, ih (by rw [rest]; exact behind)]
      · have stops : ¬(0 : CInt).slt size = true := by
          rw [BitVec.slt_iff_toInt_lt]
          exact positive
        rw [dumpBufferLoop, dumpBufferLoop, if_neg stops, if_neg stops]

/-- The digits of a dump spell exactly the bytes of the buffer, in lines of sixteen that fit into their text, and
nothing beyond these bytes is printed. -/
theorem dumpBuffer_spells (pstr : Memory) (size : CInt) :
    hexPairs ((dumpBuffer pstr size).filter isHexDigit) = bytesAt pstr 0 size.toInt.toNat ∧
      (dumpBufferLoop pstr size.toInt.toNat size 0).length = (size.toInt.toNat + 15) / 16 ∧
      (∀ line ∈ dumpBufferLoop pstr size.toInt.toNat size 0, line.ret = true ∧ line.written.length < 40) ∧
      ∀ other, bytesAt other 0 size.toInt.toNat = bytesAt pstr 0 size.toInt.toNat →
        dumpBuffer other size = dumpBuffer pstr size := by
  obtain ⟨spells, count, room⟩ := dumpBufferLoop_dumps pstr (Nat.le_refl size.toInt.toNat) 0
  refine ⟨spells, ?_, room, fun other same => ?_⟩
  · rw [count, bytesAt_length]
  · rw [dumpBuffer, dumpBuffer, dumpBufferLoop_congr same]

end Psuart

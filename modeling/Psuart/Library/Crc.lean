import Mathlib.Logic.Function.Iterate
import Mathlib.Data.List.Basic

namespace Crc

variable {w : Nat}

/-- A reflected register moves one place down and subtracts the polynomial for a lost bit. -/
def shift (poly register : BitVec w) : BitVec w :=
  if register.getLsbD 0 then (register >>> 1) ^^^ poly else register >>> 1

/-- One message bit enters the register at its low end. -/
def feed (poly register : BitVec w) (bit : Bool) : BitVec w :=
  shift poly (register ^^^ (BitVec.ofBool bit).setWidth w)

/-- The remainder is the register after the whole bit string. -/
def remainder (poly : BitVec w) (bits : List Bool) : BitVec w :=
  bits.foldl (feed poly) 0#w

/-- A word sends its low bit first. -/
def wordBits (word : BitVec w) : List Bool :=
  (List.range w).map word.getLsbD

@[simp] theorem wordBits_length (word : BitVec w) : (wordBits word).length = w := by
  simp [wordBits]

/-- The difference of two words has the difference of their bits. -/
theorem wordBits_xor (first second : BitVec w) :
    wordBits (first ^^^ second) = List.zipWith xor (wordBits first) (wordBits second) := by
  apply List.ext_getElem
  · simp
  · intro index left right
    simp [wordBits]

@[simp] theorem shift_zero (poly : BitVec w) : shift poly 0#w = 0#w := by
  simp [shift]

/-- The register step is linear. -/
theorem shift_xor (poly first second : BitVec w) :
    shift poly (first ^^^ second) = shift poly first ^^^ shift poly second := by
  have cancel (x y : BitVec w) : x ^^^ poly ^^^ (y ^^^ poly) = x ^^^ y := by
    rw [BitVec.xor_assoc x poly, ← BitVec.xor_assoc poly y, BitVec.xor_comm poly y,
      BitVec.xor_assoc y, BitVec.xor_self, BitVec.xor_zero]
  unfold shift
  simp only [BitVec.getLsbD_xor, BitVec.ushiftRight_xor_distrib]
  cases first.getLsbD 0 <;> cases second.getLsbD 0
  · simp
  · simp [BitVec.xor_assoc]
  · simp only [Bool.bne_false, ↓reduceIte, Bool.false_eq_true]
    ac_rfl
  · simp [cancel]

theorem shifts_zero (poly : BitVec w) (count : Nat) : (shift poly)^[count] 0#w = 0#w := by
  induction count with
  | zero => rfl
  | succ count ih => rw [Function.iterate_succ_apply, shift_zero, ih]

/-- A zero message bit only moves the register. -/
@[simp] theorem feed_false (poly register : BitVec w) :
    feed poly register false = shift poly register := by
  simp [feed, BitVec.ofBool]

theorem foldl_feed_replicate (poly register : BitVec w) (count : Nat) :
    (List.replicate count false).foldl (feed poly) register = (shift poly)^[count] register := by
  induction count generalizing register with
  | zero => rfl
  | succ count ih =>
      simp only [List.replicate_succ, List.foldl_cons, feed_false, ih, Function.iterate_succ_apply]

/-- A register step consumes the low bit of a mixed word and keeps the rest of the word. -/
theorem shift_mix (poly register word : BitVec w) :
    shift poly (register ^^^ word) = feed poly register (word.getLsbD 0) ^^^ (word >>> 1) := by
  have low : (word ^^^ (BitVec.ofBool (word.getLsbD 0)).setWidth w).getLsbD 0 = false := by
    rcases Nat.eq_zero_or_pos w with empty | positive
    · subst empty; simp [BitVec.of_length_zero]
    · simp [positive]
  have rest : shift poly (word ^^^ (BitVec.ofBool (word.getLsbD 0)).setWidth w) = word >>> 1 := by
    rw [shift, low]
    apply BitVec.eq_of_getLsbD_eq
    intro index inside
    simp [BitVec.getLsbD_setWidth, inside]
  rw [feed, ← rest, ← shift_xor]
  congr 1
  rw [BitVec.xor_assoc, BitVec.xor_comm word, ← BitVec.xor_assoc _ _ word, BitVec.xor_self,
    BitVec.zero_xor]

/-- Repeated register steps consume the low bits of a mixed word in order. -/
theorem shifts_mix (poly register word : BitVec w) (count : Nat) :
    (shift poly)^[count] (register ^^^ word) =
      ((List.range count).map word.getLsbD).foldl (feed poly) register ^^^ (word >>> count) := by
  induction count generalizing register word with
  | zero => simp
  | succ count ih =>
      have moved : (List.range count).map (word >>> 1).getLsbD =
          (List.range count).map (word.getLsbD ∘ Nat.succ) :=
        List.map_congr_left fun index _ => by
          rw [BitVec.getLsbD_ushiftRight, Nat.add_comm]
          rfl
      rw [Function.iterate_succ_apply, shift_mix, ih, List.range_succ_eq_map, moved]
      simp [← BitVec.shiftRight_add, Nat.add_comm]

/-- One step for each place consumes a whole mixed word. -/
theorem shifts_word (poly register word : BitVec w) :
    (shift poly)^[w] (register ^^^ word) = (wordBits word).foldl (feed poly) register := by
  rw [shifts_mix, BitVec.ushiftRight_eq_zero (Nat.le_refl _), BitVec.xor_zero]
  rfl

/-- The remainder is linear in the message. -/
theorem foldl_feed_xor (poly first second : BitVec w) (left right : List Bool)
    (same : left.length = right.length) :
    (List.zipWith xor left right).foldl (feed poly) (first ^^^ second) =
      left.foldl (feed poly) first ^^^ right.foldl (feed poly) second := by
  induction left generalizing first second right with
  | nil =>
      obtain rfl := List.length_eq_zero_iff.mp same.symm
      simp
  | cons bit rest ih =>
      cases right with
      | nil => simp at same
      | cons other tail =>
          simp only [List.zipWith_cons_cons, List.foldl_cons]
          have mixed : feed poly (first ^^^ second) (xor bit other) =
              feed poly first bit ^^^ feed poly second other := by
            have bits : (BitVec.ofBool (xor bit other)).setWidth w =
                (BitVec.ofBool bit).setWidth w ^^^ (BitVec.ofBool other).setWidth w := by
              rw [← BitVec.setWidth_xor]
              cases bit <;> cases other <;> rfl
            rw [feed, feed, feed, ← shift_xor, bits]
            congr 1
            ac_rfl
          rw [mixed]
          exact ih _ _ _ (by simpa using same)

theorem remainder_xor (poly : BitVec w) (left right : List Bool)
    (same : left.length = right.length) :
    remainder poly (List.zipWith xor left right) = remainder poly left ^^^ remainder poly right := by
  have split := foldl_feed_xor poly 0#w 0#w left right same
  rw [BitVec.xor_self] at split
  exact split

/-- A bit string without a set place is a run of zeros. -/
theorem eq_replicate_false {bits : List Bool} (clear : ∀ index : Nat, bits[index]? ≠ some true) :
    bits = List.replicate bits.length false := by
  rw [List.eq_replicate_iff]
  refine ⟨rfl, fun bit member => ?_⟩
  obtain ⟨index, value⟩ := List.mem_iff_getElem?.mp member
  cases bit with
  | false => rfl
  | true => exact absurd value (clear index)

section Burst

variable {poly : BitVec w} (top : poly.getLsbD (w - 1) = true)
include top

/-- The step loses no information when the polynomial has its top bit. -/
theorem shift_eq_zero (register : BitVec w) (zero : shift poly register = 0#w) :
    register = 0#w := by
  have positive : 0 < w := by
    rcases Nat.eq_zero_or_pos w with empty | positive
    · subst empty; simp [BitVec.of_length_zero] at top
    · exact positive
  cases low : register.getLsbD 0 with
  | true =>
      have value := congrArg (fun word => word.getLsbD (w - 1)) zero
      simp [shift, low, top] at value
      have above := BitVec.getLsbD_of_ge register (1 + (w - 1)) (by omega)
      simp [above] at value
  | false =>
      apply BitVec.eq_of_getLsbD_eq
      intro index inside
      cases index with
      | zero => simpa using low
      | succ index =>
          have value := congrArg (fun word => word.getLsbD index) zero
          simpa [shift, low, Nat.add_comm] using value

theorem shifts_eq_zero (register : BitVec w) (count : Nat)
    (zero : (shift poly)^[count] register = 0#w) : register = 0#w := by
  induction count generalizing register with
  | zero => exact zero
  | succ count ih =>
      rw [Function.iterate_succ_apply] at zero
      exact shift_eq_zero top register (ih _ zero)

/-- A word that enters the zero register leaves a nonzero remainder. -/
theorem foldl_feed_word_ne_zero (bits : List Bool) (short : bits.length ≤ w)
    (somewhere : true ∈ bits) : bits.foldl (feed poly) 0#w ≠ 0#w := by
  intro zero
  let word : BitVec w := (BitVec.ofBoolListLE bits).setWidth w
  have place (index : Nat) (inside : index < bits.length) : word.getLsbD index = bits[index] := by
    simp only [word, BitVec.getLsbD_setWidth, BitVec.getLsbD_ofBoolListLE, List.getD_eq_getElem?_getD,
      List.getElem?_eq_getElem inside, show index < w by omega]
    rfl
  have low : (List.range bits.length).map word.getLsbD = bits := by
    apply List.ext_getElem
    · simp
    · intro index left right
      simp [place index right]
  have high : word >>> bits.length = 0#w := by
    apply BitVec.eq_of_getLsbD_eq
    intro index inside
    simp [word, BitVec.getLsbD_setWidth]
  have steps := shifts_mix poly 0#w word bits.length
  rw [low, high, zero, BitVec.xor_zero, BitVec.zero_xor] at steps
  have clear := shifts_eq_zero top word _ steps
  obtain ⟨index, inside, value⟩ := List.mem_iff_getElem.mp somewhere
  have bit := place index inside
  rw [clear, value] at bit
  simp at bit

/-- An error confined to one register length leaves a nonzero remainder. -/
theorem remainder_burst_ne_zero (bits : List Bool) (start : Nat) (somewhere : true ∈ bits)
    (confined : ∀ index, bits[index]? = some true → start ≤ index ∧ index < start + w) :
    remainder poly bits ≠ 0#w := by
  have before : bits.take start = List.replicate (bits.take start).length false := by
    apply eq_replicate_false
    intro index set
    rw [List.getElem?_take] at set
    split at set
    · have place := confined index set
      omega
    · cases set
  have after : (bits.drop start).drop w =
      List.replicate ((bits.drop start).drop w).length false := by
    apply eq_replicate_false
    intro index set
    rw [List.getElem?_drop, List.getElem?_drop] at set
    have place := confined _ set
    omega
  have parts : bits = bits.take start ++ ((bits.drop start).take w ++ (bits.drop start).drop w) := by
    rw [List.take_append_drop, List.take_append_drop]
  have inBurst : true ∈ (bits.drop start).take w := by
    rw [parts] at somewhere
    simp only [List.mem_append] at somewhere
    rcases somewhere with early | burst | late
    · rw [before] at early
      simp at early
    · exact burst
    · rw [after] at late
      simp at late
  intro zero
  rw [remainder, parts, List.foldl_append, before, foldl_feed_replicate, shifts_zero,
    List.foldl_append, after, foldl_feed_replicate] at zero
  exact foldl_feed_word_ne_zero top _ (List.length_take_le _ _) inBurst (shifts_eq_zero top _ _ zero)

end Burst

/-- The parity of a bit string. -/
def parity (bits : List Bool) : Bool := bits.foldr xor false

@[simp] theorem parity_nil : parity [] = false := rfl

@[simp] theorem parity_cons (bit : Bool) (rest : List Bool) :
    parity (bit :: rest) = xor bit (parity rest) := rfl

theorem parity_append (first second : List Bool) :
    parity (first ++ second) = xor (parity first) (parity second) := by
  induction first with
  | nil => simp
  | cons bit rest ih => simp [ih]

/-- The parity of a string counts its set bits. -/
theorem parity_eq_count (bits : List Bool) : parity bits = decide (bits.count true % 2 = 1) := by
  induction bits with
  | nil => rfl
  | cons bit rest ih =>
      rw [parity_cons, ih]
      cases bit with
      | false => simp
      | true =>
          simp only [List.count_cons_self, Bool.true_bne]
          by_cases odd : rest.count true % 2 = 1
          · simp [odd]; omega
          · simp [odd]; omega

theorem parity_zipWith (left right : List Bool) (same : left.length = right.length) :
    parity (List.zipWith xor left right) = xor (parity left) (parity right) := by
  induction left generalizing right with
  | nil =>
      obtain rfl := List.length_eq_zero_iff.mp same.symm
      rfl
  | cons bit rest ih =>
      cases right with
      | nil => simp at same
      | cons other tail =>
          simp only [List.zipWith_cons_cons, parity_cons, ih tail (by simpa using same)]
          rw [Bool.xor_assoc, Bool.xor_assoc, Bool.xor_left_comm other]

section Parity

variable {poly : BitVec w} (odd : parity (wordBits poly) = true)
include odd

/-- A polynomial of odd weight keeps the parity of the register. -/
theorem parity_shift (register : BitVec w) :
    parity (wordBits (shift poly register)) = parity (wordBits register) := by
  cases w with
  | zero => simp [BitVec.of_length_zero] at odd ⊢
  | succ count =>
      have moved : xor (register.getLsbD 0) (parity (wordBits (register >>> 1))) =
          parity (wordBits register) := by
        have last : wordBits (register >>> 1) =
            (List.range count).map (fun index => register.getLsbD (index + 1)) ++ [false] := by
          simp [wordBits, List.range_succ, Nat.add_comm]
        have first : wordBits register = register.getLsbD 0 ::
            (List.range count).map (fun index => register.getLsbD (index + 1)) := by
          simp [wordBits, List.range_succ_eq_map, Function.comp_def]
        rw [last, first, parity_append]
        simp
      rw [← moved, shift]
      cases register.getLsbD 0 with
      | false => simp
      | true =>
          rw [if_pos rfl, wordBits_xor, parity_zipWith _ _ (by simp), odd]
          exact Bool.xor_comm _ _

theorem parity_feed (register : BitVec w) (bit : Bool) (positive : 0 < w) :
    parity (wordBits (feed poly register bit)) = xor (parity (wordBits register)) bit := by
  rw [feed, parity_shift odd, wordBits_xor, parity_zipWith _ _ (by simp)]
  congr 1
  obtain ⟨count, rfl⟩ : ∃ count, w = count + 1 := ⟨w - 1, by omega⟩
  have zeros : (List.range count).map (fun index =>
      ((BitVec.ofBool bit).setWidth (count + 1)).getLsbD (index + 1)) = List.replicate count false := by
    rw [List.eq_replicate_iff]
    simp [BitVec.getLsbD_setWidth]
  have clear (count : Nat) : parity (List.replicate count false) = false := by
    induction count with
    | zero => rfl
    | succ count ih => simp [List.replicate_succ, ih]
  rw [wordBits, List.range_succ_eq_map, List.map_cons, List.map_map, parity_cons]
  simp only [Function.comp_def, Nat.succ_eq_add_one, zeros, clear]
  simp

/-- The register carries the parity of everything that entered it. -/
theorem parity_foldl_feed (register : BitVec w) (bits : List Bool) (positive : 0 < w) :
    parity (wordBits (bits.foldl (feed poly) register)) =
      xor (parity (wordBits register)) (parity bits) := by
  induction bits generalizing register with
  | nil => simp
  | cons bit rest ih =>
      rw [List.foldl_cons, ih, parity_feed odd register bit positive, parity_cons, Bool.xor_assoc]

/-- An odd number of errors leaves a nonzero remainder. -/
theorem remainder_odd_ne_zero (bits : List Bool) (positive : 0 < w)
    (errors : parity bits = true) : remainder poly bits ≠ 0#w := by
  intro zero
  have carried := parity_foldl_feed odd 0#w bits positive
  rw [← remainder, zero, errors] at carried
  have clear : parity (wordBits 0#w) = false := by
    have none : true ∉ wordBits 0#w := by simp [wordBits]
    rw [parity_eq_count, List.count_eq_zero_of_not_mem none]
    rfl
  rw [clear] at carried
  simp at carried

end Parity

end Crc

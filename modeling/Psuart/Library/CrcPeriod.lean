import Mathlib.Dynamics.PeriodicPts.Lemmas
import Psuart.Library.Crc

namespace Crc

variable {w : Nat}

/-- Exactly two places of a bit string are set. -/
structure Pair (bits : List Bool) (first second : Nat) : Prop where
  order : first < second
  places : ∀ index, bits[index]? = some true ↔ index = first ∨ index = second

/-- The register behind a single set bit. -/
def impulse (poly : BitVec w) : BitVec w := feed poly 0#w true

theorem feed_true (poly register : BitVec w) :
    feed poly register true = shift poly register ^^^ impulse poly := by
  rw [impulse, feed, feed, shift_xor, BitVec.zero_xor]

theorem Pair.inside {bits : List Bool} {first second : Nat} (pair : Pair bits first second) :
    second < bits.length := by
  have set := (pair.places second).mpr (Or.inr rfl)
  exact (List.getElem?_eq_some_iff.mp set).1

/-- Runs of zeros surround the two places. -/
theorem Pair.split {bits : List Bool} {first second : Nat} (pair : Pair bits first second) :
    bits = List.replicate first false ++ true :: (List.replicate (second - first - 1) false ++
      true :: List.replicate (bits.length - second - 1) false) := by
  have order := pair.order
  have inside := pair.inside
  apply List.ext_getElem
  · simp only [List.length_append, List.length_cons, List.length_replicate]
    omega
  · intro index left right
    have place := pair.places index
    rw [List.getElem?_eq_getElem left, Option.some.injEq] at place
    rw [Bool.eq_iff_iff, place]
    simp only [List.getElem_append, List.getElem_cons, List.length_replicate, List.getElem_replicate]
    split
    · simp; omega
    · split
      · simp; omega
      · split
        · simp; omega
        · split <;> simp <;> omega

/-- Two errors cancel exactly when their distance is a period of the impulse. -/
theorem remainder_pair_eq_zero_iff {poly : BitVec w} (top : poly.getLsbD (w - 1) = true) {bits : List Bool}
    {first second : Nat} (pair : Pair bits first second) :
    remainder poly bits = 0#w ↔ Function.minimalPeriod (shift poly) (impulse poly) ∣ second - first := by
  have gap : second - first = (second - first - 1) + 1 := by
    have order := pair.order
    omega
  have value : remainder poly bits = (shift poly)^[bits.length - second - 1]
      ((shift poly)^[second - first] (impulse poly) ^^^ impulse poly) := by
    rw [remainder]
    nth_rewrite 1 [pair.split]
    rw [List.foldl_append, foldl_feed_replicate, shifts_zero, List.foldl_cons, List.foldl_append,
      foldl_feed_replicate, List.foldl_cons, foldl_feed_replicate, feed_true, gap, Function.iterate_succ_apply']
    rfl
  rw [value, ← Function.isPeriodicPt_iff_minimalPeriod_dvd]
  constructor
  · intro zero
    exact BitVec.xor_eq_zero_iff.mp (shifts_eq_zero top _ _ zero)
  · intro periodic
    rw [periodic.eq, BitVec.xor_self, shifts_zero]

end Crc

import Mathlib.Data.List.Lex
import Mathlib.Order.Lattice

namespace Comparison

variable {K : Type} [LinearOrder K]

/-- The sign of the number tells the order of the two keys. -/
structure Signs (value : Int) (first second : K) : Prop where
  less : value < 0 ↔ first < second
  equal : value = 0 ↔ first = second
  greater : 0 < value ↔ second < first

theorem Signs.refl (key : K) : Signs 0 key key :=
  ⟨iff_of_false (Int.lt_irrefl 0) (lt_irrefl key), iff_of_true rfl rfl,
    iff_of_false (Int.lt_irrefl 0) (lt_irrefl key)⟩

theorem Signs.of_lt {value : Int} {first second : K} (negative : value < 0) (below : first < second) :
    Signs value first second :=
  ⟨iff_of_true negative below, iff_of_false (Int.ne_of_lt negative) below.ne,
    iff_of_false (Int.not_lt.mpr (Int.le_of_lt negative)) below.not_gt⟩

theorem Signs.of_gt {value : Int} {first second : K} (positive : 0 < value) (above : second < first) :
    Signs value first second :=
  ⟨iff_of_false (Int.not_lt.mpr (Int.le_of_lt positive)) above.not_gt,
    iff_of_false (Int.ne_of_gt positive) above.ne', iff_of_true positive above⟩

theorem signs_sub (first second : Nat) : Signs ((first : Int) - second) first second := by
  constructor <;> omega

/-- Equal keys in front leave the order of two lists to their rests. -/
theorem Signs.cons {value : Int} {rest tail : List K} (signs : Signs value rest tail) (key : K) :
    Signs value (key :: rest) (key :: tail) where
  less := by
    rw [signs.less, List.cons_lt_cons_iff]
    simp
  equal := by
    rw [signs.equal, List.cons.injEq]
    exact (and_iff_right rfl).symm
  greater := by
    rw [signs.greater, List.cons_lt_cons_iff]
    simp

/-- Different keys in front decide the order of two lists. -/
theorem Signs.head {value : Int} {first second : K} (signs : Signs value first second) (differ : value ≠ 0)
    (rest tail : List K) : Signs value (first :: rest) (second :: tail) := by
  rcases Int.lt_or_lt_of_ne differ with negative | positive
  · exact .of_lt negative (List.cons_lt_cons_iff.mpr (Or.inl (signs.less.mp negative)))
  · exact .of_gt positive (List.cons_lt_cons_iff.mpr (Or.inl (signs.greater.mp positive)))

section Represents

variable {T : Type} {compare : T → T → Int} {key : T → K}
  (represents : ∀ x y, Signs (compare x y) (key x) (key y))

include represents

/-- A comparison of keys changes its sign with its arguments. -/
theorem sign_swap (x y : T) : (compare y x).sign = -(compare x y).sign := by
  rcases lt_trichotomy (key x) (key y) with below | same | above
  · rw [Int.sign_eq_neg_one_of_neg ((represents x y).less.mpr below),
      Int.sign_eq_one_of_pos ((represents y x).greater.mpr below)]
    rfl
  · rw [(represents x y).equal.mpr same, (represents y x).equal.mpr same.symm]
    rfl
  · rw [Int.sign_eq_one_of_pos ((represents x y).greater.mpr above),
      Int.sign_eq_neg_one_of_neg ((represents y x).less.mpr above)]

theorem nonpos_iff (x y : T) : compare x y ≤ 0 ↔ key x ≤ key y := by
  rw [← Int.not_lt, (represents x y).greater, not_lt]

theorem nonpos_trans {x y z : T} (first : compare x y ≤ 0) (second : compare y z ≤ 0) : compare x z ≤ 0 := by
  rw [nonpos_iff represents] at first second ⊢
  exact first.trans second

end Represents

end Comparison

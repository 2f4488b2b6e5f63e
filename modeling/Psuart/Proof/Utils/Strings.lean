import Psuart.Library.Scan
import Psuart.Model.Utils

namespace Psuart

theorem tolower_eq_zero (byte : Byte) : tolower byte = 0 ↔ byte = 0 := by
  revert byte
  decide

theorem tolower_zero : tolower 0#8 = 0#8 := by decide

/-- Terminated strings compare equal exactly when their lower case is the same. -/
theorem compareLower_eq_zero {first second : List Byte} (one : 0 ∉ first) (two : 0 ∉ second) :
    compareLower first second = 0 ↔ first.map tolower = second.map tolower := by
  induction first generalizing second with
  | nil =>
      cases second with
      | nil => simp [compareLower]
      | cons byte rest =>
          have visible : tolower byte ≠ 0 := fun zero => two (by simp [(tolower_eq_zero byte).mp zero])
          have value : (tolower byte).toNat ≠ 0 := fun zero => visible (BitVec.eq_of_toNat_eq zero)
          simp only [compareLower, List.map_nil, List.map_cons, reduceCtorEq, iff_false]
          omega
  | cons byte rest ih =>
      cases second with
      | nil =>
          have visible : tolower byte ≠ 0 := fun zero => one (by simp [(tolower_eq_zero byte).mp zero])
          have value : (tolower byte).toNat ≠ 0 := fun zero => visible (BitVec.eq_of_toNat_eq zero)
          simp only [compareLower, List.map_nil, List.map_cons, reduceCtorEq, iff_false]
          omega
      | cons other tail =>
          rw [List.mem_cons, not_or] at one two
          rw [compareLower, List.map_cons, List.map_cons, List.cons.injEq]
          by_cases same : tolower byte = tolower other
          · rw [if_pos same, ih one.2 two.2]
            simp [same]
          · have differ : (tolower byte).toNat ≠ (tolower other).toNat :=
              fun equal => same (BitVec.eq_of_toNat_eq equal)
            rw [if_neg same]
            simp only [same, false_and, iff_false]
            omega

theorem cString_eq {bytes : List Byte} (terminated : 0 ∉ bytes) : cString bytes = bytes := by
  rw [cString]
  exact Scan.takeWhile_ne_self terminated

end Psuart

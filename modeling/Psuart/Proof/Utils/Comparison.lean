import Psuart.Proof.Utils.Strings
import Psuart.Spec.Text

namespace Psuart
open Comparison

theorem zero_not_mem_cString (str : List Byte) : 0 ∉ cString str := by
  intro member
  have visible := List.mem_takeWhile_imp member
  simp at visible

/-- Only the terminator has the code zero. -/
theorem lowerCode_pos {c : Byte} (visible : c ≠ 0) : 0 < (tolower c).toNat := by
  rw [Nat.pos_iff_ne_zero]
  exact fun zero => visible ((tolower_eq_zero c).mp (BitVec.eq_of_toNat_eq zero))

/-- A terminator in one of the strings ends the loop. -/
theorem strincmpLoop_nil (n : Nat) (str : List Byte) :
    strincmpLoop (n + 1) [] str = -(tolower (str.headD 0)).toNat ∧
      strincmpLoop (n + 1) str [] = (tolower (str.headD 0)).toNat := by
  simp [strincmpLoop, tolower_zero]

/-- Two visible characters end the loop when their codes differ. -/
theorem strincmpLoop_cons (n : Nat) {c d : Byte} (one : c ≠ 0) (two : d ≠ 0) (rest tail : List Byte) :
    strincmpLoop (n + 1) (c :: rest) (d :: tail) =
      if (tolower c).toNat = (tolower d).toNat then strincmpLoop n rest tail
      else (tolower c).toNat - (tolower d).toNat := by
  by_cases same : (tolower c).toNat = (tolower d).toNat
  · simpa [strincmpLoop, same] using fun zero : c = 0 ∨ d = 0 => absurd zero (not_or.mpr ⟨one, two⟩)
  · have differ : ((tolower c).toNat : Int) - (tolower d).toNat ≠ 0 := by omega
    simp [strincmpLoop, same, differ]

/-- The loop stops at the shorter string or goes on behind equal codes. -/
theorem strincmpLoop_signs (n : Nat) {s1 s2 : List Byte} (one : 0 ∉ s1) (two : 0 ∉ s2) :
    Signs (strincmpLoop n s1 s2) ((s1.take n).map fun c => (tolower c).toNat)
      ((s2.take n).map fun c => (tolower c).toNat) := by
  induction n generalizing s1 s2 with
  | zero => exact .refl _
  | succ n ih =>
      cases s1 with
      | nil =>
          rw [(strincmpLoop_nil n s2).1]
          cases s2 with
          | nil => exact .refl _
          | cons d tail =>
              have above := lowerCode_pos (c := d) fun zero => two (zero ▸ List.mem_cons_self)
              exact .of_lt (Int.neg_lt_zero_iff.mpr (Int.natCast_pos.mpr above)) (List.nil_lt_cons _ _)
      | cons c rest =>
          cases s2 with
          | nil =>
              have above := lowerCode_pos (c := c) fun zero => one (zero ▸ List.mem_cons_self)
              rw [(strincmpLoop_nil n (c :: rest)).2]
              exact .of_gt (Int.natCast_pos.mpr above) (List.nil_lt_cons _ _)
          | cons d tail =>
              rw [List.mem_cons, not_or] at one two
              rw [strincmpLoop_cons n (Ne.symm one.1) (Ne.symm two.1), List.take_succ_cons,
                List.take_succ_cons, List.map_cons, List.map_cons]
              by_cases same : (tolower c).toNat = (tolower d).toNat
              · rw [if_pos same, same]
                exact (ih one.2 two.2).cons _
              · rw [if_neg same]
                exact (signs_sub _ _).head (by omega) _ _

/-- The count zero covers both strings. -/
theorem utilsStrincmp_signs (n : Nat) (s1 s2 : List Byte) :
    Signs (utilsStrincmp s1 s2 n) (comparedCodes n s1) (comparedCodes n s2) := by
  have signs (count : Nat) := strincmpLoop_signs count (zero_not_mem_cString s1) (zero_not_mem_cString s2)
  rw [utilsStrincmp, comparedCodes, comparedCodes]
  by_cases whole : n = 0
  · have all := signs (max (cString s1).length (cString s2).length)
    rw [List.take_of_length_le (Nat.le_max_left _ _), List.take_of_length_le (Nat.le_max_right _ _)] at all
    rw [if_pos whole, if_pos whole, if_pos whole]
    exact all
  · rw [if_neg whole, if_neg whole, if_neg whole]
    exact signs n

theorem lowerCode_injective {first second : List Byte} :
    first.map (fun c => (tolower c).toNat) = second.map (fun c => (tolower c).toNat) ↔
      first.map tolower = second.map tolower := by
  have codes (str : List Byte) : str.map (fun c => (tolower c).toNat) = (str.map tolower).map BitVec.toNat := by
    rw [List.map_map]
    rfl
  rw [codes, codes]
  exact (List.map_injective_iff.mpr fun _ _ => BitVec.eq_of_toNat_eq).eq_iff

/-- The comparison of whole strings finds equal ones up to their case. -/
theorem utilsStrincmp_eq_zero (s1 s2 : List Byte) :
    utilsStrincmp s1 s2 0 = 0 ↔ (cString s1).map tolower = (cString s2).map tolower := by
  rw [(utilsStrincmp_signs 0 s1 s2).equal]
  exact lowerCode_injective

/-- No round reads behind a terminator. -/
theorem strincmpLoopReads_inside (n : Nat) (s1 s2 : List Byte) :
    ∀ i ∈ strincmpLoopReads n s1 s2, i ≤ s1.length ∧ i ≤ s2.length := by
  induction n generalizing s1 s2 with
  | zero => exact List.forall_mem_nil _
  | succ n ih =>
      rw [strincmpLoopReads, List.forall_mem_cons]
      constructor
      · exact ⟨Nat.zero_le _, Nat.zero_le _⟩
      split
      · exact List.forall_mem_nil _
      · rename_i goes
        cases s1 with
        | nil => exact absurd (Or.inr (Or.inl rfl)) goes
        | cons c rest =>
            cases s2 with
            | nil => exact absurd (Or.inr (Or.inr rfl)) goes
            | cons d tail =>
                rw [List.forall_mem_map]
                intro i member
                obtain ⟨left, right⟩ := ih rest tail i member
                exact ⟨Nat.succ_le_succ left, Nat.succ_le_succ right⟩

theorem strlenReads_inside (str : List Byte) : ∀ i ∈ strlenReads str, i ≤ (cString str).length :=
  fun _ member => Nat.lt_succ_iff.mp (List.mem_range.mp member)

theorem utilsStrincmpReads_inside (n : Nat) (s1 s2 : List Byte) :
    (∀ i ∈ (utilsStrincmpReads s1 s2 n).1, i ≤ (cString s1).length) ∧
      ∀ i ∈ (utilsStrincmpReads s1 s2 n).2, i ≤ (cString s2).length := by
  have loop (count : Nat) := strincmpLoopReads_inside count (cString s1) (cString s2)
  rw [utilsStrincmpReads]
  split
  · constructor
    · exact List.forall_mem_append.mpr ⟨strlenReads_inside s1, fun i member => (loop _ i member).1⟩
    · exact List.forall_mem_append.mpr ⟨strlenReads_inside s2, fun i member => (loop _ i member).2⟩
  · exact ⟨fun i member => (loop _ i member).1, fun i member => (loop _ i member).2⟩

/-- The call compares without case, and the order laws follow from the order of the codes. -/
theorem utilsStrincmp_compares (n : Nat) : ComparesLower n where
  order := utilsStrincmp_signs n
  equal whole s1 s2 := by
    rw [whole]
    exact utilsStrincmp_eq_zero s1 s2
  antisymmetric := sign_swap (utilsStrincmp_signs n)
  transitive _ _ _ := nonpos_trans (utilsStrincmp_signs n)
  first s1 s2 := (utilsStrincmpReads_inside n s1 s2).1
  second s1 s2 := (utilsStrincmpReads_inside n s1 s2).2

/-- A switch is found exactly when some argument is equal to it up to its marks and its case. -/
theorem checkCmdLine_iff (argv : List (List Byte)) (sw : List Byte) :
    checkCmdLine argv sw = true ↔
      ∃ arg ∈ argv.tail, (cString (arg.dropWhile isSwitchMark)).map tolower = (cString sw).map tolower := by
  simp only [checkCmdLine, List.any_eq_true, decide_eq_true_eq, utilsStrincmp_eq_zero]

end Psuart

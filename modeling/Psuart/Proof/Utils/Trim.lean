import Psuart.Spec.Text

namespace Psuart
open Trimming

/-- The loop copies the slice. -/
theorem copyLoop_eq (sstr : List Byte) (start count : Nat) :
    copyLoop sstr start count = (sstr.drop start).take count := by
  induction count generalizing start with
  | zero => rw [List.take_zero, copyLoop]
  | succ count ih =>
      rw [copyLoop]
      by_cases inside : start < sstr.length
      · rw [dif_pos inside, ih, List.drop_eq_getElem_cons inside, List.take_succ_cons]
        rfl
      · rw [dif_neg inside, List.drop_eq_nil_of_le (Nat.not_lt.mp inside), List.take_nil]

/-- The second loop finds the last character that is not blank. -/
theorem trimEnd_eq (str : List Byte) {count : Nat} (inside : count ≤ str.length) :
    trimEnd str count =
      if (str.take count).rdropWhile isBlank = [] then none
      else some (((str.take count).rdropWhile isBlank).length - 1) := by
  induction count with
  | zero => rfl
  | succ count ih =>
      have last : str.take (count + 1) = str.take count ++ [str.getD count 0] := by
        rw [List.take_succ_eq_append_getElem inside, List.getD_eq_getElem _ _ inside]
      rw [trimEnd, last, List.rdropWhile_concat]
      split
      · exact ih (Nat.le_of_succ_le inside)
      · rw [if_neg (List.append_ne_nil_of_right_ne_nil _ (List.cons_ne_nil _ _)), List.length_append,
          List.length_take, List.length_singleton, Nat.add_sub_cancel, Nat.min_eq_left (Nat.le_of_succ_le inside)]

/-- The second loop stays inside the string when it stops. -/
theorem trimEndReads_inside (str : List Byte) {count place : Nat} (stops : trimEnd str count = some place) :
    ∀ i ∈ trimEndReads str count, 0 ≤ i ∧ i < count := by
  induction count with
  | zero => cases stops
  | succ count ih =>
      rw [trimEnd] at stops
      rw [trimEndReads, List.forall_mem_cons]
      constructor
      · omega
      split
      · rename_i blank
        rw [if_pos blank] at stops
        intro i member
        have bounds := ih stops i member
        omega
      · exact List.forall_mem_nil _

/-- A blank string is passed down to the place in front of it. -/
theorem trimEndReads_underrun (str : List Byte) {count : Nat} (passes : trimEnd str count = none) :
    -1 ∈ trimEndReads str count := by
  induction count with
  | zero => exact List.mem_singleton_self _
  | succ count ih =>
      rw [trimEnd] at passes
      split at passes
      · rename_i blank
        rw [trimEndReads, if_pos blank]
        exact List.mem_cons_of_mem _ (ih passes)
      · cases passes

/-- A string is blank exactly when nothing is left of it from its end. -/
theorem rdropWhile_eq_nil (str : List Byte) : str.rdropWhile isBlank = [] ↔ strip isBlank str = [] := by
  rw [List.rdropWhile_eq_nil_iff, strip_eq_nil_iff]

/-- The ends that both loops leave around a string that is not blank. -/
theorem trim_ends {str : List Byte} (visible : strip isBlank str ≠ []) :
    trimEnd str str.length = some (trimStart str + (strip isBlank str).length - 1) ∧
      trimStart str + (strip isBlank str).length ≤ str.length := by
  have length : (str.rdropWhile isBlank).length = trimStart str + (strip isBlank str).length := by
    rw [← takeWhile_append_strip isBlank visible, List.length_append, trimStart]
  constructor
  · rw [trimEnd_eq str le_rfl, List.take_length, if_neg (mt (rdropWhile_eq_nil str).mp visible), length]
  · rw [← length]
    exact (List.rdropWhile_prefix isBlank str).length_le

/-- The number of characters that `Trim` passes to `Copy`. -/
theorem trim_count {str : List Byte} (visible : strip isBlank str ≠ []) :
    ((trimStart str + (strip isBlank str).length - 1 : Nat) : Int) - trimStart str + 1 =
      (strip isBlank str).length := by
  have positive := List.length_pos_of_ne_nil visible
  omega

theorem copyLoop_strip {str : List Byte} (visible : strip isBlank str ≠ []) :
    copyLoop str (trimStart str) (strip isBlank str).length = strip isBlank str := by
  have slice := strip_eq_slice isBlank visible
  rw [← takeWhile_append_strip isBlank visible, List.length_append, Nat.add_sub_cancel_left] at slice
  rw [copyLoop_eq]
  exact slice

theorem trim_eq {str : List Byte} (visible : strip isBlank str ≠ []) : trim str = .ok (strip isBlank str) := by
  have positive := List.length_pos_of_ne_nil visible
  obtain ⟨found, inside⟩ := trim_ends visible
  rw [trim, found]
  change Except.ok (copy str _ _) = _
  rw [trim_count visible, copy, if_neg (by omega), Int.toNat_natCast, copyLoop_strip visible]

theorem trimReads_inside {str : List Byte} (visible : strip isBlank str ≠ []) :
    ∀ i ∈ trimReads str, 0 ≤ i ∧ i ≤ str.length := by
  have positive := List.length_pos_of_ne_nil visible
  obtain ⟨found, inside⟩ := trim_ends visible
  rw [trimReads, found]
  change ∀ i ∈ _ ++ _ ++ List.map Int.ofNat (copyReads str _ _), _
  rw [trim_count visible, copyReads, if_neg (by omega), Int.toNat_natCast, copyLoop_strip visible,
    List.forall_mem_append, List.forall_mem_append, List.forall_mem_map, List.forall_mem_map]
  refine ⟨⟨fun i member => ?_, fun i member => ?_⟩, fun i member => ?_⟩
  · rw [List.mem_append, List.mem_range, List.mem_range] at member
    change 0 ≤ (i : Int) ∧ (i : Int) ≤ str.length
    omega
  · have bounds := trimEndReads_inside str found i member
    omega
  · rw [List.mem_append, List.mem_range, List.mem_range'_1] at member
    change 0 ≤ (i : Int) ∧ (i : Int) ≤ str.length
    omega

theorem strip_ne_nil_iff (str : List Byte) : strip isBlank str ≠ [] ↔ ∃ c ∈ str, ¬isBlank c := by
  rw [Ne, strip_eq_nil_iff, not_forall]
  simp only [Classical.not_imp]

/-- The call is in bounds and exact when some character is not blank, and only then. -/
theorem trim_inside_iff (str : List Byte) : TrimsInside str ↔ ∃ c ∈ str, ¬isBlank c := by
  rw [← strip_ne_nil_iff]
  constructor
  · intro trims blank
    have passes : trimEnd str str.length = none := by
      rw [trimEnd_eq str le_rfl, List.take_length, if_pos ((rdropWhile_eq_nil str).mpr blank)]
    have read : -1 ∈ trimReads str :=
      List.mem_append_left _ (List.mem_append_right _ (trimEndReads_underrun str passes))
    exact absurd (trims.inside _ read).1 (by decide)
  · intro visible
    refine ⟨trimReads_inside visible, trim_eq visible, fun result same => ?_⟩
    rw [trim_eq visible] at same
    obtain rfl := Except.ok.inj same
    have stripped := strip_strip isBlank str
    rw [trim_eq (by rw [stripped]; exact visible), stripped]

/-- A blank string and an empty one are read in front of their first character. -/
theorem trim_underruns :
    trim (stringBytes " \t") = .error .stringUnderrun ∧ trim [] = .error .stringUnderrun ∧
      -1 ∈ trimReads (stringBytes " \t") ∧ ¬TrimsInside (stringBytes " \t") ∧ ¬TrimsInside [] := by
  have blank : -1 ∈ trimReads (stringBytes " \t") := by decide
  have empty : -1 ∈ trimReads [] := by decide
  exact ⟨by decide, by decide, blank, fun trims => absurd (trims.inside _ blank).1 (by decide),
    fun trims => absurd (trims.inside _ empty).1 (by decide)⟩

end Psuart

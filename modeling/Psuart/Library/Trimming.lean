import Mathlib.Data.List.DropRight
import Mathlib.Data.List.Infix

namespace Trimming

variable {A : Type} (blank : A → Bool)

/-- A list without its longest blank front and its longest blank back. -/
def strip (list : List A) : List A := (list.dropWhile blank).rdropWhile blank

/-- A blank front stays in front of a list that is not blank. -/
theorem rdropWhile_append {list : List A} (visible : list.rdropWhile blank ≠ []) (front : List A) :
    (front ++ list).rdropWhile blank = front ++ list.rdropWhile blank := by
  have left : (list.reverse.dropWhile blank).isEmpty = false := by
    rw [List.isEmpty_eq_false_iff]
    exact fun empty => visible (by rw [List.rdropWhile, empty, List.reverse_nil])
  rw [List.rdropWhile, List.rdropWhile, List.reverse_append, List.dropWhile_append, left,
    if_neg Bool.false_ne_true, List.reverse_append, List.reverse_reverse]

theorem strip_eq_nil_iff (list : List A) : strip blank list = [] ↔ ∀ char ∈ list, blank char := by
  rw [strip, List.rdropWhile_eq_nil_iff]
  constructor
  · intro rest
    have empty : list.dropWhile blank = [] := by
      by_contra visible
      have first := List.head_dropWhile_not blank visible
      rw [rest _ (List.head_mem visible)] at first
      cases first
    exact List.dropWhile_eq_nil_iff.mp empty
  · intro all char member
    exact all char ((List.dropWhile_suffix blank).mem member)

/-- The list without its blank back is its blank front and the stripped list. -/
theorem takeWhile_append_strip {list : List A} (visible : strip blank list ≠ []) :
    list.takeWhile blank ++ strip blank list = list.rdropWhile blank := by
  conv_rhs => rw [← List.takeWhile_append_dropWhile (p := blank) (l := list)]
  exact (rdropWhile_append blank visible _).symm

/-- The stripped list stands between the two ends that the scans find. -/
theorem strip_eq_slice {list : List A} (visible : strip blank list ≠ []) :
    (list.drop (list.takeWhile blank).length).take
        ((list.rdropWhile blank).length - (list.takeWhile blank).length) = strip blank list := by
  have back : list.drop (list.takeWhile blank).length = list.dropWhile blank :=
    List.append_cancel_left ((List.prefix_append_drop (List.takeWhile_prefix blank)).symm.trans
      List.takeWhile_append_dropWhile.symm)
  rw [back, ← takeWhile_append_strip blank visible, List.length_append, Nat.add_sub_cancel_left]
  exact (List.prefix_iff_eq_take.mp (List.rdropWhile_prefix blank _)).symm

/-- A stripped list is stripped. -/
theorem strip_strip (list : List A) : strip blank (strip blank list) = strip blank list := by
  by_cases empty : strip blank list = []
  · rw [empty]
    rfl
  have same : (strip blank list).dropWhile blank = strip blank list := by
    rw [List.dropWhile_eq_self_iff]
    intro inside
    have front := (List.rdropWhile_prefix blank (list.dropWhile blank)).getElem inside
    have nonempty : list.dropWhile blank ≠ [] := fun none => empty (by rw [strip, none, List.rdropWhile_nil])
    have first := List.head_dropWhile_not blank nonempty
    rw [List.head_eq_getElem, ← front] at first
    exact ne_true_of_eq_false first
  conv_lhs => rw [strip, same]
  exact List.rdropWhile_idempotent blank _

end Trimming

import Mathlib.Data.Nat.Digits.Lemmas

namespace Radix

variable {base : Nat}

/-- The first digit weighs the most. -/
def value (base : Nat) (digits : List Nat) : Nat :=
  digits.foldl (fun total digit => total * base + digit) 0

/-- The shortest digits of a number, where zero has one digit. -/
def digits (base number : Nat) : List Nat :=
  if number = 0 then [0] else (Nat.digits base number).reverse

@[simp] theorem value_nil (base : Nat) : value base [] = 0 := rfl

@[simp] theorem value_append_singleton (base : Nat) (front : List Nat) (last : Nat) :
    value base (front ++ [last]) = value base front * base + last := by
  rw [value, List.foldl_append]
  rfl

/-- The digits of a number have its value. -/
theorem value_digits (base number : Nat) : value base (digits base number) = number := by
  unfold digits
  split
  · rename_i zero
    simp [value, zero]
  · have sum := Nat.ofDigits_digits base number
    rw [Nat.ofDigits_eq_foldr] at sum
    rw [value, List.foldl_reverse]
    refine Eq.trans ?_ sum
    congr 1
    funext digit total
    rw [Nat.cast_id, Nat.mul_comm, Nat.add_comm]

theorem digits_lt (one : 1 < base) (number : Nat) : ∀ digit ∈ digits base number, digit < base := by
  intro digit member
  unfold digits at member
  split at member
  · rw [List.mem_singleton.mp member]
    omega
  · exact Nat.digits_lt_base one (List.mem_reverse.mp member)

theorem digits_ne_nil (base number : Nat) : digits base number ≠ [] := by
  unfold digits
  split
  · exact List.cons_ne_nil _ _
  · rename_i positive
    rw [ne_eq, List.reverse_eq_nil_iff]
    exact Nat.digits_ne_nil_iff_ne_zero.mpr positive

/-- Only the number zero starts with a zero. -/
theorem digits_head {number : Nat} (positive : number ≠ 0) :
    (digits base number).head? ≠ some 0 := by
  rw [digits, if_neg positive, List.head?_reverse]
  intro last
  have visible : Nat.digits base number ≠ [] := Nat.digits_ne_nil_iff_ne_zero.mpr positive
  rw [List.getLast?_eq_getLast_of_ne_nil visible] at last
  exact Nat.getLast_digit_ne_zero base positive (Option.some.inj last)

/-- Larger digits have a larger value. -/
theorem value_map_le {A : Type} (base : Nat) (list : List A) (first second : A → Nat)
    (below : ∀ char ∈ list, first char ≤ second char) :
    value base (list.map first) ≤ value base (list.map second) := by
  induction list using List.reverseRecOn with
  | nil => exact Nat.le_refl _
  | append_singleton front last ih =>
      simp only [List.map_append, List.map_singleton, value_append_singleton]
      have head := ih fun char member => below char (List.mem_append_left _ member)
      have tail := below last (by simp)
      exact Nat.add_le_add (Nat.mul_le_mul_right base head) tail

/-- Larger digits with the same value are the same digits. -/
theorem value_map_eq {A : Type} (positive : 0 < base) (list : List A) (first second : A → Nat)
    (below : ∀ char ∈ list, first char ≤ second char)
    (equal : value base (list.map first) = value base (list.map second)) :
    ∀ char ∈ list, first char = second char := by
  induction list using List.reverseRecOn with
  | nil => exact List.forall_mem_nil _
  | append_singleton front last ih =>
      simp only [List.map_append, List.map_singleton, value_append_singleton] at equal
      have inside : ∀ char ∈ front, first char ≤ second char :=
        fun char member => below char (List.mem_append_left _ member)
      have head := value_map_le base front first second inside
      have tail := below last (by simp)
      have product := Nat.mul_le_mul_right base head
      have same : value base (front.map first) = value base (front.map second) :=
        Nat.eq_of_mul_eq_mul_right positive (by omega)
      refine List.forall_mem_append.mpr ⟨ih inside same, List.forall_mem_singleton.mpr ?_⟩
      rw [same] at equal
      omega

end Radix

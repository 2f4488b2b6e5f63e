import Mathlib.Logic.Function.Basic
import Mathlib.Data.List.Basic
import Mathlib.Data.Nat.ModEq

namespace Cells

variable {I A : Type} [DecidableEq I]

/-- The store writes the values in order to the cells of an address map. -/
def store (memory : I → A) (cell : Nat → I) : List A → I → A
  | [] => memory
  | value :: rest => store (Function.update memory (cell 0) value) (fun index => cell (index + 1)) rest

/-- The load reads the first cells of an address map. -/
def load (memory : I → A) (cell : Nat → I) (count : Nat) : List A :=
  (List.range count).map fun index => memory (cell index)

omit [DecidableEq I] in
@[simp] theorem load_length (memory : I → A) (cell : Nat → I) (count : Nat) :
    (load memory cell count).length = count := by
  simp [load]

omit [DecidableEq I] in
@[simp] theorem load_zero (memory : I → A) (cell : Nat → I) : load memory cell 0 = [] := rfl

omit [DecidableEq I] in
@[simp] theorem load_getElem (memory : I → A) (cell : Nat → I) (count index : Nat)
    (inside : index < (load memory cell count).length) :
    (load memory cell count)[index] = memory (cell index) := by
  simp [load]

omit [DecidableEq I] in
/-- Adjacent loads form one load. -/
theorem load_add (memory : I → A) (cell : Nat → I) (first second : Nat) :
    load memory cell (first + second) =
      load memory cell first ++ load memory (fun index => cell (first + index)) second := by
  simp [load, List.range_add, Function.comp_def]

omit [DecidableEq I] in
/-- A load depends only on the cells that it reads. -/
theorem load_congr {memory other : I → A} {cell path : Nat → I} {count : Nat}
    (same : ∀ index, index < count → memory (cell index) = other (path index)) :
    load memory cell count = load other path count := by
  apply List.map_congr_left
  intro index member
  exact same index (List.mem_range.mp member)

omit [DecidableEq I] in
/-- A prefix of a load is a shorter load. -/
theorem load_take (memory : I → A) (cell : Nat → I) (count short : Nat) :
    (load memory cell count).take short = load memory cell (min short count) := by
  simp [load, ← List.map_take, List.take_range]

omit [DecidableEq I] in
/-- A suffix of a load starts at a later cell. -/
theorem load_drop (memory : I → A) (cell : Nat → I) (count short : Nat) :
    (load memory cell count).drop short =
      load memory (fun index => cell (short + index)) (count - short) := by
  apply List.ext_getElem
  · simp
  · intro index left right
    simp [load]

/-- Adjacent stores form one store. -/
theorem store_append (memory : I → A) (cell : Nat → I) (first second : List A) :
    store memory cell (first ++ second) =
      store (store memory cell first) (fun index => cell (first.length + index)) second := by
  induction first generalizing memory cell with
  | nil => simp [store]
  | cons value rest ih =>
      simp only [List.cons_append, store, ih, List.length_cons]
      congr 1
      funext index
      rw [Nat.add_right_comm]

/-- A store depends only on the cells that it writes. -/
theorem store_congr (memory : I → A) {cell path : Nat → I} {values : List A}
    (same : ∀ index, index < values.length → cell index = path index) :
    store memory cell values = store memory path values := by
  induction values generalizing memory cell path with
  | nil => rfl
  | cons value rest ih =>
      simp only [store]
      rw [same 0 (by simp)]
      apply ih
      intro index inside
      exact same (index + 1) (by simpa using inside)

/-- A store keeps every cell outside its address range. -/
theorem store_outside (memory : I → A) (cell : Nat → I) (values : List A) (target : I)
    (outside : ∀ index, index < values.length → cell index ≠ target) :
    store memory cell values target = memory target := by
  induction values generalizing memory cell with
  | nil => rfl
  | cons value rest ih =>
      simp only [store]
      rw [ih _ _ (fun index inside => outside (index + 1) (by simpa using inside))]
      exact Function.update_of_ne (outside 0 (by simp)).symm _ _

/-- The last write to a cell decides its value. -/
theorem store_last (memory : I → A) (cell : Nat → I) (values : List A) (index : Nat)
    (inside : index < values.length)
    (last : ∀ later, index < later → later < values.length → cell later ≠ cell index) :
    store memory cell values (cell index) = values[index] := by
  induction values generalizing memory cell index with
  | nil => simp at inside
  | cons value rest ih =>
      simp only [store]
      cases index with
      | zero =>
          rw [store_outside _ _ _ _ fun later below => last (later + 1) (by omega) (by simpa using below)]
          simp
      | succ index =>
          rw [ih _ (fun index => cell (index + 1)) index (by simpa using inside)]
          · simp
          · intro later above below
            exact last (later + 1) (by omega) (by simpa using below)

/-- A load returns the values of the preceding store to distinct cells. -/
theorem load_store (memory : I → A) (cell : Nat → I) (values : List A)
    (distinct : ∀ left right, left < right → right < values.length → cell right ≠ cell left) :
    load (store memory cell values) cell values.length = values := by
  apply List.ext_getElem
  · simp
  · intro index left right
    rw [load_getElem, store_last memory cell values index right]
    intro later above below
    exact distinct index later above below

/-- A store to other cells does not change a load. -/
theorem load_store_disjoint (memory : I → A) (cell path : Nat → I) (values : List A) (count : Nat)
    (disjoint : ∀ left right, left < values.length → right < count → cell left ≠ path right) :
    load (store memory cell values) path count = load memory path count := by
  apply load_congr
  intro index inside
  exact store_outside memory cell values _ fun left below => disjoint left index below inside

/-- The circular address map visits the positions of a ring from a start position. -/
def circular (size start index : Nat) : Nat := (start + index) % size

/-- The circular positions of one turn are distinct. -/
theorem circular_ne {size start left right : Nat} (before : left < right)
    (turn : right < left + size) : circular size start right ≠ circular size start left := by
  intro equal
  have step : (start + left + (right - left)) % size = (start + left) % size := by
    rw [show start + left + (right - left) = start + right by omega]
    exact equal
  have multiple : size ∣ right - left := by
    have := (Nat.modEq_iff_dvd' (by omega : start + left ≤ start + left + (right - left))).mp step.symm
    simpa using this
  exact absurd (Nat.le_of_dvd (by omega) multiple) (by omega)

/-- The position of one turn is determined by its cell. -/
theorem circular_injective {size start left right : Nat} (leftTurn : left < size)
    (rightTurn : right < size) (same : circular size start left = circular size start right) :
    left = right := by
  rcases Nat.lt_trichotomy left right with before | equal | after
  · exact absurd same.symm (circular_ne before (by omega))
  · exact equal
  · exact absurd same (circular_ne after (by omega))

/-- A move from a circular position is a longer move from its start. -/
theorem circular_circular (size start first second : Nat) :
    circular size (circular size start first) second = circular size start (first + second) := by
  rw [circular, circular, circular, Nat.mod_add_mod, Nat.add_assoc]

end Cells

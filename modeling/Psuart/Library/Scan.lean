import Mathlib.Data.List.GetD
import Mathlib.Data.List.TakeWhile

namespace Scan

variable {A : Type}

/-- The terminator stands behind the last character. -/
def charAt (terminator : A) (text : List A) (index : Nat) : A := text.getD index terminator

/-- The loop moves an index over the characters of a class. -/
def scanWhile (inClass : A → Bool) (text : List A) (index : Nat) : Nat :=
  index + ((text.drop index).takeWhile inClass).length

theorem charAt_end (terminator : A) {text : List A} {index : Nat} (behind : text.length ≤ index) :
    charAt terminator text index = terminator := by
  rw [charAt, List.getD_eq_default _ _ behind]

/-- The character behind a front is the first one of the back. -/
theorem charAt_append (terminator : A) (front back : List A) (index : Nat) :
    charAt terminator (front ++ back) (front.length + index) = charAt terminator back index := by
  rw [charAt, charAt, List.getD_append_right _ _ _ _ (by omega), Nat.add_sub_cancel_left]

theorem charAt_front (terminator : A) (front back : List A) :
    charAt terminator (front ++ back) front.length = charAt terminator back 0 :=
  charAt_append terminator front back 0

/-- A scan starts behind a front. -/
theorem scanWhile_front (inClass : A → Bool) (front back : List A) :
    scanWhile inClass (front ++ back) front.length =
      (front ++ back.takeWhile inClass).length := by
  rw [scanWhile, List.drop_left, List.length_append]

/-- A scan stops at the first character outside its class. -/
theorem takeWhile_stop {inClass : A → Bool} {text rest : List A} {stop : A}
    (inside : ∀ char ∈ text, inClass char = true) (outside : inClass stop = false) :
    (text ++ stop :: rest).takeWhile inClass = text := by
  rw [List.takeWhile_append_of_pos inside, List.takeWhile_cons_of_neg (by simp [outside]),
    List.append_nil]

/-- A scan for a character stops at its first place. -/
theorem takeWhile_ne_stop [DecidableEq A] {text : List A} {stop : A} (absent : stop ∉ text) (rest : List A) :
    (text ++ stop :: rest).takeWhile (· ≠ stop) = text := by
  apply takeWhile_stop
  · exact fun char member => decide_eq_true fun equal => absent (equal ▸ member)
  · exact decide_eq_false (not_not.mpr rfl)

/-- A scan for a character that is not in the text passes it whole. -/
theorem takeWhile_ne_self [DecidableEq A] {text : List A} {stop : A} (absent : stop ∉ text) :
    text.takeWhile (· ≠ stop) = text :=
  List.takeWhile_eq_self_iff.mpr fun _ member => decide_eq_true fun equal => absent (equal ▸ member)

/-- A scan over a text stops behind it when the next character or the terminator is outside its class. -/
theorem scanWhile_between (terminator : A) {inClass : A → Bool} {text back : List A} (front : List A)
    (inside : ∀ char ∈ text, inClass char = true) (outside : inClass (back.headD terminator) = false) :
    scanWhile inClass (front ++ (text ++ back)) front.length = (front ++ text).length := by
  rw [scanWhile_front, List.takeWhile_append_of_pos inside]
  cases back with
  | nil => rw [List.takeWhile_nil, List.append_nil]
  | cons stop rest =>
      rw [List.headD_cons] at outside
      rw [List.takeWhile_cons, outside, if_neg Bool.false_ne_true, List.append_nil]

/-- A scan stops inside a text that leaves its class. -/
theorem takeWhile_inside {inClass : A → Bool} {text : List A} (leaves : text.all inClass = false)
    (rest : List A) : (text ++ rest).takeWhile inClass = text.takeWhile inClass := by
  rw [List.takeWhile_append, if_neg]
  intro whole
  have same := (List.takeWhile_prefix (l := text) inClass).eq_of_length whole
  rw [List.all_eq_true.mpr (List.takeWhile_eq_self_iff.mp same)] at leaves
  cases leaves

/-- The character at the end of a scan is outside its class. -/
theorem charAt_scanWhile (inClass : A → Bool) (terminator : A) (outside : inClass terminator = false)
    (text : List A) (index : Nat) :
    inClass (charAt terminator text (scanWhile inClass text index)) = false := by
  have split := List.takeWhile_append_dropWhile (p := inClass) (l := text.drop index)
  have moved (count : Nat) : charAt terminator text (index + count) =
      charAt terminator (text.drop index) count := by
    simp only [charAt, List.getD_eq_getElem?_getD, List.getElem?_drop]
  have first := List.head?_dropWhile_not inClass (text.drop index)
  have reached := charAt_front terminator ((text.drop index).takeWhile inClass)
    ((text.drop index).dropWhile inClass)
  rw [split] at reached
  rw [scanWhile, moved, reached]
  cases rest : (text.drop index).dropWhile inClass with
  | nil => exact outside
  | cons char _ =>
      rw [rest] at first
      exact first

theorem scanWhile_ge (inClass : A → Bool) (text : List A) (index : Nat) :
    index ≤ scanWhile inClass text index := Nat.le_add_right _ _

/-- A scan stops at the latest at an index outside its class. -/
theorem scanWhile_le {inClass : A → Bool} {terminator : A} {text : List A} {index limit : Nat}
    (outside : inClass (charAt terminator text limit) = false) (start : index ≤ limit) :
    scanWhile inClass text index ≤ limit := by
  rw [scanWhile]
  by_contra beyond
  have inner : limit - index < ((text.drop index).takeWhile inClass).length := by omega
  have reached : inClass ((text.drop index).takeWhile inClass)[limit - index] = true :=
    List.mem_takeWhile_imp (List.getElem_mem inner)
  have same : charAt terminator text limit = ((text.drop index).takeWhile inClass)[limit - index] := by
    have short := (List.takeWhile_prefix (l := text.drop index) inClass).length_le
    rw [List.length_drop] at short
    rw [(List.takeWhile_prefix inClass).getElem inner, List.getElem_drop, charAt,
      List.getD_eq_getElem _ _ (by omega)]
    congr 1
    omega
  rw [same, reached] at outside
  cases outside

/-- The places that a search visits, each with the elements behind it, up to the first one that is found. -/
def visited (found : A → Bool) : List A → List (A × List A)
  | [] => []
  | value :: rest => (value, rest) :: if found value then [] else visited found rest

/-- A place is visited exactly when nothing in front of it is found. -/
theorem mem_visited {found : A → Bool} {list rest : List A} {value : A} :
    (value, rest) ∈ visited found list ↔
      ∃ front, list = front ++ value :: rest ∧ ∀ other ∈ front, found other = false := by
  induction list with
  | nil =>
      refine iff_of_false List.not_mem_nil ?_
      rintro ⟨front, empty, _⟩
      simp at empty
  | cons first tail ih =>
      rw [visited, List.mem_cons]
      constructor
      · rintro (same | later)
        · obtain ⟨rfl, rfl⟩ := Prod.mk.inj same
          exact ⟨[], rfl, List.forall_mem_nil _⟩
        · by_cases stops : found first = true
          · rw [if_pos stops] at later
            cases later
          · rw [if_neg stops] at later
            obtain ⟨front, whole, passed⟩ := ih.mp later
            exact ⟨first :: front, by rw [whole, List.cons_append],
              List.forall_mem_cons.mpr ⟨Bool.eq_false_iff.mpr stops, passed⟩⟩
      · rintro ⟨front, whole, passed⟩
        cases front with
        | nil =>
            obtain ⟨rfl, rfl⟩ := List.cons.inj whole
            exact Or.inl rfl
        | cons other front =>
            obtain ⟨rfl, rfl⟩ := List.cons.inj whole
            obtain ⟨now, later⟩ := List.forall_mem_cons.mp passed
            exact Or.inr (by rw [if_neg (by rw [now]; decide)]; exact ih.mpr ⟨front, rfl, later⟩)

/-- The first stop at an open place cuts a text. A character decides whether the place behind it is open. -/
def cutAt (opens stops : A → Bool) : Bool → List A → List A × List A
  | _, [] => ([], [])
  | ready, char :: rest =>
      if ready ∧ stops char then ([], char :: rest)
      else (char :: (cutAt opens stops (opens char) rest).1, (cutAt opens stops (opens char) rest).2)

theorem cutAt_append (opens stops : A → Bool) (ready : Bool) (text : List A) :
    (cutAt opens stops ready text).1 ++ (cutAt opens stops ready text).2 = text := by
  induction text generalizing ready with
  | nil => rfl
  | cons char rest ih =>
      rw [cutAt]
      split
      · rfl
      · rw [List.cons_append, ih]

/-- A cut leaves no more than the text. -/
theorem cutAt_le (opens stops : A → Bool) (ready : Bool) (text : List A) :
    (cutAt opens stops ready text).2.length ≤ text.length := by
  have parts := congrArg List.length (cutAt_append opens stops ready text)
  rw [List.length_append] at parts
  omega

end Scan

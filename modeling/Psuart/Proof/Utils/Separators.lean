import Psuart.Library.Scan
import Psuart.Spec.Text

namespace Psuart

variable {key value : List Byte} {spliter : Byte}

theorem strchr_isSome (str : List Byte) (c : Byte) : (strchr str c).isSome ↔ c ∈ str := by
  simp [strchr]

/-- The loop stops behind the first separator. -/
theorem splitKeyLoop_key (free : ∀ d ∈ spliters, d ∉ key) (separates : spliter ∈ spliters) (value : List Byte) :
    splitKeyLoop (key ++ spliter :: value) = key.length + 1 := by
  induction key with
  | nil =>
      rw [List.nil_append, splitKeyLoop, if_pos ((strchr_isSome _ _).mpr separates)]
      rfl
  | cons c key ih =>
      have plain : c ∉ spliters := fun member => free c member List.mem_cons_self
      rw [List.cons_append, splitKeyLoop, if_neg (mt (strchr_isSome _ _).mp plain),
        ih fun d member inside => free d member (List.mem_cons_of_mem _ inside)]
      rfl

theorem drop_separator (key : List Byte) (spliter : Byte) (value : List Byte) :
    (key ++ spliter :: value).drop (key.length + 1) = value := by
  rw [List.append_cons, List.drop_left' (by rw [List.length_append, List.length_singleton])]

/-- A separator at the end of the string counts as none. -/
theorem splitStringKeyValue_eq (free : ∀ d ∈ spliters, d ∉ key) (separates : spliter ∈ spliters)
    (value : List Byte) :
    splitStringKeyValue (key ++ spliter :: value) = if value = [] then (key ++ [spliter], []) else (key, value) := by
  rw [splitStringKeyValue, splitKeyLoop_key free separates, List.length_append, List.length_cons]
  by_cases empty : value = []
  · rw [if_pos empty, if_pos (by rw [empty]; exact le_rfl), empty]
  · have longer := List.length_pos_of_ne_nil empty
    rw [if_neg empty, if_neg (by omega), Nat.add_sub_cancel, List.take_left, drop_separator]

theorem strchr_eq_none (str : List Byte) (c : Byte) : strchr str c = none ↔ c ∉ str := by
  rw [← strchr_isSome, Bool.not_eq_true, Option.isSome_eq_false_iff, Option.isNone_iff_eq_none]

theorem strchr_append {d : Byte} (free : d ∉ key) (rest : List Byte) :
    strchr (key ++ rest) d = (strchr rest d).map (· + key.length) := by
  have none := (strchr_eq_none key d).mpr free
  rw [strchr] at none
  rw [strchr, List.findIdx?_append, none, Option.none_or]
  rfl

theorem strchr_separator (free : spliter ∉ key) (value : List Byte) :
    strchr (key ++ spliter :: value) spliter = some key.length := by
  rw [strchr_append free, strchr, List.findIdx?_cons, if_pos (decide_eq_true rfl), Option.map_some, Nat.zero_add]

/-- Another separator can only be found behind the first one. -/
theorem strchr_other {d : Byte} (free : d ∉ key) (other : d ≠ spliter) {value : List Byte} {place : Nat}
    (found : strchr (key ++ spliter :: value) d = some place) : key.length < place := by
  rw [strchr_append free, strchr, List.findIdx?_cons, if_neg (by simpa using Ne.symm other)] at found
  obtain ⟨inner, later, rfl⟩ := Option.map_eq_some_iff.mp found
  obtain ⟨index, _, rfl⟩ := Option.map_eq_some_iff.mp later
  omega

/-- The value is exact when no separator that is tried earlier is in it. -/
theorem splitStringValue_iff (free : ∀ d ∈ spliters, d ∉ key) (separates : spliter ∈ spliters) (value : List Byte) :
    splitStringValue (key ++ spliter :: value) = value ↔
      ∀ d ∈ spliters.takeWhile (· ≠ spliter), d ∉ value := by
  obtain ⟨front, back, order, fresh⟩ := List.eq_append_cons_of_mem separates
  have earlier : spliters.takeWhile (· ≠ spliter) = front := by
    rw [order]
    exact Scan.takeWhile_ne_stop fresh back
  have inKey (d : Byte) (member : d ∈ front) : d ∉ key :=
    free d (by rw [order]; exact List.mem_append_left _ member)
  have differs (d : Byte) (member : d ∈ front) : d ≠ spliter := fun same => fresh (same ▸ member)
  have tries : spliters.findSome? (strchr (key ++ spliter :: value)) =
      (front.findSome? (strchr (key ++ spliter :: value))).or
        ((spliter :: back).findSome? (strchr (key ++ spliter :: value))) := by
    rw [order, List.findSome?_append]
  rw [earlier, splitStringValue, tries]
  cases search : front.findSome? (strchr (key ++ spliter :: value)) with
  | none =>
      rw [Option.none_or, List.findSome?_cons, strchr_separator (free spliter separates)]
      refine iff_of_true (drop_separator key spliter value) fun d member inside => ?_
      have absent := (strchr_eq_none _ d).mp (List.findSome?_eq_none_iff.mp search d member)
      exact absent (List.mem_append_right _ (List.mem_cons_of_mem _ inside))
  | some place =>
      obtain ⟨d, member, found⟩ := List.exists_of_findSome?_eq_some search
      have behind := strchr_other (inKey d member) (differs d member) found
      have inside : d ∈ value := by
        have present := (strchr_isSome _ d).mp (by rw [found]; rfl)
        rcases List.mem_append.mp present with before | after
        · exact absurd before (inKey d member)
        · exact (List.mem_cons.mp after).resolve_left (differs d member)
      refine iff_of_false (fun same => ?_) fun all => all d member inside
      have length := congrArg List.length same
      have visible := List.length_pos_of_mem inside
      simp only [Option.some_or, List.length_drop, List.length_append, List.length_cons] at length
      omega

/-- Both functions split exactly when a value stands behind the separator and no separator that is tried earlier is in
it. -/
theorem splitString_splits_iff (key : List Byte) (spliter : Byte) (value : List Byte)
    (free : ∀ d ∈ spliters, d ∉ key) (separates : spliter ∈ spliters) :
    SplitsAt key spliter value ↔ value ≠ [] ∧ ∀ d ∈ spliters.takeWhile (· ≠ spliter), d ∉ value := by
  rw [← splitStringValue_iff free separates value]
  constructor
  · intro splits
    refine ⟨fun empty => ?_, splits.value⟩
    have both := splits.keyValue
    rw [splitStringKeyValue_eq free separates, if_pos empty] at both
    have longer := congrArg List.length (Prod.mk.inj both).1
    rw [List.length_append, List.length_singleton] at longer
    omega
  · rintro ⟨visible, same⟩
    refine ⟨?_, same⟩
    rw [splitStringKeyValue_eq free separates, if_neg visible]

/-- A value may hold its own separator and the ones that are tried later. -/
theorem splitString_splits_later :
    SplitsAt (stringBytes "name") (charByte '#') (stringBytes "a#b|c@d") := by
  refine (splitString_splits_iff _ _ _ (by decide) (by decide)).mpr ⟨by decide, by decide⟩

/-- An empty value leaves the separator in the key, and an earlier separator in the value cuts it. -/
theorem splitString_loses_value :
    splitStringKeyValue (stringBytes "k=") = (stringBytes "k=", []) ∧
      splitStringValue (stringBytes "k#a=b") = stringBytes "b" ∧
      ¬SplitsAt (stringBytes "k") (charByte '=') [] ∧
      ¬SplitsAt (stringBytes "k") (charByte '#') (stringBytes "a=b") := by
  exact ⟨by decide, by decide, fun splits => absurd splits.keyValue (by decide),
    fun splits => absurd splits.value (by decide)⟩

end Psuart

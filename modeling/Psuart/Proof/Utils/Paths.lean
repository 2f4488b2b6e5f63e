import Psuart.Model.Strings

namespace Psuart

variable {c : Byte} {str fileName : List Byte}

/-- Nothing is found in a string without the character. -/
theorem strrchr_none : strrchr c str = none ↔ c ∉ str := by
  induction str with
  | nil => simp [strrchr]
  | cons first rest ih =>
      rw [strrchr, List.mem_cons, not_or, ← ih]
      cases strrchr c rest with
      | none => by_cases same : first = c <;> simp [same, Ne.symm]
      | some place => simp

/-- The character does not stand behind its last place. -/
theorem strrchr_some {place : Nat} (found : strrchr c str = some place) :
    ∃ front back, str = front ++ c :: back ∧ front.length = place ∧ c ∉ back := by
  induction str generalizing place with
  | nil => cases found
  | cons first rest ih =>
      rw [strrchr] at found
      split at found
      · rename_i behind inner
        obtain ⟨front, back, split, length, free⟩ := ih inner
        refine ⟨first :: front, back, by rw [split, List.cons_append], ?_, free⟩
        rw [List.length_cons, length]
        exact Option.some.inj found
      · rename_i absent
        split at found
        · rename_i same
          exact ⟨[], rest, by rw [same, List.nil_append], Option.some.inj found, strrchr_none.mp absent⟩
        · cases found

/-- The directory and the name of a path are its two parts, and no directory receives the name of the file. -/
structure SplitsPath (fileName : List Byte) : Prop where
  whole : extractFilePath fileName ++ extractFileName fileName = fileName
  name : pathSplit ∉ extractFileName fileName
  path : extractFilePath fileName = [] ∨ (extractFilePath fileName).getLast? = some pathSplit
  directory : logDirectory fileName = some fileName → fileName = [] ∨ fileName.getLast? = some pathSplit

theorem extractFilePath_absent (absent : pathSplit ∉ fileName) :
    extractFilePath fileName = fileName ∧ extractFileName fileName = fileName := by
  have none := strrchr_none.mpr absent
  rw [extractFilePath, extractFileName, none]
  exact ⟨List.take_length, rfl⟩

/-- A path is cut behind its last separator. -/
theorem extractFilePath_present (present : pathSplit ∈ fileName) :
    ∃ front back, fileName = front ++ [pathSplit] ++ back ∧ pathSplit ∉ back ∧
      extractFilePath fileName = front ++ [pathSplit] ∧ extractFileName fileName = back := by
  cases found : strrchr pathSplit fileName with
  | none => exact absurd present (strrchr_none.mp found)
  | some place =>
      obtain ⟨front, back, split, rfl, free⟩ := strrchr_some found
      have shape : fileName = front ++ [pathSplit] ++ back := by rw [split, List.append_cons]
      have length : front.length + 1 = (front ++ [pathSplit]).length := by
        rw [List.length_append, List.length_singleton]
      refine ⟨front, back, shape, free, ?_, ?_⟩
      · rw [extractFilePath, found]
        dsimp only
        rw [length, shape, List.take_left]
      · rw [extractFileName, found]
        dsimp only
        rw [length, shape, List.drop_left]

/-- A path splits into directory and name exactly when it is empty or has a separator. -/
theorem extractFilePath_splits_iff (fileName : List Byte) :
    SplitsPath fileName ↔ fileName = [] ∨ pathSplit ∈ fileName := by
  by_cases present : pathSplit ∈ fileName
  · refine iff_of_true ?_ (Or.inr present)
    obtain ⟨front, back, shape, free, path, name⟩ := extractFilePath_present present
    have ends : (front ++ [pathSplit]).getLast? = some pathSplit := List.getLast?_concat
    refine ⟨by rw [path, name, shape], by rwa [name], by rw [path]; exact Or.inr ends, ?_⟩
    intro directory
    rw [logDirectory, path] at directory
    split at directory
    · rw [← Option.some.inj directory]
      exact Or.inr ends
    · cases directory
  · obtain ⟨path, name⟩ := extractFilePath_absent present
    constructor
    · intro splits
      have whole := splits.whole
      rw [path, name, List.append_left_eq_self] at whole
      exact Or.inl whole
    · rintro (rfl | found)
      · exact ⟨rfl, present, Or.inl rfl, fun _ => Or.inl rfl⟩
      · exact absurd found present

/-- A log file without a directory is created as a directory itself. -/
theorem extractFilePath_whole :
    extractFilePath (stringBytes "psu.log") ++ extractFileName (stringBytes "psu.log") ≠ stringBytes "psu.log" ∧
      logDirectory (stringBytes "psu.log") = some (stringBytes "psu.log") := by
  decide

end Psuart

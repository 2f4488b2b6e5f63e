import Psuart.Proof.Ini.Parser

namespace Psuart

variable {sec key buf : List Byte} {loc : Location}

/-- A found key ends at a `=` of its line. -/
theorem keySearch_some {newlineStart left j place : Nat}
    (found : keySearch key buf newlineStart left j = some place) :
    j < place ∧ place ≤ j + left ∧ bufAt buf place = charByte '=' := by
  induction left generalizing j with
  | zero => cases found
  | succ left ih =>
      rw [keySearch] at found
      split at found
      · cases found
      · split at found
        · rename_i _ equals
          split at found
          · rw [← Option.some.inj found]
            exact ⟨by omega, by omega, equals⟩
          · cases found
        · obtain ⟨behind, below, equals⟩ := ih found
          exact ⟨by omega, by omega, equals⟩

/-- The places of a key and of its value are in order behind a place. -/
structure Location.Keyed (loc : Location) (start : Int) : Prop where
  key : start ≤ loc.keyS ∧ loc.keyS ≤ loc.keyE
  value : loc.keyE < loc.valueS ∧ loc.valueS ≤ loc.valueE

/-- The loop over the lines reports ordered places, or it reports nothing. -/
theorem parseLines_places (key buf : List Byte) (loc : Location) (fuel i : Nat) :
    let result := parseLines key buf fuel i loc
    (result.2.2 = false → result.1 = loc) ∧
      (result.2.2 = true → result.1.Keyed i ∧ result.1.valueE = result.2.1 ∧
        result.1.secS = loc.secS ∧ result.1.secE = loc.secE) := by
  induction fuel generalizing i with
  | zero => exact ⟨fun _ => rfl, fun found => by cases found⟩
  | succ fuel ih =>
      rw [parseLines]
      split
      · exact ⟨fun _ => rfl, fun found => by cases found⟩
      · have line := Scan.charAt_scanWhile (fun c : Byte => !newline c && !endOfString c) 0 rfl buf i
        have forward := Scan.scanWhile_ge (fun c => !newline c && !endOfString c) buf i
        dsimp only
        split
        · rename_i j found
          refine ⟨(fun missed => by cases missed), fun _ => ⟨?_, rfl, rfl, rfl⟩⟩
          split at found
          · obtain ⟨behind, below, equals⟩ := keySearch_some found
            have before : j ≠ Scan.scanWhile (fun c => !newline c && !endOfString c) buf i := by
              rintro rfl
              rw [show Scan.charAt 0 buf _ = charByte '=' from equals] at line
              cases line
            constructor <;> dsimp only <;> omega
          · cases found
        · obtain ⟨missed, placed⟩ := ih (Scan.scanWhile (fun c => !newline c && !endOfString c) buf i + 1)
          refine ⟨missed, fun found => ?_⟩
          obtain ⟨keyed, rest⟩ := placed found
          exact ⟨⟨⟨by have := keyed.key.1; omega, keyed.key.2⟩, keyed.value⟩, rest⟩

/-- The reported places do not steer the loop. -/
theorem parseLines_steers (fuel i : Nat) (other : Location) :
    (parseLines key buf fuel i loc).2 = (parseLines key buf fuel i other).2 := by
  induction fuel generalizing i with
  | zero => rfl
  | succ fuel ih =>
      rw [parseLines, parseLines]
      split
      · rfl
      · dsimp only
        split
        · rfl
        · exact ih _

/-- The places of a value are in order when a key is reported. -/
def Location.Ordered (loc : Location) : Prop :=
  loc.keyS = -1 ∨ 0 ≤ loc.valueS ∧ loc.valueS ≤ loc.valueE

theorem parseLines_ordered (fuel i : Nat) (ordered : loc.Ordered) :
    (parseLines key buf fuel i loc).1.Ordered := by
  obtain ⟨missed, placed⟩ := parseLines_places key buf loc fuel i
  cases found : (parseLines key buf fuel i loc).2.2 with
  | false => rwa [missed found]
  | true =>
      obtain ⟨keyed, _⟩ := placed found
      exact Or.inr ⟨by have := keyed.key; have := keyed.value; omega, keyed.value.2⟩

theorem parseSections_ordered (fuel i : Nat) (ordered : loc.Ordered) :
    (parseSections sec key buf fuel i loc).1.Ordered := by
  induction fuel generalizing i loc with
  | zero => exact ordered
  | succ fuel ih =>
      have entered (sectionStart i : Nat) : (enterSection key buf sectionStart i loc).1.Ordered :=
        parseLines_ordered _ _ ordered
      rw [parseSections]
      split
      · exact ordered
      · split
        · dsimp only
          split
          · split
            · exact entered _ _
            · exact ih _ (entered _ _)
          · exact ih _ ordered
        · exact ih _ ordered

theorem parseFile_ordered (sec key buf : List Byte) : (parseFile sec key buf).1.Ordered :=
  parseSections_ordered _ _ (Or.inl rfl)

end Psuart

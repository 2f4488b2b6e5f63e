import Psuart.Proof.Ini.Places
import Psuart.Proof.Ini.TextBounds

namespace Psuart

variable {sec key buf : List Byte} {loc : Location} {limit : Nat}

/-- The reported section starts before its end, and it ends in the text. -/
def Location.Sectioned (loc : Location) (limit : Nat) : Prop :=
  loc.secS ≠ -1 → 0 ≤ loc.secS ∧ loc.secS ≤ loc.secE ∧ loc.secE ≤ limit

/-- A section that ends in the text reports places of the text. -/
theorem enterSection_places (sectionStart i : Nat) (before : sectionStart ≤ i)
    (inside : (enterSection key buf sectionStart i loc).2.1 ≤ limit) :
    (enterSection key buf sectionStart i loc).1.Sectioned limit ∧
      ((enterSection key buf sectionStart i loc).2.2 = true →
        (enterSection key buf sectionStart i loc).1.Keyed (enterSection key buf sectionStart i loc).1.secE ∧
          (enterSection key buf sectionStart i loc).1.valueE ≤ limit) := by
  have forward := Scan.scanWhile_ge isspace buf (i + 1)
  rw [enterSection] at inside ⊢
  have further := Nat.le_trans (parseLines_ge _ _) inside
  obtain ⟨missed, placed⟩ := parseLines_places key buf
    { loc with secS := sectionStart, secE := Scan.scanWhile isspace buf (i + 1) } (buf.length + 1)
    (Scan.scanWhile isspace buf (i + 1))
  cases found : (parseLines key buf (buf.length + 1) (Scan.scanWhile isspace buf (i + 1))
      { loc with secS := sectionStart, secE := Scan.scanWhile isspace buf (i + 1) }).2.2 with
  | false =>
      refine ⟨?_, fun same => by cases same⟩
      rw [missed found]
      intro _
      dsimp only
      omega
  | true =>
      obtain ⟨keyed, valueE, secS, secE⟩ := placed found
      rw [Location.Sectioned, secS, secE, valueE]
      refine ⟨fun _ => ?_, fun _ => ⟨keyed, Int.ofNat_le.mpr inside⟩⟩
      dsimp only
      omega

/-- A run that reads only the text reports places of the text. -/
theorem parseSections_places (terminated : endOfString (bufAt buf limit) = true) (fuel : Nat) {i : Nat}
    (inside : Inside limit (parseSectionsReads sec key buf fuel i)) (placed : loc.Sectioned limit) :
    (parseSections sec key buf fuel i loc).1.Sectioned limit ∧
      ((parseSections sec key buf fuel i loc).2 = true →
        (parseSections sec key buf fuel i loc).1.Keyed (parseSections sec key buf fuel i loc).1.secE ∧
          (parseSections sec key buf fuel i loc).1.valueE ≤ limit) := by
  induction fuel generalizing i loc with
  | zero => exact ⟨placed, fun found => by cases found⟩
  | succ fuel ih =>
      rw [parseSectionsReads, inside_cons] at inside
      rw [parseSections]
      split at inside
      · rename_i ends
        rw [if_pos ends]
        exact ⟨placed, fun found => by cases found⟩
      · rename_i visible
        rw [if_neg visible]
        rw [inside_append] at inside
        have further := inside.2.2
        split at further
        · rename_i opens
          rw [if_pos opens]
          dsimp only at further ⊢
          have name := Scan.scanWhile_ge (fun c => !isRightBrace c && !endOfString c) buf (i + 1)
          rw [inside_append, inside_append] at further
          have named := further.1.1 _ (mem_scanReads.mpr ⟨name, Nat.le_refl _⟩)
          have rest := further.2
          generalize Scan.scanWhile (fun c => !isRightBrace c && !endOfString c) buf (i + 1) = p at name named rest ⊢
          have steers : (enterSection key buf (i + 1) p {}).2 = (enterSection key buf (i + 1) p loc).2 :=
            parseLines_steers _ _ _
          rw [steers] at rest
          split at rest
          · rename_i same
            rw [inside_append, enterSectionReads_inside terminated (i + 1) loc named] at rest
            obtain ⟨sectioned, keyed⟩ := enterSection_places (i + 1) _ name rest.1
            rw [if_pos same]
            split
            · rename_i found
              exact ⟨sectioned, fun _ => keyed found⟩
            · rename_i missed
              exact ih (by simpa [missed] using rest.2) sectioned
          · rename_i other
            rw [if_neg other]
            exact ih rest placed
        · rename_i inner
          rw [if_neg inner]
          exact ih further placed

theorem dropWhile_terminated (buf : List Byte) : endOfString ((buf.dropWhile (· ≠ 0)).headD 0) = true := by
  have first := List.head?_dropWhile_not (· ≠ (0 : Byte)) buf
  cases behind : buf.dropWhile (· ≠ 0) with
  | nil => rfl
  | cons c rest =>
      rw [behind] at first
      have zero : c = 0 := by simpa using first
      rw [List.headD_cons, zero]
      rfl

/-- The text of a buffer and its terminator. -/
theorem cString_split (buf : List Byte) : buf = cString buf ++ buf.dropWhile (· ≠ 0) :=
  List.takeWhile_append_dropWhile.symm

theorem cString_terminated (buf : List Byte) : endOfString (bufAt buf (cString buf).length) = true := by
  rw [bufAt_front (cString_split buf)]
  exact dropWhile_terminated buf

theorem cString_nonzero (buf : List Byte) : 0 ∉ cString buf := fun member => by
  simpa using List.mem_takeWhile_imp member

/-- The reads of a call stay inside the text exactly when the text ends safely. -/
theorem parseFileReads_inside (sec key buf : List Byte) :
    Inside (cString buf).length (parseFileReads sec key buf) ↔ EndsSafely sec key (cString buf) := by
  have cut := cutOpening_append true (cString buf)
  have lead := cutOpening_closed true (cString buf)
  have next : _ ∨ _ ∧ OpensLine ([] ++ _) := cutOpening_opens (fun _ : true = true => Or.inl rfl) (cString buf)
  have visible := cString_nonzero buf
  have shape := cString_split buf
  rw [EndsSafely]
  generalize cutOpening true (cString buf) = parts at *
  obtain ⟨front, text⟩ := parts
  rw [List.nil_append] at next
  rw [← cut] at shape visible ⊢
  rw [List.mem_append, not_or] at visible
  dsimp only at *
  rw [List.append_assoc] at shape
  have opening : buf = [] ++ (front ++ (text ++ buf.dropWhile (· ≠ 0))) := shape
  have start : Inside (front ++ text).length (sectionReadsFrom sec key buf ([] : List Byte).length) ↔ _ :=
    sectionReadsFrom_text opening visible.1 lead (fun _ => rfl) (by simp)
  rw [parseFileReads, ← sectionReadsFrom, ← List.length_nil, start]
  exact sectionReadsFrom_sections shape visible.2 (dropWhile_terminated buf) next

/-- A call stays inside its text exactly when the text ends safely for its section and its key. -/
theorem parseFile_inside_iff (sec key buf : List Byte) :
    ParsesInside sec key buf ↔ EndsSafely sec key (cString buf) := by
  rw [← parseFileReads_inside]
  refine ⟨fun call => call.reads, fun inside => ?_⟩
  have unplaced : ({} : Location).Sectioned (cString buf).length := fun placed => absurd rfl placed
  obtain ⟨sectioned, keyed⟩ := parseSections_places (cString_terminated buf) (buf.length + 1) inside unplaced
  constructor
  · intro fuel enough
    obtain ⟨more, rfl⟩ : ∃ more, fuel = more + 1 := Nat.exists_eq_succ_of_ne_zero (Nat.ne_zero_of_lt enough)
    exact ⟨parseSections_fuel (by omega) (by omega), parseSectionsReads_fuel (by omega) (by omega)⟩
  · exact inside
  · exact sectioned
  · intro found
    obtain ⟨ordered, inner⟩ := keyed found
    exact ⟨ordered.key.1, ordered.key.2, ordered.value.1, ordered.value.2, inner⟩

/-- The loop goes on behind the terminator of a last line without a line end. -/
theorem parseFile_outside :
    11 ∈ parseFileReads (stringBytes "main") (stringBytes "b") (stringBytes "[main]\na=1") ∧
      ¬ParsesInside (stringBytes "main") (stringBytes "b") (stringBytes "[main]\na=1") := by
  have reads : 11 ∈ parseFileReads (stringBytes "main") (stringBytes "b") (stringBytes "[main]\na=1") := by decide
  have length : (cString (stringBytes "[main]\na=1")).length = 10 := by decide
  refine ⟨reads, fun call => ?_⟩
  have inside := call.reads 11 reads
  omega

end Psuart

import Psuart.Proof.Ini.Sections
import Psuart.Spec.IniSections

namespace Psuart

variable {sec key buf : List Byte} {loc : Location} {limit : Nat}

theorem mem_scanReads {inClass : Byte → Bool} {i place : Nat} :
    place ∈ scanReads inClass buf i ↔ i ≤ place ∧ place ≤ Scan.scanWhile inClass buf i := by
  have forward := Scan.scanWhile_ge inClass buf i
  rw [scanReads, List.mem_range'_1]
  omega

theorem strncmpReads_lt {first second : List Byte} {count place : Nat}
    (read : place ∈ strncmpReads first second count) : place < count := by
  induction count generalizing first second place with
  | zero => cases read
  | succ count ih =>
      rw [strncmpReads, List.mem_cons] at read
      rcases read with rfl | later
      · exact Nat.succ_pos count
      · split at later
        · cases later
        · obtain ⟨before, inner, rfl⟩ := List.mem_map.mp later
          exact Nat.succ_lt_succ (ih inner)

/-- The search of a line reads at most the character behind it. -/
theorem keySearchReads_le {newlineStart left j place : Nat} (behind : newlineStart ≤ j)
    (read : place ∈ keySearchReads key buf newlineStart left j) : place ≤ j + left := by
  induction left generalizing j with
  | zero => cases read
  | succ left ih =>
      rw [keySearchReads, List.mem_cons] at read
      rcases read with rfl | further
      · exact Nat.le_add_right _ _
      · split at further
        · cases further
        · rw [List.mem_cons] at further
          rcases further with rfl | compared
          · omega
          · split at compared
            · obtain ⟨offset, inner, rfl⟩ := List.mem_map.mp compared
              have := strncmpReads_lt inner
              omega
            · have := ih (by omega) compared
              omega

/-- A list of reads stays at or before the limit. -/
def Inside (limit : Nat) (reads : List Nat) : Prop := ∀ place ∈ reads, place ≤ limit

theorem inside_append {first second : List Nat} :
    Inside limit (first ++ second) ↔ Inside limit first ∧ Inside limit second := List.forall_mem_append

theorem inside_cons {place : Nat} {rest : List Nat} :
    Inside limit (place :: rest) ↔ place ≤ limit ∧ Inside limit rest := List.forall_mem_cons

theorem inside_nil : Inside limit [] := fun _ read => absurd read List.not_mem_nil

/-- The loop over the lines reads the character at its index. -/
theorem parseLinesReads_start (fuel i : Nat) : i ∈ parseLinesReads key buf (fuel + 1) i := by
  rw [parseLinesReads]
  exact List.mem_cons_of_mem _ (List.mem_cons_self ..)

section Terminated

variable (terminated : endOfString (bufAt buf limit) = true)
include terminated

theorem lineEnd_le {i : Nat} (start : i ≤ limit) :
    Scan.scanWhile (fun c => !newline c && !endOfString c) buf i ≤ limit := by
  have outside : (!newline (Scan.charAt 0 buf limit) && !endOfString (Scan.charAt 0 buf limit)) = false := by
    rw [show endOfString (Scan.charAt 0 buf limit) = true from terminated, Bool.not_true, Bool.and_false]
  exact Scan.scanWhile_le outside start

/-- The reads of the loop over the lines stay inside the text exactly when the loop ends there. -/
theorem parseLinesReads_inside {fuel i : Nat} (enough : buf.length < fuel + i) (start : i ≤ limit) :
    Inside limit (parseLinesReads key buf fuel i) ↔ (parseLines key buf fuel i loc).2.1 ≤ limit := by
  induction fuel generalizing i with
  | zero => exact iff_of_true inside_nil start
  | succ fuel ih =>
      rw [parseLinesReads, parseLines, inside_cons, inside_cons,
        and_iff_right (Nat.le_trans (Nat.sub_le i 1) start), and_iff_right start]
      by_cases stop : ((newline (bufAt buf (i - 1)) && leftBrace (bufAt buf i)) || endOfString (bufAt buf i)) = true
      · rw [if_pos stop, if_pos stop]
        exact iff_of_true inside_nil start
      · rw [if_neg stop, if_neg stop]
        have eol := lineEnd_le terminated start
        have forward := Scan.scanWhile_ge (fun c => !newline c && !endOfString c) buf i
        have before : i < buf.length := by
          by_contra behind
          rw [show bufAt buf i = 0 from bufAt_end (by omega)] at stop
          exact stop (Bool.or_true _)
        have scanned : Inside limit (scanReads (fun c => !newline c && !endOfString c) buf i) :=
          fun place read => Nat.le_trans (mem_scanReads.mp read).2 eol
        have searched (left : Nat) (inner : i + left ≤ limit) :
            Inside limit (keySearchReads key buf i left i) :=
          fun place read => Nat.le_trans (keySearchReads_le (Nat.le_refl i) read) inner
        dsimp only
        generalize foundAt : (if bufAt buf i ≠ charByte ';' then
          keySearch key buf i (Scan.scanWhile (fun c => !newline c && !endOfString c) buf i - i) i else none) = found
        have line : Inside limit (if bufAt buf i ≠ charByte ';' then
            keySearchReads key buf i (Scan.scanWhile (fun c => !newline c && !endOfString c) buf i - i) i
            else []) := by
          split
          · exact searched _ (by omega)
          · exact inside_nil
        rw [inside_append, inside_append, inside_append, and_iff_right scanned,
          and_iff_right (inside_cons.mpr ⟨start, inside_nil⟩), and_iff_right line]
        cases found with
        | some j => exact iff_of_true inside_nil eol
        | none =>
            by_cases last : Scan.scanWhile (fun c => !newline c && !endOfString c) buf i = limit
            · obtain ⟨fuel, rfl⟩ : ∃ more, fuel = more + 1 := Nat.exists_eq_succ_of_ne_zero (by omega)
              have further : limit + 1 ≤ (parseLines key buf (fuel + 1) (limit + 1) loc).2.1 := parseLines_ge _ _
              rw [last]
              change Inside limit (parseLinesReads key buf (fuel + 1) (limit + 1)) ↔
                (parseLines key buf (fuel + 1) (limit + 1) loc).2.1 ≤ limit
              refine iff_of_false (fun inside => ?_) (by omega)
              exact Nat.not_succ_le_self limit (inside _ (parseLinesReads_start fuel _))
            · exact ih (by omega) (by omega)

/-- The reads behind a brace stay inside the text exactly when its section ends there. -/
theorem enterSectionReads_inside (sectionStart : Nat) (loc : Location) {i : Nat} (start : i ≤ limit) :
    Inside limit (enterSectionReads key buf i) ↔ (enterSection key buf sectionStart i loc).2.1 ≤ limit := by
  have forward := Scan.scanWhile_ge isspace buf (i + 1)
  rw [enterSectionReads, inside_append, enterSection]
  by_cases last : i = limit
  · refine iff_of_false (fun inside => ?_) (fun ended => ?_)
    · have := inside.1 (i + 1) (mem_scanReads.mpr ⟨Nat.le_refl _, forward⟩)
      omega
    · have := Nat.le_trans (Nat.le_trans forward (parseLines_ge _ _)) ended
      omega
  · have outside : isspace (Scan.charAt 0 buf limit) = false := by
      rw [show Scan.charAt 0 buf limit = 0 from (of_decide_eq_true terminated).symm]
      rfl
    have blank := Scan.scanWhile_le outside (by omega : i + 1 ≤ limit)
    have scanned : Inside limit (scanReads isspace buf (i + 1)) :=
      fun place read => Nat.le_trans (mem_scanReads.mp read).2 blank
    rw [and_iff_right scanned]
    exact parseLinesReads_inside terminated (by omega) blank

end Terminated

theorem parseSectionsReads_end (fuel : Nat) {i : Nat} (ends : endOfString (bufAt buf i) = true) :
    parseSectionsReads sec key buf (fuel + 1) i = [i] := by
  rw [parseSectionsReads, if_pos ends]

theorem parseSectionsReads_fuel {fuel other i : Nat} (enough : buf.length ≤ fuel + i)
    (also : buf.length ≤ other + i) :
    parseSectionsReads sec key buf (fuel + 1) i = parseSectionsReads sec key buf (other + 1) i := by
  induction fuel generalizing other i with
  | zero =>
      have ends : endOfString (bufAt buf i) = true := by rw [bufAt_end (by omega)]; rfl
      rw [parseSectionsReads_end 0 ends, parseSectionsReads_end other ends]
  | succ fuel ih =>
      cases other with
      | zero =>
          have ends : endOfString (bufAt buf i) = true := by rw [bufAt_end (by omega)]; rfl
          rw [parseSectionsReads_end 0 ends, parseSectionsReads_end _ ends]
      | succ other =>
          have name := Scan.scanWhile_ge (fun c => !isRightBrace c && !endOfString c) buf (i + 1)
          have further {place : Nat} (moved : i < place) : parseSectionsReads sec key buf (fuel + 1) place =
              parseSectionsReads sec key buf (other + 1) place := ih (by omega) (by omega)
          conv_lhs => rw [parseSectionsReads]
          conv_rhs => rw [parseSectionsReads]
          dsimp only
          rw [further (Nat.lt_succ_self i), further name, further (Nat.lt_trans name (enterSection_ge _ _))]

/-- The reads from an index on, with fuel up to the end of the text. -/
def sectionReadsFrom (sec key buf : List Byte) (i : Nat) : List Nat :=
  parseSectionsReads sec key buf (buf.length + 1) i

theorem sectionReadsFrom_next {place : Nat} (visible : 0 < buf.length) (moved : 0 < place) :
    parseSectionsReads sec key buf buf.length place = sectionReadsFrom sec key buf place := by
  obtain ⟨fuel, length⟩ : ∃ fuel, buf.length = fuel + 1 := Nat.exists_eq_succ_of_ne_zero (Nat.ne_of_gt visible)
  rw [sectionReadsFrom, length]
  exact parseSectionsReads_fuel (by omega) (by omega)

/-- The loop over the file ends at the terminator. -/
theorem sectionReadsFrom_end {i : Nat} (ends : endOfString (bufAt buf i) = true) :
    Inside limit (sectionReadsFrom sec key buf i) ↔ i ≤ limit := by
  rw [sectionReadsFrom, parseSectionsReads_end _ ends, inside_cons, and_iff_left inside_nil]

/-- A character that opens no section is read and passed. -/
theorem sectionReadsFrom_char {front back : List Byte} {c : Byte} (shape : buf = front ++ c :: back)
    (visible : endOfString c = false) (inner : OpensLine front → c ≠ charByte '[')
    (start : front.length ≤ limit) :
    Inside limit (sectionReadsFrom sec key buf front.length) ↔
      Inside limit (sectionReadsFrom sec key buf (front ++ [c]).length) := by
  have before : Inside limit (if front.length = 0 then [] else [front.length - 1]) := by
    split
    · exact inside_nil
    · exact inside_cons.mpr ⟨Nat.le_trans (Nat.sub_le _ 1) start, inside_nil⟩
  have closed : ¬((front.length = 0 ∨ newline (bufAt buf (front.length - 1)) = true) ∧ leftBrace c = true) := by
    rintro ⟨opens, brace⟩
    exact inner ((opensLine_iff shape).mp opens) ((leftBrace_eq c).mp brace)
  have some : 0 < buf.length := by
    rw [shape, List.length_append, List.length_cons]
    omega
  rw [sectionReadsFrom, parseSectionsReads, bufAt_split shape, visible, if_neg Bool.false_ne_true, if_neg closed,
    inside_cons, inside_append, and_iff_right start, and_iff_right before,
    sectionReadsFrom_next some (Nat.succ_pos _), List.length_append, List.length_singleton]

section Header

variable {front name back : List Byte} (shape : buf = front ++ charByte '[' :: (name ++ back)) (visible : 0 ∉ name)
  (closed : charByte ']' ∉ name) (ends : (isRightBrace (back.headD 0) || endOfString (back.headD 0)) = true)
  (opens : OpensLine front) (inside : (front ++ charByte '[' :: name).length ≤ limit)
include shape visible closed ends opens inside

/-- The reads at a brace are those of its section and of what the loop finds behind it. -/
theorem sectionReadsFrom_header :
    Inside limit (sectionReadsFrom sec key buf front.length) ↔
      if name <+: sec then
        Inside limit (enterSectionReads key buf (front ++ charByte '[' :: name).length) ∧
          ((enterSection key buf (front.length + 1) (front ++ charByte '[' :: name).length {}).2.2 = false →
            Inside limit (sectionReadsFrom sec key buf
              (enterSection key buf (front.length + 1) (front ++ charByte '[' :: name).length {}).2.1))
      else Inside limit (sectionReadsFrom sec key buf (front ++ charByte '[' :: name).length) := by
  have start : front.length < (front ++ charByte '[' :: name).length := by
    rw [List.length_append, List.length_cons]
    omega
  have some : 0 < buf.length := by
    rw [shape, List.length_append, List.length_cons]
    omega
  have before : Inside limit (if front.length = 0 then [] else [front.length - 1]) := by
    split
    · exact inside_nil
    · exact inside_cons.mpr ⟨by omega, inside_nil⟩
  have scanned : Inside limit (scanReads (fun c => !isRightBrace c && !endOfString c) buf (front.length + 1)) := by
    intro place read
    have last := (mem_scanReads.mp read).2
    rw [scan_name shape visible closed ends] at last
    exact Nat.le_trans last inside
  have compared : Inside limit ((strncmpReads (buf.drop (front.length + 1)) sec
      ((front ++ charByte '[' :: name).length - (front.length + 1))).map (front.length + 1 + ·)) := by
    intro place read
    obtain ⟨offset, inner, rfl⟩ := List.mem_map.mp read
    have := strncmpReads_lt inner
    omega
  have brace : bufAt buf front.length = charByte '[' := bufAt_split shape
  have entered : (front.length = 0 ∨ newline (bufAt buf (front.length - 1)) = true) ∧
      leftBrace (charByte '[') = true := ⟨(opensLine_iff shape).mpr opens, rfl⟩
  have shown : ¬endOfString (charByte '[') = true := by decide
  rw [sectionReadsFrom, parseSectionsReads, brace, if_neg shown, if_pos entered]
  dsimp only
  rw [scan_name shape visible closed ends, inside_cons, inside_append, inside_append, inside_append,
    and_iff_right (Nat.le_trans (Nat.le_of_lt start) inside), and_iff_right before, and_iff_right scanned,
    and_iff_right compared]
  simp only [compare_name shape visible]
  split
  · rw [inside_append]
    cases (enterSection key buf (front.length + 1) (front ++ charByte '[' :: name).length {}).2.2 with
    | true => simp [inside_nil]
    | false =>
        have moved : (front ++ charByte '[' :: name).length <
            (enterSection key buf (front.length + 1) (front ++ charByte '[' :: name).length {}).2.1 :=
          enterSection_ge _ _
        rw [if_neg Bool.false_ne_true, sectionReadsFrom_next some (Nat.zero_lt_of_lt moved)]
        simp
  · rw [sectionReadsFrom_next some (by omega)]

end Header

end Psuart

import Psuart.Proof.Ini.Entries

namespace Psuart

variable {sec key buf : List Byte} {loc : Location}

/-- The comparison of a name that ends before its terminator is a test for a common start. -/
theorem strncmp_name {name rest : List Byte} (visible : 0 ∉ name) (other : List Byte) :
    strncmp (name ++ rest) other name.length = 0 ↔ name <+: other := by
  induction name generalizing other with
  | nil => simp [strncmp]
  | cons c tail ih =>
      rw [List.mem_cons, not_or] at visible
      rw [List.cons_append, List.length_cons, strncmp, List.headD_cons, List.tail_cons]
      cases other with
      | nil =>
          have positive : c.toNat ≠ 0 := fun zero => visible.1 (BitVec.eq_of_toNat_eq zero.symm)
          rw [List.headD_nil, if_pos (Ne.symm visible.1)]
          simp [positive]
      | cons d rest =>
          rw [List.headD_cons, List.tail_cons, List.cons_prefix_cons]
          by_cases same : c = d
          · rw [if_neg (not_not.mpr same), if_neg (Ne.symm visible.1), ih visible.2]
            simp [same]
          · have differ : c.toNat ≠ d.toNat := fun equal => same (BitVec.eq_of_toNat_eq equal)
            rw [if_pos same]
            simp only [same, false_and, iff_false]
            omega

/-- Both orders of the arguments agree on equality. -/
theorem strncmp_comm (first second : List Byte) (count : Nat) :
    strncmp first second count = 0 ↔ strncmp second first count = 0 := by
  induction count generalizing first second with
  | zero => exact Iff.rfl
  | succ count ih =>
      rw [strncmp, strncmp]
      by_cases same : first.headD 0 = second.headD 0
      · rw [if_neg (not_not.mpr same), if_neg (not_not.mpr same.symm), same]
        split
        · exact Iff.rfl
        · exact ih _ _
      · have differ : (first.headD 0).toNat ≠ (second.headD 0).toNat :=
          fun equal => same (BitVec.eq_of_toNat_eq equal)
        rw [if_pos same, if_pos (Ne.symm same)]
        omega

theorem bufAt_end {i : Nat} (behind : buf.length ≤ i) : bufAt buf i = 0 := Scan.charAt_end 0 behind

/-- The loop over the lines stops at the end of the text. -/
theorem parseLines_end (fuel : Nat) {i : Nat} (ends : endOfString (bufAt buf i) = true) :
    parseLines key buf fuel i loc = (loc, i, false) := by
  cases fuel with
  | zero => rfl
  | succ fuel => rw [parseLines, ends, Bool.or_true, if_pos rfl]

theorem parseLines_fuel {fuel other i : Nat} (enough : buf.length < fuel + i)
    (also : buf.length < other + i) :
    parseLines key buf fuel i loc = parseLines key buf other i loc := by
  induction fuel generalizing other i with
  | zero =>
      have ends : endOfString (bufAt buf i) = true := by rw [bufAt_end (by omega)]; rfl
      rw [parseLines_end 0 ends, parseLines_end other ends]
  | succ fuel ih =>
      cases other with
      | zero =>
          have ends : endOfString (bufAt buf i) = true := by rw [bufAt_end (by omega)]; rfl
          rw [parseLines_end 0 ends, parseLines_end _ ends]
      | succ other =>
          have progress := Scan.scanWhile_ge (fun c => !newline c && !endOfString c) buf i
          rw [parseLines, parseLines]
          split
          · rfl
          · dsimp only
            split
            · rfl
            · exact ih (by omega) (by omega)

/-- The loop over the lines moves forward. -/
theorem parseLines_ge (fuel i : Nat) : i ≤ (parseLines key buf fuel i loc).2.1 := by
  induction fuel generalizing i with
  | zero => exact Nat.le_refl i
  | succ fuel ih =>
      have progress := Scan.scanWhile_ge (fun c => !newline c && !endOfString c) buf i
      rw [parseLines]
      split
      · exact Nat.le_refl i
      · dsimp only
        split
        · exact progress
        · exact Nat.le_trans (by omega) (ih _)

theorem enterSection_ge (sectionStart i : Nat) :
    i < (enterSection key buf sectionStart i loc).2.1 :=
  Nat.lt_of_lt_of_le (Scan.scanWhile_ge isspace buf (i + 1)) (parseLines_ge _ _)

/-- The loop over the file stops at the end of the text. -/
theorem parseSections_end (fuel : Nat) {i : Nat} (ends : endOfString (bufAt buf i) = true) :
    parseSections sec key buf fuel i loc = (loc, false) := by
  cases fuel with
  | zero => rfl
  | succ fuel => rw [parseSections, if_pos ends]

theorem parseSections_fuel {fuel other i : Nat} (enough : buf.length < fuel + i)
    (also : buf.length < other + i) :
    parseSections sec key buf fuel i loc = parseSections sec key buf other i loc := by
  induction fuel generalizing other i loc with
  | zero =>
      have ends : endOfString (bufAt buf i) = true := by rw [bufAt_end (by omega)]; rfl
      rw [parseSections_end 0 ends, parseSections_end other ends]
  | succ fuel ih =>
      cases other with
      | zero =>
          have ends : endOfString (bufAt buf i) = true := by rw [bufAt_end (by omega)]; rfl
          rw [parseSections_end 0 ends, parseSections_end _ ends]
      | succ other =>
          have name := Scan.scanWhile_ge (fun c => !isRightBrace c && !endOfString c) buf (i + 1)
          have further {place : Nat} (moved : i < place) :
              buf.length < fuel + place ∧ buf.length < other + place := by omega
          rw [parseSections, parseSections]
          split
          · rfl
          · split
            · dsimp only
              split
              · split
                · rfl
                · exact ih (further (Nat.lt_trans name (enterSection_ge _ _))).1
                    (further (Nat.lt_trans name (enterSection_ge _ _))).2
              · exact ih (further name).1 (further name).2
            · exact ih (by omega) (by omega)

/-- The lines from an index on, with fuel up to the end of the text. -/
def linesFrom (key buf : List Byte) (i : Nat) (loc : Location) : Location × Nat × Bool :=
  parseLines key buf (buf.length + 1) i loc

/-- The file from an index on, with fuel up to the end of the text. -/
def sectionsFrom (sec key buf : List Byte) (i : Nat) (loc : Location) : Location × Bool :=
  parseSections sec key buf (buf.length + 1) i loc

/-- The character at a split of the buffer. -/
theorem bufAt_split {front back : List Byte} {c : Byte} (shape : buf = front ++ c :: back) :
    bufAt buf front.length = c := by
  rw [shape, bufAt, Scan.charAt_front]
  rfl

theorem bufAt_front {front back : List Byte} (shape : buf = front ++ back) :
    bufAt buf front.length = back.headD 0 := by
  rw [shape, bufAt, Scan.charAt_front]
  cases back <;> rfl

/-- The key in front of a place is compared from the start of its line. -/
theorem strncmp_line {front name back : List Byte} (shape : buf = front ++ name ++ back)
    (visible : 0 ∉ name) (key : List Byte) :
    strncmp key (buf.drop front.length) ((front ++ name).length - front.length) = 0 ↔ name <+: key := by
  rw [strncmp_comm, shape, List.append_assoc, List.drop_left, List.length_append,
    Nat.add_sub_cancel_left]
  exact strncmp_name visible key

/-- The search for `=` continues behind the characters that it has passed. -/
theorem keySearch_eq {front passed text back : List Byte}
    (shape : buf = front ++ passed ++ (text ++ back)) (visible : 0 ∉ passed ++ text)
    (ends : lineStop (back.headD 0) = true) :
    keySearch key buf front.length text.length (front ++ passed).length =
      if text.head? = some (charByte '=') ∨ (text.takeWhile (· ≠ charByte '=')).length = text.length ∨
          ¬passed ++ text.takeWhile (· ≠ charByte '=') <+: key then none
      else some (front ++ passed ++ text.takeWhile (· ≠ charByte '=')).length := by
  induction text generalizing passed with
  | nil => simp [keySearch]
  | cons c rest ih =>
      have here : bufAt buf (front ++ passed).length = c := bufAt_split shape
      have further : (front ++ passed).length + 1 = (front ++ (passed ++ [c])).length := by
        simp only [List.length_append, List.length_singleton]
        omega
      have split : buf = front ++ (passed ++ [c]) ++ (rest ++ back) := by
        rw [shape]
        simp
      rw [List.length_cons, keySearch, here, further]
      by_cases first : c = charByte '='
      · simp [first]
      · have word : (c :: rest).takeWhile (· ≠ charByte '=') = c :: rest.takeWhile (· ≠ charByte '=') :=
          List.takeWhile_cons_of_pos (by simpa using first)
        have join : passed ++ c :: rest.takeWhile (· ≠ charByte '=') =
            passed ++ [c] ++ rest.takeWhile (· ≠ charByte '=') := by simp
        have place : front ++ passed ++ c :: rest.takeWhile (· ≠ charByte '=') =
            front ++ (passed ++ [c]) ++ rest.takeWhile (· ≠ charByte '=') := by simp
        rw [if_neg first, word, List.length_cons, join, place]
        simp only [List.head?_cons, Option.some.injEq, first, false_or, Nat.add_right_cancel_iff]
        cases rest with
        | nil =>
            have behind : bufAt buf (front ++ (passed ++ [c])).length = back.headD 0 := bufAt_front split
            have other : back.headD 0 ≠ charByte '=' := fun equal => by
              rw [equal, lineStop_equals] at ends
              cases ends
            rw [behind, if_neg other]
            simp [keySearch]
        | cons d tail =>
            have behind : bufAt buf (front ++ (passed ++ [c])).length = d := bufAt_split split
            rw [behind]
            by_cases second : d = charByte '='
            · have name : 0 ∉ passed ++ [c] := fun member => visible (by
                rw [List.append_cons]
                exact List.mem_append_left _ member)
              rw [if_pos second]
              simp only [strncmp_line split name key, second]
              by_cases same : passed ++ [c] <+: key
              · simp [same]
              · simp [same]
            · have next : keySearch key buf front.length (d :: tail).length
                  (front ++ (passed ++ [c])).length = _ := ih split (by rwa [← List.append_cons])
              rw [if_neg second, next]
              simp [second]

/-- The end of a line is found behind its text. -/
theorem scan_line {front text back : List Byte} (shape : buf = front ++ (text ++ back))
    (plain : ∀ c ∈ text, LineByte c) (ends : lineStop (back.headD 0) = true) :
    Scan.scanWhile (fun c => !newline c && !endOfString c) buf front.length = (front ++ text).length := by
  have inside : ∀ c ∈ text, (!newline c && !endOfString c) = true := by
    intro c member
    rw [(plain c member).1, (plain c member).visible]
    rfl
  have outside : (!newline (back.headD 0) && !endOfString (back.headD 0)) = false := by
    rw [← Bool.not_or]
    exact congrArg not ends
  rw [shape]
  exact Scan.scanWhile_between 0 front inside outside

/-- The search in a line finds its entry. -/
theorem lineSearch_eq (key : List Byte) {front text back : List Byte} (shape : buf = front ++ (text ++ back))
    (plain : ∀ c ∈ text, LineByte c) (ends : lineStop (back.headD 0) = true) :
    (if bufAt buf front.length ≠ charByte ';' then
        keySearch key buf front.length ((front ++ text).length - front.length) front.length
      else none) =
      (entryOf key text).map fun entry => (front ++ entry.1).length - 1 := by
  have searched : keySearch key buf front.length text.length (front ++ []).length = _ :=
    keySearch_eq (by simpa using shape) (fun member => (plain 0 (by simpa using member)).2 rfl) ends
  rw [List.append_nil, List.nil_append] at searched
  rw [List.length_append, Nat.add_sub_cancel_left, searched]
  cases text with
  | nil => simp [entryOf]
  | cons c rest =>
      have here : bufAt buf front.length = c := bufAt_split shape
      have empty : (c :: rest).takeWhile (· ≠ charByte '=') = [] ↔ (c :: rest).head? = some (charByte '=') := by
        simp [List.takeWhile_cons]
      rw [here, entryOf]
      simp only [← empty]
      by_cases comment : c = charByte ';'
      · simp [comment]
      · rw [if_pos comment]
        simp only [List.head?_cons, Option.some.injEq, comment, false_or]
        split
        · rfl
        · simp

theorem leftBrace_eq (c : Byte) : leftBrace c = true ↔ c = charByte '[' := by
  simp only [leftBrace, decide_eq_true_eq]
  exact eq_comm

section Line

variable {front text back : List Byte} (shape : buf = front ++ (text ++ back))
  (plain : ∀ c ∈ text, LineByte c) (ends : lineStop (back.headD 0) = true)
  (visible : endOfString ((text ++ back).headD 0) = false)
  (body : ¬(newline (bufAt buf (front.length - 1)) = true ∧ text.head? = some (charByte '[')))
include shape ends body

omit plain

include visible in
/-- A line is entered when its text or its line end is visible. -/
theorem line_enters :
    ¬((newline (bufAt buf (front.length - 1)) && leftBrace (bufAt buf front.length)) ||
      endOfString (bufAt buf front.length)) = true := by
  rw [bufAt_front shape, visible, Bool.or_false, Bool.and_eq_true, leftBrace_eq]
  rintro ⟨line, brace⟩
  refine body ⟨line, ?_⟩
  cases text with
  | nil =>
      rw [List.nil_append] at brace
      rw [brace] at ends
      cases ends
  | cons c rest => exact congrArg some brace

include plain

include visible in
/-- A line without the key is passed together with the character behind it. -/
theorem linesFrom_pass (loc : Location) (miss : entryOf key text = none) :
    linesFrom key buf front.length loc = linesFrom key buf ((front ++ text).length + 1) loc := by
  have searched := lineSearch_eq key shape plain ends
  rw [miss] at searched
  rw [linesFrom, parseLines, if_neg (line_enters shape ends visible body), scan_line shape plain ends]
  simp only [searched, Option.map_none]
  exact parseLines_fuel (by omega) (by omega)

/-- A line with the key ends the loop. -/
theorem linesFrom_hit (loc : Location) {lead value : List Byte} (hit : entryOf key text = some (lead, value)) :
    linesFrom key buf front.length loc =
      ({ loc with
          keyS := front.length
          keyE := ((front ++ lead).length - 1 : Nat) - 1
          valueS := ((front ++ lead).length - 1 : Nat) + 1
          valueE := (front ++ text).length }, (front ++ text).length, true) := by
  have searched := lineSearch_eq key shape plain ends
  have visible : endOfString ((text ++ back).headD 0) = false := by
    cases text with
    | nil =>
        rw [entryOf_nil] at hit
        cases hit
    | cons c rest => exact (plain c (List.mem_cons_self ..)).visible
  rw [hit] at searched
  rw [linesFrom, parseLines, if_neg (line_enters shape ends visible body), scan_line shape plain ends]
  simp only [searched, Option.map_some]

end Line

/-- A line without the key is passed together with its line end. -/
theorem linesFrom_miss {front text back : List Byte} {stop : Byte}
    (shape : buf = front ++ (text ++ stop :: back)) (plain : ∀ c ∈ text, LineByte c) (ends : newline stop = true)
    (body : ¬(newline (bufAt buf (front.length - 1)) = true ∧ text.head? = some (charByte '[')))
    (loc : Location) (miss : entryOf key text = none) :
    linesFrom key buf front.length loc = linesFrom key buf (front ++ text ++ [stop]).length loc := by
  have visible : endOfString ((text ++ stop :: back).headD 0) = false := by
    cases text with
    | nil => exact endOfString_newline ends
    | cons c rest => exact (plain c (List.mem_cons_self ..)).visible
  have behind : (front ++ text ++ [stop]).length = (front ++ text).length + 1 := by
    rw [List.length_append, List.length_singleton]
  rw [linesFrom_pass shape plain (lineStop_newline ends) visible body loc miss, behind]

end Psuart

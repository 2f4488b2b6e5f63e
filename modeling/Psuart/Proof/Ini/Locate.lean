import Psuart.Proof.Ini.Lines
import Psuart.Proof.Ini.Sections

namespace Psuart

variable {sec key buf : List Byte} {loc : Location}

/-- The position behind a line opens the next one. -/
theorem opensLine_behind (front : List Byte) (line : IniLine) : OpensLine (front ++ line.bytes) := by
  rw [IniLine.bytes, ← List.append_assoc, opensLine_append]
  exact line.ends

theorem line_behind (front : List Byte) (line : IniLine) : front ++ line.bytes ≠ [] := by
  simp [IniLine.bytes]

/-- Only a line of white space leaves a fresh section fresh. -/
theorem IniLine.stays_fresh {mode : Reading} (line : IniLine) (closed : line.content.opens sec = false)
    (fresh : line.content.next sec mode = .fresh) :
    mode = .fresh ∧ ∀ back, (line.bytes ++ back).takeWhile isspace = line.bytes ++ back.takeWhile isspace := by
  obtain ⟨content, stop, wellFormed, ends⟩ := line
  cases content with
  | header name =>
      rw [IniContent.next, if_neg (of_decide_eq_false closed)] at fresh
      cases fresh
  | body text =>
      cases mode with
      | outside => cases fresh
      | inside => cases fresh
      | fresh =>
          refine ⟨rfl, fun back => ?_⟩
          have white : text.all isspace = true := by
            by_contra some
            rw [IniContent.next, if_neg some] at fresh
            cases fresh
          apply List.takeWhile_append_of_pos
          intro c member
          rcases List.mem_append.mp member with inside | last
          · exact List.all_eq_true.mp white c inside
          · rw [List.mem_singleton.mp last]
            exact isspace_newline ends

/-- A line without a hit leads to the next line and keeps the place of the key. -/
theorem resume_line (sec : List Byte) (loc : Location) {front back : List Byte} {line : IniLine} {mode : Reading}
    (shape : buf = front ++ (line.bytes ++ back)) (opens : OpensLine front)
    (behind : mode = .outside ∨ front ≠ []) (miss : line.content.hit key mode = none) :
    ∃ next : Location,
      resume sec key buf mode front.length loc =
        resume sec key buf (line.content.next sec mode) (front ++ line.bytes).length next ∧
      next.keyS = loc.keyS ∧
      (next.secS = loc.secS ∧ line.content.opens sec = false ∨
        next.secS ≠ -1 ∧ line.content.opens sec = true) ∧
      (line.content.next sec mode = .fresh ∨
        next.secE = if mode = .fresh then
          ((front ++ (line.bytes ++ back).takeWhile isspace).length : Int) else loc.secE) := by
  obtain ⟨content, stop, wellFormed, ends⟩ := line
  dsimp only [IniLine.bytes] at *
  cases wellFormed with
  | @header name plain closed =>
      have split : buf = front ++ (charByte '[' :: name ++ [charByte ']'] ++ stop :: back) := by
        rw [shape]
        simp [IniContent.bytes]
      have start : ((IniContent.header name).bytes ++ [stop] ++ back).takeWhile isspace = [] :=
        List.takeWhile_cons_of_neg (by decide)
      rw [resume_header split opens behind plain closed ends, start, List.append_nil]
      by_cases begins : name <+: sec
      · have next : (IniContent.header name).next sec mode = .fresh := if_pos begins
        rw [if_pos begins, next]
        refine ⟨_, rfl, ?_, Or.inr ⟨?_, decide_eq_true begins⟩, Or.inl rfl⟩
        · dsimp only
          split <;> rfl
        · dsimp only
          omega
      · have next : (IniContent.header name).next sec mode = .outside := if_neg begins
        rw [if_neg begins, next]
        refine ⟨_, rfl, ?_, Or.inl ⟨?_, decide_eq_false begins⟩, Or.inr ?_⟩ <;> split <;> rfl
  | @body text plain free =>
      have split : buf = front ++ (text ++ stop :: back) := by
        rw [shape]
        simp [IniContent.bytes]
      rw [resume_body_miss split plain free ends miss]
      refine ⟨_, rfl, ?_, Or.inl ⟨?_, rfl⟩, ?_⟩
      · split <;> rfl
      · split <;> rfl
      · cases mode with
        | outside => exact Or.inr rfl
        | inside => exact Or.inr rfl
        | fresh =>
            cases blank : text.all isspace with
            | true => exact Or.inl (by rw [IniContent.next]; simp [blank])
            | false =>
                right
                have lead : ((IniContent.body text).bytes ++ [stop] ++ back).takeWhile isspace =
                    text.takeWhile isspace := by
                  rw [List.append_assoc]
                  exact Scan.takeWhile_inside blank _
                rw [lead]
                rfl

/-- The parser stops at the entry that the lines hold for the section and the key. -/
theorem resume_found (loc : Location) {lines : List IniLine} {front back : List Byte} {mode : Reading} {found : Found}
    (shape : buf = front ++ (iniText lines ++ back)) (opens : OpensLine front)
    (behind : mode = .outside ∨ front ≠ []) (entered : mode = .outside ∨ loc.secS ≠ -1)
    (located : locate sec key mode lines = some found) :
    ∃ place : Location, resume sec key buf mode front.length loc = (place, true) ∧
      place.secS ≠ -1 ∧ place.keyS ≠ -1 ∧ place.valueS = (front ++ found.before).length ∧
      place.valueE = (front ++ found.before ++ found.value).length := by
  induction lines generalizing front mode loc found with
  | nil => cases located
  | cons line rest ih =>
      rw [iniText_cons, List.append_assoc] at shape
      rw [locate] at located
      split at located
      · rename_i lead value hit
        obtain ⟨content, stop, wellFormed, ends⟩ := line
        cases wellFormed with
        | header _ _ => cases hit
        | @body text plain free =>
            have split : buf = front ++ (text ++ stop :: (iniText rest ++ back)) := by
              rw [shape]
              simp [IniLine.bytes, IniContent.bytes]
            have inner : mode ≠ .outside := by
              rintro rfl
              cases hit
            obtain ⟨place, stops, sameSec, keyS, valueS, valueE, whole⟩ :=
              resume_body_hit split plain free ends loc hit
            rw [← Option.some.inj located]
            refine ⟨place, stops, ?_, keyS, valueS, ?_⟩
            · rw [sameSec]
              exact entered.resolve_left inner
            · rw [valueE, List.append_assoc, whole]
      · rename_i miss
        obtain ⟨inner, later, rfl⟩ := Option.map_eq_some_iff.mp located
        obtain ⟨next, steps, _, kept, _⟩ := resume_line sec loc shape opens behind miss
        have stays : line.content.next sec mode = .outside ∨ next.secS ≠ -1 := by
          rcases kept with ⟨same, other⟩ | ⟨set, _⟩
          · rw [same]
            rcases entered with rfl | set
            · exact Or.inl (line.content.next_outside other)
            · exact Or.inr set
          · exact Or.inr set
        rw [steps]
        obtain ⟨place, stops, secS, keyS, valueS, valueE⟩ := ih next (by rw [shape, List.append_assoc])
          (opensLine_behind front line) (Or.inr (line_behind front line)) stays later
        refine ⟨place, stops, secS, keyS, ?_, ?_⟩
        · rw [valueS, List.append_assoc]
          rfl
        · rw [valueE, List.append_assoc front]
          rfl

/-- The parser stops at the end of the text. -/
theorem resume_end {front : List Byte} (shape : buf = front) (mode : Reading) :
    resume sec key buf mode front.length loc =
      ((if mode = .fresh then { loc with secE := front.length } else loc), false) := by
  have ends : endOfString (bufAt buf front.length) = true := by
    rw [bufAt_end (by rw [shape])]
    rfl
  have stays : Scan.scanWhile isspace buf front.length = front.length := by
    simp [Scan.scanWhile, shape]
  cases mode with
  | outside => exact parseSections_end _ ends
  | inside =>
      rw [resume, linesFrom, parseLines_end _ ends]
      exact parseSections_end _ ends
  | fresh =>
      rw [resume, stays, linesFrom, parseLines_end _ ends]
      exact parseSections_end _ ends

/-- A parser that finds no entry reports the last section that matches. -/
theorem resume_absent (loc : Location) {lines : List IniLine} {front : List Byte} {mode : Reading}
    (shape : buf = front ++ iniText lines) (opens : OpensLine front)
    (behind : mode = .outside ∨ front ≠ []) (located : locate sec key mode lines = none) :
    ∃ place : Location, resume sec key buf mode front.length loc = (place, false) ∧
      place.keyS = loc.keyS ∧
      match insertion sec lines with
      | some (before, _) => place.secS ≠ -1 ∧ place.secE = (front ++ before).length
      | none => place.secS = loc.secS ∧ place.secE =
          if mode = .fresh then ((front ++ (iniText lines).takeWhile isspace).length : Int)
          else loc.secE := by
  induction lines generalizing front mode loc with
  | nil =>
      rw [iniText_nil, List.append_nil] at shape
      rw [resume_end shape]
      refine ⟨_, rfl, ?_, ?_, ?_⟩
      · split <;> rfl
      · split <;> rfl
      · rw [iniText_nil, List.takeWhile_nil, List.append_nil]
        split <;> rfl
  | cons line rest ih =>
      rw [iniText_cons] at shape
      rw [locate] at located
      split at located
      · cases located
      · rename_i miss
        obtain ⟨next, steps, sameKey, kept, secE⟩ :=
          resume_line sec loc shape opens behind miss
        obtain ⟨place, stops, keyS, places⟩ := ih next (by rw [shape, List.append_assoc])
          (opensLine_behind front line) (Or.inr (line_behind front line))
          (Option.map_eq_none_iff.mp located)
        refine ⟨place, by rw [steps, stops], by rw [keyS, sameKey], ?_⟩
        rw [insertion]
        cases later : insertion sec rest with
        | some split =>
            rw [later] at places
            dsimp only at places ⊢
            rwa [← List.append_assoc]
        | none =>
            rw [later] at places
            obtain ⟨secS, secEnd⟩ := places
            rcases kept with ⟨same, other⟩ | ⟨set, opened⟩
            · simp only [other]
              refine ⟨by rw [secS, same], ?_⟩
              rw [secEnd, iniText_cons]
              by_cases fresh : line.content.next sec mode = .fresh
              · obtain ⟨already, white⟩ := line.stays_fresh other fresh
                rw [if_pos fresh, if_pos already, white, List.append_assoc]
              · rw [if_neg fresh, secE.resolve_left fresh]
            · rw [line.content.next_fresh opened, if_pos rfl] at secEnd
              simp only [opened, if_true]
              refine ⟨by rwa [secS], ?_⟩
              rw [secEnd, List.append_assoc]

/-- The parser finds the first entry for a section and a key, whatever stands behind its line. -/
theorem parseFile_found {lines : List IniLine} {found : Found}
    (located : locate sec key .outside lines = some found) (back : List Byte) :
    ∃ place : Location, parseFile sec key (iniText lines ++ back) = (place, true) ∧
      place.secS ≠ -1 ∧ place.keyS ≠ -1 ∧ place.valueS = found.before.length ∧
      place.valueE = (found.before ++ found.value).length := by
  have start : OpensLine [] := Or.inl rfl
  exact resume_found {} (List.nil_append _).symm start (Or.inl rfl) (Or.inl rfl) located

/-- A file without the entry is parsed to the last section that matches. -/
theorem parseFile_absent {lines : List IniLine} (located : locate sec key .outside lines = none) :
    ∃ place : Location, parseFile sec key (iniText lines) = (place, false) ∧ place.keyS = -1 ∧
      match insertion sec lines with
      | some (before, _) => place.secS ≠ -1 ∧ place.secE = before.length
      | none => place.secS = -1 := by
  have start : OpensLine [] := Or.inl rfl
  obtain ⟨place, stops, keyS, places⟩ :=
    resume_absent {} (List.nil_append (iniText lines)).symm start (Or.inl rfl) located
  refine ⟨place, stops, keyS, ?_⟩
  cases split : insertion sec lines with
  | some both =>
      rw [split] at places
      exact places
  | none =>
      rw [split] at places
      exact places.1

end Psuart

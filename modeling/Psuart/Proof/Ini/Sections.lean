import Psuart.Proof.Ini.Parser

namespace Psuart

variable {sec key buf : List Byte} {loc : Location}

/-- The character before a position is the last one of its front. -/
theorem bufAt_last {front back : List Byte} {last : Byte} (shape : buf = front ++ last :: back) :
    bufAt buf ((front ++ [last]).length - 1) = last := by
  rw [List.length_append, List.length_singleton, Nat.add_sub_cancel]
  exact bufAt_split shape

/-- A position opens a line at the start of the file or behind a line end. -/
def OpensLine (front : List Byte) : Prop :=
  front = [] ∨ ∃ body last, front = body ++ [last] ∧ newline last = true

theorem opensLine_append (body : List Byte) (last : Byte) :
    OpensLine (body ++ [last]) ↔ newline last = true := by
  constructor
  · rintro (none | ⟨other, final, equal, ends⟩)
    · simp at none
    · have same := List.cons.inj (List.append_inj_right' equal rfl)
      rwa [same.1]
  · intro ends
    exact Or.inr ⟨body, last, rfl, ends⟩

theorem opensLine_iff {front back : List Byte} (shape : buf = front ++ back) :
    (front.length = 0 ∨ newline (bufAt buf (front.length - 1)) = true) ↔ OpensLine front := by
  rcases List.eq_nil_or_concat' front with rfl | ⟨body, last, rfl⟩
  · simp [OpensLine]
  · rw [List.append_assoc, List.singleton_append] at shape
    rw [bufAt_last shape, opensLine_append]
    simp

/-- A character that opens no section is passed. -/
theorem sectionsFrom_char {front back : List Byte} {c : Byte} (shape : buf = front ++ c :: back)
    (visible : endOfString c = false) (inner : OpensLine front → c ≠ charByte '[') :
    sectionsFrom sec key buf front.length loc = sectionsFrom sec key buf (front ++ [c]).length loc := by
  rw [sectionsFrom, parseSections, bufAt_split shape, visible, if_neg (by simp), if_neg]
  · rw [sectionsFrom, List.length_append, List.length_singleton]
    exact parseSections_fuel (by omega) (by omega)
  · rintro ⟨opens, brace⟩
    exact inner ((opensLine_iff shape).mp opens) ((leftBrace_eq c).mp brace)

/-- A text that opens no section is passed. -/
theorem sectionsFrom_text {front text back : List Byte} (shape : buf = front ++ (text ++ back))
    (plain : ∀ c ∈ text, TextByte c) (inner : OpensLine front → text.head? ≠ some (charByte '[')) :
    sectionsFrom sec key buf front.length loc =
      sectionsFrom sec key buf (front ++ text).length loc := by
  induction text generalizing front with
  | nil => rw [List.append_nil]
  | cons c rest ih =>
      rw [List.forall_mem_cons] at plain
      have moved : buf = front ++ [c] ++ (rest ++ back) := by rw [shape]; simp
      rw [sectionsFrom_char shape plain.1.visible fun opens equal => inner opens (by rw [equal]; rfl)]
      rw [ih moved plain.2]
      · rw [List.append_assoc, List.singleton_append]
      · rw [opensLine_append, plain.1.1]
        intro opens
        cases opens

section Name

variable {front name back : List Byte} (shape : buf = front ++ charByte '[' :: (name ++ back)) (visible : 0 ∉ name)
include shape visible

/-- The closing brace or the terminator is found behind a name. -/
theorem scan_name (closed : charByte ']' ∉ name)
    (ends : (isRightBrace (back.headD 0) || endOfString (back.headD 0)) = true) :
    Scan.scanWhile (fun c => !isRightBrace c && !endOfString c) buf (front.length + 1) =
      (front ++ charByte '[' :: name).length := by
  have inside : ∀ c ∈ name, (!isRightBrace c && !endOfString c) = true := by
    intro c member
    have brace : isRightBrace c = false := decide_eq_false fun equal => closed (equal ▸ member)
    have terminator : endOfString c = false := decide_eq_false fun equal => visible (equal ▸ member)
    rw [brace, terminator]
    rfl
  have outside : (!isRightBrace (back.headD 0) && !endOfString (back.headD 0)) = false := by
    rw [← Bool.not_or]
    exact congrArg not ends
  have scanned := Scan.scanWhile_between 0 (front ++ [charByte '[']) inside outside
  rwa [← List.append_cons, ← shape, List.length_append, List.length_singleton, ← List.append_cons] at scanned

/-- The name is compared with the start of the section. -/
theorem compare_name :
    strncmp (buf.drop (front.length + 1)) sec ((front ++ charByte '[' :: name).length - (front.length + 1)) = 0 ↔
      name <+: sec := by
  have behind : buf.drop (front.length + 1) = name ++ back := by
    rw [shape, List.append_cons, ← List.length_singleton (a := charByte '['), ← List.length_append, List.drop_left]
  have count : (front ++ charByte '[' :: name).length - (front.length + 1) = name.length := by
    rw [List.length_append, List.length_cons]
    omega
  rw [behind, count]
  exact strncmp_name visible sec

end Name

/-- A loop over the lines that finds nothing returns to the loop over the file. -/
def leaveSection (sec key buf : List Byte) (result : Location × Nat × Bool) : Location × Bool :=
  if result.2.2 then (result.1, true) else sectionsFrom sec key buf result.2.1 result.1

/-- A header whose name begins the section is entered, and the reader passes the name of any other. -/
theorem sectionsFrom_header {front name back : List Byte}
    (shape : buf = front ++ (charByte '[' :: name ++ charByte ']' :: back)) (opens : OpensLine front)
    (plain : ∀ c ∈ name, TextByte c) (closed : charByte ']' ∉ name) :
    sectionsFrom sec key buf front.length loc =
      if name <+: sec then
        leaveSection sec key buf
          (enterSection key buf (front.length + 1) (front ++ charByte '[' :: name).length loc)
      else sectionsFrom sec key buf (front ++ charByte '[' :: name).length loc := by
  have brace : bufAt buf front.length = charByte '[' := bufAt_split shape
  have visible : 0 ∉ name := fun member => (plain 0 member).2.1 rfl
  have line : buf = front ++ charByte '[' :: (name ++ charByte ']' :: back) := by rw [shape, List.cons_append]
  have scanned := scan_name line visible closed rfl
  rw [sectionsFrom, parseSections, brace, if_neg (by decide),
    if_pos ⟨(opensLine_iff shape).mpr opens, rfl⟩]
  simp only [scanned, compare_name line visible, leaveSection, sectionsFrom]
  split
  · split
    · rfl
    · have further {place : Nat} (moved : (front ++ charByte '[' :: name).length < place) :
          buf.length < buf.length + place := by omega
      exact parseSections_fuel (further (enterSection_ge _ _)) (by omega)
  · apply parseSections_fuel
    · simp
    · omega

/-- The parser goes on at a line start in one of the three readings. -/
def resume (sec key buf : List Byte) (mode : Reading) (i : Nat) (loc : Location) : Location × Bool :=
  match mode with
  | .outside => sectionsFrom sec key buf i loc
  | .fresh =>
      leaveSection sec key buf (linesFrom key buf (Scan.scanWhile isspace buf i)
        { loc with secE := Scan.scanWhile isspace buf i })
  | .inside => leaveSection sec key buf (linesFrom key buf i loc)

/-- A header behind a section returns to the loop over the file. -/
theorem linesFrom_brace {front back : List Byte} (shape : buf = front ++ charByte '[' :: back)
    (opens : OpensLine front) (behind : front ≠ []) :
    linesFrom key buf front.length loc = (loc, front.length, false) := by
  have before := ((opensLine_iff shape).mpr opens).resolve_left fun none =>
    behind (List.length_eq_zero_iff.mp none)
  rw [linesFrom, parseLines, before, bufAt_split shape, if_pos]
  rfl

section Header

variable {front name back : List Byte} {stop : Byte}
  (shape : buf = front ++ (charByte '[' :: name ++ [charByte ']'] ++ stop :: back))
  (opens : OpensLine front)
include shape opens

/-- A header is read outside of the section. -/
theorem resume_header_leaves {mode : Reading} (behind : mode = .outside ∨ front ≠ []) :
    resume sec key buf mode front.length loc =
      sectionsFrom sec key buf front.length
        (if mode = .fresh then { loc with secE := front.length } else loc) := by
  have brace : buf = front ++ charByte '[' :: (name ++ [charByte ']'] ++ stop :: back) := by
    rw [shape]
    simp
  cases mode with
  | outside => rfl
  | fresh =>
      have stays : Scan.scanWhile isspace buf front.length = front.length := by
        rw [brace, Scan.scanWhile_front, List.takeWhile_cons_of_neg (by decide), List.append_nil]
      rw [resume, stays, linesFrom_brace brace opens (behind.resolve_left (by decide))]
      rfl
  | inside =>
      rw [resume, linesFrom_brace brace opens (behind.resolve_left (by decide))]
      rfl

/-- A header that matches opens its section, and any other one leads outside. -/
theorem resume_header {mode : Reading} (behind : mode = .outside ∨ front ≠ [])
    (plain : ∀ c ∈ name, TextByte c) (closed : charByte ']' ∉ name) (ends : newline stop = true) :
    resume sec key buf mode front.length loc =
      if name <+: sec then
        resume sec key buf .fresh (front ++ (charByte '[' :: name ++ [charByte ']'] ++ [stop])).length
          { (if mode = .fresh then { loc with secE := front.length } else loc) with
            secS := (front.length + 1 : Nat) }
      else
        resume sec key buf .outside (front ++ (charByte '[' :: name ++ [charByte ']'] ++ [stop])).length
          (if mode = .fresh then { loc with secE := front.length } else loc) := by
  rw [resume_header_leaves shape opens behind]
  generalize (if mode = .fresh then { loc with secE := (front.length : Int) } else loc) = loc
  have closing : buf = front ++ (charByte '[' :: name ++ charByte ']' :: (stop :: back)) := by
    rw [shape]
    simp
  have behindName : buf = (front ++ charByte '[' :: name) ++ charByte ']' :: (stop :: back) := by
    rw [closing]
    simp
  have behindBrace : buf = (front ++ charByte '[' :: name ++ [charByte ']']) ++ stop :: back := by
    rw [closing]
    simp
  have behindLine : buf = (front ++ (charByte '[' :: name ++ [charByte ']'] ++ [stop])) ++ back := by
    rw [closing]
    simp
  rw [sectionsFrom_header closing opens plain closed]
  split
  · have start : Scan.scanWhile isspace buf ((front ++ charByte '[' :: name).length + 1) =
        Scan.scanWhile isspace buf
          (front ++ (charByte '[' :: name ++ [charByte ']'] ++ [stop])).length := by
      have place : (front ++ charByte '[' :: name).length + 1 =
          (front ++ charByte '[' :: name ++ [charByte ']']).length := by
        simp only [List.length_append, List.length_singleton]
      conv_lhs => rw [place, behindBrace, Scan.scanWhile_front,
        List.takeWhile_cons_of_pos (isspace_newline ends)]
      conv_rhs => rw [behindLine, Scan.scanWhile_front]
      simp
    simp only [resume, enterSection, start]
    rfl
  · have braceVisible : endOfString (charByte ']') = false := by decide
    rw [sectionsFrom_char behindName braceVisible fun _ => by decide,
      sectionsFrom_char behindBrace (endOfString_newline ends) fun _ equal => by
        rw [equal, newline_leftBrace] at ends
        cases ends]
    rw [resume]
    simp

end Header

/-- White space is passed at the start of a fresh section. -/
theorem resume_blank {front text back : List Byte} (shape : buf = front ++ (text ++ back))
    (blank : text.all isspace = true) :
    resume sec key buf .fresh front.length loc = resume sec key buf .fresh (front ++ text).length loc := by
  have start : Scan.scanWhile isspace buf front.length = Scan.scanWhile isspace buf (front ++ text).length := by
    have split : buf = front ++ text ++ back := by rw [shape, List.append_assoc]
    conv_lhs => rw [shape, Scan.scanWhile_front, List.takeWhile_append_of_pos (List.all_eq_true.mp blank)]
    conv_rhs => rw [split, Scan.scanWhile_front]
    rw [List.append_assoc]
  rw [resume, resume, start]

/-- The first text of a section is read from its first visible character on. -/
theorem resume_fresh {front text back : List Byte} {stop : Byte}
    (shape : buf = front ++ (text ++ stop :: back)) (some : text.all isspace = false) :
    resume sec key buf .fresh front.length loc =
      resume sec key buf .inside (front ++ text.takeWhile isspace).length
        { loc with secE := (front ++ text.takeWhile isspace).length } := by
  have start : Scan.scanWhile isspace buf front.length = (front ++ text.takeWhile isspace).length := by
    rw [shape, Scan.scanWhile_front, Scan.takeWhile_inside some]
  rw [resume, resume, start]

section Body

variable {front text back : List Byte} {stop : Byte} (shape : buf = front ++ (text ++ stop :: back))
  (plain : ∀ c ∈ text, TextByte c) (free : text.head? ≠ some (charByte '[')) (ends : newline stop = true)
include shape plain free ends

omit ends in
/-- The visible part of a first line opens no section. -/
theorem fresh_body :
    ¬(newline (bufAt buf ((front ++ text.takeWhile isspace).length - 1)) = true ∧
      (text.dropWhile isspace).head? = some (charByte '[')) := by
  rintro ⟨line, brace⟩
  have whole := List.takeWhile_append_dropWhile (p := isspace) (l := text)
  rcases List.eq_nil_or_concat' (text.takeWhile isspace) with none | ⟨lead, last, blank⟩
  · rw [none, List.nil_append] at whole
    rw [whole] at brace
    exact free brace
  · have last_mem : last ∈ text := by
      rw [← whole, blank]
      simp
    have split : buf = (front ++ lead) ++ last :: (text.dropWhile isspace ++ stop :: back) := by
      rw [shape]
      conv_lhs => rw [← whole, blank]
      simp
    rw [blank, ← List.append_assoc, bufAt_last split, (plain last last_mem).1] at line
    cases line

/-- A line without a hit is passed. -/
theorem resume_body_miss {mode : Reading}
    (miss : (IniContent.body text).hit key mode = none) :
    resume sec key buf mode front.length loc =
      resume sec key buf ((IniContent.body text).next sec mode) (front ++ (text ++ [stop])).length
        (if mode = .fresh ∧ text.all isspace = false then
          { loc with secE := (front ++ text.takeWhile isspace).length } else loc) := by
  have split : buf = (front ++ text) ++ stop :: back := by rw [shape, List.append_assoc]
  cases mode with
  | outside =>
      rw [if_neg (by simp), ← List.append_assoc]
      change sectionsFrom sec key buf front.length loc = sectionsFrom sec key buf _ loc
      rw [sectionsFrom_text shape plain fun _ => free,
        sectionsFrom_char split (endOfString_newline ends) fun _ equal => by
          rw [equal, newline_leftBrace] at ends
          cases ends]
  | inside =>
      rw [if_neg (by simp), ← List.append_assoc]
      have passed := linesFrom_miss shape (fun c member => (plain c member).line) ends
        (fun both => free both.2) loc miss
      simp only [resume, IniContent.next, passed]
  | fresh =>
      cases blank : text.all isspace with
      | true =>
          have white : (text ++ [stop]).all isspace = true := by
            rw [List.all_append, blank]
            simp [isspace_newline ends]
          have line : buf = front ++ (text ++ [stop] ++ back) := by
            rw [shape]
            simp
          rw [if_neg (by simp), resume_blank line white]
          simp only [IniContent.next, blank, if_true]
      | false =>
          have visible : buf = (front ++ text.takeWhile isspace) ++
              (text.dropWhile isspace ++ stop :: back) := by
            rw [shape, List.append_assoc, ← List.append_assoc (text.takeWhile isspace),
              List.takeWhile_append_dropWhile]
          have none : entryOf key (text.dropWhile isspace) = none := by
            simpa [IniContent.hit] using miss
          have passed (loc : Location) := linesFrom_miss visible
            (fun c member => (plain c (List.dropWhile_subset _ member)).line) ends
            (fresh_body shape plain free) loc none
          have place : front ++ text.takeWhile isspace ++ text.dropWhile isspace ++ [stop] =
              front ++ (text ++ [stop]) := by
            conv_rhs => rw [← List.takeWhile_append_dropWhile (p := isspace) (l := text)]
            simp
          rw [if_pos ⟨rfl, rfl⟩, resume_fresh shape blank]
          simp only [resume, IniContent.next, blank, passed, place]
          rfl

/-- A line with a hit ends the search. -/
theorem resume_body_hit (loc : Location) {mode : Reading} {lead value : List Byte}
    (hit : (IniContent.body text).hit key mode = some (lead, value)) :
    ∃ found : Location, resume sec key buf mode front.length loc = (found, true) ∧
      found.secS = loc.secS ∧ found.keyS ≠ -1 ∧ found.valueS = (front ++ lead).length ∧
      found.valueE = (front ++ text).length ∧ lead ++ value = text := by
  have reached {lead : List Byte} (some : lead ≠ []) (front : List Byte) :
      (((front ++ lead).length - 1 : Nat) : Int) + 1 = (front ++ lead).length := by
    have positive := List.length_pos_iff.mpr some
    rw [List.length_append]
    omega
  cases mode with
  | outside => cases hit
  | inside =>
      obtain ⟨whole, some⟩ := entryOf_text hit
      have found := linesFrom_hit shape (fun c member => (plain c member).line) (lineStop_newline ends)
        (fun both => free both.2) loc hit
      rw [resume, found]
      refine ⟨_, rfl, rfl, ?_, reached some front, rfl, whole⟩
      dsimp only
      omega
  | fresh =>
      obtain ⟨⟨lead, value⟩, inner, equal⟩ := Option.map_eq_some_iff.mp hit
      obtain ⟨rfl, rfl⟩ := Prod.mk.inj equal
      obtain ⟨whole, some⟩ := entryOf_text inner
      have visible : buf = (front ++ text.takeWhile isspace) ++
          (text.dropWhile isspace ++ stop :: back) := by
        rw [shape, List.append_assoc, ← List.append_assoc (text.takeWhile isspace),
          List.takeWhile_append_dropWhile]
      have shown : text.all isspace = false := by
        by_contra blank
        rw [Bool.not_eq_false, List.all_eq_true, ← List.dropWhile_eq_nil_iff] at blank
        rw [blank, entryOf_nil] at inner
        cases inner
      have found (loc : Location) := linesFrom_hit visible
        (fun c member => (plain c (List.dropWhile_subset _ member)).line) (lineStop_newline ends)
        (fresh_body shape plain free) loc inner
      have place : front ++ text.takeWhile isspace ++ text.dropWhile isspace = front ++ text := by
        rw [List.append_assoc, List.takeWhile_append_dropWhile]
      rw [resume_fresh shape shown, resume, found]
      refine ⟨_, rfl, rfl, ?_, ?_, ?_, ?_⟩
      · dsimp only
        omega
      · rw [← List.append_assoc]
        exact reached some _
      · rw [place]
      · rw [List.append_assoc, whole, List.takeWhile_append_dropWhile]

end Body

end Psuart

import Psuart.Proof.Config.Reading
import Psuart.Proof.Config.Stored

namespace Psuart

theorem Graphic.facts {c : Byte} (graphic : Graphic c) :
    TextByte c ∧ isspace c = false ∧ c ≠ charByte '\n' ∧ c ≠ 0 ∧ c ≠ 0xEF := by
  revert c
  decide

theorem graphic_of_all {text : List Byte} (check : text.all (fun c => decide (Graphic c)) = true) :
    ∀ c ∈ text, Graphic c :=
  fun c member => of_decide_eq_true (List.all_eq_true.mp check c member)

section Graphic

variable {text : List Byte} (graphic : ∀ c ∈ text, Graphic c)
include graphic

theorem rstrip_graphic : rstrip text = text := by
  rw [rstrip, List.rdropWhile_eq_self_iff]
  intro some
  rw [(graphic _ (List.getLast_mem some)).facts.2.1]
  decide

theorem lskip_graphic : lskip text = text := by
  cases text with
  | nil => rfl
  | cons c rest => exact List.dropWhile_cons_of_neg (by simp [(graphic c (List.mem_cons_self ..)).facts.2.1])

/-- A text without white space is searched for the character only. -/
theorem findCharOrComment_graphic {c : Byte} (absent : c ∉ text) (was : Bool) (calm : was = false)
    (rest : List Byte) :
    findCharOrComment c was (text ++ c :: rest) = (text, c :: rest) ∧
      findCharOrComment c was text = (text, []) := by
  induction text generalizing was with
  | nil => simp [findCharOrComment]
  | cons first tail ih =>
      rw [List.forall_mem_cons] at graphic
      rw [List.mem_cons, not_or] at absent
      have space := graphic.1.facts.2.1
      obtain ⟨found, whole⟩ := ih graphic.2 absent.2 (isspace first) space
      rw [List.cons_append, findCharOrComment, findCharOrComment, found, whole]
      simp [Ne.symm absent.1, calm]

/-- A graphic line has no terminator and no byte order mark. -/
theorem line_graphic {tail : List Byte} (ends : tail = [] ∨ tail = [charByte '\n']) :
    cString (text ++ tail) = text ++ tail ∧ (text ++ tail).take 3 ≠ [0xEF, 0xBB, 0xBF] := by
  constructor
  · apply cString_eq
    intro member
    rcases List.mem_append.mp member with inside | last
    · exact (graphic 0 inside).facts.2.2.2.1 rfl
    · rcases ends with rfl | rfl
      · cases last
      · exact absurd last (by decide)
  · intro bom
    cases text with
    | nil => rcases ends with rfl | rfl <;> exact absurd bom (by decide)
    | cons c rest => exact (graphic c (List.mem_cons_self ..)).facts.2.2.2.2 (List.cons.inj bom).1

theorem strippedLine_graphic (first : Bool) {tail : List Byte} (ends : tail = [] ∨ tail = [charByte '\n']) :
    strippedLine first (text ++ tail) = text := by
  rw [strippedLine, if_neg fun both => (line_graphic graphic ends).2 both.2]
  rcases ends with rfl | rfl
  · rw [List.append_nil, rstrip_graphic graphic]
  · rw [rstrip, List.rdropWhile_concat_pos _ _ _ (by decide)]
    exact rstrip_graphic graphic

/-- A graphic line continues no entry. -/
theorem lineEffect_graphic (first named : Bool) {c : Byte} {rest tail : List Byte} (starts : text = c :: rest)
    (ends : tail = [] ∨ tail = [charByte '\n']) (comment : c ≠ charByte ';' ∧ c ≠ charByte '#') :
    lineEffect first named (cString (text ++ tail)) =
      if c = charByte '[' then headerEffect rest else entryEffect text := by
  obtain ⟨string, mark⟩ := line_graphic graphic ends
  have start := lskip_graphic graphic
  rw [lineEffect, string]
  simp only [strippedLine_graphic graphic first ends, start]
  rw [starts]
  dsimp only
  rw [if_neg (not_or.mpr comment), if_neg]
  rw [← starts]
  rintro ⟨_, bom | moved⟩
  · exact mark bom.2
  · exact moved rfl

end Graphic

theorem lineEffect_blank (first named : Bool) {tail : List Byte} (ends : tail = [] ∨ tail = [charByte '\n']) :
    lineEffect first named (cString tail) = .skip := by
  rcases ends with rfl | rfl <;> cases first <;> cases named <;> rfl

theorem headerEffect_graphic {name : List Byte} (graphic : ∀ c ∈ name, Graphic c)
    (closed : charByte ']' ∉ name) : headerEffect (name ++ [charByte ']']) = .opens name := by
  have found := (findCharOrComment_graphic graphic closed false rfl []).1
  rw [headerEffect, found]
  rfl

theorem entryEffect_graphic {key value : List Byte} (named : ∀ c ∈ key, Graphic c)
    (graphic : ∀ c ∈ value, Graphic c) (free : charByte '=' ∉ key) :
    entryEffect (key ++ charByte '=' :: value) = .entry key value := by
  have found := (findCharOrComment_graphic named free false rfl value).1
  have visible : 0 ∉ value := fun member => (graphic 0 member).facts.2.2.2.1 rfl
  have whole := (findCharOrComment_graphic graphic visible false rfl []).2
  have split : entrySplit (key ++ charByte '=' :: value) = (key, charByte '=' :: value) := by
    rw [entrySplit, found]
    rfl
  rw [entryEffect, split]
  dsimp only
  rw [if_pos (Or.inl rfl), lskip_graphic graphic, whole, rstrip_graphic named, rstrip_graphic graphic]

/-- A line that fits is one result of `fgets`, and a full one leaves its line feed to the next. -/
theorem fgetsLines_line {size : Nat} {text : List Byte} (plain : charByte '\n' ∉ text) (line rest : List Byte)
    (short : line.length + text.length < size - 1) :
    fgetsLines size line (text ++ charByte '\n' :: rest) =
      (line.reverse ++ text ++ [charByte '\n']) :: fgetsLines size [] rest := by
  induction text generalizing line with
  | nil =>
      rw [List.nil_append, fgetsLines, if_pos (Or.inl rfl)]
      simp
  | cons c tail ih =>
      rw [List.mem_cons, not_or] at plain
      rw [List.length_cons] at short
      rw [List.cons_append, fgetsLines, if_neg]
      · rw [ih plain.2 (c :: line) (by rw [List.length_cons]; omega)]
        simp
      · rintro (newline | full)
        · exact plain.1 newline.symm
        · omega

theorem fgetsLines_full {size : Nat} {text : List Byte} (plain : charByte '\n' ∉ text) (some : text ≠ [])
    (line rest : List Byte) (full : line.length + text.length + 1 = size) :
    fgetsLines size line (text ++ rest) = (line.reverse ++ text) :: fgetsLines size [] rest := by
  induction text generalizing line with
  | nil => exact absurd rfl some
  | cons c tail ih =>
      rw [List.mem_cons, not_or] at plain
      rw [List.length_cons] at full
      rw [List.cons_append, fgetsLines]
      cases tail with
      | nil =>
          rw [List.length_nil] at full
          rw [if_pos (Or.inr (by omega))]
          simp
      | cons d more =>
          rw [List.length_cons] at full
          rw [if_neg, ih plain.2 (List.cons_ne_nil _ _) (c :: line) (by simp only [List.length_cons]; omega)]
          · simp
          · rintro (newline | early)
            · exact plain.1 newline.symm
            · omega

/-- A reader in some state reads a file. -/
def readFrom (state : IniState CfgValues) (file : List Byte) : IniState CfgValues :=
  (fgetsLines iniMaxLine [] file).foldl (iniLine handler) state

/-- A text leads a reader from one state to another, whatever stands behind it. -/
def Reads (text : List Byte) (state next : IniState CfgValues) : Prop :=
  ∀ rest, readFrom state (text ++ rest) = readFrom next rest

theorem Reads.append {first second : List Byte} {state middle next : IniState CfgValues}
    (one : Reads first state middle) (two : Reads second middle next) : Reads (first ++ second) state next := by
  intro rest
  rw [List.append_assoc, one, two]

/-- The section and the options behind a line depend on its effect only. -/
theorem iniLine_effect {effect : IniEffect} (state : IniState CfgValues) {chunk : List Byte}
    (same : ∀ first named, lineEffect first named (cString chunk) = effect) :
    (iniLine handler state chunk).user = (effect.apply handler state).user ∧
      (iniLine handler state chunk).sec = (effect.apply handler state).sec := by
  rw [iniLine_eq, same]
  cases effect with
  | skip => exact ⟨rfl, rfl⟩
  | fail => exact ⟨rfl, rfl⟩
  | opens name => exact ⟨rfl, rfl⟩
  | continues value =>
      rw [IniEffect.apply, IniEffect.apply, IniState.call_handler, IniState.call_handler]
      exact ⟨rfl, rfl⟩
  | entry name value =>
      rw [IniEffect.apply, IniEffect.apply, IniState.call_handler, IniState.call_handler]
      exact ⟨rfl, rfl⟩

/-- A line is read by one or by two calls of `fgets`. -/
theorem reads_line {text : List Byte} (graphic : ∀ c ∈ text, Graphic c) (short : text.length < iniMaxLine)
    {effect : IniEffect} (same : ∀ first named tail, (tail = [] ∨ tail = [charByte '\n']) →
      lineEffect first named (cString (text ++ tail)) = effect) (state : IniState CfgValues) :
    ∃ next, Reads (text ++ [charByte '\n']) state next ∧ next.user = (effect.apply handler state).user ∧
      next.sec = (effect.apply handler state).sec := by
  have plain : charByte '\n' ∉ text := fun member => (graphic _ member).facts.2.2.1 rfl
  by_cases whole : text.length < iniMaxLine - 1
  · obtain ⟨user, sec⟩ := iniLine_effect state fun first named =>
      same first named [charByte '\n'] (Or.inr rfl)
    refine ⟨iniLine handler state (text ++ [charByte '\n']), fun rest => ?_, user, sec⟩
    rw [readFrom, List.append_assoc, List.singleton_append, fgetsLines_line plain [] rest (by simpa using whole)]
    rfl
  · obtain ⟨user, sec⟩ := iniLine_effect state fun first named => by
      have effect := same first named [] (Or.inl rfl)
      rwa [List.append_nil] at effect
    obtain ⟨userBlank, secBlank⟩ := iniLine_effect (iniLine handler state text)
      fun first named => lineEffect_blank first named (Or.inr rfl)
    have some : text ≠ [] := by
      rintro rfl
      exact whole (by decide)
    refine ⟨iniLine handler (iniLine handler state text) [charByte '\n'], fun rest => ?_,
      userBlank.trans user, secBlank.trans sec⟩
    rw [readFrom, List.append_assoc, fgetsLines_full plain some [] _ (by simp only [List.length_nil]; omega)]
    rfl

theorem CfgOption.name_graphic (option : CfgOption) : ∀ c ∈ option.name, Graphic c := by
  apply graphic_of_all
  cases option <;> decide

theorem CfgOption.sec_graphic (option : CfgOption) : ∀ c ∈ option.sec, Graphic c := by
  apply graphic_of_all
  cases option <;> decide

theorem CfgOption.sec_short (option : CfgOption) : option.sec.length < maxSection := by
  cases option <;> decide

/-- The name of an option starts neither a comment nor a header. -/
theorem CfgOption.name_start (option : CfgOption) {c : Byte} {rest : List Byte} (starts : option.name = c :: rest) :
    (c ≠ charByte ';' ∧ c ≠ charByte '#') ∧ c ≠ charByte '[' := by
  have check : option.name.head?.all
      (fun c => (c ≠ charByte ';' ∧ c ≠ charByte '#') ∧ c ≠ charByte '[') = true := by
    cases option <;> decide
  rw [starts] at check
  exact of_decide_eq_true check

/-- A header opens the section of an option. -/
theorem reads_header (option : CfgOption) (state : IniState CfgValues) :
    ∃ next, Reads (headerLine option.sec) state next ∧ next.user = state.user ∧ next.sec = option.sec := by
  have closed := option.sectionName.closed
  have graphic : ∀ c ∈ charByte '[' :: (option.sec ++ [charByte ']']), Graphic c :=
    List.forall_mem_cons.mpr ⟨by decide, List.forall_mem_append.mpr
      ⟨option.sec_graphic, List.forall_mem_singleton.mpr (by decide)⟩⟩
  have short := option.sec_short
  obtain ⟨next, reads, user, sec⟩ := reads_line graphic
    (by rw [List.length_cons, List.length_append, List.length_singleton, iniMaxLine]; rw [maxSection] at short; omega)
    (fun first named tail ends => by
      rw [lineEffect_graphic graphic first named rfl ends (by decide), if_pos rfl,
        headerEffect_graphic option.sec_graphic closed]) state
  refine ⟨next, ?_, user, ?_⟩
  · simpa [headerLine] using reads
  · rw [sec]
    exact List.take_of_length_le (by omega)

variable {cfg : CfgOption → List Byte} {plain : ∀ option, ∀ c ∈ cfg option, TextByte c}
  (graphic : ∀ option, ∀ c ∈ cfg option, Graphic c)
  (short : ∀ option, option.name.length + (cfg option).length + 1 < 200)

theorem reads_gap (front : List IniLine) (state : IniState CfgValues) :
    ∃ next, Reads (iniText (gap front)) state next ∧ next.user = state.user := by
  rw [gap]
  split
  · exact ⟨state, fun _ => rfl, rfl⟩
  · obtain ⟨next, reads, user, _⟩ := reads_line (List.forall_mem_nil _) (by decide)
      (fun first named tail ends => lineEffect_blank first named ends) state
    exact ⟨next, reads, user⟩

theorem handler_option (values : CfgValues) (option : CfgOption) (value : List Byte) :
    (handler values option.sec option.name value).1 = Function.update values option (some value) := by
  funext other
  rw [handler_value]
  by_cases same : other = option
  · rw [same, if_pos ⟨rfl, rfl⟩, Function.update_self]
  · rw [if_neg fun both => same (CfgOption.eq_of_names both.1.symm both.2.symm), Function.update_of_ne same]

/-- The options that the lines hold are set. -/
def setOptions (cfg : CfgOption → List Byte) (options : List CfgOption) (values : CfgValues) : CfgValues :=
  options.foldl (fun values option => Function.update values option (some (cfg option))) values

theorem setOptions_value (cfg : CfgOption → List Byte) (options : List CfgOption) (values : CfgValues)
    (option : CfgOption) :
    setOptions cfg options values option = if option ∈ options then some (cfg option) else values option := by
  induction options generalizing values with
  | nil => rfl
  | cons first rest ih =>
      change setOptions cfg rest (Function.update values first (some (cfg first))) option = _
      rw [ih]
      by_cases later : option ∈ rest
      · rw [if_pos later, if_pos (List.mem_cons_of_mem _ later)]
      · rw [if_neg later]
        by_cases same : option = first
        · rw [same, Function.update_self, if_pos (List.mem_cons_self ..)]
        · rw [Function.update_of_ne same, if_neg fun member => (List.mem_cons.mp member).elim same later]

include graphic short

/-- The line of an option sets it. -/
theorem reads_option (option : CfgOption) {state : IniState CfgValues} (sec : state.sec = option.sec) :
    ∃ next, Reads (entryLine option.name (cfg option)) state next ∧
      next.user = Function.update state.user option (some (cfg option)) ∧ next.sec = option.sec := by
  have visible : ∀ c ∈ option.name ++ charByte '=' :: cfg option, Graphic c := List.forall_mem_append.mpr
    ⟨option.name_graphic, List.forall_mem_cons.mpr ⟨by decide, graphic option⟩⟩
  have length : (option.name ++ charByte '=' :: cfg option).length < iniMaxLine := by
    have fits := short option
    rw [List.length_append, List.length_cons, iniMaxLine]
    omega
  have effect : ∀ first named tail, (tail = [] ∨ tail = [charByte '\n']) →
      lineEffect first named (cString (option.name ++ charByte '=' :: cfg option ++ tail)) =
        .entry option.name (cfg option) := by
    intro first named tail ends
    obtain ⟨c, rest, starts⟩ := List.exists_cons_of_ne_nil option.keyName.named
    obtain ⟨comment, header⟩ := option.name_start starts
    rw [lineEffect_graphic visible first named (by rw [starts, List.cons_append]) ends comment,
      if_neg header, entryEffect_graphic option.name_graphic (graphic option) option.keyName.free]
  obtain ⟨next, reads, user, nextSec⟩ := reads_line visible length effect state
  rw [IniEffect.apply, IniState.call_handler] at user nextSec
  refine ⟨next, ?_, ?_, nextSec.trans sec⟩
  · simpa [entryLine] using reads
  · rw [user, sec, handler_option]

theorem reads_options (plain : ∀ option, ∀ c ∈ cfg option, TextByte c) {sec : List Byte}
    {options : List CfgOption} (same : ∀ option ∈ options, option.sec = sec) {state : IniState CfgValues}
    (inside : state.sec = sec) :
    ∃ next, Reads (iniText ((options.map (CfgOption.entry cfg plain)).map Entry.line)) state next ∧
      next.user = setOptions cfg options state.user := by
  induction options generalizing state with
  | nil => exact ⟨state, fun _ => rfl, rfl⟩
  | cons option rest ih =>
      rw [List.forall_mem_cons] at same
      obtain ⟨middle, first, user, middleSec⟩ := reads_option graphic short option (inside.trans same.1.symm)
      obtain ⟨next, second, result⟩ := ih same.2 (middleSec.trans same.1)
      refine ⟨next, ?_, ?_⟩
      · rw [List.map_cons, List.map_cons, ← List.singleton_append, iniText_append, Entry.line_text]
        exact first.append second
      · rw [result, user]
        rfl

/-- A section behind some lines sets its options. -/
theorem reads_section (option : CfgOption) {front : List IniLine} (options : List CfgOption)
    (same : ∀ other ∈ options, other.sec = option.sec) {start state : IniState CfgValues}
    (reads : Reads (iniText front) start state) :
    ∃ next, Reads (iniText (withSection cfg plain option.sectionName front options)) start next ∧
      next.user = setOptions cfg options.reverse state.user := by
  obtain ⟨first, blank, blankUser⟩ := reads_gap front state
  obtain ⟨second, header, headerUser, sec⟩ := reads_header option first
  obtain ⟨next, entries, user⟩ := reads_options graphic short plain
    (fun other member => same other (List.mem_reverse.mp member)) sec
  refine ⟨next, ?_, ?_⟩
  · rw [withSection, sectionLines, ← List.singleton_append, iniText_append, iniText_append, iniText_append,
      headerLineOf_text, ← List.map_reverse]
    exact (reads.append blank).append (header.append entries)
  · rw [user, headerUser, blankUser]

/-- A stored configuration is read back. -/
theorem iniParseFile_cfgLines :
    (iniParseFile handler (iniText (cfgLines cfg plain)) cfgEmpty).user = fun option => some (cfg option) := by
  have start : Reads (iniText []) { user := cfgEmpty } { user := cfgEmpty } := fun _ => rfl
  obtain ⟨mains, mainReads, mainUser⟩ := reads_section graphic short .mainVersion mainOptions (by decide) start
  obtain ⟨logs, logReads, logUser⟩ := reads_section graphic short .logFlag logOptions (by decide) mainReads
  obtain ⟨uarts, uartReads, uartUser⟩ := reads_section graphic short .uartPort uartOptions (by decide) logReads
  obtain ⟨networks, reads, user⟩ :=
    reads_section graphic short .networkType networkOptions (by decide) uartReads
  have whole := reads []
  rw [List.append_nil] at whole
  change (readFrom { user := cfgEmpty } (iniText (cfgLines cfg plain))).user = _
  rw [cfgLines, cfgUart, cfgLog, cfgMain, whole]
  change networks.user = _
  funext option
  rw [user, uartUser, logUser, mainUser]
  simp only [setOptions_value]
  cases option <;> rfl

end Psuart

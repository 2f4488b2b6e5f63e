import Psuart.Proof.Config.ReadBack
import Psuart.Proof.Ini.ProfileRuns
import Psuart.Spec.Visits

namespace Psuart

variable {S : Type}

/-- The user of a reader, and whether no line has failed. -/
def IniState.visited (state : IniState S) : S × Bool := (state.user, decide (state.error = 0))

def IniState.advance (state : IniState S) : IniState S := { state with lineno := state.lineno + 1 }

/-- A call behind the first line is one visit. -/
theorem IniState.call_visited (handler : IniHandler S) (state : IniState S) (counted : state.lineno ≠ 0)
    (name value : List Byte) :
    (state.call handler name value).visited = visit handler state.visited ⟨state.sec, name, value⟩ ∧
      (state.call handler name value).sec = state.sec := by
  rw [IniState.call, visit, IniState.visited, IniState.visited]
  dsimp only
  generalize handler state.user state.sec name value = result
  obtain ⟨user, accepted⟩ := result
  cases accepted with
  | true => exact ⟨by rw [Bool.and_true]; rfl, rfl⟩
  | false =>
      refine ⟨?_, rfl⟩
      rw [Bool.and_false]
      by_cases first : state.error = 0 <;> simp [IniState.fail, first, counted]

/-- A text leads a reader from one state to another, whatever stands behind it. -/
def Leads (handler : IniHandler S) (text : List Byte) (state next : IniState S) : Prop :=
  ∀ rest, (fgetsLines iniMaxLine [] (text ++ rest)).foldl (iniLine handler) state =
    (fgetsLines iniMaxLine [] rest).foldl (iniLine handler) next

section Leads

variable {handler : IniHandler S} {state middle next : IniState S}

theorem Leads.append {first second : List Byte} (one : Leads handler first state middle)
    (two : Leads handler second middle next) : Leads handler (first ++ second) state next := by
  intro rest
  rw [List.append_assoc, one, two]

theorem Leads.refl : Leads handler [] state state := fun _ => rfl

variable (handler)

/-- A line is read by one or by two calls of `fgets`, and the second one sees a blank line. -/
theorem leads_line {text : List Byte} (graphic : ∀ c ∈ text, Graphic c) (short : text.length < iniMaxLine)
    {effect : IniEffect} (same : ∀ first named tail, (tail = [] ∨ tail = [charByte '\n']) →
      lineEffect first named (cString (text ++ tail)) = effect) (state : IniState S) :
    ∃ next, Leads handler (text ++ [charByte '\n']) state next ∧
      next.visited = (effect.apply handler state.advance).visited ∧
      next.sec = (effect.apply handler state.advance).sec := by
  have plain : charByte '\n' ∉ text := fun member => (graphic _ member).facts.2.2.1 rfl
  by_cases whole : text.length < iniMaxLine - 1
  · have step : iniLine handler state (text ++ [charByte '\n']) = effect.apply handler state.advance := by
      rw [iniLine_eq, same _ _ _ (Or.inr rfl)]
      rfl
    refine ⟨_, fun rest => ?_, rfl, rfl⟩
    rw [List.append_assoc, List.singleton_append, fgetsLines_line plain [] rest (by simpa using whole), ← step]
    rfl
  · have step : iniLine handler state text = effect.apply handler state.advance := by
      have effect := same (state.lineno = 0) (state.prevName ≠ []) [] (Or.inl rfl)
      rw [List.append_nil] at effect
      rw [iniLine_eq, effect]
      rfl
    have blank (later : IniState S) : iniLine handler later [charByte '\n'] = later.advance := by
      have effect := lineEffect_blank (later.lineno = 0) (later.prevName ≠ []) (Or.inr rfl)
      rw [iniLine_eq, effect]
      rfl
    have some : text ≠ [] := by
      rintro rfl
      exact whole (by decide)
    refine ⟨(effect.apply handler state.advance).advance, fun rest => ?_, rfl, rfl⟩
    rw [List.append_assoc, fgetsLines_full plain some [] _ (by simp only [List.length_nil]; omega), ← step, ← blank]
    rfl

variable {sec : SectionKey} {key : EntryKey} {value : EntryText} (readable : Readable sec key value)
include readable

/-- A header opens its section. -/
theorem leads_header (state : IniState S) :
    ∃ next, Leads handler (headerLine sec.val) state next ∧ next.visited = state.visited ∧ next.sec = sec.val := by
  have graphic : ∀ c ∈ charByte '[' :: (sec.val ++ [charByte ']']), Graphic c :=
    List.forall_mem_cons.mpr ⟨by decide, List.forall_mem_append.mpr
      ⟨readable.section_graphic, List.forall_mem_singleton.mpr (by decide)⟩⟩
  have short := readable.section_short
  have fits : (charByte '[' :: (sec.val ++ [charByte ']'])).length < iniMaxLine := by
    rw [maxSection] at short
    rw [List.length_cons, List.length_append, List.length_singleton, iniMaxLine]
    omega
  obtain ⟨next, leads, visited, opened⟩ := leads_line handler graphic fits (fun first named tail ends => by
    rw [lineEffect_graphic graphic first named rfl ends (by decide), if_pos rfl,
      headerEffect_graphic readable.section_graphic sec.property.1.closed]) state
  refine ⟨next, ?_, visited, ?_⟩
  · simpa [headerLine] using leads
  · rw [opened]
    exact List.take_of_length_le (by omega)

/-- The line of an entry is one visit. -/
theorem leads_entry {state : IniState S} (inside : state.sec = sec.val) :
    ∃ next, Leads handler (entryLine key.val value.val) state next ∧
      next.visited = visit handler state.visited ⟨sec.val, key.val, value.val⟩ ∧ next.sec = sec.val := by
  have graphic : ∀ c ∈ key.val ++ charByte '=' :: value.val, Graphic c := List.forall_mem_append.mpr
    ⟨readable.key_graphic, List.forall_mem_cons.mpr ⟨by decide, readable.value_graphic⟩⟩
  have fits : (key.val ++ charByte '=' :: value.val).length < iniMaxLine := by
    have short := readable.line_short
    rw [List.length_append, List.length_cons]
    omega
  have keyed := key.property.1
  obtain ⟨c, rest, starts⟩ := List.exists_cons_of_ne_nil keyed.named
  obtain ⟨header, comment, _⟩ := keyed.start c (by rw [starts]; rfl)
  have hash : c ≠ charByte '#' := by
    rintro rfl
    exact readable.visible (by rw [starts]; rfl)
  obtain ⟨next, leads, visited, stays⟩ := leads_line handler graphic fits (fun first named tail ends => by
    rw [lineEffect_graphic graphic first named (by rw [starts, List.cons_append]) ends ⟨comment, hash⟩,
      if_neg header, entryEffect_graphic readable.key_graphic readable.value_graphic keyed.free]) state
  obtain ⟨call, kept⟩ := IniState.call_visited handler
    { state.advance with prevName := strncpy0 key.val maxName } (Nat.succ_ne_zero _) key.val value.val
  refine ⟨next, ?_, ?_, ?_⟩
  · simpa [entryLine] using leads
  · rw [← inside]
    exact visited.trans call
  · exact (stays.trans kept).trans inside

omit readable in
/-- The entries of a section are visited in their order. -/
theorem leads_entries {entries : List (EntryKey × EntryText)}
    (readable : ∀ entry ∈ entries, Readable sec entry.1 entry.2) {state : IniState S} (inside : state.sec = sec.val) :
    ∃ next, Leads handler (entries.flatMap fun entry => entryLine entry.1.val entry.2.val) state next ∧
      next.visited = (sectionEntries (sec, entries)).foldl (visit handler) state.visited := by
  induction entries generalizing state with
  | nil => exact ⟨state, .refl, rfl⟩
  | cons entry rest ih =>
      rw [List.forall_mem_cons] at readable
      obtain ⟨middle, first, visited, stays⟩ := leads_entry handler readable.1 inside
      obtain ⟨next, second, result⟩ := ih readable.2 stays
      refine ⟨next, first.append second, ?_⟩
      rw [result, visited]
      rfl

omit readable in
/-- A section is visited from any reader. -/
theorem leads_section {entered : SectionKey × List (EntryKey × EntryText)} (some : entered.2 ≠ [])
    (readable : ∀ entry ∈ entered.2, Readable entered.1 entry.1 entry.2) (state : IniState S) :
    ∃ next, Leads handler (sectionText entered) state next ∧
      next.visited = (sectionEntries entered).foldl (visit handler) state.visited := by
  obtain ⟨entry, member⟩ := List.exists_mem_of_ne_nil _ some
  obtain ⟨middle, header, same, opened⟩ := leads_header handler (readable entry member) state
  obtain ⟨next, entries, visited⟩ := leads_entries handler readable opened
  refine ⟨next, header.append entries, ?_⟩
  rw [visited, same]

end Leads

/-- Every entry of a profile can be read. -/
def Profile.Readable (profile : Profile) : Prop :=
  ∀ entered ∈ profile, entered.2 ≠ [] ∧ ∀ entry ∈ entered.2, Psuart.Readable entered.1 entry.1 entry.2

theorem leads_gap (handler : IniHandler S) (state : IniState S) :
    ∃ next, Leads handler [charByte '\n'] state next ∧ next.visited = state.visited := by
  obtain ⟨next, leads, visited, _⟩ := leads_line handler (List.forall_mem_nil _) (by decide)
    (fun first named tail ends => lineEffect_blank first named ends) state
  exact ⟨next, leads, visited⟩

/-- The sections behind the first one are visited in their order. -/
theorem leads_sections (handler : IniHandler S) {profile : Profile} (readable : profile.Readable)
    (state : IniState S) :
    ∃ next, Leads handler (profile.flatMap fun entered => charByte '\n' :: sectionText entered) state next ∧
      next.visited = profile.entries.foldl (visit handler) state.visited := by
  induction profile generalizing state with
  | nil => exact ⟨state, .refl, rfl⟩
  | cons entered rest ih =>
      obtain ⟨first, later⟩ := List.forall_mem_cons.mp readable
      obtain ⟨blank, gap, same⟩ := leads_gap handler state
      obtain ⟨middle, own, visited⟩ := leads_section handler first.1 first.2 blank
      obtain ⟨next, others, result⟩ := ih later middle
      refine ⟨next, (gap.append own).append others, ?_⟩
      rw [result, visited, same, Profile.entries, Profile.entries, List.flatMap_cons, List.foldl_append]

/-- The handler receives exactly the entries of a profile in their order. -/
theorem iniParseFile_profile (handler : IniHandler S) (user : S) {profile : Profile} (readable : profile.Readable) :
    (iniParseFile handler profile.text user).visited = visitAll handler user profile.entries := by
  cases profile with
  | nil => rfl
  | cons entered rest =>
      obtain ⟨first, later⟩ := List.forall_mem_cons.mp readable
      obtain ⟨middle, own, visited⟩ := leads_section handler first.1 first.2 { user := user }
      obtain ⟨next, others, result⟩ := leads_sections handler later middle
      have whole : iniParseFile handler (Profile.text (entered :: rest)) user = next := by
        have leads := (own.append others) []
        rw [List.append_nil] at leads
        exact leads
      rw [whole, result, visited, Profile.entries, Profile.entries, List.flatMap_cons, visitAll, List.foldl_append]
      rfl

/-- An entry of the store as a handler receives it. -/
def receivedEntry (entry : SectionKey × EntryKey × EntryText) : Received :=
  ⟨entry.1.val, entry.2.1.val, entry.2.2.val⟩

theorem entries_listing (profile : Profile) : profile.entries = (Store.listing profile).map receivedEntry := by
  rw [Profile.entries, Store.listing, List.map_flatMap]
  simp only [List.map_map]
  rfl

/-- A run leaves at most one entry of each name, with its latest value. -/
theorem entries_latest (writes : List ProfileWrite) (sec : SectionKey) (key : EntryKey) :
    (Profile.entries (Store.run [] writes)).filter (fun entry => entry.sec = sec.val ∧ entry.name = key.val) =
      ((latestWrite sec key writes).map fun value => ⟨sec.val, key.val, value.val⟩).toList := by
  have distinct : Store.Distinct (Store.run [] writes) := Store.distinct_nil.run writes
  have names : ((fun entry : Received => decide (entry.sec = sec.val ∧ entry.name = key.val)) ∘ receivedEntry) =
      fun entry => decide (entry.1 = sec ∧ entry.2.1 = key) := by
    funext entry
    simp only [Function.comp_apply, receivedEntry, Subtype.val_inj]
  rw [entries_listing, List.filter_map, names, distinct.filter_listing, Store.get_run]
  change List.map receivedEntry ((latestWrite sec key writes).map _).toList = _
  cases latestWrite sec key writes <;> rfl

/-- A run with a write leaves a store. -/
theorem run_ne_nil {writes : List ProfileWrite} (some : writes ≠ []) : Store.run ([] : Profile) writes ≠ [] := by
  rcases List.eq_nil_or_concat writes with rfl | ⟨front, last, rfl⟩
  · exact absurd rfl some
  · intro nothing
    have read := Store.get_put last.sec last.sec last.key last.key last.value (Store.run ([] : Profile) front)
    rw [List.concat_eq_append, Store.run_append] at nothing
    change Store.put last.sec last.key last.value (Store.run [] front) = [] at nothing
    rw [nothing, if_pos ⟨rfl, rfl⟩] at read
    cases read

theorem text_ne_nil {profile : Profile} (some : profile ≠ []) : profile.text ≠ [] := by
  cases profile with
  | nil => exact absurd rfl some
  | cons entered rest =>
      rw [Profile.text, sectionText, headerLine]
      simp

section Runs

variable {writes : List ProfileWrite} (readable : ∀ write ∈ writes, Readable write.sec write.key write.value)
include readable

/-- The reader of a stored file visits the entries of the store. -/
theorem iniParse_stored {stored : Option (List Byte)} (run : profileRun none writes = .ok (true, stored))
    (text : stored.getD [] = Profile.text (Store.run [] writes)) (handler : IniHandler S) (user : S) :
    (iniParse handler fileCallsDone stored user).2 =
        (visitAll handler user (Profile.entries (Store.run [] writes))).1 ∧
      ((iniParse handler fileCallsDone stored user).1 = 0 ↔
        writes ≠ [] ∧ (visitAll handler user (Profile.entries (Store.run [] writes))).2 = true) := by
  have good : Profile.Readable (Store.run [] writes) :=
    Store.forall_run Readable (List.forall_mem_nil _) readable
  have visited := iniParseFile_profile handler user good
  rw [← text] at visited
  cases stored with
  | none =>
      have nothing : writes = [] := by
        by_contra some
        exact text_ne_nil (run_ne_nil some) text.symm
      subst nothing
      exact ⟨rfl, iff_of_false (show ¬(-1 : Int) = 0 by decide) fun both => both.1 rfl⟩
  | some bytes =>
      have some : writes ≠ [] := by
        rintro rfl
        cases run
      have first : (iniParseFile handler bytes user).user = _ := congrArg Prod.fst visited
      have second : decide ((iniParseFile handler bytes user).error = 0) = _ := congrArg Prod.snd visited
      refine ⟨first, ?_⟩
      rw [and_iff_right some, ← second, decide_eq_true_eq]
      exact Int.natCast_eq_zero

/-- Behind any run of the writer, the configuration reader gives its handler the entries of the store. -/
theorem profileRun_visits {secs : List SectionKey} {keys : List EntryKey} (apart : Apart secs) (others : Apart keys)
    (inside : ∀ write ∈ writes, write.sec ∈ secs ∧ write.key ∈ keys) (fits : ProfileFits [] writes) :
    let entries := Profile.entries (Store.run [] writes)
    (∀ sec key, entries.filter (fun entry => entry.sec = sec.val ∧ entry.name = key.val) =
        ((latestWrite sec key writes).map fun value => ⟨sec.val, key.val, value.val⟩).toList) ∧
      ∃ stored, profileRun none writes = .ok (true, stored) ∧
        ∀ (S : Type) (handler : IniHandler S) (user : S),
          (iniParse handler fileCallsDone stored user).2 = (visitAll handler user entries).1 ∧
            ((iniParse handler fileCallsDone stored user).1 = 0 ↔
              writes ≠ [] ∧ (visitAll handler user entries).2 = true) := by
  intro entries
  refine ⟨entries_latest writes, ?_⟩
  have empty : Profile.Within secs keys [] := ⟨List.nodup_nil, List.forall_mem_nil _⟩
  have holds : (none : Option (List Byte)).getD [] = Profile.text [] := rfl
  obtain ⟨stored, run, text, _⟩ := (profileRun_text apart others inside empty holds (by decide)).1 fits
  exact ⟨stored, run, fun _ handler user => iniParse_stored readable run text handler user⟩

end Runs

/-- Two values of a section and a key are visited once, with the later value. -/
theorem profileRun_visits_net :
    ∃ stored, profileRun none netWrites = .ok (true, stored) ∧
      (iniParse record fileCallsDone stored []).1 = 0 ∧
        (iniParse record fileCallsDone stored []).2 =
          [⟨stringBytes "net", stringBytes "name", stringBytes "b"⟩,
            ⟨stringBytes "net", stringBytes "port", stringBytes "25"⟩,
            ⟨stringBytes "log", stringBytes "name", stringBytes "a"⟩] := by
  have apart : Apart [netSection, logSection] := by unfold Apart; decide
  have others : Apart [portKey, nameKey] := by unfold Apart; decide
  have inside : ∀ write ∈ netWrites, write.sec ∈ [netSection, logSection] ∧ write.key ∈ [portKey, nameKey] := by
    decide
  have fits : ProfileFits [] netWrites := by unfold ProfileFits; decide
  have readable : ∀ write ∈ netWrites, Readable write.sec write.key write.value := by
    intro write member
    have check : ∀ write ∈ netWrites, (∀ c ∈ write.sec.val, Graphic c) ∧ write.sec.val.length < maxSection ∧
        (∀ c ∈ write.key.val, Graphic c) ∧ write.key.val.head? ≠ some (charByte '#') ∧
        (∀ c ∈ write.value.val, Graphic c) ∧ write.key.val.length + write.value.val.length + 1 < iniMaxLine := by
      decide
    obtain ⟨one, two, three, four, five, six⟩ := check write member
    exact ⟨one, two, three, four, five, six⟩
  obtain ⟨_, stored, run, visits⟩ := profileRun_visits readable apart others inside fits
  obtain ⟨values, accepted⟩ := visits (List Received) record []
  exact ⟨stored, run, accepted.mpr (by decide), values.trans rfl⟩

end Psuart

import Mathlib.Algebra.Order.BigOperators.Group.List
import Mathlib.Data.List.Perm.Subperm
import Psuart.Proof.Config.RoundTrip
import Psuart.Proof.Config.Visits
import Psuart.Spec.Updates

namespace Psuart

theorem CfgOption.names_free (option : CfgOption) :
    charByte '%' ∉ option.sec ∧ charByte '%' ∉ option.name := by
  cases option <;> decide

theorem CfgText.plain {option : CfgOption} (value : CfgText option) : ∀ c ∈ value.bytes, TextByte c :=
  fun c member => (value.graphic c member).facts.1

def CfgOption.sectionKey (option : CfgOption) : SectionKey :=
  ⟨option.sec, option.sectionName, option.names_free.1⟩

def CfgOption.entryKey (option : CfgOption) : EntryKey := ⟨option.name, option.keyName, option.names_free.2⟩

def CfgText.entryText {option : CfgOption} (value : CfgText option) : EntryText :=
  ⟨value.bytes, value.plain, value.free⟩

def CfgWrite.update (write : CfgWrite) : ProfileWrite :=
  ⟨write.option.sectionKey, write.option.entryKey, write.value.entryText⟩

/-- The default of an option is such a value. -/
def CfgOption.defaultWrite (option : CfgOption) : CfgWrite :=
  ⟨option, option.default, option.default_graphic, option.default_free, option.default_short⟩

/-- The sections of the configuration. -/
def cfgSections : List SectionKey :=
  [CfgOption.mainVersion.sectionKey, CfgOption.logFlag.sectionKey, CfgOption.uartPort.sectionKey,
    CfgOption.networkType.sectionKey]

def cfgKeys : List EntryKey := CfgOption.all.map CfgOption.entryKey

theorem cfgSections_apart : Apart cfgSections := by
  unfold Apart
  decide

theorem cfgKeys_apart : Apart cfgKeys := by
  have names : ∀ first ∈ CfgOption.all, ∀ second ∈ CfgOption.all, first.name <+: second.name →
      first.name = second.name := by decide
  intro one oneMember two twoMember begins
  obtain ⟨first, inside, rfl⟩ := List.mem_map.mp oneMember
  obtain ⟨second, within, rfl⟩ := List.mem_map.mp twoMember
  exact Subtype.ext (names first inside second within begins)

theorem CfgOption.mem_sections (option : CfgOption) : option.sectionKey ∈ cfgSections := by
  cases option <;> decide

theorem cfgWrites_inside (writes : List CfgWrite) :
    ∀ update ∈ writes.map CfgWrite.update, update.sec ∈ cfgSections ∧ update.key ∈ cfgKeys := by
  intro update member
  obtain ⟨write, _, rfl⟩ := List.mem_map.mp member
  exact ⟨write.option.mem_sections, List.mem_map_of_mem write.option.mem_all⟩

/-- The lines of the configuration can be read. -/
theorem cfgWrites_readable (writes : List CfgWrite) :
    ∀ update ∈ writes.map CfgWrite.update, Readable update.sec update.key update.value := by
  intro update member
  obtain ⟨write, _, rfl⟩ := List.mem_map.mp member
  have visible : ∀ option : CfgOption, option.name.head? ≠ some (charByte '#') := by
    intro option
    cases option <;> decide
  exact {
    section_graphic := write.option.sec_graphic
    section_short := write.option.sec_short
    key_graphic := write.option.name_graphic
    visible := visible write.option
    value_graphic := write.value.graphic
    line_short := write.value.short }

section Length

/-- Parts of bounded lengths make a text of bounded length. -/
theorem length_flatMap_le {A : Type} {parts : List A} {text : A → List Byte} {bound : Nat}
    (short : ∀ part ∈ parts, (text part).length ≤ bound) : (parts.flatMap text).length ≤ parts.length * bound := by
  have each : ∀ length ∈ parts.map fun part => (text part).length, length ≤ bound := by
    intro length member
    obtain ⟨part, inside, rfl⟩ := List.mem_map.mp member
    exact short part inside
  rw [List.length_flatMap]
  simpa using List.sum_le_card_nsmul _ _ each

/-- Distinct names of a list are not more than its names. -/
theorem length_le_of_distinct {K V : Type} {names : List K} {pairs : List (K × V)}
    (distinct : (pairs.map Prod.fst).Nodup) (inside : ∀ pair ∈ pairs, pair.1 ∈ names) :
    pairs.length ≤ names.length := by
  have part : pairs.map Prod.fst ⊆ names := by
    intro name member
    obtain ⟨pair, within, rfl⟩ := List.mem_map.mp member
    exact inside pair within
  simpa using (List.subperm_of_subset distinct part).length_le

variable {secs : List SectionKey} {keys : List EntryKey}

/-- A section with readable lines has a bounded text. -/
theorem sectionText_length {entered : SectionKey × List (EntryKey × EntryText)} (some : entered.2 ≠ [])
    (readable : ∀ entry ∈ entered.2, Readable entered.1 entry.1 entry.2) (distinct : (entered.2.map Prod.fst).Nodup)
    (inside : ∀ entry ∈ entered.2, entry.1 ∈ keys) : (sectionText entered).length ≤ 52 + keys.length * 200 := by
  obtain ⟨entry, member⟩ := List.exists_mem_of_ne_nil _ some
  have header := (readable entry member).section_short
  have count := length_le_of_distinct distinct inside
  have lines : (entered.2.flatMap fun entry => entryLine entry.1.val entry.2.val).length ≤
      entered.2.length * 200 := by
    apply length_flatMap_le
    intro entry within
    have short := (readable entry within).line_short
    rw [iniMaxLine] at short
    simp only [entryLine, List.length_append, List.length_singleton]
    omega
  rw [maxSection] at header
  rw [sectionText, headerLine]
  simp only [List.length_append, List.length_cons, List.length_nil]
  omega

/-- A profile with readable lines has a bounded text. -/
theorem Profile.text_length {profile : Profile} (within : profile.Within secs keys) (distinct : Store.Distinct profile)
    (readable : profile.Readable) : profile.text.length ≤ secs.length * (53 + keys.length * 200) := by
  have inside : ∀ entered ∈ profile, entered.1 ∈ secs := by
    intro entered member
    obtain ⟨some, each⟩ := within.each entered member
    obtain ⟨entry, first⟩ := List.exists_mem_of_ne_nil _ some
    exact (each entry first).1
  have parts : ∀ entered ∈ profile, (charByte '\n' :: sectionText entered).length ≤ 53 + keys.length * 200 := by
    intro entered member
    have own := sectionText_length (readable entered member).1 (readable entered member).2
      (distinct.keys entered member) (fun entry first => ((within.each entered member).2 entry first).2)
    rw [List.length_cons]
    omega
  have whole : profile.text.length ≤ (profile.flatMap fun entered => charByte '\n' :: sectionText entered).length := by
    cases profile with
    | nil => exact Nat.le_refl _
    | cons entered rest =>
        rw [Profile.text, List.flatMap_cons, List.cons_append, List.length_cons]
        exact Nat.le_succ _
  calc
    profile.text.length ≤ profile.length * (53 + keys.length * 200) := whole.trans (length_flatMap_le parts)
    _ ≤ secs.length * (53 + keys.length * 200) :=
        Nat.mul_le_mul_right _ (length_le_of_distinct distinct.secs inside)

end Length

/-- The file of a configuration never overflows its buffer. -/
theorem cfgWrites_fit (writes : List CfgWrite) : ProfileFits [] (writes.map CfgWrite.update) := by
  intro count _
  rw [← List.map_take]
  have inside := cfgWrites_inside (writes.take count)
  have within : Profile.Within cfgSections cfgKeys (Store.run [] ((writes.take count).map CfgWrite.update)) :=
    ⟨(Store.distinct_nil.run _).secs,
      Store.forall_run (fun sec key _ => sec ∈ cfgSections ∧ key ∈ cfgKeys) (List.forall_mem_nil _) inside⟩
  have bound := Profile.text_length within (Store.distinct_nil.run _)
    (Store.forall_run Readable (List.forall_mem_nil _) (cfgWrites_readable (writes.take count)))
  exact lt_of_le_of_lt bound (by decide)

/-- The handler keeps the last value of each option. -/
theorem visits_handler (entries : List Received) (result : CfgValues × Bool) :
    (entries.foldl (visit handler) result).2 = result.2 ∧
      ∀ option, (entries.foldl (visit handler) result).1 option =
        ((entries.filter fun entry => entry.sec = option.sec ∧ entry.name = option.name).getLast?.map
          Received.value).or (result.1 option) := by
  induction entries generalizing result with
  | nil => exact ⟨rfl, fun _ => rfl⟩
  | cons entry rest ih =>
      obtain ⟨accepted, values⟩ := ih (visit handler result entry)
      refine ⟨?_, fun option => ?_⟩
      · rw [List.foldl_cons, accepted, visit]
        simp only [handler_accepts, Bool.and_true]
      · have first : (visit handler result entry).1 option =
            if entry.sec = option.sec ∧ entry.name = option.name then some entry.value else result.1 option :=
          handler_value result.1 entry.sec entry.name entry.value option
        rw [List.foldl_cons, values, first, List.filter_cons]
        by_cases names : entry.sec = option.sec ∧ entry.name = option.name
        · rw [if_pos names, if_pos (decide_eq_true names), List.getLast?_cons]
          cases (rest.filter fun entry => entry.sec = option.sec ∧ entry.name = option.name).getLast? <;> rfl
        · rw [if_neg names, if_neg (by simpa using names)]

theorem latest_update (option : CfgOption) (start : Option EntryText) (writes : List CfgWrite) :
    (Settings.latest (Store.Update.sets option.sectionKey option.entryKey) start
        (writes.map CfgWrite.update)).map Subtype.val =
      Settings.latest (CfgWrite.sets option) (start.map Subtype.val) writes := by
  induction writes generalizing start with
  | nil => rfl
  | cons write rest ih =>
      have names : (write.update.sec = option.sectionKey ∧ write.update.key = option.entryKey) ↔
          write.option = option := by
        constructor
        · rintro ⟨sec, key⟩
          exact CfgOption.eq_of_names (congrArg Subtype.val sec) (congrArg Subtype.val key)
        · rintro rfl
          exact ⟨rfl, rfl⟩
      rw [List.map_cons, Settings.latest_cons, Settings.latest_cons, ih, Store.Update.sets, CfgWrite.sets]
      by_cases same : write.option = option
      · rw [if_pos (names.mpr same), if_pos same]
        rfl
      · rw [if_neg (mt names.mp same), if_neg same]
        rfl

/-- Behind a run of writes, the handler of the service has the latest values. -/
theorem cfgWrites_load (writes : List CfgWrite) :
    ∃ stored, profileRun none (writes.map CfgWrite.update) = .ok (true, stored) ∧
      (iniParse handler fileCallsDone stored cfgEmpty).2 = latestOptions cfgEmpty writes ∧
        ((iniParse handler fileCallsDone stored cfgEmpty).1 = 0 ↔ writes ≠ []) := by
  have empty : Profile.Within cfgSections cfgKeys [] := ⟨List.nodup_nil, List.forall_mem_nil _⟩
  have holds : (none : Option (List Byte)).getD [] = Profile.text [] := rfl
  obtain ⟨stored, run, text, _⟩ := (profileRun_text cfgSections_apart cfgKeys_apart (cfgWrites_inside writes) empty
    holds (by decide)).1 (cfgWrites_fit writes)
  obtain ⟨values, accepted⟩ := iniParse_stored (cfgWrites_readable writes) run text handler cfgEmpty
  obtain ⟨whole, last⟩ := visits_handler (Profile.entries (Store.run [] (writes.map CfgWrite.update))) (cfgEmpty, true)
  refine ⟨stored, run, ?_, ?_⟩
  · rw [values]
    funext option
    have latest : latestOptions cfgEmpty writes option = Option.map Subtype.val
        (latestWrite option.sectionKey option.entryKey (writes.map CfgWrite.update)) :=
      (latest_update option none writes).symm
    have names : List.filter (fun entry : Received => entry.sec = option.sec ∧ entry.name = option.name) _ = _ :=
      entries_latest (writes.map CfgWrite.update) option.sectionKey option.entryKey
    rw [visitAll, last, names, latest]
    cases latestWrite option.sectionKey option.entryKey (writes.map CfgWrite.update) <;> rfl
  · rw [accepted, visitAll, whole, ne_eq, List.map_eq_nil_iff]
    exact and_iff_left rfl

/-- The defaults are saved by a run of writes. -/
theorem saveConfig_run (options : List CfgOption) (ret : Bool) (file : Option (List Byte)) :
    options.foldlM (fun file option => (writeProfileString fileCallsDone option.sec option.name
        (psusConfigDefault option) file).map Prod.snd) file =
      ((options.map fun option => option.defaultWrite.update).foldlM
        (fun result write => profileStep write result.1 result.2) (ret, file)).map Prod.snd := by
  induction options generalizing ret file with
  | nil => rfl
  | cons option rest ih =>
      rw [List.map_cons, List.foldlM_cons, List.foldlM_cons, profileStep]
      change _ = Except.map Prod.snd (Except.bind (Except.map _ (writeProfileString fileCallsDone option.sec
        option.name (psusConfigDefault option) file)) _)
      cases writeProfileString fileCallsDone option.sec option.name (psusConfigDefault option) file with
      | error fault => rfl
      | ok result => exact ih (ret && result.1) result.2

/-- The writes of the first start. -/
def defaultWrites : List CfgWrite := CfgOption.all.map CfgOption.defaultWrite

theorem defaultWrites_latest : latestOptions cfgEmpty defaultWrites = psusConfigDefault := by
  funext option
  cases option <;> rfl

theorem latestOptions_append (start : CfgValues) (first second : List CfgWrite) :
    latestOptions start (first ++ second) = latestOptions (latestOptions start first) second := by
  funext option
  exact Settings.latest_append (CfgWrite.sets option) (start option) first second

/-- The saved defaults and any writes behind them are read back. -/
theorem restart_reads (writes : List CfgWrite) :
    ∃ first stored, saveConfig (fun _ => fileCallsDone) psusConfigDefault none = .ok first ∧
      profileRun first (writes.map CfgWrite.update) = .ok (true, stored) ∧
        iniParse handler fileCallsDone stored cfgEmpty = (0, latestOptions psusConfigDefault writes) := by
  obtain ⟨first, saved, _⟩ := cfgWrites_load defaultWrites
  obtain ⟨stored, run, values, accepted⟩ := cfgWrites_load (defaultWrites ++ writes)
  refine ⟨first, stored, ?_, ?_, ?_⟩
  · have whole : profileRun none (CfgOption.all.map fun option => option.defaultWrite.update) = .ok (true, first) := by
      rw [← saved, defaultWrites, List.map_map]
      rfl
    rw [saveConfig, saveConfig_run CfgOption.all true none, ← profileRun, whole]
    rfl
  · rw [List.map_append, profileRun, List.foldlM_append, ← profileRun, saved] at run
    exact run
  · have some : defaultWrites ++ writes ≠ [] := by
      rw [defaultWrites, CfgOption.all]
      simp
    rw [latestOptions_append, defaultWrites_latest] at values
    exact Prod.ext (accepted.mpr some) values

/-- A start without a file saves the defaults. -/
theorem loadOptions_first {first : Option (List Byte)}
    (saved : saveConfig (fun _ => fileCallsDone) psusConfigDefault none = .ok first) :
    loadOptions fileCallsDone (fun _ => fileCallsDone) none = .ok (psusConfigDefault, false, first) := by
  have defaults : defaultConfig cfgEmpty psusConfigDefault = psusConfigDefault := rfl
  rw [loadOptions, iniParse]
  dsimp only
  rw [if_pos (by decide), defaults, saved]
  rfl

/-- A start with a file that is read whole takes its options. -/
theorem loadOptions_read {stored : Option (List Byte)} {options : CfgValues} (saves : CfgOption → FileCalls)
    (parsed : iniParse handler fileCallsDone stored cfgEmpty = (0, options)) :
    loadOptions fileCallsDone saves stored = .ok (options, true, stored) := by
  rw [loadOptions, parsed]
  rfl

/-- The first start saves the defaults. A later start loads them with the latest values of any writes between. -/
theorem loadOptions_updated (saves : CfgOption → FileCalls) (writes : List CfgWrite) :
    ∃ first stored, loadOptions fileCallsDone (fun _ => fileCallsDone) none = .ok (psusConfigDefault, false, first) ∧
      profileRun first (writes.map CfgWrite.update) = .ok (true, stored) ∧
        loadOptions fileCallsDone saves stored = .ok (latestOptions psusConfigDefault writes, true, stored) := by
  obtain ⟨first, stored, saved, run, parsed⟩ := restart_reads writes
  exact ⟨first, stored, loadOptions_first saved, run, loadOptions_read saves parsed⟩

end Psuart

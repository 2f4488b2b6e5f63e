import Psuart.Proof.Config.Saving

namespace Psuart

open Printf (weight weight_append)

theorem CfgOption.keyName (option : CfgOption) : KeyName option.name := by
  cases option <;> exact .of_all (by decide) (by decide) (by decide) (by decide)

theorem CfgOption.sectionName (option : CfgOption) : SectionName option.sec := by
  cases option <;> exact .of_all (by decide) (by decide) (by decide)

/-- Another option of the section is written behind these options. -/
def CfgOption.followed : CfgOption → Bool
  | .mainVersion | .logMaxLevel | .uartPort | .networkType => false
  | _ => true

variable (cfg : CfgOption → List Byte) (plain : ∀ option, ∀ c ∈ cfg option, TextByte c)

def CfgOption.entry (option : CfgOption) : Entry := ⟨option.name, cfg option, option.keyName, plain option⟩

def mainOptions : List CfgOption := [.mainVersion]

def logOptions : List CfgOption := [.logFlag, .logFile, .logMinLevel, .logMaxLevel]

def uartOptions : List CfgOption := [.uartPort]

def networkOptions : List CfgOption :=
  [.networkIpaddr, .networkUdpport, .networkTimeout, .networkRetries, .networkSecret,
    .networkSelectTimeout, .networkType]

/-- The lines of a file behind a further section. -/
def withSection {sec : List Byte} (named : SectionName sec) (front : List IniLine) (options : List CfgOption) : List IniLine :=
  sectionLines named (front ++ gap front) (options.map (CfgOption.entry cfg plain)).reverse

def cfgMain : List IniLine := withSection cfg plain CfgOption.mainVersion.sectionName [] mainOptions

def cfgLog : List IniLine := withSection cfg plain CfgOption.logFlag.sectionName (cfgMain cfg plain) logOptions

def cfgUart : List IniLine := withSection cfg plain CfgOption.uartPort.sectionName (cfgLog cfg plain) uartOptions

/-- The file that holds the whole configuration. -/
def cfgLines : List IniLine :=
  withSection cfg plain CfgOption.networkType.sectionName (cfgUart cfg plain) networkOptions

/-- The writes of the options of one section. -/
theorem passes_options {sec : List Byte} {options : List CfgOption} (same : ∀ option ∈ options, option.sec = sec)
    (file : Option (List Byte)) :
    options.foldlM (fun file option =>
        (writeProfileString fileCallsDone option.sec option.name (some (cfg option)) file).map Prod.snd) file =
      passes sec (options.map (CfgOption.entry cfg plain)) file := by
  induction options generalizing file with
  | nil => rfl
  | cons option rest ih =>
      rw [List.forall_mem_cons] at same
      rw [List.map_cons, passes, List.foldlM_cons, List.foldlM_cons, same.1]
      exact congrArg (bind _) (funext fun stored => ih same.2 stored)

/-- The 13 writes follow the four sections. -/
theorem saveConfig_passes (file : Option (List Byte)) :
    saveConfig (fun _ => fileCallsDone) (fun option => some (cfg option)) file =
      passes (stringBytes "main") (mainOptions.map (CfgOption.entry cfg plain)) file >>=
        passes (stringBytes "log") (logOptions.map (CfgOption.entry cfg plain)) >>=
        passes (stringBytes "uart") (uartOptions.map (CfgOption.entry cfg plain)) >>=
        passes (stringBytes "network") (networkOptions.map (CfgOption.entry cfg plain)) := by
  have order : CfgOption.all = ((mainOptions ++ logOptions) ++ uartOptions) ++ networkOptions := rfl
  have mains : ∀ option ∈ mainOptions, option.sec = stringBytes "main" := by decide
  have logs : ∀ option ∈ logOptions, option.sec = stringBytes "log" := by decide
  have uarts : ∀ option ∈ uartOptions, option.sec = stringBytes "uart" := by decide
  have networks : ∀ option ∈ networkOptions, option.sec = stringBytes "network" := by decide
  rw [saveConfig, order]
  simp only [List.foldlM_append, passes_options cfg plain mains, passes_options cfg plain logs,
    passes_options cfg plain uarts, passes_options cfg plain networks]

variable {cfg plain} {sec asked : List Byte} {front : List IniLine}

/-- A section is no place for the entries of a section that its name does not begin. -/
theorem insertion_withSection (named : SectionName sec) (nowhere : insertion asked front = none)
    (other : ¬sec <+: asked) (options : List CfgOption) :
    insertion asked (withSection cfg plain named front options) = none := by
  have header : (headerLineOf named).content.opens asked = false := decide_eq_false other
  have closed := insertion_none.mp (insertion_gap nowhere)
  rw [insertion_none, withSection, sectionLines]
  refine List.forall_mem_append.mpr ⟨closed, List.forall_mem_cons.mpr ⟨header, fun line member => ?_⟩⟩
  obtain ⟨entry, _, rfl⟩ := List.mem_map.mp member
  exact entry.line_closed asked

theorem entries_length (cfg : CfgOption → List Byte) (plain : ∀ option, ∀ c ∈ cfg option, TextByte c)
    (short : ∀ option, option.name.length + (cfg option).length + 1 < 200) (options : List CfgOption) :
    (iniText ((options.map (CfgOption.entry cfg plain)).map Entry.line)).length ≤ 200 * options.length := by
  induction options with
  | nil => exact Nat.le_refl _
  | cons option rest ih =>
      have line := short option
      rw [List.map_cons, List.map_cons, ← List.singleton_append, iniText_append, List.length_append,
        Entry.line_text, List.length_cons]
      simp only [entryLine, CfgOption.entry, List.length_append, List.length_singleton]
      omega

theorem withSection_length (cfg : CfgOption → List Byte) (plain : ∀ option, ∀ c ∈ cfg option, TextByte c)
    (short : ∀ option, option.name.length + (cfg option).length + 1 < 200)
    (named : SectionName sec) (front : List IniLine) (options : List CfgOption) :
    (iniText (withSection cfg plain named front options)).length ≤
      (iniText front).length + sec.length + 4 + 200 * options.length := by
  have entries := entries_length cfg plain short options.reverse
  have blank : (iniText (gap front)).length ≤ 1 := by
    rw [gap]
    split
    · exact Nat.zero_le _
    · exact Nat.le_refl _
  rw [List.length_reverse, List.map_reverse] at entries
  rw [withSection, sectionLines, ← List.singleton_append, iniText_append, iniText_append, iniText_append,
    headerLineOf_text]
  simp only [headerLine, List.length_append, List.length_cons, List.length_nil]
  omega

/-- The whole configuration stays below the size limit. -/
theorem cfgLines_small (cfg : CfgOption → List Byte) (plain : ∀ option, ∀ c ∈ cfg option, TextByte c)
    (short : ∀ option, option.name.length + (cfg option).length + 1 < 200) :
    (iniText (cfgMain cfg plain)).length < maxFileSize ∧ (iniText (cfgLog cfg plain)).length < maxFileSize ∧
      (iniText (cfgUart cfg plain)).length < maxFileSize ∧
      (iniText (cfgLines cfg plain)).length < maxFileSize := by
  have mains : (iniText (cfgMain cfg plain)).length ≤ 0 + CfgOption.mainVersion.sec.length + 4 + 200 * 1 :=
    withSection_length cfg plain short _ _ _
  have logs : (iniText (cfgLog cfg plain)).length ≤
      (iniText (cfgMain cfg plain)).length + CfgOption.logFlag.sec.length + 4 + 200 * 4 :=
    withSection_length cfg plain short _ _ _
  have uarts : (iniText (cfgUart cfg plain)).length ≤
      (iniText (cfgLog cfg plain)).length + CfgOption.uartPort.sec.length + 4 + 200 * 1 :=
    withSection_length cfg plain short _ _ _
  have networks : (iniText (cfgLines cfg plain)).length ≤
      (iniText (cfgUart cfg plain)).length + CfgOption.networkType.sec.length + 4 + 200 * 7 :=
    withSection_length cfg plain short _ _ _
  have names : CfgOption.mainVersion.sec.length = 4 ∧ CfgOption.logFlag.sec.length = 3 ∧
      CfgOption.uartPort.sec.length = 4 ∧ CfgOption.networkType.sec.length = 7 := by decide
  rw [maxFileSize]
  omega

/-- The options of one section are written behind the stored lines. -/
theorem Progress.withSection {clean : Prop} {lines : List IniLine} {result : Except IniFault (Option (List Byte))}
    (progress : Progress clean lines result) (named : SectionName sec) (light : weight sec = 0)
    (nowhere : insertion sec lines = none) {options : List CfgOption} (some : options ≠ [])
    (names : options.Pairwise fun earlier later => ¬earlier.name <+: later.name)
    (small : (iniText (withSection cfg plain named lines options)).length < maxFileSize) :
    Progress (clean ∧ Unformatted (options.map (CfgOption.entry cfg plain)).reverse)
      (Psuart.withSection cfg plain named lines options)
      (result >>= passes sec (options.map (CfgOption.entry cfg plain))) :=
  progress.passes_section named light nowhere (List.map_eq_nil_iff.not.mpr some)
    (List.pairwise_map.mpr names) small

/-- The whole configuration is stored, or a formatted value has lost weight. -/
theorem saveConfig_progress (short : ∀ option, option.name.length + (cfg option).length + 1 < 200) :
    Progress ((((True ∧ Unformatted (mainOptions.map (CfgOption.entry cfg plain)).reverse) ∧
            Unformatted (logOptions.map (CfgOption.entry cfg plain)).reverse) ∧
          Unformatted (uartOptions.map (CfgOption.entry cfg plain)).reverse) ∧
        Unformatted (networkOptions.map (CfgOption.entry cfg plain)).reverse)
      (cfgLines cfg plain)
      (saveConfig (fun _ => fileCallsDone) (fun option => some (cfg option)) none) := by
  obtain ⟨mainSmall, logSmall, uartSmall, networkSmall⟩ := cfgLines_small cfg plain short
  have start : Progress True [] (.ok none) := @Progress.exact True [] none trivial rfl
  have mains := start.withSection CfgOption.mainVersion.sectionName (by decide) rfl (by decide) (by decide)
    mainSmall
  have logPlace (asked : List Byte) (other : ¬CfgOption.mainVersion.sec <+: asked) :
      insertion asked (cfgMain cfg plain) = none := insertion_withSection _ rfl other _
  have logs := mains.withSection CfgOption.logFlag.sectionName (by decide) (logPlace _ (by decide)) (by decide)
    (by decide) logSmall
  have uartPlace (asked : List Byte) (first : ¬CfgOption.mainVersion.sec <+: asked)
      (second : ¬CfgOption.logFlag.sec <+: asked) : insertion asked (cfgLog cfg plain) = none :=
    insertion_withSection _ (logPlace asked first) second _
  have uarts := logs.withSection CfgOption.uartPort.sectionName (by decide)
    (uartPlace _ (by decide) (by decide)) (by decide) (by decide) uartSmall
  have networkPlace : insertion CfgOption.networkType.sec (cfgUart cfg plain) = none :=
    insertion_withSection _ (uartPlace _ (by decide) (by decide)) (by decide) _
  rw [saveConfig_passes cfg plain]
  exact uarts.withSection CfgOption.networkType.sectionName (by decide) networkPlace (by decide) (by decide)
    networkSmall

theorem percent_entries {entries : List Entry} (names : ∀ entry ∈ entries, charByte '%' ∉ entry.key) :
    charByte '%' ∉ iniText (entries.map Entry.line) ↔ ∀ entry ∈ entries, charByte '%' ∉ entry.value := by
  induction entries with
  | nil => exact ⟨fun _ => List.forall_mem_nil _, fun _ => List.not_mem_nil⟩
  | cons entry rest ih =>
      rw [List.forall_mem_cons] at names ⊢
      rw [List.map_cons, ← List.singleton_append, iniText_append, List.mem_append, entry.line_text, not_or,
        ih names.2, entryLine]
      have equals : charByte '%' ≠ charByte '=' := by decide
      have stop : charByte '%' ≠ charByte '\n' := by decide
      simp only [List.mem_append, List.mem_singleton, names.1, equals, stop, false_or, or_false]

theorem CfgOption.name_plain (option : CfgOption) : charByte '%' ∉ option.name := by
  cases option <;> decide

theorem unformatted_options (options : List CfgOption) :
    Unformatted (options.map (CfgOption.entry cfg plain)).reverse ↔
      ∀ option ∈ options.dropLast, charByte '%' ∉ cfg option := by
  have names : ∀ entry ∈ (options.dropLast.map (CfgOption.entry cfg plain)).reverse,
      charByte '%' ∉ entry.key := by
    intro entry member
    obtain ⟨option, _, rfl⟩ := List.mem_map.mp (List.mem_reverse.mp member)
    exact option.name_plain
  rw [Unformatted, List.tail_reverse, ← List.map_dropLast, percent_entries names]
  simp only [List.mem_reverse, List.forall_mem_map]
  rfl

/-- A saved configuration is stored whole, unless `%` stands in the value of a followed option. -/
theorem saveConfig_stored (short : ∀ option, option.name.length + (cfg option).length + 1 < 200) :
    Progress (∀ option : CfgOption, option.followed = true → charByte '%' ∉ cfg option) (cfgLines cfg plain)
      (saveConfig (fun _ => fileCallsDone) (fun option => some (cfg option)) none) := by
  refine (saveConfig_progress short).congr ?_
  simp only [unformatted_options]
  constructor
  · rintro ⟨⟨⟨_, logs⟩, _⟩, networks⟩ option followed
    cases option <;> first | exact logs _ (by decide) | exact networks _ (by decide) | cases followed
  · intro free
    have inner (options : List CfgOption) (all : ∀ option ∈ options, option.followed = true) :
        ∀ option ∈ options, charByte '%' ∉ cfg option := fun option member => free option (all option member)
    exact ⟨⟨⟨⟨trivial, inner _ (by decide)⟩, inner _ (by decide)⟩, inner _ (by decide)⟩, inner _ (by decide)⟩

end Psuart

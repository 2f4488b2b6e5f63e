import Psuart.Proof.Config.Loading
import Psuart.Proof.Config.ReadBack
import Psuart.Proof.Config.ReadWeight

namespace Psuart

open Printf (weight weight_append)

variable {cfg : CfgOption → List Byte}

/-- The weight of an option in a file. -/
def optionWeight (cfg : CfgOption → List Byte) (option : CfgOption) : Nat :=
  weight option.name + weight (cfg option)

theorem weight_entries (plain : ∀ option, ∀ c ∈ cfg option, TextByte c) (options : List CfgOption) :
    weight (iniText ((options.map (CfgOption.entry cfg plain)).map Entry.line)) =
      (options.map (optionWeight cfg)).sum := by
  induction options with
  | nil => rfl
  | cons option rest ih =>
      rw [List.map_cons, List.map_cons, ← List.singleton_append, iniText_append, weight_append,
        Entry.line_text, weight_entryLine, ih, List.map_cons, List.sum_cons]
      rfl

theorem weight_withSection (plain : ∀ option, ∀ c ∈ cfg option, TextByte c) {sec : List Byte}
    (named : SectionName sec) (light : weight sec = 0) (front : List IniLine) (options : List CfgOption) :
    weight (iniText (withSection cfg plain named front options)) =
      weight (iniText front) + (options.map (optionWeight cfg)).sum := by
  have entries := weight_entries plain options.reverse
  have order : (options.reverse.map (optionWeight cfg)).sum = (options.map (optionWeight cfg)).sum := by
    rw [List.map_reverse, List.sum_reverse]
  rw [order, List.map_reverse] at entries
  rw [withSection, sectionLines, ← List.singleton_append, iniText_append, iniText_append, iniText_append,
    headerLineOf_text, weight_append, weight_append, weight_append, weight_gap, weight_headerLine, light, entries]
  omega

/-- A stored configuration weighs as much as its options. -/
theorem weight_cfgLines (plain : ∀ option, ∀ c ∈ cfg option, TextByte c) :
    weight (iniText (cfgLines cfg plain)) = loadWeight fun option => some (cfg option) := by
  have order : CfgOption.all = ((mainOptions ++ logOptions) ++ uartOptions) ++ networkOptions := rfl
  have whole : loadWeight (fun option => some (cfg option)) = (CfgOption.all.map (optionWeight cfg)).sum := rfl
  rw [whole, order, cfgLines, weight_withSection plain _ (by decide), cfgUart,
    weight_withSection plain _ (by decide), cfgLog, weight_withSection plain _ (by decide), cfgMain,
    weight_withSection plain _ (by decide)]
  simp only [List.map_append, List.sum_append, iniText_nil, Printf.weight_nil, Nat.zero_add]

/-- The options that are loaded from a file weigh at most the file. -/
theorem loadWeight_iniParse (file : Option (List Byte)) :
    loadWeight (iniParse handler fileCallsDone file cfgEmpty).2 ≤ weight (file.getD []) := by
  cases file with
  | none => exact Nat.le_refl _
  | some bytes => exact loadWeight_iniParseFile bytes

/-- Saving and loading are inverse exactly when no followed option holds a `%`. -/
theorem saveConfig_loads_iff (cfg : CfgOption → List Byte) (graphic : ∀ option, ∀ c ∈ cfg option, Graphic c)
    (short : ∀ option, option.name.length + (cfg option).length + 1 < 200) :
    (∃ stored, saveConfig (fun _ => fileCallsDone) (fun option => some (cfg option)) none = .ok stored ∧
        (iniParse handler fileCallsDone stored cfgEmpty).2 = fun option => some (cfg option)) ↔
      ∀ option : CfgOption, option.followed = true → charByte '%' ∉ cfg option := by
  have plain (option : CfgOption) : ∀ c ∈ cfg option, TextByte c :=
    fun c member => (graphic option c member).facts.1
  have progress : Progress _ (cfgLines cfg plain) _ := saveConfig_stored short
  constructor
  · rintro ⟨stored, saved, loaded⟩
    rw [saved] at progress
    cases progress with
    | exact holds _ => exact holds
    | lost fails lighter =>
        have bound := loadWeight_iniParse stored
        rw [loaded, ← weight_cfgLines plain] at bound
        omega
  · intro free
    obtain ⟨file, saved, same⟩ := progress.stores free
    refine ⟨_, saved, ?_⟩
    cases file with
    | none => exact absurd same.symm (by simp [cfgLines, withSection, sectionLines])
    | some lines =>
        have read : (iniParseFile handler (iniText (cfgLines cfg plain)) cfgEmpty).user = _ :=
          iniParseFile_cfgLines graphic short
        rw [← read, ← same]
        rfl

theorem CfgOption.default_graphic (option : CfgOption) : ∀ c ∈ option.default, Graphic c := by
  apply graphic_of_all
  cases option <;> decide

/-- The defaults are loaded as they were saved. -/
theorem saveConfig_loads_default :
    ∃ stored, saveConfig (fun _ => fileCallsDone) (fun option => some option.default) none = .ok stored ∧
      (iniParse handler fileCallsDone stored cfgEmpty).2 = fun option => some option.default :=
  (saveConfig_loads_iff CfgOption.default CfgOption.default_graphic CfgOption.default_short).mpr
    fun option _ => option.default_free

def percentConfig (option : CfgOption) : List Byte :=
  if option = .networkSelectTimeout then stringBytes "%%" else option.default

/-- The value `%%` of an option that another one follows is loaded as `%`. -/
theorem saveConfig_loads_percent :
    (∀ option, ∀ c ∈ percentConfig option, Graphic c) ∧
      (∀ option, option.name.length + (percentConfig option).length + 1 < 200) ∧
      ((saveConfig (fun _ => fileCallsDone) (fun option => some (percentConfig option)) none).toOption.map
          fun stored => (iniParse handler fileCallsDone stored cfgEmpty).2 .networkSelectTimeout) =
        some (some (stringBytes "%")) := by
  refine ⟨fun option => graphic_of_all ?_, fun option => ?_, ?_⟩
  · cases option <;> decide
  · cases option <;> decide
  · decide +kernel

end Psuart

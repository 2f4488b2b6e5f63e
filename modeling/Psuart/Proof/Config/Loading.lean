import Psuart.Proof.Config.Reading
import Psuart.Proof.Config.Stored

namespace Psuart

variable {clean : Prop} {lines : List IniLine} {result : Except IniFault (Option (List Byte))}

/-- A save that meets its condition has stored the lines. -/
theorem Progress.stores (progress : Progress clean lines result) (holds : clean) :
    ∃ file : Option (List IniLine), result = .ok (file.map iniText) ∧ file.getD [] = lines := by
  cases progress with
  | exact _ same => exact ⟨_, rfl, same⟩
  | lost fails _ => exact absurd holds fails
  | failed fails => exact absurd holds fails

theorem CfgOption.default_plain (option : CfgOption) : ∀ c ∈ option.default, TextByte c := by
  apply textBytes_of_all
  cases option <;> decide

theorem CfgOption.default_short (option : CfgOption) :
    option.name.length + option.default.length + 1 < 200 := by
  cases option <;> decide

theorem CfgOption.default_free (option : CfgOption) : charByte '%' ∉ option.default := by
  cases option <;> decide

/-- The defaults are saved whole. -/
theorem saveConfig_default : ∃ stored, saveConfig (fun _ => fileCallsDone) psusConfigDefault none = .ok stored := by
  have progress : Progress _ (cfgLines CfgOption.default CfgOption.default_plain) _ :=
    saveConfig_stored CfgOption.default_short
  obtain ⟨file, saved, _⟩ := progress.stores fun option _ => option.default_free
  exact ⟨_, saved⟩

/-- An absent file gives the defaults. -/
theorem loadOptions_absent : ∃ stored,
    loadOptions fileCallsDone (fun _ => fileCallsDone) none = .ok (psusConfigDefault, false, stored) := by
  obtain ⟨stored, saved⟩ := saveConfig_default
  have defaults : defaultConfig cfgEmpty psusConfigDefault = psusConfigDefault := rfl
  refine ⟨stored, ?_⟩
  rw [loadOptions, iniParse]
  dsimp only
  rw [if_pos (by decide), defaults, saved]
  rfl

/-- A file gives the last values that the handler received. -/
theorem loadOptions_file (saves : CfgOption → FileCalls) (bytes : List Byte) :
    loadOptions fileCallsDone saves (some bytes) = .ok (lastReceived (received bytes), true, some bytes) := by
  have options : (iniParseFile handler bytes cfgEmpty).user = lastReceived (received bytes) := by
    funext option
    rw [iniParseFile_received]
    exact Option.or_none
  have parsed : iniParse handler fileCallsDone (some bytes) cfgEmpty =
      (((iniParseFile handler bytes cfgEmpty).error : Int), lastReceived (received bytes)) := by
    rw [← options]
    rfl
  rw [loadOptions, parsed]
  exact if_neg (by omega)

/-- The second half of the load keeps the options, and it ends only when the address fits. -/
theorem deriveSettings_ok {cfg : CfgValues} {loaded : LoadedConfig} (derived : deriveSettings cfg = .ok loaded) :
    loaded.options = cfg ∧ AddressFits (cfg .networkIpaddr) := by
  rw [deriveSettings] at derived
  cases address : cfg .networkIpaddr with
  | none =>
      rw [address] at derived
      cases derived
  | some text =>
      rw [address, parseIPAddr] at derived
      dsimp only at derived
      by_cases long : 50 ≤ (cString text).length
      · rw [if_pos long] at derived
        cases derived
      · rw [if_neg long] at derived
        refine ⟨?_, text, rfl, Nat.lt_of_not_le long⟩
        split at derived
        · cases derived
        · cases derived
          rfl

theorem parseIPAddr_fits {cAddr : Option (List Byte)} (fits : AddressFits cAddr) :
    ∃ both, parseIPAddr cAddr = .ok both := by
  obtain ⟨text, rfl, short⟩ := fits
  rw [parseIPAddr]
  dsimp only
  rw [if_neg (Nat.not_le_of_lt short)]
  split <;> exact ⟨_, rfl⟩

theorem deriveSettings_fits {cfg : CfgValues} (fits : AddressFits (cfg .networkIpaddr)) :
    ∃ loaded, deriveSettings cfg = .ok loaded := by
  obtain ⟨both, parsed⟩ := parseIPAddr_fits fits
  rw [deriveSettings, parsed]
  exact ⟨_, rfl⟩

/-- A load with known options is total exactly when they are the expected ones and the address fits. -/
theorem loadsTotal_iff {file stored : Option (List Byte)} {options : CfgValues} {found : Bool}
    (load : loadOptions fileCallsDone (fun _ => fileCallsDone) file = .ok (options, found, stored)) :
    LoadsTotal file ↔ AddressFits (options .networkIpaddr) ∧
      ∀ option, options option = some ((lastReceived (receivedFrom file) option).getD option.default) := by
  rw [LoadsTotal, loadPsuConfig, load]
  dsimp only
  constructor
  · rintro ⟨loaded, _, _, ends, values⟩
    cases derived : deriveSettings options with
    | error fault =>
        rw [derived] at ends
        cases ends
    | ok settings =>
        rw [derived] at ends
        cases ends
        obtain ⟨same, fits⟩ := deriveSettings_ok derived
        exact ⟨fits, fun option => same ▸ values option⟩
  · rintro ⟨fits, values⟩
    obtain ⟨loaded, derived⟩ := deriveSettings_fits fits
    rw [derived]
    refine ⟨loaded, found, stored, rfl, fun option => ?_⟩
    rw [(deriveSettings_ok derived).1]
    exact values option

/-- Configuration loading is total exactly for an absent file and for a file with all options and a short address. -/
theorem loadPsuConfig_total_iff (file : Option (List Byte)) :
    LoadsTotal file ↔ file = none ∨
      (∀ option, lastReceived (receivedFrom file) option ≠ none) ∧
        AddressFits (lastReceived (receivedFrom file) .networkIpaddr) := by
  cases file with
  | none =>
      obtain ⟨stored, load⟩ := loadOptions_absent
      refine iff_of_true ((loadsTotal_iff load).mpr ⟨⟨_, rfl, ?_⟩, fun _ => rfl⟩) (Or.inl rfl)
      decide
  | some bytes =>
      rw [loadsTotal_iff (loadOptions_file (fun _ => fileCallsDone) bytes), receivedFrom, Option.elim_some]
      constructor
      · rintro ⟨fits, values⟩
        refine Or.inr ⟨fun option => ?_, fits⟩
        rw [values option]
        exact Option.some_ne_none _
      · rintro (absent | ⟨all, fits⟩)
        · cases absent
        · refine ⟨fits, fun option => ?_⟩
          obtain ⟨value, present⟩ := Option.ne_none_iff_exists'.mp (all option)
          rw [present]
          rfl

/-- A file without the address passes NULL to `ParseIPAddr`. -/
theorem loadPsuConfig_crashes :
    loadPsuConfig fileCallsDone (fun _ => fileCallsDone) (some (stringBytes "[network]\ntype=0x24\n")) =
        .error (.address .nullString) ∧
      ¬LoadsTotal (some (stringBytes "[network]\ntype=0x24\n")) := by
  have null : loadPsuConfig fileCallsDone (fun _ => fileCallsDone)
      (some (stringBytes "[network]\ntype=0x24\n")) = .error (.address .nullString) := rfl
  refine ⟨null, ?_⟩
  rintro ⟨loaded, found, stored, ends, _⟩
  rw [null] at ends
  cases ends

end Psuart

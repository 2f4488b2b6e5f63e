import Psuart.Proof.Config.Updates
import Psuart.Proof.Ini.ProfileInts
import Psuart.Proof.Service.ComPort
import Psuart.Spec.Operator

namespace Psuart

/-- A text of a line without a format directive. -/
def LineText (text : List Byte) (bound : Nat) : Prop :=
  (∀ c ∈ text, Graphic c) ∧ charByte '%' ∉ text ∧ text.length ≤ bound

theorem LineText.append {first second : List Byte} {one two : Nat} (left : LineText first one)
    (right : LineText second two) : LineText (first ++ second) (one + two) := by
  refine ⟨List.forall_mem_append.mpr ⟨left.1, right.1⟩, ?_, ?_⟩
  · rw [List.mem_append, not_or]
    exact ⟨left.2.1, right.2.1⟩
  · rw [List.length_append]
    exact Nat.add_le_add left.2.2 right.2.2

theorem LineText.cons {c : Byte} {rest : List Byte} {bound : Nat} (graphic : Graphic c) (free : c ≠ charByte '%')
    (text : LineText rest bound) : LineText (c :: rest) (bound + 1) := by
  refine ⟨List.forall_mem_cons.mpr ⟨graphic, text.1⟩, ?_, Nat.succ_le_succ text.2.2⟩
  rw [List.mem_cons, not_or]
  exact ⟨free.symm, text.2.1⟩

theorem LineText.mono {text : List Byte} {bound larger : Nat} (line : LineText text bound) (le : bound ≤ larger) :
    LineText text larger := ⟨line.1, line.2.1, line.2.2.trans le⟩

theorem decimal_lineText {number bound : Nat} (short : (decimal number).length ≤ bound) :
    LineText (decimal number) bound := by
  have digit : ∀ c : Byte, isDecimalDigit c = true → Graphic c := by decide
  exact ⟨fun c member => digit c (decimal_digits number c member), decimal_free (by decide) number, short⟩

theorem intText_lineText {number : Int} (small : number.natAbs + 48 < 2 ^ 31) : LineText (intText number) 31 := by
  have short := intText_short (show -2 ^ 31 ≤ number by omega) (show number < 2 ^ 31 by omega)
  obtain ⟨graphic, free, _⟩ := decimal_lineText (Nat.le_refl (decimal number.natAbs).length)
  refine ⟨?_, ?_, Nat.le_of_lt_succ short⟩
  · apply List.forall_mem_append.mpr ⟨?_, graphic⟩
    rw [signText]
    split <;> decide
  · rw [intText, List.mem_append, not_or]
    refine ⟨?_, free⟩
    rw [signText]
    split <;> decide

theorem decimal_head (number : Nat) : (decimal number).head? ≠ some (charByte '-') :=
  fun head => decimal_free (by decide) number (List.mem_of_mem_head? head)

theorem strToIntUnsigned_print {number : Nat} (small : number + 48 < 2 ^ 31) :
    strToIntUnsigned (decimal number) = BitVec.ofNat 32 number := by
  have plain : ¬(number : Int) < 0 := by omega
  have signed := (strToInt_signed (number : Int) (decimal_head number)).1
  rw [signText, signOf, if_neg plain, if_neg plain, List.nil_append, show BitVec.ofInt 32 1 = 1#32 by decide,
    BitVec.one_mul] at signed
  rw [← signed]
  apply BitVec.eq_of_toNat_eq
  rw [strToInt_decimal small, BitVec.toNat_ofNat, Nat.mod_eq_of_lt (by omega)]

/-- A printed number is read with its sign. -/
theorem strToInt_int {number : Int} (small : number.natAbs + 48 < 2 ^ 31) :
    strToInt (intText number) = BitVec.ofInt 32 number := by
  have value : signOf number * (number.natAbs : Int) = number := by
    rw [signOf]
    split <;> omega
  rw [intText, (strToInt_signed number (decimal_head number.natAbs)).1, strToIntUnsigned_print small,
    ← BitVec.ofInt_natCast, ← BitVec.ofInt_mul, value]

theorem octet_lineText (ip : BitVec 32) (index : Nat) : LineText (decimal (octet ip index)) 3 :=
  decimal_lineText (decimal_short (octet_lt ip index))

theorem ip2Str_lineText (ip : BitVec 32) : LineText (ip2Str ip) 15 := by
  have each := octet_lineText ip
  have dot {first rest : List Byte} {one two : Nat} (left : LineText first one) (right : LineText rest two) :
      LineText (first ++ charByte '.' :: rest) (one + (two + 1)) :=
    left.append (right.cons (by decide) (by decide))
  rw [ip2Str_join, octetTexts, joinFields_cons, joinFields_cons, joinFields_cons, joinFields_single]
  exact dot (each 0) (dot (each 1) (dot (each 2) (each 3)))

/-- The string of a line with a short path. -/
theorem line_lineText (line : LineSettings) (graphic : ∀ c ∈ line.com, Graphic c) (free : charByte '%' ∉ line.com)
    (short : line.com.length ≤ 150) : LineText (line.text 5) 170 := by
  have comma {first rest : List Byte} {one two : Nat} (left : LineText first one) (right : LineText rest two) :
      LineText (first ++ charByte ',' :: rest) (one + (two + 1)) :=
    left.append (right.cons (by decide) (by decide))
  have digit : ∀ number ∈ [1, 2, 7, 8], (decimal number).length ≤ 1 := by decide
  have speeds : ∀ speed ∈ speedArr, (decimal speed.number).length ≤ 6 := by decide
  have speed : LineText (decimal line.speed.number) 6 := decimal_lineText (speeds _ line.listed)
  have stops : LineText (decimal line.stopbits) 1 := by
    apply decimal_lineText
    rcases line.stops with one | two
    · exact digit _ (by simp [one])
    · exact digit _ (by simp [two])
  have sizes : LineText (decimal line.databits) 1 := by
    apply decimal_lineText
    rcases line.sized with seven | eight
    · exact digit _ (by simp [seven])
    · exact digit _ (by simp [eight])
  have parity : LineText [line.parity] 1 := by
    have empty : LineText [] 0 := ⟨List.forall_mem_nil _, List.not_mem_nil, Nat.le_refl 0⟩
    rcases line.checked with same | same | same
    all_goals
      rw [same]
      exact empty.cons (by decide) (by decide)
  have path : LineText line.com 150 := ⟨graphic, free, short⟩
  have whole := comma path (comma speed (comma parity (comma stops sizes)))
  rw [LineSettings.text, LineSettings.fields]
  simp only [List.take_succ_cons, List.take_zero, joinFields_cons, joinFields_single]
  exact whole.mono (by decide)

section Settings

variable (settings : OperatorSettings)

/-- The text of every option fits into its line. -/
theorem OperatorSettings.text_line (option : CfgOption) : LineText (settings.text option) 170 := by
  have flag : LineText (intText settings.flag) 170 := (intText_lineText settings.flag_small).mono (by decide)
  have timeout : LineText (intText settings.selectTimeout) 170 :=
    (intText_lineText settings.timeout_small).mono (by decide)
  have word (number : BitVec 16) : LineText (decimal number.toNat) 5 := decimal_lineText (decimal_port_short number)
  have number (value : BitVec 16) : LineText (decimal value.toNat) 170 := (word value).mono (by decide)
  have address : LineText (ip2Str settings.address ++ charByte ':' :: decimal settings.port.toNat) 170 :=
    ((ip2Str_lineText settings.address).append ((word settings.port).cons (by decide) (by decide))).mono (by decide)
  have line := line_lineText settings.line settings.path_graphic settings.path_free settings.path_short
  have defaults : ∀ option ∈ CfgOption.all, option.default.length ≤ 170 := by decide
  have default : LineText option.default 170 :=
    ⟨option.default_graphic, option.default_free, defaults option option.mem_all⟩
  cases option with
  | logFlag => exact flag
  | logMinLevel => exact number settings.minLevel
  | logMaxLevel => exact number settings.maxLevel
  | networkSelectTimeout => exact timeout
  | networkIpaddr => exact address
  | networkUdpport => exact number settings.udpport
  | uartPort => exact line
  | _ => exact default

theorem OperatorSettings.text_short (option : CfgOption) :
    option.name.length + (settings.text option).length + 1 < iniMaxLine := by
  have text := (settings.text_line option).2.2
  have names : ∀ option ∈ CfgOption.all, option.name.length ≤ 13 := by decide
  have name := names option option.mem_all
  rw [iniMaxLine]
  omega

def OperatorSettings.value (option : CfgOption) : CfgText option where
  bytes := settings.text option
  graphic := (settings.text_line option).1
  free := (settings.text_line option).2.1
  short := settings.text_short option

/-- The operator writes the derived options. -/
def OperatorSettings.writes : List CfgWrite := derivedOptions.map fun option => ⟨option, settings.value option⟩

theorem OperatorSettings.writes_spelled (start : CfgValues) :
    settings.Spelled (latestOptions start settings.writes) := by
  simp only [OperatorSettings.Spelled, derivedOptions, List.forall_mem_cons]
  exact ⟨rfl, rfl, rfl, rfl, rfl, rfl, rfl, List.forall_mem_nil _⟩

/-- Options with the texts of the settings are loaded as the settings. -/
theorem OperatorSettings.deriveSettings_spelled {options : CfgValues} (spelled : settings.Spelled options) :
    deriveSettings options = .ok (settings.loaded options) := by
  simp only [OperatorSettings.Spelled, derivedOptions, List.forall_mem_cons] at spelled
  obtain ⟨flag, minLevel, maxLevel, timeout, address, udpport, _⟩ := spelled
  simp only [deriveSettings, flag, minLevel, maxLevel, timeout, address, udpport, OperatorSettings.text, optionInt,
    Option.elim_some, strToInt_port, parseIPAddr_port, strToInt_int settings.flag_small,
    strToInt_int settings.timeout_small]
  rfl

end Settings

/-- A start without a file has the defaults. -/
theorem loadPsuConfig_first {first : Option (List Byte)}
    (saved : saveConfig (fun _ => fileCallsDone) psusConfigDefault none = .ok first) :
    loadPsuConfig fileCallsDone (fun _ => fileCallsDone) none = .ok (defaultLoaded, false, first) := by
  have defaults : deriveSettings psusConfigDefault = .ok defaultLoaded := rfl
  rw [loadPsuConfig, loadOptions_first saved]
  dsimp only
  rw [defaults]

/-- A start that reads all of the texts of the settings has the settings. -/
theorem loadPsuConfig_spelled (settings : OperatorSettings) (saves : CfgOption → FileCalls) {writes : List CfgWrite}
    (spelled : settings.Spelled (latestOptions psusConfigDefault writes)) :
    ∃ first stored, loadPsuConfig fileCallsDone (fun _ => fileCallsDone) none = .ok (defaultLoaded, false, first) ∧
      profileRun first (writes.map CfgWrite.update) = .ok (true, stored) ∧
        loadPsuConfig fileCallsDone saves stored =
          .ok (settings.loaded (latestOptions psusConfigDefault writes), true, stored) := by
  obtain ⟨first, stored, saved, run, parsed⟩ := restart_reads writes
  refine ⟨first, stored, loadPsuConfig_first saved, run, ?_⟩
  rw [loadPsuConfig, loadOptions_read saves parsed]
  dsimp only
  rw [settings.deriveSettings_spelled spelled]

/-- The settings that an operator has written behind the first start are those of the next start, and its service
opens the UART with them. -/
theorem loadPsuConfig_settings (settings : OperatorSettings) (before : List CfgWrite) (saves : CfgOption → FileCalls)
    (attributes : List Byte → Termios) (steps : List (Outcomes × ComCalls)) :
    ∃ first stored loaded dev,
      loadPsuConfig fileCallsDone (fun _ => fileCallsDone) none = .ok (defaultLoaded, false, first) ∧
      profileRun first ((before ++ settings.writes).map CfgWrite.update) = .ok (true, stored) ∧
      loadPsuConfig fileCallsDone saves stored = .ok (loaded, true, stored) ∧
      loaded = settings.loaded (latestOptions psusConfigDefault (before ++ settings.writes)) ∧
      loaded.options .uartPort = some dev ∧
      PortConfigured settings.line (serviceStart loaded.netAddr loaded.udpport) attributes steps
        (portRun dev (serviceStart loaded.netAddr loaded.udpport) attributes steps) := by
  have spelled : settings.Spelled (latestOptions psusConfigDefault (before ++ settings.writes)) := by
    rw [latestOptions_append]
    exact settings.writes_spelled _
  obtain ⟨first, stored, start, run, restart⟩ := loadPsuConfig_spelled settings saves spelled
  have omits : settings.line.Omits 5 := rfl
  refine ⟨first, stored, _, settings.line.text 5, start, run, restart, rfl, spelled .uartPort (by decide), ?_⟩
  exact portRun_keeps settings.line omits (serviceStart _ _) rfl attributes steps

/-- The operator asks for the default port with a zero. -/
def fieldSettings : OperatorSettings where
  flag := 0x11
  minLevel := 3
  maxLevel := 9
  selectTimeout := -5
  address := 7#8 ++ 1#8 ++ 168#8 ++ 192#8
  port := 6000
  udpport := 0
  line := evenSettings
  flag_small := by decide
  timeout_small := by decide
  path_graphic := by decide
  path_free := by decide
  path_short := by decide

/-- The next start has the settings, and its second iteration opens the line with them. -/
theorem loadPsuConfig_settings_field :
    ∃ first stored loaded,
      loadPsuConfig fileCallsDone (fun _ => fileCallsDone) none = .ok (defaultLoaded, false, first) ∧
      profileRun first (fieldSettings.writes.map CfgWrite.update) = .ok (true, stored) ∧
      loadPsuConfig fileCallsDone (fun _ => fileCallsDone) stored = .ok (loaded, true, stored) ∧
      loaded.flag = 0x11 ∧ loaded.selectTimeout = -5 ∧ loaded.udpport = 5000 ∧
      loaded.netAddr = ⟨2, htons 6000, 7#8 ++ 1#8 ++ 168#8 ++ 192#8⟩ ∧
      evenSettings.Framed ((portRun (stringBytes "/dev/ttyS1,9600,E,2,8")
        (serviceStart loaded.netAddr loaded.udpport) (fun _ => cookedTermios) portSteps).2.attributes
          (stringBytes "/dev/ttyS1")) := by
  obtain ⟨first, stored, _, dev, start, run, restart, rfl, port, configured⟩ :=
    loadPsuConfig_settings fieldSettings [] (fun _ => fileCallsDone) (fun _ => cookedTermios) portSteps
  refine ⟨first, stored, _, start, run, restart, rfl, rfl, rfl, rfl, ?_⟩
  have written : dev = stringBytes "/dev/ttyS1,9600,E,2,8" :=
    Option.some.inj (port.symm.trans (fieldSettings.writes_spelled psusConfigDefault .uartPort (by decide)))
  subst written
  have opened : (portRun (stringBytes "/dev/ttyS1,9600,E,2,8")
      (serviceStart ⟨2, htons 6000, 7#8 ++ 1#8 ++ 168#8 ++ 192#8⟩ 5000) (fun _ => cookedTermios)
        portSteps).1.state.psudata.uartFd = 3 := by decide +kernel
  exact configured.framed ((by decide : (0 : Int) < 3).trans_eq opened.symm)

end Psuart

import Psuart.Proof.Config.Operator
import Psuart.Proof.Service.Ownership
import Psuart.Spec.Startup

namespace Psuart

section Search

variable {size : Nat} {param program arg paramValue : List Byte} {rest : List (List Byte)}

theorem visitedArgs_cons : visitedArgs param (program :: arg :: rest) =
    (arg, rest) :: if ParsesAs param arg then [] else visitedArgs param (arg :: rest) := by
  rw [visitedArgs, List.tail_cons, Scan.visited]
  simp only [decide_eq_true_eq]
  rfl

theorem chosenValue_found (parses : ParsesAs param arg) :
    chosenValue param (program :: arg :: rest) = some (switchValue arg rest) := by
  rw [chosenValue, visitedArgs_cons, List.find?_cons_of_pos (by simpa using parses)]
  rfl

theorem chosenValue_passes (other : ¬ParsesAs param arg) :
    chosenValue param (program :: arg :: rest) = chosenValue param (arg :: rest) := by
  rw [chosenValue, visitedArgs_cons, List.find?_cons_of_neg (by simpa using other), if_neg other, ← chosenValue]

theorem visitsFit_iff {argv : List (List Byte)} : VisitsFit size param argv ↔
    ∀ visit ∈ visitedArgs param argv, (switchName visit.1).length < switchSize ∧
      (switchValue visit.1 visit.2).length < size := by
  constructor
  · rintro fits ⟨arg, rest⟩ member
    obtain ⟨front, whole, passed⟩ := Scan.mem_visited.mp member
    exact fits front arg rest whole fun other inside => of_decide_eq_false (passed other inside)
  · intro fits front arg rest whole passed
    exact fits (arg, rest) (Scan.mem_visited.mpr
      ⟨front, whole, fun other inside => decide_eq_false (passed other inside)⟩)

theorem visitsFit_cons : VisitsFit size param (program :: arg :: rest) ↔
    ((switchName arg).length < switchSize ∧ (switchValue arg rest).length < size) ∧
      (¬ParsesAs param arg → VisitsFit size param (arg :: rest)) := by
  rw [visitsFit_iff, visitsFit_iff, visitedArgs_cons, List.forall_mem_cons]
  by_cases parses : ParsesAs param arg
  · rw [if_pos parses]
    exact and_congr_right fun _ => iff_of_true (List.forall_mem_nil _) (absurd parses)
  · rw [if_neg parses]
    exact and_congr_right fun _ => ⟨fun behind _ => behind, fun behind => behind parses⟩

theorem cmdParamLoop_round (fits : (switchName arg).length < switchSize ∧ (switchValue arg rest).length < size) :
    cmdParamLoop (some size) param paramValue (arg :: rest) =
      if ParsesAs param arg then .ok (true, switchValue arg rest)
      else cmdParamLoop (some size) param (switchValue arg rest) rest := by
  have room : ¬(some size).any (· ≤ (switchValue arg rest).length) = true := by
    simpa using fits.2
  rw [cmdParamLoop, if_neg (Nat.not_le.mpr fits.1), if_neg room]
  rfl

/-- The loop ends with the chosen value when every visited argument fits. -/
theorem cmdParamLoop_fits (program paramValue : List Byte) (args : List (List Byte))
    (fits : VisitsFit size param (program :: args)) :
    ∃ left, cmdParamLoop (some size) param paramValue args =
      .ok ((chosenValue param (program :: args)).elim (false, left) fun value => (true, value)) := by
  induction args generalizing program paramValue with
  | nil => exact ⟨paramValue, rfl⟩
  | cons arg rest ih =>
      obtain ⟨now, later⟩ := visitsFit_cons.mp fits
      rw [cmdParamLoop_round now]
      by_cases parses : ParsesAs param arg
      · rw [if_pos parses, chosenValue_found parses]
        exact ⟨paramValue, rfl⟩
      · rw [if_neg parses, chosenValue_passes parses]
        exact ih _ _ (later parses)

/-- A visited argument that does not fit is written beyond an array. -/
theorem cmdParamLoop_unfit (program paramValue : List Byte) (args : List (List Byte))
    (fails : ¬VisitsFit size param (program :: args)) :
    ∃ fault, cmdParamLoop (some size) param paramValue args = .error fault := by
  induction args generalizing program paramValue with
  | nil => exact absurd (visitsFit_iff.mpr (List.forall_mem_nil _)) fails
  | cons arg rest ih =>
      by_cases now : (switchName arg).length < switchSize ∧ (switchValue arg rest).length < size
      · rw [visitsFit_cons, and_iff_right now, not_forall] at fails
        obtain ⟨other, behind⟩ := fails
        rw [cmdParamLoop_round now, if_neg other]
        exact ih _ _ behind
      · rw [cmdParamLoop]
        by_cases long : switchSize ≤ (switchName arg).length
        · exact ⟨_, if_pos long⟩
        · have wide : size ≤ (switchValue arg rest).length :=
            Nat.not_lt.mp fun short => now ⟨Nat.not_le.mp long, short⟩
          rw [if_neg long]
          exact ⟨_, if_pos (decide_eq_true wide)⟩

end Search

/-- The search over all arguments gives the chosen value, or it does not fit. -/
theorem cmdParamSized_argv (size : Nat) (param : List Byte) (argv : List (List Byte)) :
    (VisitsFit size param argv ∧ ∃ left, cmdParamSized size param argv =
        .ok ((chosenValue param argv).elim (false, left) fun value => (true, value))) ∨
      (¬VisitsFit size param argv ∧ ∃ fault, cmdParamSized size param argv = .error fault) := by
  rw [cmdParamSized]
  by_cases fits : VisitsFit size param argv
  · obtain ⟨left, found⟩ := cmdParamLoop_fits [] [] argv.tail fits
    rw [found]
    exact Or.inl ⟨fits, left, rfl⟩
  · obtain ⟨fault, lost⟩ := cmdParamLoop_unfit [] [] argv.tail fits
    rw [lost]
    exact Or.inr ⟨fits, .argument fault, rfl⟩

theorem mainConfigFile_ok_iff (argv : List (List Byte)) (fn : List Byte) :
    mainConfigFile argv = .ok fn ↔ VisitsFit 260 (stringBytes "config") argv ∧ fn = chosenConfigFile argv := by
  rw [mainConfigFile]
  rcases cmdParamSized_argv 260 (stringBytes "config") argv with ⟨fits, left, found⟩ | ⟨fails, fault, lost⟩
  · rw [found, and_iff_right fits, chosenConfigFile]
    cases chosenValue (stringBytes "config") argv with
    | none => exact ⟨fun same => (Except.ok.inj same).symm, fun same => congrArg Except.ok same.symm⟩
    | some value => exact ⟨fun same => (Except.ok.inj same).symm, fun same => congrArg Except.ok same.symm⟩
  · rw [lost]
    exact iff_of_false (fun same => nomatch same) fun both => fails both.1

/-- The log file is the option or the configured one, and the option is not longer than that. -/
theorem mainLogFile_ok_iff (configured : Option (List Byte)) (option : Option (List Byte)) (left logFile : List Byte) :
    mainLogFile configured (option.elim (false, left) fun value => (true, value)) = .ok logFile ↔
      ∃ text, configured = some text ∧ logFile = option.getD (cString text) ∧
        logFile.length ≤ (cString text).length := by
  cases configured with
  | none => exact iff_of_false (fun same => nomatch same) fun ⟨_, absent, _⟩ => nomatch absent
  | some text =>
      cases option with
      | none =>
          constructor
          · intro same
            obtain rfl := Except.ok.inj same
            exact ⟨text, rfl, rfl, Nat.le_refl _⟩
          · rintro ⟨_, same, rfl, _⟩
            rw [Option.some.inj same]
            rfl
      | some value =>
          change (if (cString text).length < value.length then _ else Except.ok value) = .ok logFile ↔ _
          constructor
          · intro same
            split at same
            · cases same
            · rename_i short
              obtain rfl := Except.ok.inj same
              exact ⟨text, rfl, rfl, Nat.not_lt.mp short⟩
          · rintro ⟨_, same, rfl, short⟩
            rw [← Option.some.inj same] at short
            exact if_neg (Nat.not_lt.mpr short)

theorem except_bind_ok_iff {E A B : Type} {first : Except E A} {rest : A → Except E B} {result : B} :
    (first >>= rest) = .ok result ↔ ∃ value, first = .ok value ∧ rest value = .ok result := by
  cases first with
  | error fault => exact iff_of_false (fun same => nomatch same) fun ⟨_, same, _⟩ => nomatch same
  | ok value => exact ⟨fun runs => ⟨value, rfl, runs⟩, fun ⟨_, same, runs⟩ => Except.ok.inj same ▸ runs⟩

theorem except_mapError_ok_iff {E F A : Type} {first : Except E A} {fault : E → F} {value : A} :
    first.mapError fault = .ok value ↔ first = .ok value := by
  cases first with
  | error _ => exact iff_of_false (fun same => nomatch same) fun same => nomatch same
  | ok other =>
      exact ⟨fun same => congrArg Except.ok (Except.ok.inj same), fun same => congrArg Except.ok (Except.ok.inj same)⟩

theorem directory_ok_iff (logFile directory : List Byte) :
    (logDirectory logFile).elim (.error StartFault.directory) .ok = Except.ok directory ↔
      directory = extractFilePath logFile ∧ directory.length < 128 := by
  rw [logDirectory]
  by_cases short : (extractFilePath logFile).length < 128
  · simp only [if_pos short, Option.elim_some]
    constructor
    · intro same
      obtain rfl := Except.ok.inj same
      exact ⟨rfl, short⟩
    · exact fun both => congrArg Except.ok both.1.symm
  · simp only [if_neg short, Option.elim_none]
    exact iff_of_false (fun same => nomatch same) fun both => short (both.1 ▸ both.2)

section Start

variable (calls : FileCalls) (saves : CfgOption → FileCalls) (files : List Byte → Option (List Byte))

/-- A start succeeds exactly when it writes only inside its arrays and strings. -/
theorem mainStart_ok_iff (argv : List (List Byte)) (start : MainStart) :
    mainStart calls saves files argv = .ok start ↔ StartsInside calls saves files argv start := by
  rw [mainStart, except_bind_ok_iff]
  constructor
  · rintro ⟨fn, config, runs⟩
    obtain ⟨⟨loaded, found, file⟩, loads, runs⟩ := except_bind_ok_iff.mp runs
    obtain ⟨log, search, runs⟩ := except_bind_ok_iff.mp runs
    obtain ⟨logFile, replaces, runs⟩ := except_bind_ok_iff.mp runs
    obtain ⟨directory, short, runs⟩ := except_bind_ok_iff.mp runs
    obtain rfl := Except.ok.inj runs
    obtain ⟨fits, rfl⟩ := (mainConfigFile_ok_iff argv fn).mp config
    rcases cmdParamSized_argv 128 (stringBytes "log") argv with ⟨inside, left, same⟩ | ⟨_, fault, lost⟩
    · obtain rfl := Except.ok.inj (search.symm.trans same)
      exact ⟨fits, except_mapError_ok_iff.mp loads, inside, (mainLogFile_ok_iff ..).mp replaces,
        (directory_ok_iff ..).mp short⟩
    · cases lost.symm.trans search
  · rintro ⟨config, loads, log, replaces, directory⟩
    rcases cmdParamSized_argv 128 (stringBytes "log") argv with ⟨_, left, search⟩ | ⟨fails, _⟩
    · refine ⟨_, (mainConfigFile_ok_iff argv _).mpr ⟨config, rfl⟩, ?_⟩
      refine except_bind_ok_iff.mpr ⟨_, except_mapError_ok_iff.mpr loads, ?_⟩
      refine except_bind_ok_iff.mpr ⟨_, search, ?_⟩
      refine except_bind_ok_iff.mpr ⟨_, (mainLogFile_ok_iff _ _ left _).mpr replaces, ?_⟩
      exact except_bind_ok_iff.mpr ⟨_, (directory_ok_iff ..).mpr directory, rfl⟩
    · exact absurd log fails

end Start

/-- The first start has room for a log file of 19 characters, as long as the default one. -/
theorem mainStart_first {files : List Byte → Option (List Byte)} {argv : List (List Byte)}
    (absent : files (chosenConfigFile argv) = none) :
    (∃ start, mainStart fileCallsDone (fun _ => fileCallsDone) files argv = .ok start) ↔
      VisitsFit 260 (stringBytes "config") argv ∧ VisitsFit 128 (stringBytes "log") argv ∧
        ∀ value, chosenValue (stringBytes "log") argv = some value → value.length ≤ 19 := by
  obtain ⟨first, saved⟩ := saveConfig_default
  have load := loadPsuConfig_first saved
  have length : (cString CfgOption.logFile.default).length = 19 := by decide
  simp only [mainStart_ok_iff]
  constructor
  · rintro ⟨start, config, loads, log, ⟨text, configured, chosen, short⟩, _⟩
    rw [absent, load] at loads
    have options : start.loaded.options = psusConfigDefault :=
      congrArg LoadedConfig.options (Prod.mk.inj (Except.ok.inj loads)).1.symm
    rw [options] at configured
    rw [← Option.some.inj configured, length] at short
    refine ⟨config, log, fun value option => ?_⟩
    rw [option] at chosen
    exact (congrArg List.length chosen).symm.le.trans short
  · rintro ⟨config, log, short⟩
    let logFile := (chosenValue (stringBytes "log") argv).getD (cString CfgOption.logFile.default)
    have fits : logFile.length ≤ 19 := by
      cases option : chosenValue (stringBytes "log") argv with
      | none => simp only [logFile, option, Option.getD_none, length, Nat.le_refl]
      | some value =>
          simp only [logFile, option, Option.getD_some]
          exact short value option
    let start : MainStart := ⟨defaultLoaded, false, first, logFile, extractFilePath logFile⟩
    refine ⟨start, config, ?_, log, ⟨_, rfl, rfl, ?_⟩, rfl, ?_⟩
    · rw [absent, load]
    · exact fits.trans length.ge
    · exact Nat.lt_of_le_of_lt ((List.length_take_le' ..).trans fits) (by decide)

/-- A process serves with the loaded address, or it exits behind its fork. -/
theorem mainServe_cases (argv : List (List Byte)) (fork : ForkResult) (outcomes : List Outcomes) (start : MainStart) :
    mainServe argv fork outcomes start =
        .serve (serviceRun (serviceStart start.loaded.netAddr start.loaded.udpport) outcomes) false ∨
      checkCmdLine argv (stringBytes "d") = true ∧ fork ≠ .child ∧
        ∃ code, mainServe argv fork outcomes start = .exit code := by
  unfold mainServe
  rw [mainLoop_eq]
  by_cases daemon : checkCmdLine argv (stringBytes "d") = true
  · rw [if_pos daemon]
    cases fork with
    | failed => exact Or.inr ⟨daemon, by decide, -1, rfl⟩
    | child => exact Or.inl rfl
    | parent => exact Or.inr ⟨daemon, by decide, 0, rfl⟩
  · rw [if_neg daemon]
    exact Or.inl rfl

/-- The start of `main` stays inside its memory exactly when the arguments fit and the log file is not longer than
the configured one, and behind it the process serves the loaded address. -/
theorem mainStart_inside (calls : FileCalls) (saves : CfgOption → FileCalls) (files : List Byte → Option (List Byte))
    (argv : List (List Byte)) :
    (∀ start, mainStart calls saves files argv = .ok start ↔ StartsInside calls saves files argv start) ∧
      (files (chosenConfigFile argv) = none →
        ((∃ start, mainStart fileCallsDone (fun _ => fileCallsDone) files argv = .ok start) ↔
          VisitsFit 260 (stringBytes "config") argv ∧ VisitsFit 128 (stringBytes "log") argv ∧
            ∀ value, chosenValue (stringBytes "log") argv = some value → value.length ≤ 19)) ∧
      ∀ fork outcomes start, mainServe argv fork outcomes start =
          .serve (serviceRun (serviceStart start.loaded.netAddr start.loaded.udpport) outcomes) false ∨
        checkCmdLine argv (stringBytes "d") = true ∧ fork ≠ .child ∧
          ∃ code, mainServe argv fork outcomes start = .exit code :=
  ⟨mainStart_ok_iff calls saves files argv, mainStart_first, fun fork outcomes start =>
    mainServe_cases argv fork outcomes start⟩

end Psuart

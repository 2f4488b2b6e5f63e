import Psuart.Proof.Log.Filter
import Psuart.Spec.LogSink

namespace Psuart

/-- The records are added to the console and to the files, and nothing else changes. -/
def LogSinks.add (sinks : LogSinks) (records : List LogRecord) : LogSinks :=
  { sinks with
    console := sinks.console ++ records.flatMap LogRecord.consoleText
    files := fun path => sinks.files path ++ records.flatMap (LogRecord.fileText path) }

theorem LogSinks.add_nil (sinks : LogSinks) : sinks.add [] = sinks := by
  simp only [LogSinks.add, List.flatMap_nil, List.append_nil]

theorem LogSinks.add_append (sinks : LogSinks) (first second : List LogRecord) :
    sinks.add (first ++ second) = (sinks.add first).add second := by
  simp only [LogSinks.add, List.flatMap_append, List.append_assoc]

theorem LogSinks.printf_add (sinks : LogSinks) (text : List Byte) : sinks.printf text = sinks.add [.printed text] := by
  simp only [LogSinks.printf, LogSinks.add, LogRecord.consoleText, LogRecord.fileText, List.flatMap_cons,
    List.flatMap_nil, List.append_nil]

theorem LogSinks.append_add (sinks : LogSinks) (fn : List Byte) (calls : LogCalls) (text : List Byte) :
    sinks.append fn calls text = sinks.add [.logged text false (some fn) calls] := by
  have whole : sinks.add [.logged text false (some fn) calls] = { sinks with
      files := fun path => sinks.files path ++ LogRecord.fileText path (.logged text false (some fn) calls) } := by
    simp only [LogSinks.add, List.flatMap_cons, List.flatMap_nil, List.append_nil, LogRecord.consoleText,
      Bool.false_eq_true, if_false]
  rw [whole, LogSinks.append]
  by_cases opened : calls.fopen = true
  · rw [if_pos opened]
    congr 1
    funext path
    rw [LogRecord.fileText]
    by_cases same : path = fn
    · rw [same, Function.update_self, if_pos ⟨rfl, opened⟩]
    · rw [Function.update_of_ne same, if_neg (fun both => same (Option.some.inj both.1).symm), List.append_nil]
  · have closed : calls.fopen = false := Bool.eq_false_iff.mpr opened
    simp only [LogRecord.fileText, closed, Bool.false_eq_true, and_false, if_false, List.append_nil]

/-- A call of `_log` adds one record. -/
theorem log_add (fn : Option (List Byte)) (flag : CInt) (pszDest : List Byte) (calls : LogCalls) (sinks : LogSinks) :
    log fn flag pszDest calls sinks = sinks.add [.logged (cString pszDest)
      (decide (flag &&& debugConsole = debugConsole)) (if flag &&& debugFile = debugFile then fn else none) calls] := by
  have split (console : Bool) (file : Option (List Byte)) : sinks.add [.logged (cString pszDest) console file calls] =
      (if console then sinks.printf (cString pszDest ++ [charByte '\n']) else sinks).add
        [.logged (cString pszDest) false file calls] := by
    cases console with
    | true =>
        rw [if_pos rfl, LogSinks.printf_add, ← LogSinks.add_append]
        rfl
    | false => rw [if_neg Bool.false_ne_true]
  have lost (sinks : LogSinks) : sinks.add [.logged (cString pszDest) false none calls] = sinks := sinks.add_nil
  rw [split]
  simp only [log, decide_eq_true_eq]
  cases fn with
  | none => rw [ite_self, lost]
  | some fn =>
      dsimp only
      by_cases written : flag &&& debugFile = debugFile
      · rw [if_pos written, if_pos written, LogSinks.append_add]
      · rw [if_neg written, if_neg written, lost]

/-- The variables hold the settings, and the callbacks of the service are installed. -/
structure SinkRefines (sinks : LogSinks) (settings : SinkSettings) : Prop where
  filter : LogRefines sinks.state settings.filter
  errors : sinks.onReportError = true
  warnings : sinks.onReportWarning = true
  console : settings.console = decide (sinks.flag &&& debugConsole = debugConsole)
  file : settings.file = decide (sinks.flag &&& debugFile = debugFile)
  path : settings.path = sinks.logFile

/-- A level is packed from both of its halves. -/
theorem mLogLevel_halves (level : CInt) : mLogLevel (level.setWidth 16) ((level >>> 16).setWidth 16) = level := by
  have bound := level.isLt
  apply BitVec.eq_of_toNat_eq
  rw [mLogLevel_toNat, BitVec.toNat_setWidth, BitVec.toNat_setWidth, BitVec.toNat_ushiftRight,
    Nat.shiftRight_eq_div_pow]
  omega

theorem LogRefines.logMessage_some {state : LogState} {settings : LogSettings} (refines : LogRefines state settings)
    {level : CInt} (inRange : (level >>> 16).toNat < 32) (text : List Byte) :
    logMessage state level (some text) =
      .ok (if settings.Passes ((level >>> 16).setWidth 16) (level.setWidth 16) then [(level, text.take 2047)] else [],
        state) := by
  have module : ((level >>> 16).setWidth 16).toNat < 32 := by
    rw [BitVec.toNat_setWidth]
    omega
  have halves := mLogLevel_halves level
  by_cases passes : settings.Passes ((level >>> 16).setWidth 16) (level.setWidth 16)
  · have delivered := refines.filters.delivers _ _ text module passes
    rw [halves] at delivered
    rw [if_pos passes, delivered]
  · have hidden := refines.filters.hides _ _ text module passes
    rw [halves] at hidden
    rw [if_neg passes, hidden]

/-- A call that is no message has no output. -/
theorem logCall_quiet {state last : LogState} {output : LogOutput} {call : LogCall}
    (other : ∀ level fmt, call ≠ .logMessage level fmt) (runs : logCall state call = .ok (output, last)) :
    output = [] := by
  have mapped {done : Except LogFault (Unit × LogState)}
      (result : done.map (fun done => (([] : LogOutput), done.2)) = .ok (output, last)) : output = [] := by
    cases done with
    | error fault => cases result
    | ok done => exact (Prod.mk.inj (Except.ok.inj result)).1.symm
  cases call with
  | initLogMessage => exact (Prod.mk.inj (Except.ok.inj runs)).1.symm
  | logMessage level fmt => exact absurd rfl (other level fmt)
  | _ => exact mapped runs

section Step

variable {sinks : LogSinks} {settings : SinkSettings} (refines : SinkRefines sinks settings) (calls : LogCalls)
include refines

theorem SinkRefines.add (records : List LogRecord) : SinkRefines (sinks.add records) settings :=
  ⟨refines.filter, refines.errors, refines.warnings, refines.console, refines.file, refines.path⟩

theorem SinkRefines.logMessageTo (msgstr : List Byte) :
    logMessageTo msgstr calls sinks = sinks.add [.logged (cString msgstr) settings.console
      (if settings.file then settings.path else none) calls] := by
  rw [Psuart.logMessageTo, log_add, refines.console, refines.file, refines.path]
  simp only [decide_eq_true_eq]

/-- A report has both bits of the flag. -/
theorem SinkRefines.logErrorTo (msgstr : List Byte) :
    logErrorTo msgstr calls sinks = sinks.add [.logged (cString msgstr) true settings.path calls] := by
  have console : (0x11 : CInt) &&& debugConsole = debugConsole := by decide
  have file : (0x11 : CInt) &&& debugFile = debugFile := by decide
  rw [Psuart.logErrorTo, log_add, refines.path, if_pos file, decide_eq_true console]

theorem SinkRefines.message {level : CInt} (inRange : (level >>> 16).toNat < 32) (text : List Byte) :
    sinkCall (.logMessage level (some text)) calls sinks = .ok (sinks.add (settings.message level text calls)) := by
  rw [sinkCall, logCall, refines.filter.logMessage_some inRange, SinkSettings.message]
  dsimp only
  by_cases passes : settings.filter.Passes ((level >>> 16).setWidth 16) (level.setWidth 16)
  · rw [if_pos passes, if_pos passes, List.foldl_cons, List.foldl_nil, refines.logMessageTo, loggedText]
  · rw [if_neg passes, if_neg passes, LogSinks.add_nil, List.foldl_nil]

/-- The other calls on the filter change only its own variables. -/
theorem SinkRefines.filterCall {call : LogCall} (inRange : call.InRange)
    (other : ∀ level fmt, call ≠ .logMessage level fmt) :
    ∃ state, sinkCall call calls sinks = .ok { sinks with state := state } ∧
      LogRefines state (settings.filter.after call) := by
  obtain ⟨output, last, runs, kept⟩ := refines.filter.step inRange
  obtain rfl := logCall_quiet other runs
  refine ⟨last, ?_, kept⟩
  rw [sinkCall, runs]
  rfl

end Step

/-- The text of a report that fits is cut off at the end of its array. -/
theorem reportText_fits {kind : List Byte} {place : ReportPlace} (fits : place.Fits kind) (text : List Byte) :
    ∃ pszDest, reportText kind place text = .ok pszDest ∧ cString pszDest = placedText kind place text := by
  rw [ReportPlace.Fits] at fits
  rw [reportText, placedText, loggedText]
  generalize messageHeader kind place.file place.line place.tag = header at fits
  refine ⟨header ++ text.take (2047 - header.length), if_neg (Nat.not_le.mpr fits), ?_⟩
  rw [List.take_append, List.take_of_length_le (Nat.le_of_lt_succ fits)]

section Step

variable {sinks : LogSinks} {settings : SinkSettings} (refines : SinkRefines sinks settings) (calls : LogCalls)
include refines

theorem SinkRefines.logErrorMessage {place : ReportPlace} (fits : place.Fits (stringBytes "ERROR")) (text : List Byte) :
    logErrorMessage place text calls sinks =
      .ok (sinks.add (settings.report (stringBytes "ERROR") place text calls)) := by
  obtain ⟨pszDest, report, same⟩ := reportText_fits fits text
  rw [Psuart.logErrorMessage, report, SinkSettings.report, ← same, ← refines.logErrorTo]
  exact congrArg Except.ok (if_pos refines.errors)

theorem SinkRefines.logWarningMessage {place : ReportPlace} (fits : place.Fits (stringBytes "WARNING"))
    (text : List Byte) : logWarningMessage place text calls sinks =
      .ok (sinks.add (settings.report (stringBytes "WARNING") place text calls)) := by
  obtain ⟨pszDest, report, same⟩ := reportText_fits fits text
  rw [Psuart.logWarningMessage, report, SinkSettings.report, ← same, ← refines.logErrorTo]
  exact congrArg Except.ok (if_pos refines.warnings)

end Step

/-- The settings behind one event. -/
def SinkSettings.after (settings : SinkSettings) (event : LogEvent) : SinkSettings where
  filter := (Psuart.filterCall event).elim settings.filter settings.filter.after
  console := (consoleSetting event).getD settings.console
  file := (fileSetting event).getD settings.file
  path := (pathSetting event).getD settings.path

theorem latestSinks_snoc (front : List LogEvent) (event : LogEvent) :
    latestSinks (front ++ [event]) = (latestSinks front).after event := by
  have filter : latestSettings levelSetting firstSettings ((front ++ [event]).filterMap Psuart.filterCall) =
      (Psuart.filterCall event).elim (latestSinks front).filter (latestSinks front).filter.after := by
    rw [List.filterMap_append]
    cases made : Psuart.filterCall event with
    | none =>
        rw [List.filterMap_cons_none made, List.filterMap_nil, List.append_nil]
        rfl
    | some call =>
        rw [List.filterMap_cons_some made, List.filterMap_nil]
        simp only [latestSettings, Settings.latest_snoc]
        rfl
  simp only [latestSinks, SinkSettings.after, Settings.latest_snoc, filter]

/-- The two bits of the flag are independent. -/
theorem setDebugFile_bits (v flag : CInt) :
    let next := if v = 0 then flag &&& ~~~debugFile else flag ||| debugFile
    next &&& debugConsole = flag &&& debugConsole ∧ decide (next &&& debugFile = debugFile) = decide (v ≠ 0) := by
  have apart : debugFile &&& debugConsole = 0#32 := by decide
  have kept : ~~~debugFile &&& debugConsole = debugConsole := by decide
  have cleared : ~~~debugFile &&& debugFile = 0#32 := by decide
  have absorbs (word : CInt) : (word ||| debugFile) &&& debugFile = debugFile := by
    ext index inside
    rw [BitVec.getElem_and, BitVec.getElem_or]
    cases word[index] <;> cases debugFile[index] <;> rfl
  intro next
  by_cases zero : v = 0
  · have value : next = flag &&& ~~~debugFile := if_pos zero
    have set : decide (v ≠ 0) = false := decide_eq_false (not_not.mpr zero)
    rw [value, BitVec.and_assoc, BitVec.and_assoc, kept, cleared, BitVec.and_zero, set]
    exact ⟨rfl, by decide⟩
  · have value : next = flag ||| debugFile := if_neg zero
    rw [value, BitVec.and_or_distrib_right, apart, BitVec.or_zero, absorbs, decide_eq_true zero]
    exact ⟨rfl, decide_eq_true rfl⟩

/-- What an event does to the log. -/
structure LogReaches (sinks : LogSinks) (settings : SinkSettings) (step : LogEvent × LogCalls) (next : LogSinks) :
    Prop where
  runs : logEvent sinks step = .ok next
  refines : SinkRefines next (settings.after step.1)
  console : next.console = (sinks.add (settings.records step)).console
  files : next.files = (sinks.add (settings.records step)).files

/-- An event without a record changes neither the console nor the files. -/
theorem LogReaches.quiet {sinks next : LogSinks} {settings : SinkSettings} {step : LogEvent × LogCalls}
    (runs : logEvent sinks step = .ok next) (refines : SinkRefines next (settings.after step.1))
    (none : settings.records step = []) (console : next.console = sinks.console) (files : next.files = sinks.files) :
    LogReaches sinks settings step next := by
  refine ⟨runs, refines, ?_, ?_⟩
  · rw [none, LogSinks.add_nil, console]
  · rw [none, LogSinks.add_nil, files]

section Event

variable {sinks : LogSinks} {settings : SinkSettings} (refines : SinkRefines sinks settings) (calls : LogCalls)
include refines

theorem SinkRefines.call {call : LogCall} (inRange : call.InRange) :
    ∃ next, LogReaches sinks settings (.call call, calls) next := by
  by_cases message : ∃ level fmt, call = .logMessage level fmt
  · obtain ⟨level, fmt, rfl⟩ := message
    cases fmt with
    | none => exact ⟨sinks, .quiet rfl refines rfl rfl rfl⟩
    | some text => exact ⟨_, refines.message calls inRange text, refines.add _, rfl, rfl⟩
  · have other : ∀ level fmt, call ≠ .logMessage level fmt := fun level fmt same => message ⟨level, fmt, same⟩
    obtain ⟨state, runs, kept⟩ := refines.filterCall calls inRange other
    have none : settings.records (.call call, calls) = [] := by
      cases call with
      | logMessage level fmt => exact absurd rfl (other level fmt)
      | _ => rfl
    have after : SinkRefines { sinks with state := state } (settings.after (.call call)) :=
      ⟨kept, refines.errors, refines.warnings, refines.console, refines.file, refines.path⟩
    exact ⟨_, .quiet runs after none rfl rfl⟩

/-- A load reports a lost file under the settings before it, and takes its own settings behind that. -/
theorem SinkRefines.load {place : ReportPlace} {fn : List Byte} {loaded : LoadedConfig} {found : Bool}
    (fits : found = false → place.Fits (stringBytes "ERROR")) :
    ∃ next, LogReaches sinks settings (.load place fn loaded found, calls) next := by
  let lost : List LogRecord := if found then [] else settings.report (stringBytes "ERROR") place
    (stringBytes "Can't load '" ++ cString fn ++ stringBytes "', using defaults") calls
  let start := setCallbacks true true true sinks
  have installed : SinkRefines start settings :=
    ⟨⟨refines.filter.free, rfl, refines.filter.least, refines.filter.most, refines.filter.modules⟩, rfl, rfl,
      refines.console, refines.file, refines.path⟩
  have reported : (if found then .ok start else Psuart.logErrorMessage place
      (stringBytes "Can't load '" ++ cString fn ++ stringBytes "', using defaults") calls start) =
        Except.ok (start.add lost) := by
    cases found with
    | true => exact congrArg Except.ok start.add_nil.symm
    | false => exact installed.logErrorMessage calls (fits rfl) _
  let behind : SinkSettings := { settings with
    console := decide (loaded.flag &&& debugConsole = debugConsole)
    file := decide (loaded.flag &&& debugFile = debugFile)
    path := loaded.options .logFile }
  let middle : LogSinks := { (start.add lost).printf (dumpConfig loaded.options) with
    logFile := loaded.options .logFile, flag := loaded.flag }
  have taken : SinkRefines middle behind := ⟨installed.filter, installed.errors, installed.warnings, rfl, rfl, rfl⟩
  have inRange : (LogCall.setLogLevel loaded.minLevel loaded.maxLevel).InRange := trivial
  obtain ⟨state, runs, kept⟩ := taken.filterCall calls inRange (fun _ _ same => by cases same)
  have records : settings.records (.load place fn loaded found, calls) =
      lost ++ [.printed (dumpConfig loaded.options)] := rfl
  refine ⟨{ middle with state := state }, ?_, ⟨kept, taken.errors, taken.warnings, rfl, rfl, rfl⟩, ?_, ?_⟩
  · change loadLog place fn loaded found calls sinks = _
    simp only [loadLog]
    rw [reported]
    exact runs
  · rw [records, LogSinks.add_append, ← LogSinks.printf_add]
    rfl
  · rw [records, LogSinks.add_append, ← LogSinks.printf_add]
    rfl

theorem SinkRefines.event {event : LogEvent} (inRange : event.InRange) :
    ∃ next, LogReaches sinks settings (event, calls) next := by
  cases event with
  | call made => exact refines.call calls inRange
  | error place text => exact ⟨_, refines.logErrorMessage calls inRange text, refines.add _, rfl, rfl⟩
  | warning place text => exact ⟨_, refines.logWarningMessage calls inRange text, refines.add _, rfl, rfl⟩
  | setDebugFile v =>
      obtain ⟨console, file⟩ := setDebugFile_bits v sinks.flag
      have bit := refines.console.trans (congrArg (fun word => decide (word = debugConsole)) console.symm)
      have after : SinkRefines (setDebugFile v sinks) (settings.after (.setDebugFile v)) :=
        ⟨refines.filter, refines.errors, refines.warnings, bit, file.symm, refines.path⟩
      exact ⟨_, .quiet rfl after rfl rfl rfl⟩
  | setLogFile fn =>
      have after : SinkRefines { sinks with logFile := fn } (settings.after (.setLogFile fn)) :=
        ⟨refines.filter, refines.errors, refines.warnings, refines.console, refines.file, rfl⟩
      exact ⟨_, .quiet rfl after rfl rfl rfl⟩
  | printf text =>
      refine ⟨_, rfl, ?_, ?_, ?_⟩
      all_goals rw [sinks.printf_add]
      · exact refines.add _
      · rfl
      · rfl
  | load place fn loaded found => exact refines.load calls inRange

end Event

theorem sinksStart_refines : SinkRefines sinksStart (latestSinks []) :=
  ⟨logStatic_refines, rfl, rfl, by decide, by decide, rfl⟩

theorem logEvents_snoc (sinks : LogSinks) (front : List (LogEvent × LogCalls)) (step : LogEvent × LogCalls) :
    logEvents sinks (front ++ [step]) = (logEvents sinks front).bind fun sinks => logEvent sinks step := by
  rw [logEvents, List.foldlM_append, ← logEvents]
  cases logEvents sinks front with
  | error fault => rfl
  | ok middle =>
      change [step].foldlM logEvent middle = logEvent middle step
      rw [List.foldlM_cons]
      cases logEvent middle step <;> rfl

theorem sinkRecords_snoc (front : List (LogEvent × LogCalls)) (step : LogEvent × LogCalls) :
    sinkRecords (front ++ [step]) = sinkRecords front ++ (latestSinks (front.map Prod.fst)).records step :=
  Settings.transcript_snoc _ [] front step

/-- A step adds its own records to the transcript. -/
theorem Transcribed.snoc {sinks next : LogSinks} {front : List (LogEvent × LogCalls)} {step : LogEvent × LogCalls}
    (before : Transcribed sinks front) (reaches : LogReaches sinks (latestSinks (front.map Prod.fst)) step next) :
    Transcribed next (front ++ [step]) := by
  refine ⟨?_, fun path => ?_⟩
  · rw [reaches.console, LogSinks.add, sinkRecords_snoc, List.flatMap_append, before.console]
  · rw [reaches.files, sinkRecords_snoc, List.flatMap_append, ← before.files]
    rfl

/-- The variables follow the latest settings through a run. -/
theorem logEvents_reaches (steps : List (LogEvent × LogCalls)) (inRange : ∀ step ∈ steps, step.1.InRange) :
    ∃ sinks, logEvents sinksStart steps = .ok sinks ∧ SinkRefines sinks (latestSinks (steps.map Prod.fst)) ∧
      Transcribed sinks steps := by
  induction steps using List.reverseRecOn with
  | nil => exact ⟨sinksStart, rfl, sinksStart_refines, rfl, fun _ => rfl⟩
  | append_singleton front step ih =>
      rw [List.forall_mem_append, List.forall_mem_singleton] at inRange
      obtain ⟨middle, runs, refines, transcribed⟩ := ih inRange.1
      obtain ⟨next, reaches⟩ := refines.event step.2 inRange.2
      refine ⟨next, ?_, ?_, transcribed.snoc reaches⟩
      · rw [logEvents_snoc, runs]
        exact reaches.runs
      · rw [List.map_append, List.map_singleton, latestSinks_snoc]
        exact reaches.refines

/-- The console and the log file hold exactly the printed texts, the messages that pass the latest settings, and
every report. -/
theorem logEvents_transcribed (steps : List (LogEvent × LogCalls)) (inRange : ∀ step ∈ steps, step.1.InRange) :
    ∃ sinks, logEvents sinksStart steps = .ok sinks ∧ Transcribed sinks steps := by
  obtain ⟨sinks, runs, _, transcribed⟩ := logEvents_reaches steps inRange
  exact ⟨sinks, runs, transcribed⟩

/-- A start without a file, a message above the levels, and a warning behind both. -/
def firstSteps : List (LogEvent × LogCalls) :=
  let calls : LogCalls := ⟨⟨125, 0, 9, 8, 5, 3⟩, true⟩
  let place : ReportPlace := ⟨stringBytes "psuservice.c", 145, stringBytes "PSUSERVICE"⟩
  let loaded : LoadedConfig := ⟨psusConfigDefault, 0x10, 0, 10, -1, ⟨2, 0, 0⟩, 5000⟩
  [(.load place (stringBytes "/etc/psu/psuserver.conf") loaded false, calls),
    (.call (.logMessage 11 (some (stringBytes "hidden"))), calls), (.warning place (stringBytes "end."), calls)]

theorem logEvents_transcribed_first :
    (∃ sinks, logEvents sinksStart firstSteps = .ok sinks ∧ Transcribed sinks firstSteps) ∧
      (sinkRecords firstSteps).flatMap (LogRecord.fileText (stringBytes "/tmp/log/psuart.log")) =
        stringBytes "2025-01-09 08:05:03\tLine 145 in psuservice.c\n\tWARNING:[PSUSERVICE]end.\n" := by
  constructor
  · apply logEvents_transcribed
    simp only [firstSteps, List.forall_mem_cons]
    exact ⟨fun _ => by unfold ReportPlace.Fits; decide, by unfold LogEvent.InRange LogCall.InRange; decide,
      by unfold LogEvent.InRange ReportPlace.Fits; decide, List.forall_mem_nil _⟩
  · decide +kernel

end Psuart

import Psuart.Model.LogSink
import Psuart.Spec.LogMessage

namespace Psuart

/-- What is added to the console and to a file. -/
inductive LogRecord where
  | printed (text : List Byte)
  | logged (text : List Byte) (console : Bool) (file : Option (List Byte)) (calls : LogCalls)

namespace LogRecord

def consoleText : LogRecord → List Byte
  | printed text => text
  | logged text console _ _ => if console then text ++ [charByte '\n'] else []

def fileText (path : List Byte) : LogRecord → List Byte
  | printed _ => []
  | logged text _ file calls =>
      if file = some path ∧ calls.fopen then calls.tblock.stamp ++ text ++ [charByte '\n'] else []

end LogRecord

/-- The settings of the filter and of both sinks. -/
structure SinkSettings where
  filter : LogSettings
  console : Bool
  file : Bool
  path : Option (List Byte)

/-- The call on the filter that an event makes. -/
def filterCall : LogEvent → Option LogCall
  | .call call => some call
  | .load _ _ loaded _ => some (.setLogLevel loaded.minLevel loaded.maxLevel)
  | _ => none

def consoleSetting : LogEvent → Option Bool
  | .load _ _ loaded _ => some (decide (loaded.flag &&& debugConsole = debugConsole))
  | _ => none

def fileSetting : LogEvent → Option Bool
  | .load _ _ loaded _ => some (decide (loaded.flag &&& debugFile = debugFile))
  | .setDebugFile v => some (decide (v ≠ 0))
  | _ => none

def pathSetting : LogEvent → Option (Option (List Byte))
  | .load _ _ loaded _ => some (loaded.options .logFile)
  | .setLogFile fn => some fn
  | _ => none

/-- The latest settings, from closed sinks without a file. -/
def latestSinks (events : List LogEvent) : SinkSettings where
  filter := latestSettings levelSetting firstSettings (events.filterMap filterCall)
  console := Settings.latest consoleSetting false events
  file := Settings.latest fileSetting false events
  path := Settings.latest pathSetting none events

/-- At most 2047 characters of a text are logged. -/
def loggedText (text : List Byte) : List Byte := cString (text.take 2047)

def placedText (kind : List Byte) (place : ReportPlace) (text : List Byte) : List Byte :=
  loggedText (messageHeader kind place.file place.line place.tag ++ text)

instance (settings : LogSettings) (m l : BitVec 16) : Decidable (settings.Passes m l) :=
  inferInstanceAs (Decidable (settings.enabled m = true ∧
    (l.setWidth 32 ∈ [lmSystem, lmError, lmWarning] ∨
      min settings.levels.1.toNat settings.levels.2.toNat ≤ l.toNat ∧
        l.toNat ≤ max settings.levels.1.toNat settings.levels.2.toNat)))

namespace SinkSettings

variable (settings : SinkSettings)

/-- A message reaches the sinks that are set when it passes the filter. -/
def message (level : CInt) (text : List Byte) (calls : LogCalls) : List LogRecord :=
  if settings.filter.Passes ((level >>> 16).setWidth 16) (level.setWidth 16) then
    [.logged (loggedText text) settings.console (if settings.file then settings.path else none) calls]
  else []

/-- A report reaches the console and the file with any settings. -/
def report (kind : List Byte) (place : ReportPlace) (text : List Byte) (calls : LogCalls) : List LogRecord :=
  [.logged (placedText kind place text) true settings.path calls]

def records (step : LogEvent × LogCalls) : List LogRecord :=
  match step.1 with
  | .call (.logMessage level (some text)) => settings.message level text step.2
  | .error place text => settings.report (stringBytes "ERROR") place text step.2
  | .warning place text => settings.report (stringBytes "WARNING") place text step.2
  | .printf text => [.printed text]
  | .load place fn loaded found =>
      (if found then [] else settings.report (stringBytes "ERROR") place
        (stringBytes "Can't load '" ++ cString fn ++ stringBytes "', using defaults") step.2) ++
      [.printed (dumpConfig loaded.options)]
  | _ => []

end SinkSettings

/-- Each event adds its records under the latest settings before it. -/
def sinkRecords (steps : List (LogEvent × LogCalls)) : List LogRecord :=
  Settings.transcript (fun before step => (latestSinks (before.map Prod.fst)).records step) [] steps

/-- The header of a report leaves room for the terminator. -/
def ReportPlace.Fits (place : ReportPlace) (kind : List Byte) : Prop :=
  (messageHeader kind place.file place.line place.tag).length < 2048

/-- The modules of the event are below 32, and its header fits. -/
def LogEvent.InRange : LogEvent → Prop
  | .call made => made.InRange
  | .error place _ => place.Fits (stringBytes "ERROR")
  | .warning place _ => place.Fits (stringBytes "WARNING")
  | .load place _ _ found => found = false → place.Fits (stringBytes "ERROR")
  | _ => True

/-- The callbacks of the service are installed. -/
def sinksStart : LogSinks := setCallbacks true true true sinksStatic

/-- The console and the files are exactly the records of the events. -/
structure Transcribed (sinks : LogSinks) (steps : List (LogEvent × LogCalls)) : Prop where
  console : sinks.console = (sinkRecords steps).flatMap LogRecord.consoleText
  files : ∀ path, sinks.files path = (sinkRecords steps).flatMap (LogRecord.fileText path)

end Psuart

import Psuart.Model.Config
import Psuart.Model.Hex
import Psuart.Model.LogMessage

namespace Psuart

def debugConsole : CInt := 0x10

def debugFile : CInt := 0x01

/-- The fields of `struct tm` that a record of the file has. -/
structure LogTime where
  tmYear : CInt
  tmMon : CInt
  tmMday : CInt
  tmHour : CInt
  tmMin : CInt
  tmSec : CInt

/-- The result of `localtime`, and whether `fopen` succeeds. -/
structure LogCalls where
  tblock : LogTime
  fopen : Bool

/-- The conversion `%d` with a precision. -/
def printInt (precision : Option Nat) (value : CInt) : List Byte :=
  let d : Printf.Directive := { precision := precision }
  d.pad (d.sign value.toInt) (d.digits 10 false value.toInt.natAbs)

/-- The format of the time is `%.4d-%.2d-%.2d %.2d:%.2d:%.2d` and a tab. -/
def LogTime.stamp (tblock : LogTime) : List Byte :=
  printInt (some 4) (tblock.tmYear + 1900) ++ [charByte '-'] ++ printInt (some 2) (tblock.tmMon + 1) ++
    [charByte '-'] ++ printInt (some 2) tblock.tmMday ++ [charByte ' '] ++ printInt (some 2) tblock.tmHour ++
    [charByte ':'] ++ printInt (some 2) tblock.tmMin ++ [charByte ':'] ++ printInt (some 2) tblock.tmSec ++
    [charByte '\t']

/-- The variables of the log and of its callbacks, the console and the files. -/
structure LogSinks where
  state : LogState
  onReportError : Bool
  onReportWarning : Bool
  flag : CInt
  logFile : Option (List Byte)
  console : List Byte
  files : List Byte → List Byte

/-- A header that does not fit into `pszDest` is written beyond its end. -/
inductive SinkFault where
  | log (fault : LogFault)
  | header
  deriving DecidableEq

def LogSinks.printf (sinks : LogSinks) (text : List Byte) : LogSinks :=
  { sinks with console := sinks.console ++ text }

/-- The mode `a+` appends the record, and a file that cannot be opened gets none. -/
def LogSinks.append (sinks : LogSinks) (fn : List Byte) (calls : LogCalls) (text : List Byte) : LogSinks :=
  let record := calls.tblock.stamp ++ text ++ [charByte '\n']
  if calls.fopen then { sinks with files := Function.update sinks.files fn (sinks.files fn ++ record) } else sinks

/-- The function `_log`. -/
def log (fn : Option (List Byte)) (flag : CInt) (pszDest : List Byte) (calls : LogCalls) (sinks : LogSinks) :
    LogSinks :=
  let sinks := if flag &&& debugConsole = debugConsole then sinks.printf (cString pszDest ++ [charByte '\n']) else sinks
  match fn with
  | some fn => if flag &&& debugFile = debugFile then sinks.append fn calls (cString pszDest) else sinks
  | none => sinks

/-- The callbacks `_log_message`, `_log_error` and `_log_warning`. -/
def logMessageTo (msgstr : List Byte) (calls : LogCalls) (sinks : LogSinks) : LogSinks :=
  log sinks.logFile sinks.flag msgstr calls sinks

def logErrorTo (msgstr : List Byte) (calls : LogCalls) (sinks : LogSinks) : LogSinks :=
  log sinks.logFile 0x11 msgstr calls sinks

def logWarningTo (msgstr : List Byte) (calls : LogCalls) (sinks : LogSinks) : LogSinks :=
  log sinks.logFile 0x11 msgstr calls sinks

/-- The calls on the filter, and every message that it passes. -/
def sinkCall (call : LogCall) (calls : LogCalls) (sinks : LogSinks) : Except SinkFault LogSinks :=
  match logCall sinks.state call with
  | .error fault => .error (.log fault)
  | .ok (output, state) =>
      .ok (output.foldl (fun sinks message => logMessageTo message.2 calls sinks) { sinks with state := state })

/-- The format of the header is `Line %d in %s`, a new line, a tab, the kind and `:[%s]`. -/
def messageHeader (kind file : List Byte) (line : CInt) (tag : List Byte) : List Byte :=
  stringBytes "Line " ++ printInt none line ++ stringBytes " in " ++ cString file ++ stringBytes "\n\t" ++ kind ++
    stringBytes ":[" ++ cString tag ++ stringBytes "]"

/-- The place and the tag of a report. -/
structure ReportPlace where
  file : List Byte
  line : CInt
  tag : List Byte

/-- The array `pszDest` has 2048 bytes for the header, the expanded format and the terminator. -/
def reportText (kind : List Byte) (place : ReportPlace) (text : List Byte) : Except SinkFault (List Byte) :=
  let header := messageHeader kind place.file place.line place.tag
  if 2048 ≤ header.length then .error .header else .ok (header ++ text.take (2047 - header.length))

def logErrorMessage (place : ReportPlace) (text : List Byte) (calls : LogCalls) (sinks : LogSinks) :
    Except SinkFault LogSinks :=
  (reportText (stringBytes "ERROR") place text).map fun pszDest =>
    if sinks.onReportError then logErrorTo pszDest calls sinks else sinks

def logWarningMessage (place : ReportPlace) (text : List Byte) (calls : LogCalls) (sinks : LogSinks) :
    Except SinkFault LogSinks :=
  (reportText (stringBytes "WARNING") place text).map fun pszDest =>
    if sinks.onReportWarning then logWarningTo pszDest calls sinks else sinks

/-- The function `SetLogCallback` sets all callbacks. -/
def setCallbacks (lmt rwmt remt : Bool) (sinks : LogSinks) : LogSinks :=
  { sinks with state := setLogCallback sinks.state lmt, onReportWarning := rwmt, onReportError := remt }

/-- The function `_set_debug_file`. -/
def setDebugFile (v : CInt) (sinks : LogSinks) : LogSinks :=
  { sinks with flag := if v = 0 then sinks.flag &&& ~~~debugFile else sinks.flag ||| debugFile }

/-- An option that is NULL is printed as an empty string. -/
def dumpConfig (cfg : CfgValues) : List Byte :=
  CfgOption.all.flatMap fun option =>
    option.sec ++ [charByte '_'] ++ option.name ++ stringBytes " = " ++ cString ((cfg option).getD []) ++
      [charByte '\n']

/-- A line has at most 16 bytes of the buffer, and its text has 40 bytes. -/
def dumpBufferLoop (pstr : Memory) : Nat → CInt → Int → List HexCall
  | 0, _, _ => []
  | left + 1, size, p =>
      if (0 : CInt).slt size then
        hexEncode (fun place => pstr (p + place)) (if (16 : CInt).slt size then 16 else size) 40 ::
          dumpBufferLoop pstr left (size - 16) (p + 16)
      else []

def dumpLine (line : HexCall) : List Byte := charByte '\t' :: cString line.written ++ stringBytes " \n"

/-- The size falls in each round, so it bounds their number. -/
def dumpBuffer (pstr : Memory) (size : CInt) : List Byte :=
  (dumpBufferLoop pstr size.toInt.toNat size 0).flatMap dumpLine

/-- What `LoadPsuConfig` does to the log with what it has loaded. A file that cannot be read is reported before the
defaults are taken. -/
def loadLog (place : ReportPlace) (fn : List Byte) (loaded : LoadedConfig) (found : Bool) (calls : LogCalls)
    (sinks : LogSinks) : Except SinkFault LogSinks :=
  let sinks := setCallbacks true true true sinks
  let reported : Except SinkFault LogSinks :=
    if found then .ok sinks
    else logErrorMessage place (stringBytes "Can't load '" ++ cString fn ++ stringBytes "', using defaults") calls sinks
  reported.bind fun sinks => sinkCall (.setLogLevel loaded.minLevel loaded.maxLevel) calls
    { sinks.printf (dumpConfig loaded.options) with logFile := loaded.options .logFile, flag := loaded.flag }

/-- What reaches the log or its console. -/
inductive LogEvent where
  | call (call : LogCall)
  | error (place : ReportPlace) (text : List Byte)
  | warning (place : ReportPlace) (text : List Byte)
  | setDebugFile (v : CInt)
  | setLogFile (fn : Option (List Byte))
  | printf (text : List Byte)
  | load (place : ReportPlace) (fn : List Byte) (loaded : LoadedConfig) (found : Bool)

def logEvent (sinks : LogSinks) (step : LogEvent × LogCalls) : Except SinkFault LogSinks :=
  match step.1 with
  | .call call => sinkCall call step.2 sinks
  | .error place text => logErrorMessage place text step.2 sinks
  | .warning place text => logWarningMessage place text step.2 sinks
  | .setDebugFile v => .ok (Psuart.setDebugFile v sinks)
  | .setLogFile fn => .ok { sinks with logFile := fn }
  | .printf text => .ok (sinks.printf text)
  | .load place fn loaded found => loadLog place fn loaded found step.2 sinks

def logEvents (sinks : LogSinks) (steps : List (LogEvent × LogCalls)) : Except SinkFault LogSinks :=
  steps.foldlM logEvent sinks

/-- The static variables before the first call, with empty files. -/
def sinksStatic : LogSinks := ⟨logStatic, false, false, 0, none, [], fun _ => []⟩

end Psuart

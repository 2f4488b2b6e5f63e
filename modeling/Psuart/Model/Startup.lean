import Psuart.Model.Arguments
import Psuart.Model.Config
import Psuart.Model.Process
import Psuart.Model.Strings
import Psuart.Model.Text

namespace Psuart

/-- The array that the start writes beyond, or the NULL string that it uses. -/
inductive StartFault where
  | argument (fault : ArgumentFault)
  | load (fault : LoadFault)
  | logNull
  | logFile
  | directory
  deriving DecidableEq

/-- A call of `GetCmdParamValue` with an array of a known size. -/
def cmdParamSized (size : Nat) (param : List Byte) (argv : List (List Byte)) : Except StartFault (Bool × List Byte) :=
  (cmdParamLoop (some size) param [] argv.tail).mapError .argument

def configFileDefault : List Byte := stringBytes "/etc/psu/psuserver.conf"

/-- The array `fn` of `main` has 260 bytes. -/
def mainConfigFile (argv : List (List Byte)) : Except StartFault (List Byte) :=
  (cmdParamSized 260 (stringBytes "config") argv).map fun result =>
    if result.1 then result.2 else configFileDefault

/-- The option `log` is copied over the string of the configuration, which `strdup` has allocated for its own length. -/
def mainLogFile (logFile : Option (List Byte)) (log : Bool × List Byte) : Except StartFault (List Byte) :=
  match logFile with
  | none => .error .logNull
  | some text =>
      if ¬log.1 then .ok (cString text)
      else if (cString text).length < log.2.length then .error .logFile
      else .ok log.2

/-- What `main` has before its fork. -/
structure MainStart where
  loaded : LoadedConfig
  found : Bool
  file : Option (List Byte)
  logFile : List Byte
  directory : List Byte

/-- The array `tmp` of `main` has 128 bytes for the option `log` and then for the directory of the log file. -/
def mainStart (calls : FileCalls) (saves : CfgOption → FileCalls) (files : List Byte → Option (List Byte))
    (argv : List (List Byte)) : Except StartFault MainStart := do
  let fn ← mainConfigFile argv
  let (loaded, found, file) ← (loadPsuConfig calls saves (files fn)).mapError .load
  let log ← cmdParamSized 128 (stringBytes "log") argv
  let logFile ← mainLogFile (loaded.options .logFile) log
  let directory ← (logDirectory logFile).elim (.error .directory) .ok
  .ok ⟨loaded, found, file, logFile, directory⟩

/-- The results of `fork`. -/
inductive ForkResult where
  | failed
  | child
  | parent
  deriving DecidableEq

/-- A process exits with a code before the service, or it serves. -/
inductive MainEnd where
  | exit (code : Int)
  | serve (w : ServiceWorld) (ended : Bool)

/-- The switch `d` makes the child serve, and every other start serves itself. -/
def mainServe (argv : List (List Byte)) (fork : ForkResult) (outcomes : List Outcomes) (start : MainStart) : MainEnd :=
  let served := mainLoop ⟨serviceStart start.loaded.netAddr start.loaded.udpport, []⟩ outcomes
  if checkCmdLine argv (stringBytes "d") then
    match fork with
    | .failed => .exit (-1)
    | .child => .serve served.1 served.2
    | .parent => .exit 0
  else .serve served.1 served.2

end Psuart

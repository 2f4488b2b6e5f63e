import Psuart.Library.Scan
import Psuart.Model.Startup
import Psuart.Spec.Arguments

namespace Psuart

/-- The arguments that the search for a switch visits, each with the arguments behind it. -/
def visitedArgs (param : List Byte) (argv : List (List Byte)) : List (List Byte × List (List Byte)) :=
  Scan.visited (fun arg => decide (ParsesAs param arg)) argv.tail

/-- The value of the first argument that is read as the switch. -/
def chosenValue (param : List Byte) (argv : List (List Byte)) : Option (List Byte) :=
  ((visitedArgs param argv).find? fun visit => ParsesAs param visit.1).map fun visit => switchValue visit.1 visit.2

/-- Every argument up to the switch has a short name and a value for the array of the caller. -/
def VisitsFit (size : Nat) (param : List Byte) (argv : List (List Byte)) : Prop :=
  ∀ front arg rest, argv.tail = front ++ arg :: rest → (∀ other ∈ front, ¬ParsesAs param other) →
    (switchName arg).length < switchSize ∧ (switchValue arg rest).length < size

/-- The option `config` selects the file. -/
def chosenConfigFile (argv : List (List Byte)) : List Byte :=
  (chosenValue (stringBytes "config") argv).getD configFileDefault

/-- The start writes only inside its arrays and strings. -/
structure StartsInside (calls : FileCalls) (saves : CfgOption → FileCalls) (files : List Byte → Option (List Byte))
    (argv : List (List Byte)) (start : MainStart) : Prop where
  config : VisitsFit 260 (stringBytes "config") argv
  loads : loadPsuConfig calls saves (files (chosenConfigFile argv)) = .ok (start.loaded, start.found, start.file)
  log : VisitsFit 128 (stringBytes "log") argv
  replaces : ∃ text, start.loaded.options .logFile = some text ∧
    start.logFile = (chosenValue (stringBytes "log") argv).getD (cString text) ∧
      start.logFile.length ≤ (cString text).length
  directory : start.directory = extractFilePath start.logFile ∧ start.directory.length < 128

end Psuart

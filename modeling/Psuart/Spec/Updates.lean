import Psuart.Library.Settings
import Psuart.Model.Config
import Psuart.Spec.IniFile

namespace Psuart

/-- A value that a line of the configuration file can hold. -/
structure CfgText (option : CfgOption) where
  bytes : List Byte
  graphic : ∀ c ∈ bytes, Graphic c
  free : charByte '%' ∉ bytes
  short : option.name.length + bytes.length + 1 < iniMaxLine

/-- One option is written behind the start of the service. -/
structure CfgWrite where
  option : CfgOption
  value : CfgText option

/-- The options that a write sets. -/
def CfgWrite.sets (option : CfgOption) (write : CfgWrite) : Option (Option (List Byte)) :=
  if write.option = option then some (some write.value.bytes) else none

/-- Every option has its latest value, or the one that it had before the writes. -/
def latestOptions (start : CfgValues) (writes : List CfgWrite) : CfgValues :=
  fun option => Settings.latest (CfgWrite.sets option) (start option) writes

end Psuart

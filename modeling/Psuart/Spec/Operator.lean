import Psuart.Model.Config
import Psuart.Spec.IniFile
import Psuart.Spec.LineSettings
import Psuart.Spec.Literal

namespace Psuart

/-- The settings that the service derives from its options. -/
structure OperatorSettings where
  flag : Int
  minLevel : BitVec 16
  maxLevel : BitVec 16
  selectTimeout : Int
  address : BitVec 32
  port : BitVec 16
  udpport : BitVec 16
  line : LineSettings
  flag_small : flag.natAbs + 48 < 2 ^ 31
  timeout_small : selectTimeout.natAbs + 48 < 2 ^ 31
  path_graphic : ∀ c ∈ line.com, Graphic c
  path_free : charByte '%' ∉ line.com
  path_short : line.com.length ≤ 150

namespace OperatorSettings

variable (settings : OperatorSettings)

/-- An operator writes numbers in decimal form and the address with its port. -/
def text : CfgOption → List Byte
  | .logFlag => intText settings.flag
  | .logMinLevel => decimal settings.minLevel.toNat
  | .logMaxLevel => decimal settings.maxLevel.toNat
  | .networkSelectTimeout => intText settings.selectTimeout
  | .networkIpaddr => ip2Str settings.address ++ charByte ':' :: decimal settings.port.toNat
  | .networkUdpport => decimal settings.udpport.toNat
  | .uartPort => settings.line.text 5
  | option => option.default

/-- The fields of the loaded configuration, with the other options as they are. The port 0 stands for 5000. -/
def loaded (options : CfgValues) : LoadedConfig where
  options := options
  flag := BitVec.ofInt 32 settings.flag
  minLevel := settings.minLevel
  maxLevel := settings.maxLevel
  selectTimeout := BitVec.ofInt 32 settings.selectTimeout
  netAddr := ⟨2, htons settings.port, settings.address⟩
  udpport := if settings.udpport = 0 then 5000 else settings.udpport

end OperatorSettings

/-- The options that the service derives its settings from. -/
def derivedOptions : List CfgOption :=
  [.logFlag, .logMinLevel, .logMaxLevel, .networkSelectTimeout, .networkIpaddr, .networkUdpport, .uartPort]

/-- The options hold the texts of the settings. -/
def OperatorSettings.Spelled (settings : OperatorSettings) (options : CfgValues) : Prop :=
  ∀ option ∈ derivedOptions, options option = some (settings.text option)

/-- What the first start derives from the defaults. -/
def defaultLoaded : LoadedConfig where
  options := psusConfigDefault
  flag := 0x10
  minLevel := 0
  maxLevel := 10
  selectTimeout := -1
  netAddr := ⟨2, htons 5000, 100#8 ++ 10#8 ++ 10#8 ++ 10#8⟩
  udpport := 5000

end Psuart

import Mathlib.Logic.Function.Basic
import Psuart.Model.Address
import Psuart.Model.Inih
import Psuart.Model.Service

namespace Psuart

/-- The entries of `psuservice.def`. -/
inductive CfgOption where
  | mainVersion
  | logFlag
  | logFile
  | logMinLevel
  | logMaxLevel
  | uartPort
  | networkIpaddr
  | networkUdpport
  | networkTimeout
  | networkRetries
  | networkSecret
  | networkSelectTimeout
  | networkType
  deriving DecidableEq

/-- The order of the entries in `psuservice.def`. -/
def CfgOption.all : List CfgOption :=
  [.mainVersion, .logFlag, .logFile, .logMinLevel, .logMaxLevel, .uartPort, .networkIpaddr,
    .networkUdpport, .networkTimeout, .networkRetries, .networkSecret, .networkSelectTimeout, .networkType]

def CfgOption.sec : CfgOption → List Byte
  | .mainVersion => stringBytes "main"
  | .logFlag | .logFile | .logMinLevel | .logMaxLevel => stringBytes "log"
  | .uartPort => stringBytes "uart"
  | .networkIpaddr | .networkUdpport | .networkTimeout | .networkRetries | .networkSecret
  | .networkSelectTimeout | .networkType => stringBytes "network"

def CfgOption.name : CfgOption → List Byte
  | .mainVersion => stringBytes "version"
  | .logFlag => stringBytes "flag"
  | .logFile => stringBytes "file"
  | .logMinLevel => stringBytes "minLevel"
  | .logMaxLevel => stringBytes "maxLevel"
  | .uartPort => stringBytes "port"
  | .networkIpaddr => stringBytes "ipaddr"
  | .networkUdpport => stringBytes "udpport"
  | .networkTimeout => stringBytes "timeout"
  | .networkRetries => stringBytes "retries"
  | .networkSecret => stringBytes "secret"
  | .networkSelectTimeout => stringBytes "selectTimeout"
  | .networkType => stringBytes "type"

def CfgOption.default : CfgOption → List Byte
  | .mainVersion => stringBytes "0.1.0.1"
  | .logFlag => stringBytes "0x10"
  | .logFile => stringBytes "/tmp/log/psuart.log"
  | .logMinLevel => stringBytes "0"
  | .logMaxLevel => stringBytes "10"
  | .uartPort => stringBytes "/dev/ttyACM0,115200,N,1,8"
  | .networkIpaddr => stringBytes "10.10.10.100:5000"
  | .networkUdpport => stringBytes "5000"
  | .networkTimeout => stringBytes "3"
  | .networkRetries => stringBytes "3"
  | .networkSecret => stringBytes "androidex"
  | .networkSelectTimeout => stringBytes "-1"
  | .networkType => stringBytes "0x24"

/-- Every option is NULL or a string. -/
abbrev CfgValues := CfgOption → Option (List Byte)

/-- The static configuration starts with NULL options. -/
def cfgEmpty : CfgValues := fun _ => none

def psusConfigDefault : CfgValues := fun option => some option.default

/-- The first option whose section and name are equal receives the value. -/
def handler (cfg : CfgValues) (sec name value : List Byte) : CfgValues × Bool :=
  match CfgOption.all.find? fun option => sec = option.sec ∧ name = option.name with
  | some option => (Function.update cfg option (some value), true)
  | none => (cfg, true)

/-- The results of the writes are ignored. -/
def saveConfig (calls : CfgOption → FileCalls) (cfg : CfgValues) (file : Option (List Byte)) :
    Except IniFault (Option (List Byte)) :=
  CfgOption.all.foldlM (fun file option =>
    (writeProfileString (calls option) option.sec option.name (cfg option) file).map Prod.snd) file

def defaultConfig (cfg defcfg : CfgValues) : CfgValues := fun option => (defcfg option).or (cfg option)

inductive LoadFault where
  | save (fault : IniFault)
  | address (fault : AddressFault)
  deriving DecidableEq

/-- The first half of `LoadPsuConfig` reads the file, or saves the defaults. -/
def loadOptions (calls : FileCalls) (saves : CfgOption → FileCalls) (file : Option (List Byte)) :
    Except IniFault (CfgValues × Bool × Option (List Byte)) :=
  let (ret, cfg) := iniParse handler calls file cfgEmpty
  if ret < 0 then
    let cfg := defaultConfig cfg psusConfigDefault
    (saveConfig saves cfg file).map fun file => (cfg, false, file)
  else .ok (cfg, true, file)

/-- The fields that `LoadPsuConfig` sets. -/
structure LoadedConfig where
  options : CfgValues
  flag : CInt
  minLevel : BitVec 16
  maxLevel : BitVec 16
  selectTimeout : CInt
  netAddr : SockaddrIn
  udpport : BitVec 16

/-- The function `StrToInt` returns 0 for NULL. -/
def optionInt (value : Option (List Byte)) : CInt := value.elim 0 strToInt

/-- The second half of `LoadPsuConfig` derives the numbers and the address. -/
def deriveSettings (cfg : CfgValues) : Except AddressFault LoadedConfig :=
  let udpport := (optionInt (cfg .networkUdpport)).setWidth 16
  match parseIPAddr (cfg .networkIpaddr) with
  | .error fault => .error fault
  | .ok (addr, port) =>
      .ok {
        options := cfg
        flag := optionInt (cfg .logFlag)
        minLevel := (optionInt (cfg .logMinLevel)).setWidth 16
        maxLevel := (optionInt (cfg .logMaxLevel)).setWidth 16
        selectTimeout := optionInt (cfg .networkSelectTimeout)
        netAddr := ⟨2, htons port, addr⟩
        udpport := if udpport = 0 then 5000 else udpport }

def loadPsuConfig (calls : FileCalls) (saves : CfgOption → FileCalls) (file : Option (List Byte)) :
    Except LoadFault (LoadedConfig × Bool × Option (List Byte)) :=
  match loadOptions calls saves file with
  | .error fault => .error (.save fault)
  | .ok (cfg, r, file) =>
      match deriveSettings cfg with
      | .error fault => .error (.address fault)
      | .ok loaded => .ok (loaded, r, file)

end Psuart

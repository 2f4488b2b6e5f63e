import Psuart.Library.Settings
import Psuart.Model.LogMessage

namespace Psuart

/-- The modules of the call are below 32. -/
def LogCall.InRange : LogCall → Prop
  | .addLogModule aModule | .removeLogModule aModule => aModule.toNat < 32
  | .logMessage level _ => (level >>> 16).toNat < 32
  | .initLogMessage | .setLogLevel _ _ | .setLogModule _ => True

/-- The call sets both levels to its arguments. -/
def levelArguments : LogCall → Option (BitVec 16 × BitVec 16)
  | .setLogLevel aMinLevel aMaxLevel => some (aMinLevel, aMaxLevel)
  | _ => none

/-- The initialisation sets the levels as well. -/
def levelSetting : LogCall → Option (BitVec 16 × BitVec 16)
  | .initLogMessage => some (0, 255)
  | call => levelArguments call

/-- The call enables or disables the module when it concerns it. -/
def moduleSetting (m : BitVec 16) : LogCall → Option Bool
  | .initLogMessage => some true
  | .setLogModule aLogModule => some (aLogModule.getLsbD m.toNat)
  | .addLogModule aModule => if aModule = m then some true else none
  | .removeLogModule aModule => if aModule = m then some false else none
  | .setLogLevel _ _ | .logMessage _ _ => none

/-- The filter without its lock and without its masks. -/
structure LogSettings where
  levels : BitVec 16 × BitVec 16
  enabled : BitVec 16 → Bool

/-- The settings behind a sequence of calls. -/
def latestSettings (levels : LogCall → Option (BitVec 16 × BitVec 16)) (start : LogSettings)
    (calls : List LogCall) : LogSettings where
  levels := Settings.latest levels start.levels calls
  enabled m := Settings.latest (moduleSetting m) (start.enabled m) calls

/-- All modules are enabled up to the level 255. -/
def firstSettings : LogSettings := ⟨(0, 255), fun _ => true⟩

/-- The level is a special one or lies between both levels. -/
def LogSettings.Shows (settings : LogSettings) (l : BitVec 16) : Prop :=
  l.setWidth 32 ∈ [lmSystem, lmError, lmWarning] ∨
    min settings.levels.1.toNat settings.levels.2.toNat ≤ l.toNat ∧
      l.toNat ≤ max settings.levels.1.toNat settings.levels.2.toNat

def LogSettings.Passes (settings : LogSettings) (m l : BitVec 16) : Prop :=
  settings.enabled m = true ∧ settings.Shows l

/-- The lock is free, and exactly the messages that pass the settings reach the callback. -/
structure FiltersMessages (settings : LogSettings) (state : LogState) : Prop where
  free : state.logSignle = 0
  delivers : ∀ m l text, m.toNat < 32 → settings.Passes m l →
    logMessage state (mLogLevel l m) (some text) = .ok ([(mLogLevel l m, text.take 2047)], state)
  hides : ∀ m l text, m.toNat < 32 → ¬settings.Passes m l →
    logMessage state (mLogLevel l m) (some text) = .ok ([], state)

/-- The calls end without a wait in a state that filters by their latest settings. -/
def FollowsSettings (levels : LogCall → Option (BitVec 16 × BitVec 16)) (calls : List LogCall) : Prop :=
  ∃ output state, logRun (setLogCallback logStatic true) calls = .ok (output, state) ∧
    FiltersMessages (latestSettings levels firstSettings calls) state

end Psuart

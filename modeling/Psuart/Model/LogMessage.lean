import Psuart.Model.Basic

namespace Psuart

def lmSystem : BitVec 32 := 0

def lmError : BitVec 32 := 0xFFFF

def lmWarning : BitVec 32 := 0xFFFE

/-- The static variables of the log. The callback is either installed or not. -/
structure LogState where
  logSignle : BitVec 32
  minLogLevel : BitVec 16
  maxLogLevel : BitVec 16
  logModule : BitVec 32
  onLogMessage : Bool
  deriving DecidableEq

/-- The values before the first call. -/
def logStatic : LogState := ⟨0, 0, 255, 0xFFFFFFFF, false⟩

/-- A wait for the lock has no end in the only thread, and a wide shift is not defined by the language. -/
inductive LogFault where
  | endlessWait
  | wideShift
  deriving DecidableEq

def initLogMessage (state : LogState) : LogState :=
  { state with logSignle := 0, minLogLevel := 0, maxLogLevel := 255, logModule := 0xFFFFFFFF }

def setLogCallback (state : LogState) (lmt : Bool) : LogState := { state with onLogMessage := lmt }

def lockLogLevel (state : LogState) (flag : Bool) : Except LogFault (Bool × LogState) :=
  if flag then
    if 0 < state.logSignle then .error .endlessWait
    else .ok (true, { state with logSignle := state.logSignle + 1 })
  else if state.logSignle = 0 then .ok (true, { state with logSignle := state.logSignle + 1 })
  else .ok (false, state)

def unlockLogLevel (state : LogState) : Bool × LogState :=
  if 0 < state.logSignle then (true, { state with logSignle := state.logSignle - 1 }) else (false, state)

/-- Each accessor takes the lock, runs its own statement and releases the lock. -/
def withLogLock {A : Type} (state : LogState) (statement : LogState → Except LogFault (A × LogState)) :
    Except LogFault (A × LogState) := do
  let held ← lockLogLevel state true
  let done ← statement held.2
  .ok (done.1, (unlockLogLevel done.2).2)

def getMaxLogLevel (state : LogState) : Except LogFault (BitVec 16 × LogState) :=
  withLogLock state fun held => .ok (held.maxLogLevel, held)

def getMinLogLevel (state : LogState) : Except LogFault (BitVec 16 × LogState) :=
  withLogLock state fun held => .ok (held.minLogLevel, held)

def setLogLevel (state : LogState) (aMinLevel aMaxLevel : BitVec 16) : Except LogFault (Unit × LogState) :=
  withLogLock state fun held => .ok ((), { held with
    maxLogLevel := if aMaxLevel < aMinLevel then aMinLevel else aMaxLevel
    minLogLevel := if aMinLevel < aMaxLevel then aMinLevel else aMaxLevel })

def getLogModule (state : LogState) : Except LogFault (BitVec 32 × LogState) :=
  withLogLock state fun held => .ok (held.logModule, held)

def setLogModule (state : LogState) (aLogModule : BitVec 32) : Except LogFault (Unit × LogState) :=
  withLogLock state fun held => .ok ((), { held with logModule := aLogModule })

/-- The macro `LM_FLAG` shifts an `int`. -/
def lmFlag (x : Nat) : Except LogFault (BitVec 32) := if x < 32 then .ok (1 <<< x) else .error .wideShift

def addLogModule (state : LogState) (aModule : BitVec 16) : Except LogFault (Unit × LogState) :=
  withLogLock state fun held => do
    let flag ← lmFlag aModule.toNat
    .ok ((), { held with logModule := held.logModule ||| flag })

def removeLogModule (state : LogState) (aModule : BitVec 16) : Except LogFault (Unit × LogState) :=
  withLogLock state fun held => do
    let flag ← lmFlag aModule.toNat
    .ok ((), { held with logModule := held.logModule &&& ~~~flag })

/-- The macro `M_LogLevel` packs a level and a module. -/
def mLogLevel (x m : BitVec 16) : CInt := x.setWidth 32 ||| (m.setWidth 32 <<< 16)

def isLogType (lLevel : BitVec 32) : Bool := lLevel = lmSystem ∨ lLevel = lmError ∨ lLevel = lmWarning

/-- The minimum is only read for a level that is not above the maximum. -/
def isHiddenLevel (state : LogState) (lLevel : BitVec 32) : Except LogFault (Bool × LogState) :=
  if isLogType lLevel then .ok (false, state)
  else do
    let most ← getMaxLogLevel state
    if most.1.setWidth 32 < lLevel then .ok (true, most.2)
    else do
      let least ← getMinLogLevel most.2
      .ok (decide (lLevel < least.1.setWidth 32), least.2)

/-- The message with its level, as the callback receives it. -/
abbrev LogOutput := List (CInt × List Byte)

/-- The format is given by the text that it expands to with its arguments, and the array `pszDest` has 2048 bytes. -/
def logMessage (state : LogState) (level : CInt) (fmt : Option (List Byte)) :
    Except LogFault (LogOutput × LogState) :=
  match fmt with
  | none => .ok ([], state)
  | some text => do
      let lModule := (level &&& 0xFFFF0000) >>> 16
      let lLevel := level &&& 0x0000FFFF
      let hidden ← isHiddenLevel state lLevel
      if hidden.1 then .ok ([], hidden.2)
      else do
        let flag ← lmFlag lModule.toNat
        let mask ← getLogModule hidden.2
        if flag &&& mask.1 ≠ 0 ∧ mask.2.onLogMessage then .ok ([(level, text.take 2047)], mask.2)
        else .ok ([], mask.2)

/-- The calls that reach the log. -/
inductive LogCall where
  | initLogMessage
  | setLogLevel (aMinLevel aMaxLevel : BitVec 16)
  | setLogModule (aLogModule : BitVec 32)
  | addLogModule (aModule : BitVec 16)
  | removeLogModule (aModule : BitVec 16)
  | logMessage (level : CInt) (fmt : Option (List Byte))
  deriving DecidableEq

def logCall (state : LogState) : LogCall → Except LogFault (LogOutput × LogState)
  | .initLogMessage => .ok ([], Psuart.initLogMessage state)
  | .setLogLevel aMinLevel aMaxLevel => (Psuart.setLogLevel state aMinLevel aMaxLevel).map fun done => ([], done.2)
  | .setLogModule aLogModule => (Psuart.setLogModule state aLogModule).map fun done => ([], done.2)
  | .addLogModule aModule => (Psuart.addLogModule state aModule).map fun done => ([], done.2)
  | .removeLogModule aModule => (Psuart.removeLogModule state aModule).map fun done => ([], done.2)
  | .logMessage level fmt => Psuart.logMessage state level fmt

/-- The messages of a sequence of calls appear in its order. -/
def logRun (state : LogState) : List LogCall → Except LogFault (LogOutput × LogState)
  | [] => .ok ([], state)
  | call :: rest => do
      let done ← logCall state call
      let last ← logRun done.2 rest
      .ok (done.1 ++ last.1, last.2)

end Psuart

import Psuart.Proof.Log.Accessors
import Psuart.Spec.LogMessage

namespace Psuart

variable {state : LogState} {settings : LogSettings}

/-- The state holds the settings behind a free lock. -/
structure LogRefines (state : LogState) (settings : LogSettings) : Prop where
  free : state.logSignle = 0
  installed : state.onLogMessage = true
  least : state.minLogLevel.toNat = min settings.levels.1.toNat settings.levels.2.toNat
  most : state.maxLogLevel.toNat = max settings.levels.1.toNat settings.levels.2.toNat
  modules : ∀ m : BitVec 16, m.toNat < 32 → state.logModule.getLsbD m.toNat = settings.enabled m

/-- The test of the level agrees with the settings. -/
theorem LogRefines.levelTest (refines : LogRefines state settings) (l : BitVec 16) :
    ∃ hidden, isHiddenLevel state (l.setWidth 32) = .ok (hidden, state) ∧
      (hidden = true ↔ ¬settings.Shows l) := by
  have wide (word : BitVec 16) : (word.setWidth 32).toNat = word.toNat := by
    rw [BitVec.toNat_setWidth]
    omega
  have least := refines.least
  have most := refines.most
  rw [isHiddenLevel, LogSettings.Shows, ← least, ← most]
  by_cases special : l.setWidth 32 ∈ [lmSystem, lmError, lmWarning]
  · have type : isLogType (l.setWidth 32) = true := by simpa [isLogType] using special
    rw [if_pos type]
    exact ⟨false, rfl, iff_of_false Bool.false_ne_true (not_not.mpr (Or.inl special))⟩
  have type : ¬isLogType (l.setWidth 32) = true := by simpa [isLogType] using special
  rw [if_neg type, getMaxLogLevel_eq refines.free]
  change ∃ hidden, (if state.maxLogLevel.setWidth 32 < l.setWidth 32 then _ else getMinLogLevel state >>= _) = _ ∧ _
  by_cases above : state.maxLogLevel.setWidth 32 < l.setWidth 32
  · rw [if_pos above]
    rw [BitVec.lt_def, wide, wide] at above
    refine ⟨true, rfl, iff_of_true rfl fun shown => ?_⟩
    have between := shown.resolve_left special
    omega
  · rw [if_neg above, getMinLogLevel_eq refines.free]
    rw [BitVec.lt_def, wide, wide] at above
    refine ⟨_, rfl, ?_⟩
    change decide (l.setWidth 32 < state.minLogLevel.setWidth 32) = true ↔ _
    rw [decide_eq_true_eq, BitVec.lt_def, wide, wide, or_iff_right special]
    omega

theorem logMessage_hidden {l m : BitVec 16} (test : isHiddenLevel state (l.setWidth 32) = .ok (true, state))
    (text : List Byte) : logMessage state (mLogLevel l m) (some text) = .ok ([], state) := by
  change (isHiddenLevel state (mLogLevel l m &&& 0x0000FFFF) >>= _) = _
  rw [mLogLevel_level, test]
  rfl

theorem logMessage_shown {l m : BitVec 16} (test : isHiddenLevel state (l.setWidth 32) = .ok (false, state))
    (free : state.logSignle = 0) (inRange : m.toNat < 32) (text : List Byte) :
    logMessage state (mLogLevel l m) (some text) =
      if BitVec.twoPow 32 m.toNat &&& state.logModule ≠ 0 ∧ state.onLogMessage then
        .ok ([(mLogLevel l m, text.take 2047)], state)
      else .ok ([], state) := by
  change (isHiddenLevel state (mLogLevel l m &&& 0x0000FFFF) >>= _) = _
  rw [mLogLevel_level, test]
  change (lmFlag ((mLogLevel l m &&& 0xFFFF0000) >>> 16).toNat >>= _) = _
  rw [mLogLevel_module, lmFlag_eq inRange]
  change (getLogModule state >>= _) = _
  rw [getLogModule_eq free]
  rfl

/-- A message reaches the callback exactly when it passes the settings. -/
theorem LogRefines.filters (refines : LogRefines state settings) : FiltersMessages settings state where
  free := refines.free
  delivers m l text inRange passes := by
    obtain ⟨hidden, test, shows⟩ := refines.levelTest l
    obtain rfl : hidden = false := Bool.eq_false_iff.mpr fun hides => shows.mp hides passes.2
    have bit := (twoPow_and_ne_zero state.logModule inRange).mpr ((refines.modules m inRange).trans passes.1)
    rw [logMessage_shown test refines.free inRange, if_pos ⟨bit, refines.installed⟩]
  hides m l text inRange stops := by
    obtain ⟨hidden, test, shows⟩ := refines.levelTest l
    cases hidden with
    | true => exact logMessage_hidden test text
    | false =>
        have visible : settings.Shows l := not_not.mp fun hides => Bool.false_ne_true (shows.mpr hides)
        have disabled : ¬state.logModule.getLsbD m.toNat = true := fun enabled =>
          stops ⟨(refines.modules m inRange).symm.trans enabled, visible⟩
        rw [logMessage_shown test refines.free inRange,
          if_neg fun both => disabled ((twoPow_and_ne_zero _ inRange).mp both.1)]

/-- A message leaves the state as it is. -/
theorem LogRefines.message (refines : LogRefines state settings) {level : CInt}
    (inRange : (level >>> 16).toNat < 32) (fmt : Option (List Byte)) :
    ∃ output, logMessage state level fmt = .ok (output, state) := by
  cases fmt with
  | none => exact ⟨[], rfl⟩
  | some text =>
      obtain ⟨l, m, rfl, same⟩ := exists_mLogLevel level
      rw [← same] at inRange
      by_cases passes : settings.Passes m l
      · exact ⟨_, refines.filters.delivers m l text inRange passes⟩
      · exact ⟨_, refines.filters.hides m l text inRange passes⟩

/-- The settings behind one call. -/
def LogSettings.after (settings : LogSettings) (call : LogCall) : LogSettings where
  levels := (levelSetting call).getD settings.levels
  enabled m := (moduleSetting m call).getD (settings.enabled m)

/-- One call keeps the relation between the state and the settings. -/
theorem LogRefines.step (refines : LogRefines state settings) {call : LogCall} (inRange : call.InRange) :
    ∃ output last, logCall state call = .ok (output, last) ∧ LogRefines last (settings.after call) := by
  have free := refines.free
  cases call with
  | initLogMessage =>
      exact ⟨[], _, rfl, rfl, refines.installed, rfl, rfl, fun m inside => getLsbD_full inside⟩
  | setLogLevel aMinLevel aMaxLevel =>
      rw [logCall, setLogLevel_eq free]
      exact ⟨[], _, rfl, rfl, refines.installed, lower_toNat aMinLevel aMaxLevel, upper_toNat aMinLevel aMaxLevel,
        refines.modules⟩
  | setLogModule aLogModule =>
      rw [logCall, setLogModule_eq free]
      exact ⟨[], _, rfl, rfl, refines.installed, refines.least, refines.most, fun m _ => rfl⟩
  | addLogModule aModule =>
      rw [logCall, addLogModule_eq free inRange]
      refine ⟨[], _, rfl, rfl, refines.installed, refines.least, refines.most, fun m inside => ?_⟩
      exact (getLsbD_add state.logModule inRange m).trans
        (congrArg (Option.getD (moduleSetting m (.addLogModule aModule))) (refines.modules m inside))
  | removeLogModule aModule =>
      rw [logCall, removeLogModule_eq free inRange]
      refine ⟨[], _, rfl, rfl, refines.installed, refines.least, refines.most, fun m inside => ?_⟩
      exact (getLsbD_remove state.logModule inside).trans
        (congrArg (Option.getD (moduleSetting m (.removeLogModule aModule))) (refines.modules m inside))
  | logMessage level fmt =>
      obtain ⟨output, runs⟩ := refines.message inRange fmt
      exact ⟨output, state, runs, refines⟩

/-- Every sequence of calls ends in a state that holds the latest settings. -/
theorem LogRefines.run (refines : LogRefines state settings) {calls : List LogCall}
    (inRange : ∀ call ∈ calls, call.InRange) :
    ∃ output last, logRun state calls = .ok (output, last) ∧
      LogRefines last (latestSettings levelSetting settings calls) := by
  induction calls generalizing state settings with
  | nil => exact ⟨[], state, rfl, refines⟩
  | cons call rest ih =>
      obtain ⟨now, later⟩ := List.forall_mem_cons.mp inRange
      obtain ⟨output, middle, runs, kept⟩ := refines.step now
      obtain ⟨others, last, finish, reached⟩ := ih kept later
      refine ⟨output ++ others, last, ?_, ?_⟩
      · rw [logRun, runs]
        change (logRun middle rest >>= _) = _
        rw [finish]
        rfl
      · have same : latestSettings levelSetting settings (call :: rest) =
            latestSettings levelSetting (settings.after call) rest := by
          simp only [latestSettings, Settings.latest_cons, LogSettings.after]
        rw [same]
        exact reached

theorem logStatic_refines : LogRefines (setLogCallback logStatic true) firstSettings :=
  ⟨rfl, rfl, by decide, by decide, fun m inside => getLsbD_full inside⟩

/-- The filter follows the latest settings, and an initialisation is one of them. -/
theorem logRun_follows (calls : List LogCall) (inRange : ∀ call ∈ calls, call.InRange) :
    FollowsSettings levelSetting calls := by
  obtain ⟨output, last, runs, refines⟩ := logStatic_refines.run inRange
  exact ⟨output, last, runs, refines.filters⟩

/-- A run with both orders of the levels. -/
theorem logRun_follows_levels :
    (∀ call ∈ [LogCall.setLogLevel 9 3, .removeLogModule 31, .setLogLevel 2 7], call.InRange) ∧
      FollowsSettings levelSetting [.setLogLevel 9 3, .removeLogModule 31, .setLogLevel 2 7] := by
  have inRange : ∀ call ∈ [LogCall.setLogLevel 9 3, .removeLogModule 31, .setLogLevel 2 7], call.InRange := by
    simp [LogCall.InRange]
  exact ⟨inRange, logRun_follows _ inRange⟩

/-- An initialisation behind the levels sets them back, so that the level 100 is shown again. -/
theorem logRun_resets_levels :
    (∀ call ∈ [LogCall.setLogLevel 5 10, .initLogMessage], call.InRange) ∧
      ¬FollowsSettings levelArguments [.setLogLevel 5 10, .initLogMessage] := by
  constructor
  · simp [LogCall.InRange]
  · rintro ⟨output, state, runs, filters⟩
    have start : logRun (setLogCallback logStatic true) [.setLogLevel 5 10, .initLogMessage] =
        .ok ([], initLogMessage (setLogCallback logStatic true)) := by decide
    rw [start] at runs
    obtain ⟨rfl, rfl⟩ := Prod.mk.inj (Except.ok.inj runs)
    have hidden := filters.hides 0 100 [] (by decide) (fun passes => absurd passes.2 (by unfold LogSettings.Shows; decide))
    have shown : logMessage (initLogMessage (setLogCallback logStatic true)) (mLogLevel 100 0) (some []) =
        .ok ([(mLogLevel 100 0, [])], initLogMessage (setLogCallback logStatic true)) := by decide
    rw [shown] at hidden
    cases hidden

end Psuart

import Psuart.Model.LogMessage

namespace Psuart

variable {state : LogState}

theorem mLogLevel_toNat (l m : BitVec 16) : (mLogLevel l m).toNat = 2 ^ 16 * m.toNat + l.toNat := by
  have low := l.isLt
  have high := m.isLt
  rw [mLogLevel, BitVec.toNat_or, BitVec.toNat_shiftLeft, BitVec.toNat_setWidth, BitVec.toNat_setWidth,
    Nat.shiftLeft_eq, Nat.two_pow_add_eq_or_of_lt low, Nat.or_comm]
  congr 1
  · omega
  · omega

theorem and_low_toNat (word : BitVec 32) : (word &&& 0x0000FFFF).toNat = word.toNat % 2 ^ 16 := by
  have mask : (0x0000FFFF : BitVec 32).toNat = 2 ^ 16 - 1 := by decide
  rw [BitVec.toNat_and, mask, Nat.and_two_pow_sub_one_eq_mod]

/-- The upper half of a packed level is its module. -/
theorem high_toNat (word : BitVec 32) : ((word &&& 0xFFFF0000) >>> 16).toNat = word.toNat / 2 ^ 16 := by
  have mask : (0xFFFF0000 : BitVec 32) >>> 16 = 0x0000FFFF := by decide
  have bound := word.isLt
  rw [BitVec.ushiftRight_and_distrib, mask, and_low_toNat, BitVec.toNat_ushiftRight, Nat.shiftRight_eq_div_pow]
  omega

theorem mLogLevel_module (l m : BitVec 16) : ((mLogLevel l m &&& 0xFFFF0000) >>> 16).toNat = m.toNat := by
  have low := l.isLt
  rw [high_toNat, mLogLevel_toNat]
  omega

theorem mLogLevel_level (l m : BitVec 16) : mLogLevel l m &&& 0x0000FFFF = l.setWidth 32 := by
  have low := l.isLt
  apply BitVec.eq_of_toNat_eq
  rw [and_low_toNat, mLogLevel_toNat, BitVec.toNat_setWidth]
  omega

theorem exists_mLogLevel (level : CInt) : ∃ l m : BitVec 16, level = mLogLevel l m ∧ m.toNat = (level >>> 16).toNat := by
  have bound := level.isLt
  have high : (level >>> 16).toNat = level.toNat / 2 ^ 16 := by
    rw [BitVec.toNat_ushiftRight, Nat.shiftRight_eq_div_pow]
  have upper : ((level >>> 16).setWidth 16).toNat = level.toNat / 2 ^ 16 := by
    rw [BitVec.toNat_setWidth, high]
    omega
  refine ⟨level.setWidth 16, (level >>> 16).setWidth 16, BitVec.eq_of_toNat_eq ?_, by rw [upper, high]⟩
  rw [mLogLevel_toNat, upper, BitVec.toNat_setWidth]
  omega

theorem twoPow_and_ne_zero (mask : BitVec 32) {m : Nat} (inRange : m < 32) :
    BitVec.twoPow 32 m &&& mask ≠ 0 ↔ mask.getLsbD m = true := by
  have visible : BitVec.twoPow 32 m ≠ 0#32 := by
    intro zero
    have bit := congrArg (fun word => word.getLsbD m) zero
    simp [inRange] at bit
  rw [BitVec.and_comm, BitVec.and_twoPow]
  by_cases enabled : mask.getLsbD m = true
  · rw [if_pos enabled]
    exact iff_of_true visible enabled
  · rw [if_neg enabled]
    exact iff_of_false (not_not.mpr rfl) enabled

theorem getLsbD_full {m : BitVec 16} (inside : m.toNat < 32) :
    (0xFFFFFFFF : BitVec 32).getLsbD m.toNat = true := by
  have full : (0xFFFFFFFF : BitVec 32) = BitVec.allOnes 32 := by decide
  rw [full, BitVec.getLsbD_allOnes, decide_eq_true inside]

/-- Setting one bit changes the setting of one module. -/
theorem getLsbD_add (mask : BitVec 32) {aModule : BitVec 16} (inRange : aModule.toNat < 32) (m : BitVec 16) :
    (mask ||| BitVec.twoPow 32 aModule.toNat).getLsbD m.toNat =
      (if aModule = m then some true else none).getD (mask.getLsbD m.toNat) := by
  rw [BitVec.getLsbD_or, BitVec.getLsbD_twoPow, decide_eq_true inRange, Bool.true_and]
  by_cases same : aModule = m
  · rw [if_pos same, decide_eq_true (congrArg BitVec.toNat same), Bool.or_true]
    rfl
  · rw [if_neg same, decide_eq_false (mt BitVec.eq_of_toNat_eq same), Bool.or_false]
    rfl

theorem getLsbD_remove (mask : BitVec 32) {aModule m : BitVec 16} (inside : m.toNat < 32) :
    (mask &&& ~~~BitVec.twoPow 32 aModule.toNat).getLsbD m.toNat =
      (if aModule = m then some false else none).getD (mask.getLsbD m.toNat) := by
  rw [BitVec.getLsbD_and, BitVec.getLsbD_not, BitVec.getLsbD_twoPow, decide_eq_true inside, Bool.true_and]
  by_cases same : aModule = m
  · rw [if_pos same, same, decide_eq_true inside, decide_eq_true rfl, Bool.and_self, Bool.not_true, Bool.and_false]
    rfl
  · rw [if_neg same, decide_eq_false (mt BitVec.eq_of_toNat_eq same), Bool.and_false, Bool.not_false, Bool.and_true]
    rfl

theorem lower_toNat (a b : BitVec 16) : (if a < b then a else b).toNat = min a.toNat b.toNat := by
  by_cases below : a < b
  · rw [if_pos below, Nat.min_eq_left (Nat.le_of_lt (BitVec.lt_def.mp below))]
  · rw [if_neg below, Nat.min_eq_right (Nat.not_lt.mp (mt BitVec.lt_def.mpr below))]

theorem upper_toNat (a b : BitVec 16) : (if b < a then a else b).toNat = max a.toNat b.toNat := by
  by_cases below : b < a
  · rw [if_pos below, Nat.max_eq_left (Nat.le_of_lt (BitVec.lt_def.mp below))]
  · rw [if_neg below, Nat.max_eq_right (Nat.not_lt.mp (mt BitVec.lt_def.mpr below))]

theorem lockLogLevel_free (free : state.logSignle = 0) :
    lockLogLevel state true = .ok (true, { state with logSignle := 1 }) := by
  rw [lockLogLevel, if_pos rfl, free]
  rfl

theorem unlockLogLevel_held (done : LogState) (held : done.logSignle = 1) :
    (unlockLogLevel done).2 = { done with logSignle := 0 } := by
  rw [unlockLogLevel, held]
  rfl

/-- The lock of an accessor that starts with a free lock is free again behind it. -/
theorem withLogLock_eq {A : Type} {statement : LogState → Except LogFault (A × LogState)} {value : A}
    (free : state.logSignle = 0) (done : LogState)
    (runs : statement { state with logSignle := 1 } = .ok (value, { done with logSignle := 1 })) :
    withLogLock state statement = .ok (value, { done with logSignle := 0 }) := by
  rw [withLogLock, lockLogLevel_free free]
  change (statement { state with logSignle := 1 } >>= _) = _
  rw [runs]
  exact congrArg (fun last => Except.ok (value, last)) (unlockLogLevel_held _ rfl)

theorem LogState.released (free : state.logSignle = 0) : { state with logSignle := 0 } = state := by rw [← free]

theorem getMaxLogLevel_eq (free : state.logSignle = 0) : getMaxLogLevel state = .ok (state.maxLogLevel, state) := by
  rw [getMaxLogLevel, withLogLock_eq free state rfl, state.released free]

theorem getMinLogLevel_eq (free : state.logSignle = 0) : getMinLogLevel state = .ok (state.minLogLevel, state) := by
  rw [getMinLogLevel, withLogLock_eq free state rfl, state.released free]

theorem getLogModule_eq (free : state.logSignle = 0) : getLogModule state = .ok (state.logModule, state) := by
  rw [getLogModule, withLogLock_eq free state rfl, state.released free]

theorem lmFlag_eq {x : Nat} (inRange : x < 32) : lmFlag x = .ok (BitVec.twoPow 32 x) := if_pos inRange

theorem setLogLevel_eq (free : state.logSignle = 0) (aMinLevel aMaxLevel : BitVec 16) :
    setLogLevel state aMinLevel aMaxLevel = .ok ((), { state with
      logSignle := 0
      maxLogLevel := if aMaxLevel < aMinLevel then aMinLevel else aMaxLevel
      minLogLevel := if aMinLevel < aMaxLevel then aMinLevel else aMaxLevel }) := by
  rw [setLogLevel, withLogLock_eq free { state with
    maxLogLevel := if aMaxLevel < aMinLevel then aMinLevel else aMaxLevel
    minLogLevel := if aMinLevel < aMaxLevel then aMinLevel else aMaxLevel } rfl]

theorem setLogModule_eq (free : state.logSignle = 0) (aLogModule : BitVec 32) :
    setLogModule state aLogModule = .ok ((), { state with logSignle := 0, logModule := aLogModule }) := by
  rw [setLogModule, withLogLock_eq free { state with logModule := aLogModule } rfl]

theorem addLogModule_eq (free : state.logSignle = 0) {aModule : BitVec 16} (inRange : aModule.toNat < 32) :
    addLogModule state aModule = .ok ((), { state with
      logSignle := 0, logModule := state.logModule ||| BitVec.twoPow 32 aModule.toNat }) := by
  rw [addLogModule, lmFlag_eq inRange,
    withLogLock_eq free { state with logModule := state.logModule ||| BitVec.twoPow 32 aModule.toNat } rfl]

theorem removeLogModule_eq (free : state.logSignle = 0) {aModule : BitVec 16} (inRange : aModule.toNat < 32) :
    removeLogModule state aModule = .ok ((), { state with
      logSignle := 0, logModule := state.logModule &&& ~~~BitVec.twoPow 32 aModule.toNat }) := by
  rw [removeLogModule, lmFlag_eq inRange,
    withLogLock_eq free { state with logModule := state.logModule &&& ~~~BitVec.twoPow 32 aModule.toNat } rfl]

end Psuart

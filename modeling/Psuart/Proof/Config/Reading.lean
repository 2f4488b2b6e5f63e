import Psuart.Spec.Inih

namespace Psuart

variable {S : Type}

theorem iniEntry_eq (handler : IniHandler S) (start : List Byte) (state : IniState S) :
    iniEntry handler start state = (entryEffect start).apply handler state := by
  have same : (if (findCharOrComment (charByte '=') false start).2.head? = some (charByte '=') then
      findCharOrComment (charByte '=') false start
      else findCharOrComment (charByte ':') false start) = entrySplit start := rfl
  rw [iniEntry, entryEffect]
  simp only [same]
  cases (entrySplit start).2 with
  | nil => rfl
  | cons mark rest =>
      dsimp only
      split <;> rfl

/-- The effect of a line depends on the reader only through its line number and its last name. -/
theorem iniLine_eq (handler : IniHandler S) (state : IniState S) (chunk : List Byte) :
    iniLine handler state chunk =
      (lineEffect (state.lineno = 0) (state.prevName ≠ []) (cString chunk)).apply handler
        { state with lineno := state.lineno + 1 } := by
  have first : (state.lineno + 1 = 1) = (state.lineno = 0) := propext (by omega)
  rw [iniLine, lineEffect, strippedLine]
  simp only [decide_eq_true_eq, first]
  generalize rstrip _ = stripped
  cases lskip stripped with
  | nil => rfl
  | cons c rest =>
      dsimp only
      split
      · rfl
      · split
        · rfl
        · split
          · rw [headerEffect]
            dsimp only
            split <;> rfl
          · exact iniEntry_eq _ _ _

theorem CfgOption.mem_all (option : CfgOption) : option ∈ CfgOption.all := by
  cases option <;> decide

/-- An option is known by its section and its name. -/
theorem CfgOption.eq_of_names {first second : CfgOption} (sec : first.sec = second.sec)
    (name : first.name = second.name) : first = second := by
  have names : ∀ first ∈ CfgOption.all, ∀ second ∈ CfgOption.all, first.sec = second.sec →
      first.name = second.name → first = second := by decide
  exact names first first.mem_all second second.mem_all sec name

/-- The handler sets the option with the section and the name. -/
theorem handler_value (cfg : CfgValues) (sec name value : List Byte) (option : CfgOption) :
    (handler cfg sec name value).1 option =
      if sec = option.sec ∧ name = option.name then some value else cfg option := by
  rw [handler]
  cases found : CfgOption.all.find? fun option => sec = option.sec ∧ name = option.name with
  | none =>
      have other := List.find?_eq_none.mp found option option.mem_all
      rw [decide_eq_true_eq] at other
      rw [if_neg other]
  | some other =>
      have names := List.find?_some found
      rw [decide_eq_true_eq] at names
      by_cases same : option = other
      · rw [same, if_pos names]
        exact Function.update_self _ _ _
      · rw [if_neg fun both => same (CfgOption.eq_of_names (both.1.symm.trans names.1) (both.2.symm.trans names.2))]
        exact Function.update_of_ne same _ _

theorem handler_accepts (cfg : CfgValues) (sec name value : List Byte) :
    (handler cfg sec name value).2 = true := by
  rw [handler]
  split <;> rfl

theorem IniState.call_handler (state : IniState CfgValues) (name value : List Byte) :
    state.call handler name value =
      { state with user := (handler state.user state.sec name value).1 } := by
  rw [IniState.call]
  simp only [handler_accepts, if_true]

theorem lastReceived_append (log : List Received) (entry : Received) (option : CfgOption) :
    lastReceived (log ++ [entry]) option =
      if entry.sec = option.sec ∧ entry.name = option.name then some entry.value
      else lastReceived log option := by
  rw [lastReceived, List.reverse_append, List.reverse_singleton, List.singleton_append, List.find?_cons]
  by_cases names : entry.sec = option.sec ∧ entry.name = option.name
  · rw [if_pos names, decide_eq_true names]
    rfl
  · rw [if_neg names, decide_eq_false names]
    rfl

/-- A reader with the handler of the service has the last values that the record holds. -/
structure Follows (cfg : CfgValues) (state : IniState CfgValues) (log : IniState (List Received)) : Prop where
  sec : state.sec = log.sec
  prevName : state.prevName = log.prevName
  lineno : state.lineno = log.lineno
  user : ∀ option, state.user option = (lastReceived log.user option).or (cfg option)

variable {cfg : CfgValues} {state : IniState CfgValues} {log : IniState (List Received)}

theorem Follows.call (follows : Follows cfg state log) (name value : List Byte) :
    Follows cfg (state.call handler name value) (log.call record name value) := by
  rw [IniState.call, IniState.call]
  simp only [handler_accepts, record, if_true]
  refine ⟨follows.sec, follows.prevName, follows.lineno, fun option => ?_⟩
  dsimp only
  rw [handler_value, lastReceived_append, follows.sec]
  split
  · rfl
  · exact follows.user option

theorem Follows.line (follows : Follows cfg state log) (chunk : List Byte) :
    Follows cfg (iniLine handler state chunk) (iniLine record log chunk) := by
  obtain ⟨sec, prevName, lineno, user⟩ := follows
  rw [iniLine_eq, iniLine_eq, lineno, prevName]
  cases lineEffect (log.lineno = 0) (log.prevName ≠ []) (cString chunk) with
  | skip => exact ⟨sec, rfl, rfl, user⟩
  | fail => exact ⟨sec, rfl, rfl, user⟩
  | opens name => exact ⟨rfl, rfl, rfl, user⟩
  | continues value =>
      rw [IniEffect.apply, IniEffect.apply]
      refine Follows.call ?_ _ _
      exact ⟨sec, rfl, rfl, user⟩
  | entry name value =>
      rw [IniEffect.apply, IniEffect.apply]
      refine Follows.call ?_ _ _
      exact ⟨sec, rfl, rfl, user⟩

theorem Follows.lines (follows : Follows cfg state log) (chunks : List (List Byte)) :
    Follows cfg (chunks.foldl (iniLine handler) state) (chunks.foldl (iniLine record) log) := by
  induction chunks generalizing state log with
  | nil => exact follows
  | cons chunk rest ih => exact ih (follows.line chunk)

/-- The configuration keeps the last value that the handler received for every option. -/
theorem iniParseFile_received (file : List Byte) (cfg : CfgValues) (option : CfgOption) :
    (iniParseFile handler file cfg).user option =
      (lastReceived (received file) option).or (cfg option) := by
  have start : Follows cfg { user := cfg } { user := [] } := ⟨rfl, rfl, rfl, fun _ => rfl⟩
  exact (start.lines _).user option

end Psuart

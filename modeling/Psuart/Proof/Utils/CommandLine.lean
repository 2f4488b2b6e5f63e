import Psuart.Spec.Arguments

namespace Psuart

variable {name value : List Byte}

theorem strincmpLoop_self (count : Nat) (str : List Byte) : strincmpLoop count str str = 0 := by
  induction count generalizing str with
  | zero => rfl
  | succ count ih =>
      rw [strincmpLoop, Int.sub_self]
      split
      · rfl
      · exact ih str.tail

theorem utilsStrincmp_self (str : List Byte) : utilsStrincmp str str 0 = 0 := strincmpLoop_self _ _

/-- The name of a switch without its marks and its value. -/
structure SwitchName (name : List Byte) : Prop where
  named : name ≠ []
  short : name.length ≤ 99
  free : charByte ':' ∉ name
  start : ∀ first, name.head? = some first → isSwitchMark first = false

/-- The marks in front of the name are skipped. -/
theorem SwitchName.skips (switch : SwitchName name) (rest : List Byte) :
    (stringBytes "--" ++ name ++ rest).dropWhile isSwitchMark = name ++ rest := by
  obtain ⟨first, tail, rfl⟩ := List.exists_cons_of_ne_nil switch.named
  have visible := switch.start first rfl
  change (charByte '-' :: charByte '-' :: first :: (tail ++ rest)).dropWhile isSwitchMark = _
  rw [List.dropWhile_cons_of_pos (by decide), List.dropWhile_cons_of_pos (by decide),
    List.dropWhile_cons_of_neg (by rw [visible]; decide), List.cons_append]

theorem SwitchName.colon (switch : SwitchName name) (value : List Byte) :
    switchName (switchWithColon name value) = name ∧
      ∀ rest, switchValue (switchWithColon name value) rest = value := by
  have skips : (switchWithColon name value).dropWhile isSwitchMark = name ++ charByte ':' :: value :=
    switch.skips (charByte ':' :: value)
  have word : switchName (switchWithColon name value) = name := by
    rw [switchName, skips]
    exact Scan.takeWhile_ne_stop switch.free value
  refine ⟨word, fun rest => ?_⟩
  unfold switchValue
  rw [word, skips, List.drop_left]

/-- A switch without a colon takes the next argument, unless that one looks like a switch. -/
theorem SwitchName.next (switch : SwitchName name) (value : List Byte) (back : List (List Byte)) :
    switchName (stringBytes "--" ++ name) = name ∧
      switchValue (stringBytes "--" ++ name) (value :: back) =
        if value.head? ≠ some (charByte '/') ∧ value.head? ≠ some (charByte '-') then value else [] := by
  have skips := switch.skips []
  rw [List.append_nil, List.append_nil] at skips
  have word : switchName (stringBytes "--" ++ name) = name := by
    rw [switchName, skips]
    exact Scan.takeWhile_ne_self switch.free
  refine ⟨word, ?_⟩
  rw [switchValue, word, skips, List.drop_length]

variable {front : List (List Byte)}

/-- Without a known size only the name of a switch can be too long. -/
theorem cmdParamLoop_cons (name paramValue arg : List Byte) (rest : List (List Byte)) :
    cmdParamLoop none name paramValue (arg :: rest) =
      if switchSize ≤ (switchName arg).length then .error .bufferOverflow
      else if utilsStrincmp (switchName arg) name 0 = 0 then .ok (true, switchValue arg rest)
      else cmdParamLoop none name (switchValue arg rest) rest := rfl

/-- The loop passes the arguments that are read as other switches. -/
theorem cmdParamLoop_passes (other : ∀ arg ∈ front, ¬ParsesAs name arg)
    (short : ∀ arg ∈ front, (switchName arg).length < switchSize) (paramValue : List Byte)
    (rest : List (List Byte)) :
    ∃ left, cmdParamLoop none name paramValue (front ++ rest) = cmdParamLoop none name left rest := by
  induction front generalizing paramValue with
  | nil => exact ⟨paramValue, rfl⟩
  | cons arg front ih =>
      obtain ⟨first, others⟩ := List.forall_mem_cons.mp other
      obtain ⟨fits, fit⟩ := List.forall_mem_cons.mp short
      rw [List.cons_append, cmdParamLoop_cons, if_neg (Nat.not_le.mpr fits)]
      have unlike : ¬utilsStrincmp (switchName arg) name 0 = 0 := first
      rw [if_neg unlike]
      exact ih others fit _

/-- A name that is too long for the array is not defined by the source. -/
theorem cmdParamLoop_overflows (other : ∀ arg ∈ front, ¬ParsesAs name arg)
    (long : ¬∀ arg ∈ front, (switchName arg).length < switchSize) (paramValue : List Byte)
    (rest : List (List Byte)) :
    cmdParamLoop none name paramValue (front ++ rest) = .error .bufferOverflow := by
  induction front generalizing paramValue with
  | nil => exact absurd (List.forall_mem_nil _) long
  | cons arg front ih =>
      obtain ⟨first, others⟩ := List.forall_mem_cons.mp other
      rw [List.cons_append, cmdParamLoop_cons]
      split
      · rfl
      · rename_i fits
        rw [List.forall_mem_cons, not_and] at long
        have unlike : ¬utilsStrincmp (switchName arg) name 0 = 0 := first
        rw [if_neg unlike]
        exact ih others (long (Nat.not_le.mp fits)) _

/-- The loop stops at the switch. -/
theorem cmdParamLoop_stops {arg : List Byte} (switch : SwitchName name) (word : switchName arg = name)
    (paramValue : List Byte) (rest : List (List Byte)) :
    cmdParamLoop none name paramValue (arg :: rest) = .ok (true, switchValue arg rest) := by
  have short := switch.short
  rw [cmdParamLoop_cons, word, if_neg (by rw [switchSize]; omega)]
  exact if_pos (utilsStrincmp_self name)

/-- Both spellings give the value exactly when it is no absolute path and every earlier name fits into the
array. -/
theorem getCmdParamValue_spellings_iff (name value program : List Byte) (front back : List (List Byte))
    (switch : SwitchName name) (visible : value ≠ []) (plain : value.head? ≠ some (charByte '-'))
    (other : ∀ arg ∈ front, ¬ParsesAs name arg) :
    (getCmdParamValue (program :: (front ++ switchWithColon name value :: back)) name = .ok (true, value) ∧
        getCmdParamValue (program :: (front ++ (stringBytes "--" ++ name) :: value :: back)) name =
          .ok (true, value)) ↔
      value.head? ≠ some (charByte '/') ∧ ∀ arg ∈ front, (switchName arg).length < switchSize := by
  obtain ⟨word, stored⟩ := switch.colon value
  obtain ⟨single, taken⟩ := switch.next value back
  rw [getCmdParamValue, getCmdParamValue, List.tail_cons, List.tail_cons]
  by_cases short : ∀ arg ∈ front, (switchName arg).length < switchSize
  · obtain ⟨left, joined⟩ := cmdParamLoop_passes other short [] (switchWithColon name value :: back)
    obtain ⟨right, followed⟩ := cmdParamLoop_passes other short [] ((stringBytes "--" ++ name) :: value :: back)
    rw [joined, followed, cmdParamLoop_stops switch word, cmdParamLoop_stops switch single, stored, taken,
      and_iff_right rfl, and_iff_left short]
    by_cases path : value.head? = some (charByte '/')
    · rw [if_neg (fun both => both.1 path)]
      refine iff_of_false (fun equal => ?_) (not_not.mpr path)
      exact visible (Prod.mk.inj (Except.ok.inj equal)).2.symm
    · rw [if_pos ⟨path, plain⟩]
      exact iff_of_true rfl path
  · rw [cmdParamLoop_overflows other short]
    exact iff_of_false (fun both => nomatch both.1) fun both => short both.2

def configName : List Byte := stringBytes "config"

theorem configName_switch : SwitchName configName where
  named := by decide
  short := by decide
  free := by decide
  start first head := by
    rw [← Option.some.inj head]
    decide

/-- A relative path is taken in both spellings. -/
theorem getCmdParamValue_spellings_relative :
    getCmdParamValue ([stringBytes "psuart", stringBytes "-d"] ++
        [switchWithColon configName (stringBytes "psu.conf"), stringBytes "-v"]) configName =
          .ok (true, stringBytes "psu.conf") ∧
      getCmdParamValue ([stringBytes "psuart", stringBytes "-d"] ++
        [stringBytes "--" ++ configName, stringBytes "psu.conf", stringBytes "-v"]) configName =
          .ok (true, stringBytes "psu.conf") :=
  (getCmdParamValue_spellings_iff configName (stringBytes "psu.conf") (stringBytes "psuart") [stringBytes "-d"]
    [stringBytes "-v"] configName_switch (by decide) (by decide) (by decide)).mpr ⟨by decide, by decide⟩

/-- The arguments of the init script leave the configuration file empty. -/
theorem getCmdParamValue_loses_path :
    getCmdParamValue [stringBytes "psuart", stringBytes "--config", stringBytes "/etc/psuconfig.conf",
        stringBytes "--log", stringBytes "/tmp/psuconfig.log"] configName = .ok (true, []) ∧
      getCmdParamValue [stringBytes "psuart", stringBytes "--config:/etc/psuconfig.conf"] configName =
        .ok (true, stringBytes "/etc/psuconfig.conf") := by
  exact ⟨by decide, by decide⟩

end Psuart

import Psuart.Library.Printf
import Psuart.Proof.Config.Reading

namespace Psuart

open Printf (weight weight_append weight_cons weight_sublist)

theorem findCharOrComment_append (c : Byte) (was : Bool) (s : List Byte) :
    (findCharOrComment c was s).1 ++ (findCharOrComment c was s).2 = s := by
  induction s generalizing was with
  | nil => rfl
  | cons first rest ih =>
      rw [findCharOrComment]
      split
      · rfl
      · exact congrArg (first :: ·) (ih _)

theorem rstrip_sublist (s : List Byte) : (rstrip s).Sublist s := (List.rdropWhile_prefix isspace s).sublist

theorem lskip_sublist (s : List Byte) : (lskip s).Sublist s := List.dropWhile_sublist isspace

theorem strippedLine_sublist (first : Bool) (line : List Byte) : (strippedLine first line).Sublist line := by
  refine (rstrip_sublist _).trans ?_
  split
  · exact List.drop_sublist _ _
  · exact List.Sublist.refl _

/-- The weight of the texts that an effect hands to the handler from its own line. -/
def IniEffect.weight : IniEffect → Nat
  | .entry name value => Printf.weight name + Printf.weight value
  | .continues value => Printf.weight value
  | _ => 0

theorem entrySplit_append (start : List Byte) : (entrySplit start).1 ++ (entrySplit start).2 = start := by
  rw [entrySplit]
  split <;> exact findCharOrComment_append _ _ _

theorem entryEffect_weight (start : List Byte) : (entryEffect start).weight ≤ weight start := by
  have split := congrArg weight (entrySplit_append start)
  rw [weight_append] at split
  rw [entryEffect]
  cases stop : (entrySplit start).2 with
  | nil => exact Nat.zero_le _
  | cons mark rest =>
      rw [stop, weight_cons] at split
      dsimp only
      split
      · have name := weight_sublist (rstrip_sublist (entrySplit start).1)
        have value : weight (rstrip (findCharOrComment 0 false (lskip rest)).1) ≤ weight rest := by
          have part := congrArg weight (findCharOrComment_append 0 false (lskip rest))
          have stripped := weight_sublist (rstrip_sublist (findCharOrComment 0 false (lskip rest)).1)
          have skipped := weight_sublist (lskip_sublist rest)
          rw [weight_append] at part
          omega
        rw [IniEffect.weight]
        omega
      · exact Nat.zero_le _

/-- A line hands out at most its own weight. -/
theorem lineEffect_weight (first named : Bool) (line : List Byte) :
    (lineEffect first named line).weight ≤ weight line := by
  have start := weight_sublist ((lskip_sublist (strippedLine first line)).trans (strippedLine_sublist first line))
  rw [lineEffect]
  cases text : lskip (strippedLine first line) with
  | nil => exact Nat.zero_le _
  | cons c rest =>
      rw [text] at start
      dsimp only
      split
      · exact Nat.zero_le _
      · split
        · exact start
        · split
          · rw [headerEffect]
            dsimp only
            split <;> exact Nat.zero_le _
          · exact (entryEffect_weight _).trans start

/-- The calls of `fgets` return the whole file. -/
theorem fgetsLines_flatten (size : Nat) (line file : List Byte) :
    (fgetsLines size line file).flatten = line.reverse ++ file := by
  induction file generalizing line with
  | nil => cases line <;> simp [fgetsLines]
  | cons c rest ih =>
      rw [fgetsLines]
      split
      · simp [ih]
      · simp [ih]

/-- The weight of the options that a configuration holds. -/
def loadWeight (cfg : CfgValues) : Nat :=
  (CfgOption.all.map fun option => (cfg option).elim 0 fun value => weight option.name + weight value).sum

/-- A sum grows at most by the growth of its only changed term. -/
theorem sum_map_le {A : Type} {terms : List A} {before after : A → Nat} (changed : A) {growth : Nat}
    (apart : terms.Nodup) (same : ∀ term, term ≠ changed → after term = before term)
    (bound : after changed ≤ before changed + growth) :
    (terms.map after).sum ≤ (terms.map before).sum + growth := by
  induction terms with
  | nil => exact Nat.zero_le _
  | cons term rest ih =>
      obtain ⟨fresh, apart⟩ := List.nodup_cons.mp apart
      rw [List.map_cons, List.map_cons, List.sum_cons, List.sum_cons]
      by_cases equal : term = changed
      · have others : rest.map after = rest.map before :=
          List.map_congr_left fun other member => same other fun again => fresh (equal ▸ again ▸ member)
        rw [others, equal]
        omega
      · have rest := ih apart
        rw [same term equal]
        omega

theorem CfgOption.all_nodup : CfgOption.all.Nodup := by decide

/-- A new value of an option adds its weight and, for a new option, the weight of the name. -/
theorem loadWeight_update (cfg : CfgValues) (option : CfgOption) (value : List Byte) :
    loadWeight (Function.update cfg option (some value)) ≤
      loadWeight cfg + ((if cfg option = none then weight option.name else 0) + weight value) := by
  refine sum_map_le option CfgOption.all_nodup (fun other differ => ?_) ?_
  · rw [Function.update_of_ne differ]
  · rw [Function.update_self]
    cases cfg option with
    | none => simp
    | some old =>
        simp only [Option.elim_some, reduceCtorEq, if_false]
        omega

/-- A call of the handler changes nothing, or sets the option with its section and its name. -/
theorem handler_cases (cfg : CfgValues) (sec name value : List Byte) :
    (handler cfg sec name value).1 = cfg ∨
      ∃ option : CfgOption, sec = option.sec ∧ name = option.name ∧
        (handler cfg sec name value).1 = Function.update cfg option (some value) := by
  rw [handler]
  cases found : CfgOption.all.find? fun option => sec = option.sec ∧ name = option.name with
  | none => exact Or.inl rfl
  | some option =>
      have names := List.find?_some found
      rw [decide_eq_true_eq] at names
      exact Or.inr ⟨option, names.1, names.2, rfl⟩

theorem loadWeight_handler (cfg : CfgValues) (sec name value : List Byte) :
    loadWeight (handler cfg sec name value).1 ≤ loadWeight cfg + (weight name + weight value) := by
  rcases handler_cases cfg sec name value with same | ⟨option, _, rfl, set⟩
  · rw [same]
    omega
  · have bound := loadWeight_update cfg option value
    rw [set]
    split at bound <;> omega

/-- A call of the handler for a known option adds the weight of the new value only. -/
theorem loadWeight_again (cfg : CfgValues) {sec name : List Byte} (value : List Byte)
    (known : ∀ option : CfgOption, sec = option.sec → name = option.name → cfg option ≠ none) :
    loadWeight (handler cfg sec name value).1 ≤ loadWeight cfg + weight value := by
  rcases handler_cases cfg sec name value with same | ⟨option, sameSec, sameName, set⟩
  · rw [same]
    omega
  · have bound := loadWeight_update cfg option value
    rw [if_neg (known option sameSec sameName)] at bound
    rw [set]
    omega

/-- The options that a reader holds weigh at most the text that it has read, and a last name that
belongs to an option has set it. -/
structure Accounted (spent : Nat) (state : IniState CfgValues) : Prop where
  paid : loadWeight state.user ≤ spent
  known : state.prevName ≠ [] → ∀ option : CfgOption,
    state.sec = option.sec → state.prevName = option.name → state.user option ≠ none

theorem CfgOption.name_short (option : CfgOption) : option.name.length < maxName - 1 := by
  cases option <;> decide

/-- A name that is cut to the name of an option is that name. -/
theorem CfgOption.eq_of_strncpy0 {name : List Byte} {option : CfgOption}
    (cut : strncpy0 name maxName = option.name) : name = option.name := by
  have short := option.name_short
  rw [← cut, strncpy0, List.length_take] at short
  rw [← cut, strncpy0, List.take_of_length_le (by omega)]

theorem handler_known {cfg : CfgValues} {option : CfgOption} (known : cfg option ≠ none)
    (sec name value : List Byte) : (handler cfg sec name value).1 option ≠ none := by
  rw [handler_value]
  split
  · exact Option.some_ne_none _
  · exact known

/-- Only a reader with a last name continues an entry. -/
theorem lineEffect_named {first named : Bool} {line value : List Byte}
    (effect : lineEffect first named line = .continues value) : named = true := by
  have header (text : List Byte) : headerEffect text ≠ .continues value := by
    rw [headerEffect]
    dsimp only
    split <;> simp
  have entry (start : List Byte) : entryEffect start ≠ .continues value := by
    rw [entryEffect]
    split
    · simp
    · split <;> simp
  rw [lineEffect] at effect
  split at effect
  · cases effect
  · split at effect
    · cases effect
    · split at effect
      · rename_i continued
        exact continued.1
      · split at effect
        · exact absurd effect (header _)
        · exact absurd effect (entry _)

/-- A line is paid by its own weight. -/
theorem Accounted.line {spent : Nat} {state : IniState CfgValues} (accounted : Accounted spent state)
    (chunk : List Byte) : Accounted (spent + weight chunk) (iniLine handler state chunk) := by
  obtain ⟨paid, known⟩ := accounted
  have string : weight (cString chunk) ≤ weight chunk := weight_sublist (List.takeWhile_sublist _)
  have bound := lineEffect_weight (state.lineno = 0) (state.prevName ≠ []) (cString chunk)
  rw [iniLine_eq]
  cases effect : lineEffect (state.lineno = 0) (state.prevName ≠ []) (cString chunk) with
  | skip => exact ⟨Nat.le_add_right_of_le paid, known⟩
  | fail => exact ⟨Nat.le_add_right_of_le paid, known⟩
  | opens name => exact ⟨Nat.le_add_right_of_le paid, fun some => absurd rfl some⟩
  | continues value =>
      have named := known (of_decide_eq_true (lineEffect_named effect))
      rw [effect, IniEffect.weight] at bound
      rw [IniEffect.apply, IniState.call_handler]
      refine ⟨?_, fun _ option sec same => handler_known (named option sec same) _ _ _⟩
      have added := loadWeight_again state.user value named
      dsimp only
      omega
  | entry name value =>
      rw [effect, IniEffect.weight] at bound
      rw [IniEffect.apply, IniState.call_handler]
      refine ⟨?_, fun _ option sec cut => ?_⟩
      · have added := loadWeight_handler state.user state.sec name value
        dsimp only
        omega
      · dsimp only at sec cut ⊢
        rw [handler_value, if_pos ⟨sec, CfgOption.eq_of_strncpy0 cut⟩]
        exact Option.some_ne_none _

theorem Accounted.lines {spent : Nat} {state : IniState CfgValues} (accounted : Accounted spent state)
    (chunks : List (List Byte)) :
    Accounted (spent + weight chunks.flatten) (chunks.foldl (iniLine handler) state) := by
  induction chunks generalizing spent state with
  | nil => exact accounted
  | cons chunk rest ih =>
      rw [List.flatten_cons, weight_append, ← Nat.add_assoc]
      exact ih (accounted.line chunk)

/-- The options that are read from a file weigh at most the file. -/
theorem loadWeight_iniParseFile (file : List Byte) :
    loadWeight (iniParseFile handler file cfgEmpty).user ≤ weight file := by
  have start : Accounted 0 { user := cfgEmpty } := ⟨Nat.le_refl _, fun some => absurd rfl some⟩
  have paid := (start.lines (fgetsLines iniMaxLine [] file)).paid
  rw [fgetsLines_flatten, List.reverse_nil, List.nil_append, Nat.zero_add] at paid
  exact paid

end Psuart

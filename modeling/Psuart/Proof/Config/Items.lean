import Psuart.Proof.Config.Reading
import Psuart.Spec.IniItems

namespace Psuart

variable {S : Type}

theorem sectionBehind_snoc (front : List IniEffect) (effect : IniEffect) :
    sectionBehind (front ++ [effect]) = effect.opened.getD (sectionBehind front) := by
  rw [sectionBehind, List.reverse_append, List.reverse_singleton, List.singleton_append, List.findSome?_cons]
  cases effect.opened <;> rfl

theorem nameBehind_snoc (front : List IniEffect) (effect : IniEffect) :
    nameBehind (front ++ [effect]) = effect.named.getD (nameBehind front) := by
  rw [nameBehind, List.reverse_append, List.reverse_singleton, List.singleton_append, List.findSome?_cons]
  cases effect.named <;> rfl

/-- A line adds at most one item behind those of the lines in front of it. -/
theorem itemsOf_snoc (front : List IniEffect) (effect : IniEffect) :
    itemsOf (front ++ [effect]) = itemsOf front ++ (itemOf front effect).toList := by
  rw [itemsOf, List.length_append, List.length_singleton, List.range_succ, List.filterMap_append]
  congr 1
  · apply List.filterMap_congr
    intro index member
    have inside := List.mem_range.mp member
    rw [List.getElem?_append_left inside, List.take_append_of_le_length inside.le]
  · simp [List.filterMap_cons]
    cases itemOf front effect <;> rfl

theorem effectsOf_snoc (chunks : List (List Byte)) (chunk : List Byte) :
    effectsOf (chunks ++ [chunk]) = effectsOf chunks ++
      [lineEffect ((effectsOf chunks).length = 0) (nameBehind (effectsOf chunks) ≠ []) (cString chunk)] := by
  rw [effectsOf, List.foldl_append]
  rfl

theorem itemOf_line {front : List IniEffect} {effect : IniEffect} {item : IniItem}
    (found : itemOf front effect = some item) : item.line = front.length + 1 := by
  cases effect with
  | skip | opens => cases found
  | fail | continues | entry =>
      obtain rfl := Option.some.inj found
      rfl

/-- The lines of the items are numbered from one in their order. -/
theorem itemsOf_lines (effects : List IniEffect) :
    (∀ item ∈ itemsOf effects, 0 < item.line ∧ item.line ≤ effects.length) ∧
      (itemsOf effects).Pairwise fun first second => first.line < second.line := by
  induction effects using List.reverseRecOn with
  | nil => exact ⟨List.forall_mem_nil _, List.Pairwise.nil⟩
  | append_singleton front effect ih =>
      obtain ⟨bounds, ordered⟩ := ih
      rw [itemsOf_snoc, List.length_append, List.length_singleton]
      have last (item : IniItem) (member : item ∈ (itemOf front effect).toList) : item.line = front.length + 1 :=
        itemOf_line (Option.mem_toList.mp member)
      constructor
      · intro item member
        rcases List.mem_append.mp member with old | new
        · have bound := bounds item old
          omega
        · have line := last item new
          omega
      · rw [List.pairwise_append]
        refine ⟨ordered, ?_, ?_⟩
        · cases itemOf front effect with
          | none => exact List.Pairwise.nil
          | some item => exact List.pairwise_singleton _ item
        · intro first member second other
          have bound := bounds first member
          have line := last second other
          omega

/-- The number of the line of an item, and zero without an item. -/
def errorLine (item : Option IniItem) : Nat := item.elim 0 IniItem.line

/-- The first error is kept. -/
theorem errorLine_or {first : Option IniItem} (counted : ∀ item, first = some item → 0 < item.line)
    (second : Option IniItem) :
    errorLine (first.or second) = if errorLine first = 0 then errorLine second else errorLine first := by
  cases first with
  | none => rfl
  | some item =>
      have positive := counted item rfl
      exact (if_neg positive.ne').symm

/-- The reader behind some lines stands where their effects lead. -/
structure ReadBehind (handler : IniHandler S) (user : S) (effects : List IniEffect) (state : IniState S) : Prop where
  sec : state.sec = sectionBehind effects
  prevName : state.prevName = nameBehind effects
  lineno : state.lineno = effects.length
  reached : state.user = Machine.run (judge handler) user (itemsOf effects)
  error : state.error = errorLine (Machine.rejected (judge handler) user (itemsOf effects))

section Lines

variable {handler : IniHandler S} {user : S} {effects : List IniEffect} {state : IniState S}
  (behind : ReadBehind handler user effects state)

include behind

theorem ReadBehind.snoc_error (more : List IniItem) :
    errorLine (Machine.rejected (judge handler) user (itemsOf effects ++ more)) =
      if state.error = 0 then errorLine (Machine.rejected (judge handler) state.user more) else state.error := by
  rw [Machine.rejected_append, errorLine_or, behind.error, behind.reached]
  intro item found
  exact ((itemsOf_lines effects).1 item (Machine.mem_of_rejected found)).1

/-- A line without an item changes only the place of the reader. -/
theorem ReadBehind.quiet {effect : IniEffect} {next : IniState S} (silent : itemOf effects effect = none)
    (sec : next.sec = effect.opened.getD (sectionBehind effects))
    (prevName : next.prevName = effect.named.getD (nameBehind effects)) (lineno : next.lineno = effects.length + 1)
    (user' : next.user = state.user) (error : next.error = state.error) :
    ReadBehind handler user (effects ++ [effect]) next where
  sec := by rw [sectionBehind_snoc, sec]
  prevName := by rw [nameBehind_snoc, prevName]
  lineno := by rw [lineno, List.length_append, List.length_singleton]
  reached := by rw [itemsOf_snoc, silent, user', behind.reached, Option.toList_none, List.append_nil]
  error := by rw [itemsOf_snoc, silent, error, behind.error, Option.toList_none, List.append_nil]

/-- A line with an item is judged, and its rejection is kept as the first error. -/
theorem ReadBehind.item {effect : IniEffect} {item : IniItem} {next : IniState S}
    (found : itemOf effects effect = some item) (sec : next.sec = effect.opened.getD (sectionBehind effects))
    (prevName : next.prevName = effect.named.getD (nameBehind effects)) (lineno : next.lineno = effects.length + 1)
    (moved : next.user = (judge handler state.user item).1)
    (error : next.error =
      if state.error = 0 then if (judge handler state.user item).2 then 0 else item.line else state.error) :
    ReadBehind handler user (effects ++ [effect]) next where
  sec := by rw [sectionBehind_snoc, sec]
  prevName := by rw [nameBehind_snoc, prevName]
  lineno := by rw [lineno, List.length_append, List.length_singleton]
  reached := by
    rw [itemsOf_snoc, found, Option.toList_some, Machine.run_append, Machine.run_singleton, ← behind.reached, moved]
  error := by
    rw [itemsOf_snoc, found, Option.toList_some, behind.snoc_error, error, Machine.rejected]
    split
    · split <;> rfl
    · rfl

/-- A call judges the entry of its line. -/
theorem ReadBehind.call {effect : IniEffect} (named : List Byte) {name value : List Byte}
    (found : itemOf effects effect = some ⟨effects.length + 1, some ⟨sectionBehind effects, name, value⟩⟩)
    (opened : effect.opened = none) (prevName : named = effect.named.getD (nameBehind effects)) :
    ReadBehind handler user (effects ++ [effect])
      ({ state with lineno := effects.length + 1, prevName := named }.call handler name value) := by
  have judged : judge handler state.user ⟨effects.length + 1, some ⟨sectionBehind effects, name, value⟩⟩ =
      handler state.user state.sec name value := by
    rw [behind.sec]
    rfl
  apply behind.item found
  · rw [opened, IniState.call]
    dsimp only
    split <;> exact behind.sec
  · rw [← prevName, IniState.call]
    dsimp only
    split <;> rfl
  · rw [IniState.call]
    dsimp only
    split <;> rfl
  · rw [judged, IniState.call]
    dsimp only
    split <;> rfl
  · rw [judged, IniState.call]
    dsimp only
    generalize handler state.user state.sec name value = result
    obtain ⟨moved, accepted⟩ := result
    cases accepted with
    | true => simp
    | false => simp [IniState.fail]

/-- Each line keeps the reader behind the effects. -/
theorem ReadBehind.line (chunk : List Byte) :
    ReadBehind handler user
      (effects ++ [lineEffect (effects.length = 0) (nameBehind effects ≠ []) (cString chunk)])
      (iniLine handler state chunk) := by
  rw [iniLine_eq, behind.lineno, behind.prevName]
  cases lineEffect (effects.length = 0) (nameBehind effects ≠ []) (cString chunk) with
  | skip => exact behind.quiet rfl behind.sec rfl rfl rfl rfl
  | opens name => exact behind.quiet rfl rfl rfl rfl rfl rfl
  | fail =>
      apply behind.item rfl behind.sec rfl rfl rfl
      simp [IniEffect.apply, IniState.fail, judge]
  | continues value => exact behind.call (nameBehind effects) rfl rfl rfl
  | entry name value => exact behind.call (strncpy0 name maxName) rfl rfl rfl

end Lines

/-- The items of every file and the answers of every handler decide the result of the parser. -/
theorem iniParseFile_items (handler : IniHandler S) (file : List Byte) (user : S) :
    ReadBehind handler user (effectsOf (fgetsLines iniMaxLine [] file)) (iniParseFile handler file user) := by
  rw [iniParseFile]
  induction fgetsLines iniMaxLine [] file using List.reverseRecOn with
  | nil => exact ⟨rfl, rfl, rfl, rfl, rfl⟩
  | append_singleton chunks chunk ih =>
      rw [effectsOf_snoc, List.foldl_append]
      exact ih.line chunk

/-- Two items of one line are the same. -/
theorem iniItems_unique {file : List Byte} {first second : IniItem} (one : first ∈ iniItems file)
    (two : second ∈ iniItems file) (same : first.line = second.line) : first = second := by
  have ordered := (itemsOf_lines (effectsOf (fgetsLines iniMaxLine [] file))).2
  have distinct : ((iniItems file).map IniItem.line).Nodup :=
    List.pairwise_map.mpr (ordered.imp fun less => less.ne)
  exact List.inj_on_of_nodup_map distinct one two same

/-- Every handler gets the same entries in their order, and the result is the line of the first rejected item. -/
theorem iniParse_items (handler : IniHandler S) (calls : FileCalls) (file : List Byte) (user : S)
    (opened : calls.fopenRead = true) :
    ParsesItems handler user (iniItems file) (iniParse handler calls (some file) user) := by
  have behind := iniParseFile_items handler file user
  have counted := (itemsOf_lines (effectsOf (fgetsLines iniMaxLine [] file))).1
  have result : iniParse handler calls (some file) user =
      ((errorLine (Machine.rejected (judge handler) user (iniItems file)) : Int),
        Machine.run (judge handler) user (iniItems file)) := by
    simp only [iniParse, opened, Bool.true_eq_false, if_false]
    rw [behind.error, behind.reached]
    rfl
  rw [result]
  cases found : Machine.rejected (judge handler) user (iniItems file) with
  | none =>
      refine ⟨rfl, by simp [errorLine, found], fun item => ?_⟩
      rw [found]
      refine iff_of_false (by simp) ?_
      rintro ⟨member, zero⟩
      have positive := (counted item member).1
      simp only [errorLine, Option.elim_none] at zero
      omega
  | some other =>
      have inside := Machine.mem_of_rejected found
      have positive := (counted other inside).1
      refine ⟨rfl, ?_, fun item => ?_⟩
      · rw [found]
        simp [errorLine, positive.ne']
      · rw [found]
        constructor
        · intro same
          obtain rfl := Option.some.inj same
          exact ⟨inside, rfl⟩
        · rintro ⟨member, line⟩
          have same : other.line = item.line := Int.ofNat_inj.mp line
          rw [iniItems_unique inside member same]

/-- The third line continues the second one, and the fourth line has no value. -/
def continuedFile : List Byte := stringBytes "[a]\nx=1\n y\nbad\nz=2\n"

example : (iniParse record fileCallsDone (some continuedFile) []).1 = 4 := by decide

theorem iniParse_items_continued :
    ParsesItems record [] (iniItems continuedFile) (iniParse record fileCallsDone (some continuedFile) []) :=
  iniParse_items record fileCallsDone continuedFile [] rfl

end Psuart

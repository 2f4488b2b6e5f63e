import Psuart.Model.IniInt
import Psuart.Proof.Ini.Bounds
import Psuart.Proof.Ini.ProfileRuns
import Psuart.Proof.Utils.Addresses

namespace Psuart

/-- The loop of `atoi` adds one digit. -/
def atoiStep (value : CInt) (c : Byte) : CInt := value * 10 + promoteChar c - promoteChar (charByte '0')

/-- The loop over the digits of a number wraps to it. -/
theorem atoiStep_digits {digits : List Nat} (bound : ∀ digit ∈ digits, digit < 10) :
    (digits.map (Printf.digitCode false)).foldl atoiStep 0 = BitVec.ofNat 32 (Radix.value 10 digits) := by
  induction digits using List.reverseRecOn with
  | nil => rfl
  | append_singleton front last ih =>
      rw [List.forall_mem_append, List.forall_mem_singleton] at bound
      have code : ∀ digit : Fin 10, promoteChar (Printf.digitCode false digit) =
          BitVec.ofNat 32 digit + promoteChar (charByte '0') := by decide
      have char := code ⟨last, bound.2⟩
      rw [List.map_append, List.foldl_append, ih bound.1, Radix.value_append_singleton, BitVec.ofNat_add,
        BitVec.ofNat_mul]
      simp only [List.map_cons, List.map_nil, List.foldl_cons, List.foldl_nil, atoiStep, char]
      rw [← BitVec.add_assoc, BitVec.add_sub_cancel]
      rfl

theorem decimal_steps (number : Nat) : (decimal number).foldl atoiStep 0 = BitVec.ofNat 32 number := by
  rw [decimal_digitText, digitText, atoiStep_digits (Radix.digits_lt (by decide) number), Radix.value_digits]

/-- A text of digits is read up to its end. -/
theorem atoi_signed (number : Int) : atoi (intText number) = BitVec.ofInt 32 number := by
  have digits := decimal_digits number.natAbs
  have steps := decimal_steps number.natAbs
  have visible : cString (intText number) = intText number := by
    apply cString_eq
    rw [intText, signText, List.mem_append, not_or]
    exact ⟨by split <;> decide, decimal_free (by decide) _⟩
  have marks : ∀ c : Byte, isDecimalDigit c = true → isspace c = false ∧ c ≠ charByte '-' ∧ c ≠ charByte '+' := by
    decide
  obtain ⟨first, rest, text⟩ := List.exists_cons_of_ne_nil (decimal_ne_nil number.natAbs)
  have kinds := marks first (digits first (by rw [text]; exact List.mem_cons_self))
  have whole : (decimal number.natAbs).takeWhile (fun c => charByte '0' ≤ c ∧ c ≤ charByte '9') =
      decimal number.natAbs := List.takeWhile_eq_self_iff.mpr digits
  have value : (decimal number.natAbs).foldl
      (fun (value : CInt) c => value * 10 + promoteChar c - promoteChar (charByte '0')) 0 =
        BitVec.ofNat 32 number.natAbs := steps
  rw [atoi, visible]
  by_cases negative : number < 0
  · have start : intText number = charByte '-' :: decimal number.natAbs := by
      rw [intText, signText, if_pos negative]
      rfl
    have same : number = -(number.natAbs : Int) := by omega
    have minus : isspace (charByte '-') = false := by decide
    rw [start, List.dropWhile_cons_of_neg (by rw [minus]; decide)]
    simp only [List.head?_cons, List.tail_cons, true_or, if_true, whole, value]
    conv_rhs => rw [same, BitVec.ofInt_neg, BitVec.ofInt_natCast]
  · have start : intText number = decimal number.natAbs := by
      rw [intText, signText, if_neg negative]
      rfl
    have same : number = (number.natAbs : Int) := by omega
    have plain : (decimal number.natAbs).dropWhile isspace = decimal number.natAbs := by
      rw [text, List.dropWhile_cons_of_neg (by rw [kinds.1]; decide)]
    have unsigned (mark : Byte) (other : first ≠ mark) : ¬(decimal number.natAbs).head? = some mark := by
      rw [text, List.head?_cons]
      exact fun head => other (Option.some.inj head)
    rw [start, plain]
    simp only [unsigned _ kinds.2.1, unsigned _ kinds.2.2, or_self, if_false, whole, value]
    conv_rhs => rw [same, BitVec.ofInt_natCast]

/-- The conversion stops at the terminator. -/
theorem atoi_cString (str : List Byte) : atoi (cString str) = atoi str := by
  have same : cString (cString str) = cString str := cString_eq (cString_nonzero str)
  rw [atoi, atoi, same]

theorem intText_short {number : Int} (low : -2 ^ 31 ≤ number) (high : number < 2 ^ 31) :
    (intText number).length < 32 := by
  have small : number.natAbs < 10 ^ 10 := by omega
  have digits : (decimal number.natAbs).length ≤ 10 := by
    rw [decimal_digitText, digitText, List.length_map, Radix.digits]
    split
    · decide
    · rw [List.length_reverse]
      exact (Nat.digits_length_le_iff (by decide) _).mpr small
  have sign : (signText number).length ≤ 1 := by
    rw [signText]
    split <;> decide
  rw [intText, List.length_append]
  omega

section Runs

variable {secs : List SectionKey} {keys : List EntryKey} (apart : Apart secs) (others : Apart keys)
include apart others

/-- Behind any run of writes the reader gives each 32-bit number that was printed last, and the default for no write. -/
theorem readProfileInt_stores {writes : List ProfileWrite}
    (inside : ∀ write ∈ writes, write.sec ∈ secs ∧ write.key ∈ keys) (fits : ProfileFits [] writes) :
    ∃ stored, profileRun none writes = .ok (true, stored) ∧
      ∀ sec ∈ secs, ∀ key ∈ keys, ∀ defaultValue,
        (latestWrite sec key writes = none →
          readProfileInt fileCallsDone sec.val key.val defaultValue stored = .ok defaultValue) ∧
        ∀ number, -2 ^ 31 ≤ number → number < 2 ^ 31 →
          (latestWrite sec key writes).map Subtype.val = some (intText number) →
            readProfileInt fileCallsDone sec.val key.val defaultValue stored = .ok (BitVec.ofInt 32 number) := by
  have empty : Profile.Within secs keys [] := ⟨List.nodup_nil, List.forall_mem_nil _⟩
  have holds : (none : Option (List Byte)).getD [] = Profile.text [] := rfl
  obtain ⟨stored, run, text, within⟩ := (profileRun_text apart others inside empty holds (by decide)).1 fits
  have small := fits writes.length (Nat.le_refl _)
  rw [List.take_length] at small
  refine ⟨stored, run, ?_⟩
  intro sec named key keyed defaultValue
  have read : readProfileString fileCallsDone sec.val key.val (List.replicate 32 0) none stored = _ :=
    readProfileString_profile apart others within named keyed text small (by decide) none
  rw [Store.get_run] at read
  have latest : latestWrite sec key writes =
      Settings.latest (Store.Update.sets sec key) (Store.get sec key []) writes := rfl
  rw [readProfileInt, read, latest]
  constructor
  · intro absent
    rw [absent]
    rfl
  · intro number low high printed
    obtain ⟨value, present, same⟩ := Option.map_eq_some_iff.mp printed
    have string := readBuffer_string (fun c member => (value.property.1 c member).2.1)
      (show value.val.length < 32 by rw [same]; exact intText_short low high)
    rw [present]
    simp only [Except.map, Option.elim_some, if_true, List.length_replicate]
    rw [← atoi_cString, string, same, atoi_signed]

end Runs

/-- The number -2147483648 is stored and read, and an absent key gives the default. -/
theorem readProfileInt_stores_least :
    ∃ stored, profileRun none [⟨netSection, portKey, shortText "-2147483648" rfl (by decide)⟩] = .ok (true, stored) ∧
      readProfileInt fileCallsDone netSection.val portKey.val 7 stored = .ok (BitVec.ofInt 32 (-2147483648)) ∧
        readProfileInt fileCallsDone netSection.val nameKey.val 7 stored = .ok 7 := by
  have apart : Apart [netSection] := by unfold Apart; decide
  have others : Apart [portKey, nameKey] := by unfold Apart; decide
  have inside : ∀ write ∈ ([⟨netSection, portKey, shortText "-2147483648" rfl (by decide)⟩] : List ProfileWrite),
      write.sec ∈ [netSection] ∧ write.key ∈ [portKey, nameKey] := by decide
  obtain ⟨stored, run, reads⟩ := readProfileInt_stores apart others inside (by unfold ProfileFits; decide)
  exact ⟨stored, run, (reads netSection (by decide) portKey (by decide) 7).2 _ (by decide) (by decide) (by decide),
    (reads netSection (by decide) nameKey (by decide) 7).1 (by decide)⟩

end Psuart

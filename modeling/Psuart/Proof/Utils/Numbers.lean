import Psuart.Proof.Utils.Strings
import Psuart.Spec.Literal

namespace Psuart

def isDecimalDigit (c : Byte) : Bool := charByte '0' ≤ c ∧ c ≤ charByte '9'

/-- The code that one round adds to its product. -/
def charRead (c : Byte) : Nat := if isDecimalDigit c then c.toNat else (c ||| 0x20).toNat

/-- The code that one round subtracts again. -/
def charBase (c : Byte) : Nat :=
  if isDecimalDigit c then (charByte '0').toNat
  else if isLowerDigit c then (charByte 'a').toNat - 10 else (charByte 'A').toNat - 10

/-- The digit that one round adds. -/
def charDigit (c : Byte) : Nat := charRead c - charBase c

/-- A round of the radix adds the character. -/
def Spells (radix : CInt) (c : Byte) : Prop :=
  isDecimalDigit c = true ∨ radix = 16 ∧ (isLowerDigit c = true ∨ isUpperDigit c = true)

theorem charBase_le (c : Byte) : charBase c ≤ 87 := by
  revert c
  decide

/-- The three kinds of characters that a round adds. -/
theorem charRead_cases (c : Byte) :
    (isDecimalDigit c = true → charRead c = c.toNat ∧ charBase c = 48 ∧ 48 ≤ c.toNat ∧ c.toNat ≤ 57) ∧
      (isLowerDigit c = true → isDecimalDigit c = false ∧ (c ||| 0x20) = c ∧ charRead c = c.toNat ∧
        charBase c = 87 ∧ 97 ≤ c.toNat ∧ c.toNat ≤ 102) ∧
      (isUpperDigit c = true → isDecimalDigit c = false ∧ isLowerDigit c = false ∧
        charRead c = c.toNat + 32 ∧ charBase c = 55 ∧ 65 ≤ c.toNat ∧ c.toNat ≤ 70) := by
  revert c
  decide

theorem promoteChar_digit {c : Byte} (digit : isDecimalDigit c = true) :
    promoteChar c = BitVec.ofNat 32 (charRead c) := by
  revert c
  decide

theorem promoteChar_letter {c : Byte} (letter : isLowerDigit c = true ∨ isUpperDigit c = true) :
    promoteChar c ||| 0x20 = BitVec.ofNat 32 (charRead c) := by
  revert c
  decide

theorem toInt_small {value : CInt} (small : value.toNat < 2 ^ 31) : value.toInt = value.toNat := by
  rw [BitVec.toInt_eq_toNat_cond, if_pos (by omega)]

/-- The radix allows one of three rounds. -/
theorem Spells.cases {radix : CInt} {c : Byte} (spells : Spells radix c) :
    (charByte '0' ≤ c ∧ c ≤ charByte '9') ∧ isDecimalDigit c = true ∨
      ¬(charByte '0' ≤ c ∧ c ≤ charByte '9') ∧
        ((radix = 16 ∧ charByte 'a' ≤ c ∧ c ≤ charByte 'f') ∧ isLowerDigit c = true ∨
          ¬(radix = 16 ∧ charByte 'a' ≤ c ∧ c ≤ charByte 'f') ∧
            (radix = 16 ∧ charByte 'A' ≤ c ∧ c ≤ charByte 'F') ∧ isUpperDigit c = true) := by
  obtain ⟨_, lower, upper⟩ := charRead_cases c
  rcases spells with digit | ⟨same, small | capital⟩
  · exact Or.inl ⟨of_decide_eq_true digit, digit⟩
  · exact Or.inr ⟨of_decide_eq_false (lower small).1, Or.inl ⟨⟨same, of_decide_eq_true small⟩, small⟩⟩
  · have small : ¬(radix = 16 ∧ charByte 'a' ≤ c ∧ c ≤ charByte 'f') :=
      fun both => of_decide_eq_false (upper capital).2.1 both.2
    exact Or.inr ⟨of_decide_eq_false (upper capital).1,
      Or.inr ⟨small, ⟨same, of_decide_eq_true capital⟩, capital⟩⟩

variable {radix value : CInt} {c : Byte}

/-- The results of a round fit exactly when its largest one does. -/
theorem strToIntDigitValues_fit (base : radix.toNat ≤ 16) (small : value.toNat < 2 ^ 31)
    (spells : Spells radix c) :
    (∀ result ∈ strToIntDigitValues radix value c, -2 ^ 31 ≤ result ∧ result < 2 ^ 31) ↔
      value.toNat * radix.toNat + charRead c < 2 ^ 31 := by
  obtain ⟨digit, lower, upper⟩ := charRead_cases c
  have product : value.toInt * radix.toInt = ((value.toNat * radix.toNat : Nat) : Int) := by
    rw [toInt_small small, toInt_small (by omega), Nat.cast_mul]
  have code (read : charRead c < 2 ^ 31) : (BitVec.ofNat 32 (charRead c)).toInt = charRead c := word_toInt read
  have zero : (promoteChar (charByte '0')).toInt = 48 := by decide
  have first : (promoteChar (charByte 'a')).toInt = 97 := by decide
  have capital : (promoteChar (charByte 'A')).toInt = 65 := by decide
  rw [strToIntDigitValues, product]
  generalize value.toNat * radix.toNat = total
  rcases spells.cases with ⟨inside, is⟩ | ⟨outside, ⟨inside, is⟩ | ⟨other, inside, is⟩⟩
  · have range := digit is
    rw [if_pos inside, promoteChar_digit is, code (by omega), zero]
    simp only [List.forall_mem_cons, List.not_mem_nil, false_implies, implies_true, and_true]
    omega
  · have range := lower is
    rw [if_neg outside, if_pos inside, promoteChar_letter (Or.inl is), code (by omega), first]
    simp only [List.forall_mem_cons, List.not_mem_nil, false_implies, implies_true, and_true]
    omega
  · have range := upper is
    rw [if_neg outside, if_neg other, if_pos inside, promoteChar_letter (Or.inr is), code (by omega), capital]
    simp only [List.forall_mem_cons, List.not_mem_nil, false_implies, implies_true, and_true]
    omega

/-- A round whose results fit adds the digit of its character. -/
theorem strToIntDigit_toNat (spells : Spells radix c)
    (fits : value.toNat * radix.toNat + charRead c < 2 ^ 31) :
    (strToIntDigit radix value c).toNat = value.toNat * radix.toNat + charDigit c := by
  obtain ⟨digit, lower, upper⟩ := charRead_cases c
  have product : (value * radix).toNat = value.toNat * radix.toNat := by
    rw [BitVec.toNat_mul, Nat.mod_eq_of_lt (by omega)]
  have zero : promoteChar (charByte '0') = 48#32 := by decide
  have first : promoteChar (charByte 'a') = 97#32 := by decide
  have capital : promoteChar (charByte 'A') = 65#32 := by decide
  have code : (BitVec.ofNat 32 (charRead c)).toNat = charRead c := word_toNat (by omega)
  rw [strToIntDigit, ← product, charDigit]
  rw [← product] at fits
  generalize value * radix = total at *
  rcases spells.cases with ⟨inside, is⟩ | ⟨outside, ⟨inside, is⟩ | ⟨other, inside, is⟩⟩
  · have range := digit is
    rw [if_pos inside, promoteChar_digit is, zero, BitVec.toNat_sub, BitVec.toNat_add, code, BitVec.toNat_ofNat]
    omega
  · have range := lower is
    rw [if_neg outside, if_pos inside, promoteChar_letter (Or.inl is), first, BitVec.toNat_add, BitVec.toNat_sub,
      BitVec.toNat_add, code, BitVec.toNat_ofNat, show (10 : CInt).toNat = 10 from rfl]
    omega
  · have range := upper is
    rw [if_neg outside, if_neg other, if_pos inside, promoteChar_letter (Or.inr is), capital, BitVec.toNat_add,
      BitVec.toNat_sub, BitVec.toNat_add, code, BitVec.toNat_ofNat, show (10 : CInt).toNat = 10 from rfl]
    omega

theorem strToIntLoopValues_append (radix value : CInt) (front back : List Byte) :
    strToIntLoopValues radix value (front ++ back) =
      strToIntLoopValues radix value front ++
        strToIntLoopValues radix (front.foldl (strToIntDigit radix) value) back := by
  induction front generalizing value with
  | nil => rfl
  | cons c rest ih =>
      rw [List.cons_append, strToIntLoopValues, ih, strToIntLoopValues, List.append_assoc, List.foldl_cons]

/-- The value of the digits that the loop adds. -/
def spelledValue (radix : CInt) (str : List Byte) : Nat := Radix.value radix.toNat (str.map charDigit)

/-- The results of the loop fit into an `int`. -/
def LoopFits (radix : CInt) (str : List Byte) : Prop :=
  ∀ result ∈ strToIntLoopValues radix 0 str, -2 ^ 31 ≤ result ∧ result < 2 ^ 31

theorem spelledValue_snoc (radix : CInt) (front : List Byte) (last : Byte) :
    spelledValue radix (front ++ [last]) = spelledValue radix front * radix.toNat + charDigit last := by
  rw [spelledValue, List.map_append, List.map_singleton, Radix.value_append_singleton, spelledValue]

/-- A loop whose results fit reads the value of its digits. -/
theorem strToIntLoop_toNat {str : List Byte} (base : radix.toNat ≤ 16) (spells : ∀ c ∈ str, Spells radix c)
    (fits : LoopFits radix str) :
    (str.foldl (strToIntDigit radix) 0).toNat = spelledValue radix str ∧ spelledValue radix str < 2 ^ 31 := by
  induction str using List.reverseRecOn with
  | nil => exact ⟨rfl, Nat.two_pow_pos 31⟩
  | append_singleton front last ih =>
      rw [LoopFits, strToIntLoopValues_append, List.forall_mem_append] at fits
      obtain ⟨total, limit⟩ := ih (fun c member => spells c (List.mem_append_left _ member)) fits.1
      have here := spells last (by simp)
      have round := fits.2
      rw [strToIntLoopValues, strToIntLoopValues, List.append_nil,
        strToIntDigitValues_fit base (total ▸ limit) here] at round
      have next := strToIntDigit_toNat here round
      rw [List.foldl_append, List.foldl_cons, List.foldl_nil, next, total, spelledValue_snoc]
      rw [total] at round
      refine ⟨rfl, ?_⟩
      rw [charDigit]
      omega

theorem loopFits_snoc {front : List Byte} {last : Byte} (base : radix.toNat ≤ 16)
    (spells : ∀ c ∈ front ++ [last], Spells radix c) :
    LoopFits radix (front ++ [last]) ↔
      LoopFits radix front ∧ spelledValue radix front * radix.toNat + charRead last < 2 ^ 31 := by
  rw [LoopFits, strToIntLoopValues_append, List.forall_mem_append]
  refine and_congr_right fun fits => ?_
  obtain ⟨total, limit⟩ :=
    strToIntLoop_toNat base (fun c member => spells c (List.mem_append_left _ member)) fits
  rw [strToIntLoopValues, strToIntLoopValues, List.append_nil,
    strToIntDigitValues_fit base (total ▸ limit) (spells last (by simp)), total]

/-- The last round holds the largest result of the loop. -/
theorem loopFits_iff {front : List Byte} {last : Byte} (base : radix.toNat ≤ 16) (least : 2 ≤ radix.toNat)
    (spells : ∀ c ∈ front ++ [last], Spells radix c) :
    LoopFits radix (front ++ [last]) ↔ spelledValue radix front * radix.toNat + charRead last < 2 ^ 31 := by
  rw [loopFits_snoc base spells, and_iff_right_iff_imp]
  induction front using List.reverseRecOn generalizing last with
  | nil => exact fun _ => List.forall_mem_nil _
  | append_singleton front before ih =>
      intro final
      have inside : ∀ c ∈ front ++ [before], Spells radix c :=
        fun c member => spells c (List.mem_append_left _ member)
      have digit := spelledValue_snoc radix front before
      have lower := charBase_le before
      have product := Nat.mul_le_mul_left (spelledValue radix (front ++ [before])) least
      have fits : spelledValue radix front * radix.toNat + charRead before < 2 ^ 31 := by
        rw [charDigit] at digit
        omega
      exact (loopFits_snoc base inside).mpr ⟨ih inside fits, fits⟩

/-- The digit that a character stands for. -/
def plainDigit (c : Byte) : Nat := if isUpperDigit c then charDigit c - 32 else charDigit c

/-- A letter in upper case adds too much, and every other character adds its digit. -/
theorem digitCode_spelled : ∀ digit : Fin 16, ∀ c : Byte, tolower c = Printf.digitCode false digit →
    plainDigit c = digit ∧ (isUpperDigit c = true → charDigit c = digit + 32) ∧
      (isDecimalDigit c = true ∨ 10 ≤ digit.val ∧ (isLowerDigit c = true ∨ isUpperDigit c = true)) := by
  decide +kernel

theorem plainDigit_le (c : Byte) : plainDigit c ≤ charDigit c := by
  unfold plainDigit
  split <;> omega

/-- A text that spells digits in any case is read digit by digit. -/
theorem spelled_digits {digits : List Nat} (bound : ∀ digit ∈ digits, digit < 16) {str : List Byte}
    (spelled : str.map tolower = digits.map (Printf.digitCode false)) :
    str.map plainDigit = digits ∧
      ∀ c ∈ str, ∃ digit ∈ digits, ∃ small : digit < 16,
        tolower c = Printf.digitCode false (Fin.mk digit small) := by
  induction digits generalizing str with
  | nil =>
      rw [List.map_nil, List.map_eq_nil_iff] at spelled
      rw [spelled]
      exact ⟨rfl, List.forall_mem_nil _⟩
  | cons digit rest ih =>
      cases str with
      | nil => cases spelled
      | cons c tail =>
          rw [List.map_cons, List.map_cons, List.cons.injEq] at spelled
          obtain ⟨small, others⟩ := List.forall_mem_cons.mp bound
          obtain ⟨same, each⟩ := ih others spelled.2
          refine ⟨?_, List.forall_mem_cons.mpr ⟨⟨digit, List.mem_cons_self .., small, spelled.1⟩, ?_⟩⟩
          · rw [List.map_cons, same, (digitCode_spelled ⟨digit, small⟩ c spelled.1).1]
          · intro d member
            obtain ⟨other, inside, less, code⟩ := each d member
            exact ⟨other, List.mem_cons_of_mem _ inside, less, code⟩

theorem digitText_ne_nil (base number : Nat) : digitText base number ≠ [] := by
  rw [digitText, ne_eq, List.map_eq_nil_iff]
  exact Radix.digits_ne_nil base number

/-- The three radices of the function. -/
inductive LiteralRadix : CInt → Prop where
  | octal : LiteralRadix 8
  | decimal : LiteralRadix 10
  | hex : LiteralRadix 16

theorem LiteralRadix.bounds {radix : CInt} (literal : LiteralRadix radix) :
    2 ≤ radix.toNat ∧ radix.toNat ≤ 16 ∧ (radix = 16 ∨ radix.toNat ≤ 10) := by
  cases literal <;> decide

theorem LiteralRadix.digits_lt {radix : CInt} (literal : LiteralRadix radix) (number : Nat) :
    ∀ digit ∈ Radix.digits radix.toNat number, digit < radix.toNat ∧ digit < 16 := by
  obtain ⟨least, base, _⟩ := literal.bounds
  intro digit member
  have below := Radix.digits_lt (by omega) number digit member
  exact ⟨below, Nat.lt_of_lt_of_le below base⟩

section Spelled

variable {number : Nat} {str : List Byte} (literal : LiteralRadix radix)
  (spelled : str.map tolower = digitText radix.toNat number)
include literal spelled

theorem spelled_spells : ∀ c ∈ str, Spells radix c := by
  have bound := fun digit member => (literal.digits_lt number digit member).2
  intro c member
  obtain ⟨digit, inside, small, code⟩ := (spelled_digits bound spelled).2 c member
  have below := (literal.digits_lt number digit inside).1
  rcases (digitCode_spelled ⟨digit, small⟩ c code).2.2 with plain | ⟨large, letter⟩
  · exact Or.inl plain
  · rcases literal.bounds.2.2 with same | ten
    · exact Or.inr ⟨same, letter⟩
    · exact absurd (Nat.lt_of_lt_of_le below ten) (Nat.not_lt.mpr large)

/-- The letters in upper case make the value larger. -/
theorem spelledValue_spelled :
    number ≤ spelledValue radix str ∧
      (spelledValue radix str = number ↔ ∀ c ∈ str, isUpperDigit c = false) := by
  obtain ⟨least, _, _⟩ := literal.bounds
  obtain ⟨same, each⟩ := spelled_digits (fun digit member => (literal.digits_lt number digit member).2) spelled
  have value : Radix.value radix.toNat (str.map plainDigit) = number := by
    rw [same, Radix.value_digits]
  have below : ∀ c ∈ str, plainDigit c ≤ charDigit c := fun c _ => plainDigit_le c
  refine ⟨value ▸ Radix.value_map_le _ _ _ _ below, ?_, ?_⟩
  · intro equal c member
    have digits := Radix.value_map_eq (by omega) str plainDigit charDigit below (value.trans equal.symm) c member
    obtain ⟨digit, _, small, code⟩ := each c member
    rw [← Bool.not_eq_true]
    intro upper
    obtain ⟨plain, large, _⟩ := digitCode_spelled ⟨digit, small⟩ c code
    have := large upper
    omega
  · intro lower
    rw [← value, spelledValue]
    congr 1
    apply List.map_congr_left
    intro c member
    rw [plainDigit, if_neg (by rw [lower c member]; decide)]

/-- The loop reads the number without an overflow exactly when the digits are in lower case and the last
round fits. -/
theorem strToIntLoop_reads_iff :
    (LoopFits radix str ∧ (str.foldl (strToIntDigit radix) 0).toNat = number) ↔
      (∀ c ∈ str, isUpperDigit c = false) ∧ number + lastExcess str < 2 ^ 31 := by
  obtain ⟨least, base, _⟩ := literal.bounds
  have spells := spelled_spells literal spelled
  obtain ⟨below, same⟩ := spelledValue_spelled literal spelled
  have visible : str ≠ [] := by
    rintro rfl
    exact digitText_ne_nil _ _ spelled.symm
  obtain ⟨front, last, rfl⟩ := (List.eq_nil_or_concat' str).resolve_left visible
  have fits := loopFits_iff base least spells
  have value := spelledValue_snoc radix front last
  obtain ⟨digit, lower, _⟩ := charRead_cases last
  have excess : isUpperDigit last = false →
      charRead last = charDigit last + lastExcess (front ++ [last]) := by
    intro plain
    rw [lastExcess, List.getLast?_concat, Option.any_some]
    rcases spells last (by simp) with is | ⟨_, is | is⟩
    · have kind := digit is
      have other : isLowerDigit last = false := by
        rw [← Bool.not_eq_true]
        intro letter
        have := lower letter
        omega
      rw [other, charDigit, kind.1, kind.2.1]
      change last.toNat = last.toNat - 48 + 48
      omega
    · have kind := lower is
      rw [is, charDigit, kind.2.2.1, kind.2.2.2.1]
      change last.toNat = last.toNat - 87 + 87
      omega
    · rw [is] at plain
      cases plain
  constructor
  · rintro ⟨holds, result⟩
    obtain ⟨total, _⟩ := strToIntLoop_toNat base spells holds
    have exact := total.symm.trans result
    have plain := same.mp exact
    refine ⟨plain, ?_⟩
    have bound := fits.mp holds
    rw [excess (plain last (by simp))] at bound
    omega
  · rintro ⟨plain, bound⟩
    have exact := same.mpr plain
    have holds : LoopFits radix (front ++ [last]) := by
      rw [fits, excess (plain last (by simp))]
      omega
    exact ⟨holds, (strToIntLoop_toNat base spells holds).1.trans exact⟩

end Spelled

theorem cString_spelled {str : List Byte} (spells : ∀ c ∈ str, Spells radix c) : cString str = str := by
  apply cString_eq
  intro member
  rcases spells 0 member with digit | ⟨_, lower | upper⟩
  · cases digit
  · cases lower
  · cases upper

/-- The text behind the sign selects a radix and a loop, except for the single digit zero. -/
structure UnsignedForm (number : Nat) (body : List Byte) : Prop where
  visible : body ≠ []
  head : body.head? ≠ some (charByte '-')
  reads : body = [charByte '0'] ∧ number = 0 ∨
    ∃ radix str, LiteralRadix radix ∧ str.map tolower = digitText radix.toNat number ∧
      strToIntUnsigned body = str.foldl (strToIntDigit radix) 0 ∧
      strToIntUnsignedValues body = strToIntLoopValues radix 0 str ∧
      ((∀ c ∈ body, isUpperDigit c = false) ↔ ∀ c ∈ str, isUpperDigit c = false) ∧
      lastExcess body = lastExcess str

theorem digitText_tolower {base : Nat} (least : 1 < base) (most : base ≤ 16) (number : Nat) :
    (digitText base number).map tolower = digitText base number := by
  have plain : ∀ digit : Fin 16, tolower (Printf.digitCode false digit) = Printf.digitCode false digit := by
    decide
  rw [digitText, List.map_map]
  apply List.map_congr_left
  intro digit member
  have small := Nat.lt_of_lt_of_le (Radix.digits_lt least number digit member) most
  exact plain ⟨digit, small⟩

/-- Only the number zero is written with a leading zero. -/
theorem digitText_head {number : Nat} (positive : number ≠ 0) :
    (digitText 10 number).head? ≠ some (charByte '0') := by
  have head : (Radix.digits 10 number).head? ≠ some 0 := Radix.digits_head positive
  have bound := Radix.digits_lt (by decide : 1 < 10) number
  have zero : ∀ digit : Fin 10, Printf.digitCode false digit = charByte '0' → digit.val = 0 := by decide
  rw [digitText, List.head?_map]
  cases first : (Radix.digits 10 number).head? with
  | none => exact fun none => by cases none
  | some digit =>
      intro equal
      have small := bound digit (List.mem_of_mem_head? first)
      rw [first, ne_eq, Option.some.injEq] at head
      exact head (zero ⟨digit, small⟩ (Option.some.inj equal))

theorem lastExcess_append {str : List Byte} (visible : str ≠ []) (front : List Byte) :
    lastExcess (front ++ str) = lastExcess str := by
  rw [lastExcess, lastExcess, List.getLast?_append_of_ne_nil _ visible]

theorem spells_head {str : List Byte} (spells : ∀ c ∈ str, Spells radix c) :
    str.head? ≠ some (charByte '-') := by
  intro head
  rcases spells _ (List.mem_of_mem_head? head) with digit | ⟨_, lower | upper⟩
  · cases digit
  · cases lower
  · cases upper

/-- A number that does not start with a zero is read in radix ten. -/
theorem strToIntUnsigned_decimal {str : List Byte} (spells : ∀ c ∈ str, Spells 10 c) (visible : str ≠ [])
    (head : str.head? ≠ some (charByte '0')) :
    strToIntUnsigned str = str.foldl (strToIntDigit 10) 0 ∧
      strToIntUnsignedValues str = strToIntLoopValues 10 0 str := by
  have whole := cString_spelled spells
  cases str with
  | nil => exact absurd rfl visible
  | cons first rest =>
      have other : first ≠ charByte '0' := fun equal => head (congrArg some equal)
      cases rest with
      | nil =>
          rw [strToIntUnsigned, if_neg other, strToIntLoop, whole, strToIntUnsignedValues, if_neg other, whole]
          exact ⟨rfl, rfl⟩
      | cons second tail =>
          rw [strToIntUnsigned, if_neg (fun both => other both.1), if_neg other, strToIntLoop, whole,
            strToIntUnsignedValues, if_neg (fun both => other both.1), if_neg other, whole]
          exact ⟨rfl, rfl⟩

theorem unsignedForm_decimal (number : Nat) : UnsignedForm number (digitText 10 number) := by
  have lower : (digitText 10 number).map tolower = digitText (10 : CInt).toNat number :=
    digitText_tolower (by decide) (by decide) number
  have spells := spelled_spells .decimal lower
  refine ⟨digitText_ne_nil 10 number, spells_head spells, ?_⟩
  by_cases zero : number = 0
  · exact Or.inl ⟨by rw [zero]; rfl, zero⟩
  · obtain ⟨reads, values⟩ :=
      strToIntUnsigned_decimal spells (digitText_ne_nil 10 number) (digitText_head zero)
    exact Or.inr ⟨10, _, .decimal, lower, reads, values, Iff.rfl, rfl⟩

theorem unsignedForm_octal (number : Nat) : UnsignedForm number (charByte '0' :: digitText 8 number) := by
  have lower : (digitText 8 number).map tolower = digitText (8 : CInt).toNat number :=
    digitText_tolower (by decide) (by decide) number
  have spells := spelled_spells .octal lower
  have whole := cString_spelled spells
  have visible := digitText_ne_nil 8 number
  refine ⟨List.cons_ne_nil _ _, by rw [List.head?_cons]; decide,
    Or.inr ⟨8, digitText 8 number, .octal, lower, ?_⟩⟩
  cases text : digitText 8 number with
  | nil => exact absurd text visible
  | cons second rest =>
      rw [text] at spells whole
      have digit : ¬(second = charByte 'x' ∨ second = charByte 'X') := by
        rintro (rfl | rfl) <;>
          rcases spells _ (List.mem_cons_self ..) with is | ⟨_, is | is⟩ <;> cases is
      refine ⟨?_, ?_, ?_, lastExcess_append (List.cons_ne_nil _ _) [charByte '0']⟩
      · rw [strToIntUnsigned, if_neg (fun both => digit both.2), if_pos rfl, strToIntLoop, whole]
      · rw [strToIntUnsignedValues, if_neg (fun both => digit both.2), if_pos rfl, whole]
      · rw [List.forall_mem_cons]
        exact and_iff_right (by decide)

theorem unsignedForm_hex {number : Nat} {marker : Byte} (marked : marker = charByte 'x' ∨ marker = charByte 'X')
    {digits : List Byte} (spelled : digits.map tolower = digitText 16 number) :
    UnsignedForm number (charByte '0' :: marker :: digits) := by
  have lower : digits.map tolower = digitText (16 : CInt).toNat number := spelled
  have spells := spelled_spells .hex lower
  have whole := cString_spelled spells
  have visible : digits ≠ [] := by
    rintro rfl
    exact digitText_ne_nil _ _ spelled.symm
  refine ⟨List.cons_ne_nil _ _, by rw [List.head?_cons]; decide, Or.inr ⟨16, digits, .hex, lower, ?_, ?_, ?_,
    lastExcess_append visible [charByte '0', marker]⟩⟩
  · rw [strToIntUnsigned, if_pos ⟨rfl, marked⟩, strToIntLoop, whole]
  · rw [strToIntUnsignedValues, if_pos ⟨rfl, marked⟩, whole]
  · rw [List.forall_mem_cons, List.forall_mem_cons]
    refine (and_iff_right (by decide)).trans (and_iff_right ?_)
    rcases marked with rfl | rfl <;> decide

theorem IntLiteral.form {number : Int} {text : List Byte} (literal : IntLiteral number text) :
    ∃ body, text = signText number ++ body ∧ UnsignedForm number.natAbs body := by
  cases literal with
  | decimal => exact ⟨_, rfl, unsignedForm_decimal _⟩
  | octal => exact ⟨_, rfl, unsignedForm_octal _⟩
  | hex marker marked digits spelled => exact ⟨_, rfl, unsignedForm_hex marked spelled⟩

/-- The factor of the sign. -/
def signOf (number : Int) : Int := if number < 0 then -1 else 1

/-- The sign is read first and multiplied last. -/
theorem strToInt_signed (number : Int) {body : List Byte} (head : body.head? ≠ some (charByte '-')) :
    strToInt (signText number ++ body) = BitVec.ofInt 32 (signOf number) * strToIntUnsigned body ∧
      strToIntValues (signText number ++ body) =
        strToIntUnsignedValues body ++ [signOf number * (strToIntUnsigned body).toInt] := by
  unfold signText signOf
  split
  · exact ⟨rfl, rfl⟩
  · cases body with
    | nil => exact ⟨rfl, rfl⟩
    | cons first rest =>
        have other : first ≠ charByte '-' := fun equal => head (congrArg some equal)
        rw [List.nil_append, strToInt, if_neg other, strToIntValues, if_neg other]
        exact ⟨rfl, rfl⟩

theorem signed_toInt (number : Int) {value : CInt} (small : value.toNat < 2 ^ 31) :
    (BitVec.ofInt 32 (signOf number) * value).toInt = signOf number * value.toNat := by
  unfold signOf
  split
  · have negated : BitVec.ofInt 32 (-1) * value = -value := by
      rw [show BitVec.ofInt 32 (-1) = -1#32 by decide, BitVec.neg_mul, BitVec.one_mul]
    rw [negated, BitVec.toInt_eq_toNat_cond, BitVec.toNat_neg]
    split <;> omega
  · have same : BitVec.ofInt 32 1 * value = value := BitVec.one_mul value
    rw [same, toInt_small small, one_mul]

theorem signOf_natAbs (number : Int) (value : Nat) : signOf number * value = number ↔ value = number.natAbs := by
  unfold signOf
  split <;> omega

/-- A literal is read without an overflow exactly when its letters are in lower case and the last round
fits. -/
theorem strToInt_reads_iff (number : Int) (bound : number.natAbs ≤ 2 ^ 31 - 1) {text : List Byte}
    (literal : IntLiteral number text) :
    ((strToInt text).toInt = number ∧ NoOverflow text) ↔
      (∀ c ∈ text, isUpperDigit c = false) ∧ number.natAbs + lastExcess text ≤ 2 ^ 31 - 1 := by
  obtain ⟨body, rfl, visible, head, ⟨rfl, zero⟩ |
    ⟨radix, str, kind, spelled, reads, values, upper, excess⟩⟩ := literal.form
  · have single : number = 0 := Int.natAbs_eq_zero.mp zero
    rw [single]
    apply iff_of_true
    · exact ⟨rfl, by unfold NoOverflow; decide⟩
    · decide
  · obtain ⟨called, results⟩ := strToInt_signed number head
    have sign : (∀ c ∈ signText number ++ body, isUpperDigit c = false) ↔
        ∀ c ∈ body, isUpperDigit c = false := by
      rw [List.forall_mem_append]
      refine and_iff_right ?_
      unfold signText
      split <;> decide
    have loop := strToIntLoop_reads_iff kind spelled
    rw [sign, upper, lastExcess_append visible, excess, ← Nat.lt_iff_le_pred (by decide), ← loop, NoOverflow,
      called, results, List.forall_mem_append, List.forall_mem_singleton, reads, values]
    constructor
    · rintro ⟨result, fits, _⟩
      obtain ⟨total, limit⟩ := strToIntLoop_toNat kind.bounds.2.1 (spelled_spells kind spelled) fits
      rw [signed_toInt number (total ▸ limit), signOf_natAbs] at result
      exact ⟨fits, result⟩
    · rintro ⟨fits, result⟩
      have small : (str.foldl (strToIntDigit radix) 0).toNat < 2 ^ 31 := by omega
      rw [signed_toInt number small, signOf_natAbs, toInt_small small]
      refine ⟨result, fits, ?_⟩
      unfold signOf
      split <;> omega

/-- The letters of a negative literal are in lower case. -/
theorem strToInt_reads_hex :
    (strToInt (stringBytes "-0X7fffff00")).toInt = -2147483392 ∧ NoOverflow (stringBytes "-0X7fffff00") := by
  have text : stringBytes "-0X7fffff00" =
      signText (-2147483392) ++ charByte '0' :: charByte 'X' :: stringBytes "7fffff00" := by decide
  rw [text]
  exact (strToInt_reads_iff (-2147483392) (by decide)
    (.hex (charByte 'X') (Or.inr rfl) (stringBytes "7fffff00") (by decide))).mpr (by decide)

/-- A letter in upper case is read as a number above thirty, and the largest `int` overflows. -/
theorem strToInt_misreads :
    (IntLiteral 10 (stringBytes "0xA") ∧ (strToInt (stringBytes "0xA")).toInt = 42) ∧
      IntLiteral 2147483647 (stringBytes "2147483647") ∧ ¬NoOverflow (stringBytes "2147483647") := by
  refine ⟨⟨.hex (charByte 'x') (Or.inl rfl) [charByte 'A'] (by decide), by decide⟩, .decimal, ?_⟩
  unfold NoOverflow
  decide

end Psuart

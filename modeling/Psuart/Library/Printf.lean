import Mathlib.Data.List.Basic
import Mathlib.Data.Nat.Digits.Lemmas

namespace Printf

/-- The code of a character in the execution character set. -/
def code (char : Char) : BitVec 8 := BitVec.ofNat 8 char.toNat

/-- A conversion specification is read from its flags to its length modifiers. -/
inductive Phase where
  | flags
  | width
  | precision
  | length
  deriving DecidableEq

/-- The parts of a conversion specification before its conversion character. -/
structure Directive where
  phase : Phase := .flags
  minus : Bool := false
  plus : Bool := false
  space : Bool := false
  alternative : Bool := false
  zero : Bool := false
  width : Nat := 0
  precision : Option Nat := none
  shorts : Nat := 0
  deriving DecidableEq

def isDigit (byte : BitVec 8) : Bool := code '0' ≤ byte ∧ byte ≤ code '9'

def digitValue (byte : BitVec 8) : Nat := byte.toNat - (code '0').toNat

/-- The next character of a specification that is not complete yet. -/
def Directive.step (d : Directive) (byte : BitVec 8) : Option Directive :=
  if d.phase = .flags ∧ byte = code '-' then some { d with minus := true }
  else if d.phase = .flags ∧ byte = code '+' then some { d with plus := true }
  else if d.phase = .flags ∧ byte = code ' ' then some { d with space := true }
  else if d.phase = .flags ∧ byte = code '#' then some { d with alternative := true }
  else if d.phase = .flags ∧ byte = code '0' then some { d with zero := true }
  else if (d.phase = .flags ∨ d.phase = .width) ∧ isDigit byte then
    some { d with phase := .width, width := d.width * 10 + digitValue byte }
  else if (d.phase = .flags ∨ d.phase = .width) ∧ byte = code '.' then
    some { d with phase := .precision, precision := some 0 }
  else if d.phase = .precision ∧ isDigit byte then
    some { d with precision := some (d.precision.getD 0 * 10 + digitValue byte) }
  else if byte = code 'h' ∧ d.shorts < 2 then some { d with phase := .length, shorts := d.shorts + 1 }
  else none

/-- The digits behind nine are letters of the selected case. -/
def digitCode (upper : Bool) (digit : Nat) : BitVec 8 :=
  if digit < 10 then BitVec.ofNat 8 (48 + digit)
  else BitVec.ofNat 8 (digit - 10 + if upper then 65 else 97)

/-- The precision is the least number of digits, and it is one when it is not given. -/
def Directive.digits (d : Directive) (base : Nat) (upper : Bool) (value : Nat) : List (BitVec 8) :=
  let digits := (Nat.digits base value).reverse.map (digitCode upper)
  List.replicate (d.precision.getD 1 - digits.length) (code '0') ++ digits

/-- A short text is filled up to the width with blanks, or with zeros behind its sign. -/
def Directive.pad (d : Directive) (lead body : List (BitVec 8)) : List (BitVec 8) :=
  let missing := d.width - (lead.length + body.length)
  if d.minus then lead ++ body ++ List.replicate missing (code ' ')
  else if d.zero ∧ d.precision = none then lead ++ List.replicate missing (code '0') ++ body
  else List.replicate missing (code ' ') ++ lead ++ body

/-- The length modifiers `h` and `hh` narrow the argument. -/
def Directive.signedValue (d : Directive) (arg : BitVec 32) : Int :=
  if d.shorts = 0 then arg.toInt
  else if d.shorts = 1 then (arg.setWidth 16).toInt else (arg.setWidth 8).toInt

def Directive.unsignedValue (d : Directive) (arg : BitVec 32) : Nat :=
  if d.shorts = 0 then arg.toNat
  else if d.shorts = 1 then (arg.setWidth 16).toNat else (arg.setWidth 8).toNat

def Directive.sign (d : Directive) (value : Int) : List (BitVec 8) :=
  if value < 0 then [code '-'] else if d.plus then [code '+'] else if d.space then [code ' '] else []

def Directive.signed (d : Directive) (arg : BitVec 32) : Option (List (BitVec 8)) :=
  let value := d.signedValue arg
  if d.alternative then none
  else some (d.pad (d.sign value) (d.digits 10 false value.natAbs))

def Directive.unsigned (d : Directive) (base : Nat) (upper : Bool) (arg : BitVec 32) :
    Option (List (BitVec 8)) :=
  let value := d.unsignedValue arg
  let digits := d.digits base upper value
  if ¬d.alternative then some (d.pad [] digits)
  else if base = 16 then
    some (d.pad (if value = 0 then [] else [code '0', code (if upper then 'X' else 'x')]) digits)
  else if base = 8 then some (d.pad [] (if digits.head? = some (code '0') then digits else code '0' :: digits))
  else none

def Directive.character (d : Directive) (arg : BitVec 32) : Option (List (BitVec 8)) :=
  if d.alternative ∨ d.zero ∨ d.precision ≠ none ∨ d.shorts ≠ 0 then none
  else some (d.pad [] [arg.setWidth 8])

/-- The conversions of an `int` argument have a result, and the behaviour of all others is undefined. -/
def Directive.convert (d : Directive) (arg : BitVec 32) (byte : BitVec 8) : Option (List (BitVec 8)) :=
  if byte = code 'd' ∨ byte = code 'i' then d.signed arg
  else if byte = code 'u' then d.unsigned 10 false arg
  else if byte = code 'o' then d.unsigned 8 false arg
  else if byte = code 'x' then d.unsigned 16 false arg
  else if byte = code 'X' then d.unsigned 16 true arg
  else if byte = code 'c' then d.character arg
  else none

/-- The formatter stands in plain text or inside a conversion specification. -/
inductive State where
  | text
  | directive (d : Directive)

/-- The output of a format with at most one `int` argument, or nothing when the behaviour is undefined. -/
def format : State → Option (BitVec 32) → List (BitVec 8) → Option (List (BitVec 8))
  | .text, _, [] => some []
  | .directive _, _, [] => none
  | .text, arg, byte :: rest =>
      if byte = code '%' then format (.directive {}) arg rest
      else (format .text arg rest).map (byte :: ·)
  | .directive d, arg, byte :: rest =>
      match d.step byte with
      | some next => format (.directive next) arg rest
      | none =>
          if byte = code '%' ∧ d = {} then (format .text arg rest).map (code '%' :: ·)
          else match arg.bind fun value => d.convert value byte with
            | some text => (format .text none rest).map (text ++ ·)
            | none => none

/-- A format without a percent sign is copied. -/
theorem format_plain (arg : Option (BitVec 32)) {text : List (BitVec 8)} (plain : code '%' ∉ text) :
    format .text arg text = some text := by
  induction text with
  | nil => rfl
  | cons byte rest ih =>
      rw [List.mem_cons, not_or] at plain
      rw [format, if_neg (Ne.symm plain.1), ih plain.2]
      rfl

/-- A percent sign weighs more than any text that a conversion can print for it. -/
def weight (text : List (BitVec 8)) : Nat := 9 * text.count (code '%') + text.count (code 'c')

@[simp] theorem weight_nil : weight [] = 0 := rfl

@[simp] theorem weight_append (first second : List (BitVec 8)) :
    weight (first ++ second) = weight first + weight second := by
  simp only [weight, List.count_append]
  omega

theorem weight_cons (byte : BitVec 8) (rest : List (BitVec 8)) :
    weight (byte :: rest) = weight [byte] + weight rest :=
  weight_append [byte] rest

/-- A part of a text weighs at most as much. -/
theorem weight_sublist {part text : List (BitVec 8)} (inside : part.Sublist text) :
    weight part ≤ weight text := by
  have percent := inside.count_le (code '%')
  have letter := inside.count_le (code 'c')
  unfold weight
  omega

theorem weight_replicate {byte : BitVec 8} (light : weight [byte] = 0) (count : Nat) :
    weight (List.replicate count byte) = 0 := by
  induction count with
  | zero => rfl
  | succ count ih => rw [List.replicate_succ, weight_cons, light, ih]

theorem weight_byte_le (byte : BitVec 8) : weight [byte] ≤ 9 := by
  revert byte
  decide

theorem Directive.weight_pad (d : Directive) (lead body : List (BitVec 8)) :
    weight (d.pad lead body) = weight lead + weight body := by
  have blanks := weight_replicate (show weight [code ' '] = 0 by decide)
    (d.width - (lead.length + body.length))
  have zeros := weight_replicate (show weight [code '0'] = 0 by decide)
    (d.width - (lead.length + body.length))
  unfold Directive.pad
  dsimp only
  split
  · simp only [weight_append, blanks, Nat.add_zero]
  · split <;> simp only [weight_append, blanks, zeros, Nat.add_zero, Nat.zero_add]

/-- A decimal digit has no weight and a letter weighs at most one. -/
theorem weight_digitCode (upper : Bool) {digit : Nat} (hex : digit < 16) :
    weight [digitCode upper digit] ≤ if digit < 10 then 0 else 1 := by
  revert digit
  cases upper <;> decide

theorem weight_map_digitCode (upper : Bool) (digits : List Nat) (hex : ∀ digit ∈ digits, digit < 16) :
    weight (digits.map (digitCode upper)) ≤ digits.length ∧
      ((∀ digit ∈ digits, digit < 10) → weight (digits.map (digitCode upper)) = 0) := by
  induction digits with
  | nil => exact ⟨Nat.zero_le _, fun _ => rfl⟩
  | cons digit rest ih =>
      rw [List.forall_mem_cons] at hex
      obtain ⟨bound, decimal⟩ := ih hex.2
      have first := weight_digitCode upper hex.1
      rw [List.map_cons, weight_cons, List.length_cons]
      constructor
      · split at first <;> omega
      · intro small
        rw [List.forall_mem_cons] at small
        rw [if_pos small.1] at first
        rw [decimal small.2]
        omega

/-- The digits of a 32-bit number weigh less than a percent sign. -/
theorem Directive.weight_digits (d : Directive) {base : Nat} (upper : Bool) {value : Nat}
    (known : base = 8 ∨ base = 10 ∨ base = 16) (bound : value < 2 ^ 32) :
    weight (d.digits base upper value) ≤ 8 := by
  have below {digit : Nat} (member : digit ∈ (Nat.digits base value).reverse) : digit < base :=
    Nat.digits_lt_base (by omega) (List.mem_reverse.mp member)
  obtain ⟨long, decimal⟩ := weight_map_digitCode upper (Nat.digits base value).reverse
    fun digit member => by have := below member; omega
  have zeros := weight_replicate (show weight [code '0'] = 0 by decide)
  unfold Directive.digits
  dsimp only
  rw [weight_append, zeros, Nat.zero_add]
  by_cases hex : base = 16
  · refine Nat.le_trans long ?_
    rw [List.length_reverse, hex]
    exact (Nat.digits_length_le_iff (by omega) value).mpr bound
  · rw [decimal fun digit member => by have := below member; omega]
    omega

theorem Directive.signedValue_bound (d : Directive) (arg : BitVec 32) :
    (d.signedValue arg).natAbs < 2 ^ 32 := by
  have whole := arg.isLt
  have half := (arg.setWidth 16).isLt
  have quarter := (arg.setWidth 8).isLt
  simp only [Directive.signedValue, BitVec.toInt_eq_toNat_cond]
  split
  · split <;> omega
  · split <;> split <;> omega

theorem Directive.unsignedValue_bound (d : Directive) (arg : BitVec 32) :
    d.unsignedValue arg < 2 ^ 32 := by
  have whole := arg.isLt
  have half := (arg.setWidth 16).isLt
  have quarter := (arg.setWidth 8).isLt
  unfold Directive.unsignedValue
  split
  · exact whole
  · split <;> omega

theorem Directive.weight_sign (d : Directive) (value : Int) : weight (d.sign value) = 0 := by
  unfold Directive.sign
  split
  · decide
  · split
    · decide
    · split <;> decide

theorem Directive.weight_signed (d : Directive) {arg : BitVec 32} {text : List (BitVec 8)}
    (printed : d.signed arg = some text) : weight text ≤ 8 := by
  have digits := d.weight_digits false (Or.inr (Or.inl rfl)) (d.signedValue_bound arg)
  unfold Directive.signed at printed
  dsimp only at printed
  split at printed
  · cases printed
  · rw [← Option.some.inj printed, Directive.weight_pad, Directive.weight_sign, Nat.zero_add]
    exact digits

theorem Directive.weight_unsigned (d : Directive) {base : Nat} (upper : Bool) {arg : BitVec 32}
    {text : List (BitVec 8)} (known : base = 8 ∨ base = 10 ∨ base = 16)
    (printed : d.unsigned base upper arg = some text) : weight text ≤ 8 := by
  have digits := d.weight_digits upper known (d.unsignedValue_bound arg)
  have zero : weight [code '0'] = 0 := by decide
  unfold Directive.unsigned at printed
  dsimp only at printed
  split at printed
  · rwa [← Option.some.inj printed, Directive.weight_pad, weight_nil, Nat.zero_add]
  · split at printed
    · have lead : weight (if d.unsignedValue arg = 0 then [] else
          [code '0', code (if upper then 'X' else 'x')]) = 0 := by
        split
        · rfl
        · cases upper <;> decide
      rwa [← Option.some.inj printed, Directive.weight_pad, lead, Nat.zero_add]
    · split at printed
      · rw [← Option.some.inj printed, Directive.weight_pad, weight_nil, Nat.zero_add]
        split
        · exact digits
        · rwa [weight_cons, zero, Nat.zero_add]
      · cases printed

/-- A conversion prints less weight than its specification has. -/
theorem Directive.weight_convert (d : Directive) {arg : BitVec 32} {byte : BitVec 8}
    {text : List (BitVec 8)} (printed : d.convert arg byte = some text) :
    weight text < 9 + weight [byte] := by
  have light (short : weight text ≤ 8) : weight text < 9 + weight [byte] := by omega
  unfold Directive.convert at printed
  split at printed
  · exact light (d.weight_signed printed)
  · split at printed
    · exact light (d.weight_unsigned false (Or.inr (Or.inl rfl)) printed)
    · split at printed
      · exact light (d.weight_unsigned false (Or.inl rfl) printed)
      · split at printed
        · exact light (d.weight_unsigned false (Or.inr (Or.inr rfl)) printed)
        · split at printed
          · exact light (d.weight_unsigned true (Or.inr (Or.inr rfl)) printed)
          · split at printed
            · rename_i letter
              unfold Directive.character at printed
              split at printed
              · cases printed
              · -- The printed character may be a percent sign, and only the letter `c` pays for it.
                have one := weight_byte_le (arg.setWidth 8)
                have paid : weight [code 'c'] = 1 := by decide
                rw [← Option.some.inj printed, Directive.weight_pad, letter, paid, weight_nil]
                omega
            · cases printed

/-- The output of a format weighs less than the format when a specification is executed. -/
theorem weight_format (arg : Option (BitVec 32)) {text output : List (BitVec 8)} :
    (format .text arg text = some output →
      weight output + (if code '%' ∈ text then 1 else 0) ≤ weight text) ∧
      ∀ d, format (.directive d) arg text = some output → weight output < 9 + weight text := by
  have percent : weight [code '%'] = 9 := by decide
  induction text generalizing arg output with
  | nil => exact ⟨fun printed => by cases printed; simp, fun d printed => by cases printed⟩
  | cons byte rest ih =>
      have head := weight_cons byte rest
      constructor
      · intro printed
        rw [format] at printed
        split at printed
        · rename_i marker
          have inner := (ih arg).2 _ printed
          rw [marker] at head ⊢
          rw [if_pos (List.mem_cons_self ..)]
          omega
        · rename_i plain
          obtain ⟨tail, formatted, rfl⟩ := Option.map_eq_some_iff.mp printed
          have inner := (ih arg).1 formatted
          have same : code '%' ∈ byte :: rest ↔ code '%' ∈ rest := by
            rw [List.mem_cons]
            exact ⟨fun either => either.resolve_left (Ne.symm plain), Or.inr⟩
          have output := weight_cons byte tail
          simp only [same]
          omega
      · intro d printed
        rw [format] at printed
        split at printed
        · have inner := (ih arg).2 _ printed
          omega
        · split at printed
          · rename_i marker
            obtain ⟨tail, formatted, rfl⟩ := Option.map_eq_some_iff.mp printed
            have inner := (ih arg).1 formatted
            have output := weight_cons (code '%') tail
            rw [marker.1] at head ⊢
            omega
          · split at printed
            · rename_i text converted
              obtain ⟨tail, formatted, rfl⟩ := Option.map_eq_some_iff.mp printed
              obtain ⟨value, _, conversion⟩ := Option.bind_eq_some_iff.mp converted
              have lighter := d.weight_convert conversion
              have inner := (ih none).1 formatted
              rw [weight_append]
              omega
            · cases printed

/-- No character of a format is lost or gained in weight. -/
theorem weight_format_le {arg : Option (BitVec 32)} {text output : List (BitVec 8)}
    (printed : format .text arg text = some output) : weight output ≤ weight text := by
  have bound := (weight_format arg).1 printed
  omega

/-- An executed specification loses weight. -/
theorem weight_format_lt {arg : Option (BitVec 32)} {text output : List (BitVec 8)}
    (executed : code '%' ∈ text) (printed : format .text arg text = some output) :
    weight output < weight text := by
  have bound := (weight_format arg).1 printed
  rw [if_pos executed] at bound
  omega

end Printf

import Psuart.Proof.Utils.Numbers
import Psuart.Proof.Utils.Split

namespace Psuart

/-- The conversion `%d` prints the shortest digits. -/
theorem decimal_digitText (number : Nat) : decimal number = digitText 10 number := by
  by_cases zero : number = 0
  · rw [zero]
    rfl
  · rw [decimal, Printf.Directive.digits, digitText, Radix.digits, if_neg zero]
    have visible : Nat.digits 10 number ≠ [] := Nat.digits_ne_nil_iff_ne_zero.mpr zero
    have length := List.length_pos_iff.mpr visible
    simp only [Option.getD_none, List.length_map, List.length_reverse]
    rw [Nat.sub_eq_zero_of_le length, List.replicate_zero, List.nil_append]

theorem decimal_digits (number : Nat) : ∀ c ∈ decimal number, isDecimalDigit c = true := by
  have plain : ∀ digit : Fin 10, isDecimalDigit (Printf.digitCode false digit) = true := by decide
  rw [decimal_digitText, digitText]
  intro c member
  obtain ⟨digit, inside, rfl⟩ := List.mem_map.mp member
  exact plain ⟨digit, Radix.digits_lt (by decide) number digit inside⟩

theorem decimal_ne_nil (number : Nat) : decimal number ≠ [] := by
  rw [decimal_digitText]
  exact digitText_ne_nil 10 number

theorem digit_other {c other : Byte} (digit : isDecimalDigit c = true) (letter : isDecimalDigit other = false) :
    c ≠ other := by
  rintro rfl
  rw [digit] at letter
  cases letter

theorem decimal_free {other : Byte} (letter : isDecimalDigit other = false) (number : Nat) :
    other ∉ decimal number :=
  fun member => digit_other (decimal_digits number other member) letter rfl

/-- The loop over decimal digits reads the number. -/
theorem decimal_loop {number : Nat} (small : number + 48 < 2 ^ 31) :
    ((decimal number).foldl (strToIntDigit 10) 0).toNat = number := by
  have spelled : (decimal number).map tolower = digitText (10 : CInt).toNat number := by
    rw [decimal_digitText]
    exact digitText_tolower (by decide) (by decide) number
  have kinds : ∀ c : Byte, isDecimalDigit c = true → isUpperDigit c = false ∧ isLowerDigit c = false := by
    decide
  have lower : ∀ c ∈ decimal number, isUpperDigit c = false :=
    fun c member => (kinds c (decimal_digits number c member)).1
  have excess : lastExcess (decimal number) = 48 := by
    rw [lastExcess, if_neg]
    · rfl
    · rw [Option.any_eq_true]
      rintro ⟨c, last, letter⟩
      rw [(kinds c (decimal_digits number c (List.mem_of_getLast? last))).2] at letter
      cases letter
  exact ((strToIntLoop_reads_iff .decimal spelled).mpr ⟨lower, by rw [excess]; exact small⟩).2

theorem cString_decimal (number : Nat) : cString (decimal number) = decimal number :=
  cString_eq (decimal_free (by decide) number)

/-- The function `StrToInt` reads what `%d` has printed. -/
theorem strToInt_decimal {number : Nat} (small : number + 48 < 2 ^ 31) :
    (strToInt (decimal number)).toNat = number := by
  by_cases zero : number = 0
  · rw [zero]
    rfl
  · have spells : ∀ c ∈ decimal number, Spells 10 c := fun c member => Or.inl (decimal_digits number c member)
    have head : (decimal number).head? ≠ some (charByte '0') := by
      rw [decimal_digitText]
      exact digitText_head zero
    obtain ⟨reads, _⟩ := strToIntUnsigned_decimal spells (decimal_ne_nil number) head
    have signed : strToInt (signText (number : Int) ++ decimal number) = _ :=
      (strToInt_signed (number : Int) (spells_head spells)).1
    have plain : ¬(number : Int) < 0 := by omega
    rw [signText, signOf, if_neg plain, if_neg plain, List.nil_append, reads] at signed
    rw [signed, show BitVec.ofInt 32 1 = 1#32 by decide, BitVec.one_mul, decimal_loop small]

/-- The library function `atoi` reads what `%d` has printed. -/
theorem atoi_decimal {number : Nat} (small : number + 48 < 2 ^ 31) : (atoi (decimal number)).toNat = number := by
  have loop := decimal_loop small
  have digits := decimal_digits number
  obtain ⟨first, rest, text⟩ := List.exists_cons_of_ne_nil (decimal_ne_nil number)
  rw [text] at loop digits
  have start := digits first (List.mem_cons_self ..)
  have marks : ∀ c : Byte, isDecimalDigit c = true →
      isspace c = false ∧ c ≠ charByte '-' ∧ c ≠ charByte '+' := by
    decide
  have kinds := marks first start
  have whole : (first :: rest).takeWhile (fun c => charByte '0' ≤ c ∧ c ≤ charByte '9') = first :: rest :=
    List.takeWhile_eq_self_iff.mpr digits
  have same : (first :: rest).foldl
      (fun (value : CInt) c => value * 10 + promoteChar c - promoteChar (charByte '0')) 0 =
        (first :: rest).foldl (strToIntDigit 10) 0 := by
    apply List.foldl_ext
    intro value c member
    rw [strToIntDigit, if_pos (of_decide_eq_true (digits c member))]
  have begins : (cString (first :: rest)).dropWhile isspace = first :: rest := by
    rw [← text, cString_decimal, text, List.dropWhile_cons_of_neg (by rw [kinds.1]; decide)]
  have minus : ¬(first :: rest).head? = some (charByte '-') := fun head => kinds.2.1 (Option.some.inj head)
  have plus : ¬(first :: rest).head? = some (charByte '+') := fun head => kinds.2.2 (Option.some.inj head)
  rw [text, atoi]
  simp only [begins, minus, plus, or_self, if_false, whole]
  rw [same, loop]

/-- The bytes of an address. -/
def octet (ip : BitVec 32) (index : Nat) : Nat := ip.toNat / 256 ^ index % 256

theorem octet_lt (ip : BitVec 32) (index : Nat) : octet ip index < 256 := Nat.mod_lt _ (by decide)

theorem shifted_octet (ip : BitVec 32) (index : Nat) :
    ((ip >>> (8 * index)) &&& 0xFF).toNat = octet ip index := by
  have mask : (0xFF : BitVec 32).toNat = 2 ^ 8 - 1 := rfl
  rw [BitVec.toNat_and, BitVec.toNat_ushiftRight, Nat.shiftRight_eq_div_pow, mask,
    Nat.and_two_pow_sub_one_eq_mod, Nat.pow_mul]
  rfl

/-- The texts of the four bytes from the lowest one on. -/
def octetTexts (ip : BitVec 32) : List (List Byte) :=
  [decimal (octet ip 0), decimal (octet ip 1), decimal (octet ip 2), decimal (octet ip 3)]

theorem octetTexts_forall {good : List Byte → Prop} {ip : BitVec 32}
    (each : ∀ index, good (decimal (octet ip index))) : ∀ field ∈ octetTexts ip, good field := by
  simp only [octetTexts, List.forall_mem_cons, List.not_mem_nil, false_implies, implies_true, and_true]
  exact ⟨each 0, each 1, each 2, each 3⟩

theorem ip2Str_join (ip : BitVec 32) : ip2Str ip = joinFields (charByte '.') (octetTexts ip) := by
  have zero := shifted_octet ip 0
  have one := shifted_octet ip 1
  have two := shifted_octet ip 2
  have three := shifted_octet ip 3
  simp only [Nat.mul_zero, BitVec.ushiftRight_zero, Nat.mul_one, Nat.reduceMul] at zero one two three
  rw [ip2Str, zero, one, two, three, octetTexts, joinFields_cons, joinFields_cons, joinFields_cons,
    joinFields_single]
  simp only [List.append_assoc, List.cons_append, List.nil_append]

theorem decimal_short {number : Nat} (small : number < 256) : (decimal number).length ≤ 3 := by
  have length : ∀ value : Fin 256, (decimal value).length ≤ 3 := by decide +kernel
  exact length ⟨number, small⟩

theorem octetTexts_fields (ip : BitVec 32) : Fields (charByte '.') (octetTexts ip) where
  free := octetTexts_forall fun index => decimal_free rfl _
  short := octetTexts_forall fun index => Nat.le_trans (decimal_short (octet_lt ip index)) (by decide)
  last := fun last => decimal_ne_nil _ (Option.some.inj last)

/-- Splitting the text of an address gives the texts of its bytes. -/
theorem splitArguments_ip2Str (ip : BitVec 32) :
    splitArguments (charByte '.') 4 (ip2Str ip) = octetTexts ip := by
  have visible : ∀ field ∈ octetTexts ip, field ≠ [] := octetTexts_forall fun index => decimal_ne_nil _
  have same := collapsed_append visible []
  rw [List.append_nil, collapsed, List.append_nil] at same
  rw [ip2Str_join, splitArguments_collapsed (octetTexts_fields ip), same]
  rfl

theorem byte_append_toNat {width : Nat} (high : BitVec width) (low : Byte) :
    (high ++ low).toNat = high.toNat * 256 + low.toNat := by
  rw [BitVec.toNat_append, ← Nat.shiftLeft_add_eq_or_of_lt low.isLt, Nat.shiftLeft_eq]

/-- Four bytes form the address whose bytes they are. -/
theorem toNat_bytes (b3 b2 b1 b0 : Byte) :
    (b3 ++ b2 ++ b1 ++ b0).toNat = ((b3.toNat * 256 + b2.toNat) * 256 + b1.toNat) * 256 + b0.toNat := by
  rw [byte_append_toNat, byte_append_toNat, byte_append_toNat]

theorem atoi_octet {value : Nat} (small : value < 256) : ((atoi (decimal value)).setWidth 8).toNat = value := by
  rw [BitVec.toNat_setWidth, atoi_decimal (by omega), Nat.mod_eq_of_lt small]

theorem utilsStrincmp_star {str : List Byte}
    (digits : ∀ first, str.head? = some first → isDecimalDigit first = true) (visible : str ≠ []) :
    utilsStrincmp str [charByte '*'] str.length ≠ 0 := by
  cases str with
  | nil => exact absurd rfl visible
  | cons first rest =>
      have digit := digits first rfl
      have kinds : ∀ c : Byte, isDecimalDigit c = true →
          c ≠ 0 ∧ (tolower c).toNat ≠ (tolower (charByte '*')).toNat := by decide
      obtain ⟨nonzero, differ⟩ := kinds first digit
      have begins : (cString (first :: rest)).headD 0 = first := by
        rw [cString, List.takeWhile_cons, if_pos (decide_eq_true nonzero), List.headD_cons]
      have star : (cString [charByte '*']).headD 0 = charByte '*' := by decide
      rw [utilsStrincmp, if_neg (by simp), List.length_cons, strincmpLoop, begins, star]
      rw [if_pos (Or.inl (by omega))]
      omega

theorem ip2Str_head (ip : BitVec 32) : ∀ first, (ip2Str ip).head? = some first → isDecimalDigit first = true := by
  intro first head
  rw [ip2Str_join, octetTexts, joinFields_cons, List.head?_append_of_ne_nil _ (decimal_ne_nil _)] at head
  exact decimal_digits _ first (List.mem_of_mem_head? head)

/-- The text of an address is read as its bytes. -/
theorem getIpAddr_octets (ip : BitVec 32) : getIpAddr (ip2Str ip) = ip := by
  have visible : ip2Str ip ≠ [] := by
    rw [ip2Str_join, octetTexts, joinFields_cons]
    exact List.append_ne_nil_of_left_ne_nil (decimal_ne_nil _) _
  rw [getIpAddr, if_neg (utilsStrincmp_star (ip2Str_head ip) visible), splitArguments_ip2Str]
  apply BitVec.eq_of_toNat_eq
  dsimp only [octetTexts]
  rw [toNat_bytes]
  simp only [List.getD_cons_zero, List.getD_cons_succ, atoi_octet (octet_lt ip _)]
  have bound := ip.isLt
  simp only [octet, Nat.reducePow, Nat.div_one]
  omega

theorem ip2Str_free {other : Byte} (letter : isDecimalDigit other = false) (dot : other ≠ charByte '.')
    (ip : BitVec 32) : other ∉ ip2Str ip := by
  simp only [ip2Str, List.mem_append, List.mem_singleton, not_or]
  have free := decimal_free letter
  exact ⟨⟨⟨⟨⟨⟨free _, dot⟩, free _⟩, dot⟩, free _⟩, dot⟩, free _⟩

theorem ip2Str_short (ip : BitVec 32) : (ip2Str ip).length ≤ 15 := by
  have short (index : Nat) := decimal_short (octet_lt ip index)
  have zero := short 0
  have one := short 1
  have two := short 2
  have three := short 3
  rw [ip2Str_join, octetTexts, joinFields_cons, joinFields_cons, joinFields_cons, joinFields_single]
  simp only [List.length_append, List.length_cons]
  omega

/-- An address without a port is parsed. -/
theorem parseIPAddr_address (ip : BitVec 32) : parseIPAddr (some (ip2Str ip)) = .ok (ip, 0) := by
  have string : cString (ip2Str ip) = ip2Str ip := cString_eq (ip2Str_free rfl (by decide) ip)
  have short := ip2Str_short ip
  have host : (ip2Str ip).takeWhile (· ≠ charByte ':') = ip2Str ip :=
    Scan.takeWhile_ne_self (ip2Str_free rfl (by decide) ip)
  rw [parseIPAddr]
  simp only [string, host, List.drop_length, getIpAddr_octets]
  rw [if_neg (by omega)]

theorem decimal_port_short (port : BitVec 16) : (decimal port.toNat).length ≤ 5 := by
  have small : port.toNat < 10 ^ 5 := Nat.lt_trans port.isLt (by decide)
  rw [decimal_digitText, digitText, List.length_map, Radix.digits]
  split
  · decide
  · rw [List.length_reverse]
    exact (Nat.digits_length_le_iff (by decide) _).mpr small

theorem strToInt_port (port : BitVec 16) : (strToInt (decimal port.toNat)).setWidth 16 = port := by
  have small := port.isLt
  apply BitVec.eq_of_toNat_eq
  rw [BitVec.toNat_setWidth, strToInt_decimal (by omega), Nat.mod_eq_of_lt small]

/-- An address with a port is parsed. -/
theorem parseIPAddr_port (ip : BitVec 32) (port : BitVec 16) :
    parseIPAddr (some (ip2Str ip ++ charByte ':' :: decimal port.toNat)) = .ok (ip, port) := by
  have digits := decimal_port_short port
  have short := ip2Str_short ip
  have string : cString (ip2Str ip ++ charByte ':' :: decimal port.toNat) =
      ip2Str ip ++ charByte ':' :: decimal port.toNat := by
    apply cString_eq
    rw [List.mem_append, List.mem_cons, not_or, not_or]
    exact ⟨ip2Str_free rfl (by decide) ip, by decide, decimal_free rfl _⟩
  have free : charByte ':' ∉ ip2Str ip := ip2Str_free rfl (by decide) ip
  have host := Scan.takeWhile_ne_stop free (decimal port.toNat)
  have length : ¬50 ≤ (ip2Str ip ++ charByte ':' :: decimal port.toNat).length := by
    rw [List.length_append, List.length_cons]
    omega
  rw [parseIPAddr]
  simp only [string, host, List.drop_left, getIpAddr_octets, strToInt_port]
  rw [if_neg length]

/-- Four decimal bytes are the text of an address. -/
theorem joinFields_ip2Str (a b c d : Byte) :
    joinFields (charByte '.') [decimal a.toNat, decimal b.toNat, decimal c.toNat, decimal d.toNat] =
      ip2Str (d ++ c ++ b ++ a) := by
  have sum := toNat_bytes d c b a
  have zero : octet (d ++ c ++ b ++ a) 0 = a.toNat := by
    rw [octet, sum]
    omega
  have one : octet (d ++ c ++ b ++ a) 1 = b.toNat := by
    rw [octet, sum]
    omega
  have two : octet (d ++ c ++ b ++ a) 2 = c.toNat := by
    rw [octet, sum]
    omega
  have three : octet (d ++ c ++ b ++ a) 3 = d.toNat := by
    rw [octet, sum]
    omega
  rw [ip2Str_join, octetTexts, zero, one, two, three]

/-- The text form and the binary form of an address agree. -/
theorem parseIPAddr_ip2Str :
    (∀ (ip : BitVec 32) (port : BitVec 16),
        parseIPAddr (some (ip2Str ip ++ charByte ':' :: decimal port.toNat)) = .ok (ip, port) ∧
          parseIPAddr (some (ip2Str ip)) = .ok (ip, 0)) ∧
      ∀ a b c d : Byte, ∃ ip,
        parseIPAddr (some (joinFields (charByte '.')
            [decimal a.toNat, decimal b.toNat, decimal c.toNat, decimal d.toNat])) = .ok (ip, 0) ∧
          ip2Str ip = joinFields (charByte '.')
            [decimal a.toNat, decimal b.toNat, decimal c.toNat, decimal d.toNat] := by
  refine ⟨fun ip port => ⟨parseIPAddr_port ip port, parseIPAddr_address ip⟩, fun a b c d => ?_⟩
  rw [joinFields_ip2Str]
  exact ⟨_, parseIPAddr_address _, rfl⟩

end Psuart

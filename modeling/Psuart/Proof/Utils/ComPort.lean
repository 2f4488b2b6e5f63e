import Psuart.Proof.Utils.Addresses
import Psuart.Proof.Utils.Split
import Psuart.Spec.LineSettings

namespace Psuart

theorem atoi_decimal_eq {number : Nat} (small : number + 48 < 2 ^ 31) :
    atoi (decimal number) = BitVec.ofNat 32 number := by
  apply BitVec.eq_of_toNat_eq
  rw [atoi_decimal small, BitVec.toNat_ofNat, Nat.mod_eq_of_lt (by omega)]

/-- The fields without a separator are the slots. -/
theorem splitArguments_plain {spliter : Byte} {fields : List (List Byte)} (free : ∀ field ∈ fields, spliter ∉ field)
    (short : ∀ field ∈ fields, field.length ≤ 511) (visible : ∀ field ∈ fields, field ≠ []) (maxsize : Nat) :
    splitArguments spliter maxsize (joinFields spliter fields) = fields.take maxsize := by
  have last : fields.getLast? ≠ some [] := by
    intro empty
    exact visible [] (List.mem_of_getLast? empty) rfl
  have whole := collapsed_append visible []
  rw [List.append_nil, collapsed, List.append_nil] at whole
  rw [splitArguments_collapsed ⟨free, short, last⟩, whole]

namespace LineSettings

variable (settings : LineSettings)

theorem fields_sound : ∀ field ∈ settings.fields, charByte ',' ∉ field ∧ field.length ≤ 511 ∧ field ≠ [] := by
  obtain ⟨some, free, _, short⟩ := settings.path
  have speeds : ∀ speed ∈ speedArr, (decimal speed.number).length ≤ 511 := by decide +kernel
  have comma : charByte ',' ∉ [settings.parity] := by
    rw [List.mem_singleton]
    rcases settings.checked with letter | letter | letter <;> rw [letter] <;> decide
  have stops : settings.stopbits < 256 := by
    rcases settings.stops with bits | bits <;> rw [bits] <;> decide
  have sized : settings.databits < 256 := by
    rcases settings.sized with bits | bits <;> rw [bits] <;> decide
  intro field member
  rw [fields] at member
  simp only [List.mem_cons, List.not_mem_nil, or_false] at member
  rcases member with rfl | rfl | rfl | rfl | rfl
  · exact ⟨free, short, some⟩
  · exact ⟨decimal_free (by decide) _, speeds _ settings.listed, decimal_ne_nil _⟩
  · exact ⟨comma, Nat.le_add_left 1 510, List.cons_ne_nil _ _⟩
  · exact ⟨decimal_free (by decide) _, (decimal_short stops).trans (by decide), decimal_ne_nil _⟩
  · exact ⟨decimal_free (by decide) _, (decimal_short sized).trans (by decide), decimal_ne_nil _⟩

/-- A field that is left out has the default of the settings. -/
theorem getD_take {count : Nat} (omits : settings.Omits count) (index : Nat) (default : List Byte)
    (same : defaultFields[index]? = some default) : (settings.fields.take count).getD index default =
      settings.fields.getD index default := by
  rw [List.getD_eq_getElem?_getD, List.getD_eq_getElem?_getD]
  by_cases inside : index < count
  · rw [List.getElem?_take_of_lt inside]
  · rw [List.getElem?_eq_none (by rw [List.length_take]; omega)]
    have given := congrArg (fun fields => fields[index - count]?) omits
    simp only [List.getElem?_drop, Nat.add_sub_cancel' (Nat.le_of_not_lt inside)] at given
    rw [given, same]
    rfl

/-- The string of the settings gives each parameter its own text. -/
theorem comOpenPort_text {count : Nat} (omits : settings.Omits count) :
    comOpenPort (settings.text count) =
      ⟨settings.com, decimal settings.speed.number, [settings.parity], decimal settings.stopbits,
        decimal settings.databits⟩ := by
  have sound := settings.fields_sound
  have part : ∀ field ∈ settings.fields.take count, field ∈ settings.fields := fun _ => List.mem_of_mem_take
  have split := splitArguments_plain (fun field member => (sound field (part field member)).1)
    (fun field member => (sound field (part field member)).2.1)
    (fun field member => (sound field (part field member)).2.2) 5
  rw [comOpenPort_slots, text, split, positionalPort_take, positionalPort]
  simp only [settings.getD_take omits 0 _ rfl, settings.getD_take omits 1 _ rfl, settings.getD_take omits 2 _ rfl,
    settings.getD_take omits 3 _ rfl, settings.getD_take omits 4 _ rfl]
  rfl

/-- The table finds the speed of the settings. -/
theorem speed_found : (nameArr.zip speedArr).find? (fun entry => atoi (decimal settings.speed.number) = entry.1) =
    some (atoi (decimal settings.speed.number), settings.speed) := by
  have table : ∀ speed ∈ speedArr, speed.number + 48 < 2 ^ 31 ∧
      (nameArr.zip speedArr).find? (fun entry => BitVec.ofNat 32 speed.number = entry.1) =
        some (BitVec.ofNat 32 speed.number, speed) := by decide
  obtain ⟨small, found⟩ := table settings.speed settings.listed
  rw [atoi_decimal_eq small, found]

theorem setDataBits_sized (options : Termios) : setDataBits (atoi (decimal settings.databits)) options =
    some { options with csize := if settings.databits = 7 then .cs7 else .cs8 } := by
  rcases settings.sized with bits | bits <;> rw [bits, atoi_decimal_eq (by decide)] <;> rfl

theorem setParityFlags_checked (options : Termios) : setParityFlags settings.parity options =
    some { options with
      parenb := decide (settings.parity = charByte 'E')
      parodd := if settings.parity = charByte 'E' then false else options.parodd
      inpck := decide (settings.parity = charByte 'E') } := by
  rcases settings.checked with letter | letter | letter <;> rw [letter] <;> rfl

theorem setStopBits_stops (options : Termios) : setStopBits (atoi (decimal settings.stopbits)) options =
    some { options with cstopb := decide (settings.stopbits = 2) } := by
  rcases settings.stops with bits | bits <;> rw [bits, atoi_decimal_eq (by decide)] <;> rfl

/-- The terminal behind a successful `com_set_parity`. -/
def framed (tty : Termios) : Termios :=
  setRaw { tty with
    csize := if settings.databits = 7 then .cs7 else .cs8
    parenb := decide (settings.parity = charByte 'E')
    parodd := if settings.parity = charByte 'E' then false else tty.parodd
    cstopb := decide (settings.stopbits = 2) }

theorem framed_framed (tty : Termios) : settings.Framed (settings.framed tty) :=
  ⟨rfl, rfl, fun letter => if_pos letter, rfl, rfl⟩

theorem comSetParity_framed (calls : ComCalls) {fd : Int} (positive : 0 < fd) (tty : Termios) :
    comSetParity calls fd (atoi (decimal settings.databits)) (atoi (decimal settings.stopbits)) settings.parity tty =
      if calls.getParity = true ∧ calls.setParity = true then (settings.framed tty, true) else (tty, false) := by
  rw [comSetParity, setDataBits_sized, Option.bind_some, setParityFlags_checked, Option.bind_some, setStopBits_stops]
  cases calls.getParity with
  | false => rw [if_pos (Or.inr rfl), if_neg fun both => Bool.false_ne_true both.1]
  | true =>
      rw [if_neg (by simp; omega)]
      cases calls.setParity <;> rfl

theorem comSetSpeed_clocked (calls : ComCalls) {fd : Int} (positive : 0 < fd) (tty : Termios) :
    comSetSpeed calls fd (atoi (decimal settings.speed.number)) tty =
      if calls.setSpeed then
        { (if calls.getSpeed then tty else calls.opt) with ispeed := settings.speed, ospeed := settings.speed }
      else tty := by
  rw [comSetSpeed, if_neg (by omega), speed_found]

end LineSettings

section Open

variable (calls : ComCalls) (dev : List Byte) (w : ComWorld)

/-- A positive result is the descriptor of the device, and every other one but 0 leaves no descriptor open. -/
theorem comOpen_descriptors :
    (0 < (comOpen calls dev w).1 → (comOpen calls dev w).1 = calls.openDev (comOpenPort dev).com ∧
        (comOpen calls dev w).2.openFds = (comOpen calls dev w).1 :: w.openFds) ∧
      ((comOpen calls dev w).1 ≤ 0 → calls.openDev (comOpenPort dev).com ≠ 0 →
        (comOpen calls dev w).2.openFds = w.openFds) := by
  rw [comOpen]
  dsimp only
  generalize calls.openDev (comOpenPort dev).com = fd
  by_cases failed : fd ≤ 0
  · rw [if_pos failed]
    refine ⟨fun positive => absurd positive (by omega), fun _ some => ?_⟩
    rw [if_pos (by omega)]
  · rw [if_neg failed, if_neg (by omega : ¬fd < 0)]
    generalize comSetParity calls fd _ _ _ _ = result
    obtain ⟨tty, done⟩ := result
    cases done with
    | true => exact ⟨fun _ => ⟨rfl, rfl⟩, fun closed => absurd closed failed⟩
    | false =>
        refine ⟨fun positive => absurd positive (Int.lt_irrefl 0), fun _ _ => ?_⟩
        rw [if_neg Bool.false_ne_true, comClose, if_pos (by omega)]
        exact List.erase_cons_head ..

/-- The other devices keep their attributes. -/
theorem comOpen_other {path : List Byte} (other : path ≠ (comOpenPort dev).com) :
    (comOpen calls dev w).2.attributes path = w.attributes path := by
  rw [comOpen]
  dsimp only
  generalize calls.openDev (comOpenPort dev).com = fd
  generalize comSetParity calls fd _ _ _ _ = result
  obtain ⟨tty, done⟩ := result
  by_cases failed : fd ≤ 0
  · rw [if_pos failed]
    split <;> rfl
  · rw [if_neg failed, if_neg (by omega : ¬fd < 0)]
    cases done with
    | true => exact Function.update_of_ne other _ _
    | false =>
        rw [if_neg Bool.false_ne_true, comClose, if_pos (by omega)]
        exact Function.update_of_ne other _ _

end Open

namespace LineSettings

variable (settings : LineSettings) {count : Nat} (omits : settings.Omits count) (calls : ComCalls) (w : ComWorld)
include omits

/-- An opened device has the attributes behind both setting functions. -/
theorem comOpen_text {fd : Int} (device : calls.openDev settings.com = fd) (positive : 0 < fd) :
    comOpen calls (settings.text count) w =
      let tty := comSetSpeed calls fd (atoi (decimal settings.speed.number)) (w.attributes settings.com)
      if calls.getParity = true ∧ calls.setParity = true then
        (fd, ⟨fd :: w.openFds, Function.update w.attributes settings.com (settings.framed tty)⟩)
      else (0, ⟨w.openFds, Function.update w.attributes settings.com tty⟩) := by
  rw [comOpen, settings.comOpenPort_text omits]
  dsimp only
  rw [device, if_neg (by omega : ¬fd ≤ 0), if_neg (by omega : ¬fd < 0), List.headD_cons,
    settings.comSetParity_framed calls positive]
  by_cases done : calls.getParity = true ∧ calls.setParity = true
  · rw [if_pos done, if_pos done]
    rfl
  · rw [if_neg done, if_neg done, if_neg Bool.false_ne_true, comClose, if_pos positive]
    simp only [List.erase_cons_head]

/-- A positive result comes with a framed device, and with its speed when the calls for it succeed. -/
theorem comOpen_framed (opened : 0 < (comOpen calls (settings.text count) w).1) :
    settings.Framed ((comOpen calls (settings.text count) w).2.attributes settings.com) ∧
      (calls.getSpeed = true ∧ calls.setSpeed = true →
        settings.Clocked ((comOpen calls (settings.text count) w).2.attributes settings.com)) := by
  have device := ((comOpen_descriptors calls (settings.text count) w).1 opened).1
  rw [settings.comOpenPort_text omits] at device
  have text := settings.comOpen_text omits calls w device.symm opened
  by_cases done : calls.getParity = true ∧ calls.setParity = true
  · rw [text]
    simp only [if_pos done, Function.update_self]
    refine ⟨settings.framed_framed _, ?_⟩
    rintro ⟨got, set⟩
    rw [settings.comSetSpeed_clocked calls opened, set, got]
    exact ⟨rfl, rfl⟩
  · rw [text] at opened
    simp only [if_neg done] at opened
    exact absurd opened (by decide)

/-- The string of the settings opens the device with exactly these settings. -/
theorem comOpen_settings {fd : Int} (device : calls.openDev settings.com = fd) (positive : 0 < fd)
    (done : calls.Done) :
    ∃ tty, settings.Framed tty ∧ settings.Clocked tty ∧
      comOpen calls (settings.text count) w =
        (fd, ⟨fd :: w.openFds, Function.update w.attributes settings.com tty⟩) := by
  obtain ⟨got, set, read, written⟩ := done
  have text := settings.comOpen_text omits calls w device positive
  rw [settings.comSetSpeed_clocked calls positive, set, got] at text
  refine ⟨settings.framed { w.attributes settings.com with ispeed := settings.speed, ospeed := settings.speed },
    settings.framed_framed _, ⟨rfl, rfl⟩, text.trans ?_⟩
  exact if_pos ⟨read, written⟩

end LineSettings

/-- A terminal that echoes and waits. -/
def cookedTermios : Termios where
  csize := .cs5
  parenb := true
  parodd := true
  cstopb := false
  brkint := true
  icrnl := true
  inpck := true
  istrip := true
  ixon := true
  opost := true
  icanon := true
  echo := true
  echoe := true
  isig := true
  iexten := true
  vtime := 1
  vmin := 1
  ispeed := .b300
  ospeed := .b300

def readyCalls : ComCalls := ⟨fun _ => 3, true, true, true, true, cookedTermios⟩

/-- A line with two stop bits and even parity. -/
def evenSettings : LineSettings where
  com := stringBytes "/dev/ttyS1"
  speed := .b9600
  parity := charByte 'E'
  stopbits := 2
  databits := 8
  path := by decide
  listed := by decide
  checked := by decide
  stops := by decide
  sized := by decide

/-- The last field is left out. -/
theorem evenSettings_omits : evenSettings.Omits 4 := by
  unfold LineSettings.Omits
  decide

theorem comOpen_settings_even :
    evenSettings.text 4 = stringBytes "/dev/ttyS1,9600,E,2" ∧
      ∃ tty, evenSettings.Framed tty ∧ evenSettings.Clocked tty ∧
        comOpen readyCalls (evenSettings.text 4) ⟨[0, 1, 2], fun _ => cookedTermios⟩ =
          (3, ⟨[3, 0, 1, 2], Function.update (fun _ => cookedTermios) (stringBytes "/dev/ttyS1") tty⟩) :=
  ⟨by decide, evenSettings.comOpen_settings evenSettings_omits readyCalls ⟨[0, 1, 2], fun _ => cookedTermios⟩ rfl
    (by decide) ⟨rfl, rfl, rfl, rfl⟩⟩

end Psuart

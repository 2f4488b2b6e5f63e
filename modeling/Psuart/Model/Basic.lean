import Mathlib.Tactic.Ring
import Psuart.Library.Cells

namespace Psuart

/-- The types `char` and `unsigned char` share their bytes and differ in their promotion. -/
abbrev Byte := BitVec 8

/-- The C type `int` has 32 bits on the targets. -/
abbrev CInt := BitVec 32

/-- The memory around a `char` pointer is addressed by the signed offset from it. -/
abbrev Memory := Int → Byte

/-- The promotion of a `char` extends its sign. -/
def promoteChar (byte : Byte) : CInt := byte.signExtend 32

/-- The promotion of an `unsigned char` keeps its value. -/
def promoteUchar (byte : Byte) : CInt := byte.zeroExtend 32

/-- The conversion of an `int` to `size_t` extends its sign first. -/
def toSizeT (value : CInt) : Nat := (value.signExtend 64).toNat

/-- The character constant of a C source. -/
def charByte (char : Char) : Byte := BitVec.ofNat 8 char.toNat

/-- The bytes of a string literal without its terminator. -/
def stringBytes (text : String) : List Byte := text.toList.map charByte

/-- The call `memcpy(dst + off, src, n)` copies the bytes in ascending order. -/
def memcpy (dst : Memory) (off : Int) (src : List Byte) : Memory :=
  Cells.store dst (fun index => off + index) src

/-- The bytes that a callee reads through a pointer and a length. -/
def bytesAt (pointer : Memory) (off : Int) (count : Nat) : List Byte :=
  Cells.load pointer (fun index => off + index) count

/-- The receive array `buf` has 4096 bytes. -/
def recvSize : Nat := 4096

/-- A read returns at most the size of the receive array. -/
abbrev ReadBytes := {bytes : List Byte // bytes.length ≤ recvSize}

/-- A read fills the start of the zeroed receive array, and the memory past the array is arbitrary. -/
def recvArray (data : List Byte) (past : Memory) : Memory := fun off =>
  if 0 ≤ off ∧ off < data.length then data.getD off.toNat 0
  else if 0 ≤ off ∧ off < recvSize then 0 else past off

@[simp] theorem bytesAt_length (pointer : Memory) (off : Int) (count : Nat) :
    (bytesAt pointer off count).length = count := Cells.load_length _ _ _

/-- A number below the size of a word keeps its value. -/
theorem word_toNat {number : Nat} (small : number < 2 ^ 32) : (BitVec.ofNat 32 number).toNat = number := by
  rw [BitVec.toNat_ofNat, Nat.mod_eq_of_lt small]

theorem word_toInt {number : Nat} (small : number < 2 ^ 31) : (BitVec.ofNat 32 number).toInt = number := by
  have value := word_toNat (show number < 2 ^ 32 by omega)
  rw [BitVec.toInt_eq_toNat_of_lt (by omega), value]

/-- A copy and a second copy behind it form one copy. -/
theorem memcpy_append (dst : Memory) (off : Int) (first second : List Byte) :
    memcpy (memcpy dst off first) (off + first.length) second = memcpy dst off (first ++ second) := by
  rw [memcpy, memcpy, memcpy, Cells.store_append]
  apply Cells.store_congr
  intro index _
  push_cast
  ring

/-- A copied byte stands at its offset. -/
theorem memcpy_getElem (dst : Memory) (off : Int) (src : List Byte) (index : Nat)
    (inside : index < src.length) : memcpy dst off src (off + index) = src[index] := by
  apply Cells.store_last dst (fun index => off + index) src index inside
  intro later above _ equal
  simp only [add_right_inj, Nat.cast_inj] at equal
  omega

/-- The copied bytes can be read back. -/
theorem bytesAt_memcpy (dst : Memory) (off : Int) (src : List Byte) :
    bytesAt (memcpy dst off src) off src.length = src := by
  apply Cells.load_store dst (fun index => off + index) src
  intro left right before _ equal
  simp only [add_right_inj, Nat.cast_inj] at equal
  omega

/-- A part of the copied bytes can be read back. -/
theorem bytesAt_memcpy_slice (dst : Memory) (off : Int) (src : List Byte) (start count : Nat)
    (inside : start + count ≤ src.length) :
    bytesAt (memcpy dst off src) (off + start) count = (src.drop start).take count := by
  apply List.ext_getElem
  · simp; omega
  · intro index left right
    have bound : index < count := by simpa using left
    simp only [bytesAt, Cells.load_getElem, List.getElem_take, List.getElem_drop]
    rw [← memcpy_getElem dst off src (start + index) (by omega)]
    congr 1
    push_cast
    ring

/-- The received bytes stand at the start of the receive array. -/
theorem bytesAt_recvArray (data : List Byte) (past : Memory) :
    bytesAt (recvArray data past) 0 data.length = data := by
  apply List.ext_getElem
  · simp
  · intro index left right
    simp only [bytesAt, Cells.load_getElem, recvArray]
    rw [if_pos (by omega)]
    simp [right]

end Psuart

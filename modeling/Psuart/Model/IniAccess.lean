import Psuart.Model.Ini

namespace Psuart

/-- The comparison reads both strings up to the difference, the terminator or its count. -/
def strncmpReads : List Byte → List Byte → Nat → List Nat
  | _, _, 0 => []
  | first, second, count + 1 =>
      0 :: if first.headD 0 ≠ second.headD 0 ∨ first.headD 0 = 0 then []
        else (strncmpReads first.tail second.tail count).map Nat.succ

/-- A scan reads the characters that it passes and the one that stops it. -/
def scanReads (inClass : Byte → Bool) (buf : List Byte) (i : Nat) : List Nat :=
  List.range' i (Scan.scanWhile inClass buf i + 1 - i)

def keySearchReads (key buf : List Byte) (newlineStart : Nat) : Nat → Nat → List Nat
  | 0, _ => []
  | left + 1, j =>
      j :: if bufAt buf j = charByte '=' then []
        else (j + 1) :: if bufAt buf (j + 1) = charByte '=' then
            (strncmpReads key (buf.drop newlineStart) (j + 1 - newlineStart)).map (newlineStart + ·)
          else keySearchReads key buf newlineStart left (j + 1)

/-- The loop looks at the characters before and at its index, and then it searches the line. -/
def parseLinesReads (key buf : List Byte) : Nat → Nat → List Nat
  | 0, _ => []
  | fuel + 1, i =>
      (i - 1) :: i ::
        if (newline (bufAt buf (i - 1)) && leftBrace (bufAt buf i)) || endOfString (bufAt buf i) then []
        else
          let lineEnd := fun c => !newline c && !endOfString c
          let newlineStart := i
          let i := Scan.scanWhile lineEnd buf i
          let searched := bufAt buf newlineStart ≠ charByte ';'
          let found := if searched then keySearch key buf newlineStart (i - newlineStart) newlineStart else none
          scanReads lineEnd buf newlineStart ++ [newlineStart] ++
            (if searched then keySearchReads key buf newlineStart (i - newlineStart) newlineStart else []) ++
            if found.isSome then [] else parseLinesReads key buf fuel (i + 1)

def enterSectionReads (key buf : List Byte) (i : Nat) : List Nat :=
  scanReads isspace buf (i + 1) ++ parseLinesReads key buf (buf.length + 1) (Scan.scanWhile isspace buf (i + 1))

/-- The places that the loop has reported do not steer it. -/
def parseSectionsReads (sec key buf : List Byte) : Nat → Nat → List Nat
  | 0, _ => []
  | fuel + 1, i =>
      i :: if endOfString (bufAt buf i) then []
        else
          (if i = 0 then [] else [i - 1]) ++
            if (i = 0 ∨ newline (bufAt buf (i - 1))) ∧ leftBrace (bufAt buf i) then
              let name := fun c => !isRightBrace c && !endOfString c
              let sectionStart := i + 1
              let i := Scan.scanWhile name buf (i + 1)
              let entered := enterSection key buf sectionStart i {}
              scanReads name buf sectionStart ++
                (strncmpReads (buf.drop sectionStart) sec (i - sectionStart)).map (sectionStart + ·) ++
                if strncmp (buf.drop sectionStart) sec (i - sectionStart) = 0 then
                  enterSectionReads key buf i ++
                    if entered.2.2 then [] else parseSectionsReads sec key buf fuel entered.2.1
                else parseSectionsReads sec key buf fuel i
            else parseSectionsReads sec key buf fuel (i + 1)

/-- The indices of the text that `parse_file` reads. -/
def parseFileReads (sec key buf : List Byte) : List Nat := parseSectionsReads sec key buf (buf.length + 1) 0

end Psuart

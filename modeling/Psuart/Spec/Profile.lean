import Psuart.Library.Store
import Psuart.Spec.IniFile

namespace Psuart

/-- The names of sections and keys and the values hold no format directive. -/
abbrev SectionKey := {sec : List Byte // SectionName sec ∧ charByte '%' ∉ sec}

abbrev EntryKey := {key : List Byte // KeyName key ∧ charByte '%' ∉ key}

abbrev EntryText := {value : List Byte // (∀ c ∈ value, TextByte c) ∧ charByte '%' ∉ value}

/-- A profile lists its sections with their entries. -/
abbrev Profile := List (SectionKey × List (EntryKey × EntryText))

abbrev ProfileWrite := Store.Update SectionKey EntryKey EntryText

def sectionText (entered : SectionKey × List (EntryKey × EntryText)) : List Byte :=
  headerLine entered.1.val ++ entered.2.flatMap fun entry => entryLine entry.1.val entry.2.val

/-- The file has an empty line in front of each later section. -/
def Profile.text : Profile → List Byte
  | [] => []
  | first :: rest => sectionText first ++ rest.flatMap fun entered => charByte '\n' :: sectionText entered

/-- No name of the list begins another one. -/
def Apart {good : List Byte → Prop} (names : List {name // good name}) : Prop :=
  ∀ first ∈ names, ∀ second ∈ names, first.val <+: second.val → first = second

def profileStep (write : ProfileWrite) (ret : Bool) (file : Option (List Byte)) :
    Except IniFault (Bool × Option (List Byte)) :=
  (writeProfileString fileCallsDone write.sec.val write.key.val (some write.value.val) file).map fun result =>
    (ret && result.1, result.2)

/-- A run stops at the first fault and reports whether every write has returned one. -/
def profileRun (file : Option (List Byte)) (writes : List ProfileWrite) :
    Except IniFault (Bool × Option (List Byte)) :=
  writes.foldlM (fun result write => profileStep write result.1 result.2) (true, file)

/-- The latest value that a run wrote for a section and a key. -/
def latestWrite (sec : SectionKey) (key : EntryKey) (writes : List ProfileWrite) : Option EntryText :=
  Settings.latest (Store.Update.sets sec key) none writes

/-- Every file of a run stays below the size limit. -/
def ProfileFits (profile : Profile) (writes : List ProfileWrite) : Prop :=
  ∀ count ≤ writes.length, (Profile.text (Store.run profile (writes.take count))).length < maxFileSize

end Psuart

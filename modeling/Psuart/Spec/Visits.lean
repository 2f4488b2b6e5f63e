import Psuart.Spec.Inih
import Psuart.Spec.Profile

namespace Psuart

variable {S : Type}

/-- One call of a handler. The flag tells that the handler has accepted every entry. -/
def visit (handler : IniHandler S) (result : S × Bool) (entry : Received) : S × Bool :=
  let (user, accepted) := handler result.1 entry.sec entry.name entry.value
  (user, result.2 && accepted)

def visitAll (handler : IniHandler S) (user : S) (entries : List Received) : S × Bool :=
  entries.foldl (visit handler) (user, true)

/-- The entries of one section. -/
def sectionEntries (entered : SectionKey × List (EntryKey × EntryText)) : List Received :=
  entered.2.map fun entry => ⟨entered.1.val, entry.1.val, entry.2.val⟩

/-- The entries of a profile in the order of its text. -/
def Profile.entries (profile : Profile) : List Received := profile.flatMap sectionEntries

/-- The reader of the configuration gets the whole section, key and value of an entry. -/
structure Readable (sec : SectionKey) (key : EntryKey) (value : EntryText) : Prop where
  section_graphic : ∀ c ∈ sec.val, Graphic c
  section_short : sec.val.length < maxSection
  key_graphic : ∀ c ∈ key.val, Graphic c
  visible : key.val.head? ≠ some (charByte '#')
  value_graphic : ∀ c ∈ value.val, Graphic c
  line_short : key.val.length + value.val.length + 1 < iniMaxLine

end Psuart

import Psuart.Model.Address

namespace Psuart

/-- The buffer `value` has 32 zero bytes, and a failed read returns the default. -/
def readProfileInt (calls : FileCalls) (sec key : List Byte) (defaultValue : CInt) (file : Option (List Byte)) :
    Except IniFault CInt :=
  (readProfileString calls sec key (List.replicate 32 0) none file).map fun result =>
    if result.1 then atoi result.2 else defaultValue

end Psuart

import Psuart.Library.Framing
import Psuart.Spec.Gateway

namespace Psuart

abbrev Frame := Byte × List Byte

def Frame.bytes (frame : Frame) : List Byte := erupFrame frame.1 frame.2

/-- The frame that the event sends over the TCP descriptor. -/
def ServiceEvent.frame (fd : Int) (event : ServiceEvent) : Option Frame :=
  (parseFrame (event.packet fd)).map Prod.fst

def connectionFrames (fd : Int) (connection : List ServiceTransition) : List Frame :=
  connection.filterMap fun transition => transition.event.frame fd

def acceptedBytesOf (fd : Int) (connection : List ServiceTransition) : List Byte :=
  connection.flatMap fun transition => transition.event.accepted fd

/-- A frame answers a command of its flag, and the decoder of the commands takes it as well. -/
structure FrameAnswers (frame : Frame) : Prop where
  length : frame.2.length = (raderDlenOf frame.1).toNat
  visible : frame.2 ≠ []
  peer : ∀ s past, s.raderDlen = 0 →
    (raderCmd s (recvArray frame.bytes past) frame.bytes.length).written = some frame.2

/-- The server can read every frame as soon as it has arrived, and nothing else. -/
structure StreamDecodes (fd : Int) (connection : List ServiceTransition) : Prop where
  answers : ∀ frame ∈ connectionFrames fd connection, FrameAnswers frame
  whole : acceptedBytesOf fd connection = (connectionFrames fd connection).flatMap Frame.bytes
  parts : ∀ arrived, arrived <+: acceptedBytesOf fd connection →
    ∃ count rest, Framing.splitAll parseFrame arrived = ((connectionFrames fd connection).take count, rest) ∧
      arrived = ((connectionFrames fd connection).take count).flatMap Frame.bytes ++ rest ∧
      parseFrame rest = none

end Psuart

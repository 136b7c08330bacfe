import Sddr.Lib.Bytes

/-!
# Messages of a private set intersection

`constructPSIMessage` and `parsePSIMessage` of `EbNRadioBT2PSI.cpp`. Sizes are copied from the memory of a `uint32_t`,
lowest byte first.
-/

namespace Sddr.Codec
open Sddr.Lib

/-- The characters of a `string`, which may be zeros. -/
abbrev Str := List Byte

/-- `BasicTool::StringVectorSize`. -/
def stringVectorSize (sv : List Str) : Nat := (sv.map List.length).sum

/-- The loop of `constructPSIMessage`. -/
def writeElements (message : List Byte) (pos : Nat) : List Str → Option (List Byte)
  | [] => some message
  | elem :: input =>
      let elemLength := elem.length % 2 ^ 32
      (splice message pos (littleEndian 4 elemLength)).bind fun message =>
        (splice message (pos + 4) (elem.take elemLength)).bind fun message =>
          writeElements message (pos + 4 + elemLength) input

/-- `message` is the vector the message is written to, with what it held before. Its new size `4 + messageSize` is a
`uint32_t`, too. -/
def constructPSIMessage (message : List Byte) (input : List Str) : Option (List Byte) :=
  let messageSize := (stringVectorSize input + input.length * 4) % 2 ^ 32
  (splice (resize message ((4 + messageSize) % 2 ^ 32)) 0 (littleEndian 4 messageSize)).bind fun message =>
    writeElements message 4 input

/-- The loop of `parsePSIMessage` from `pos` on. -/
def parseElements (message : List Byte) (pos : Nat) : Option (List Str) :=
  if pos < message.length then
    (slice message pos 4).bind fun size =>
      let elemLength := ofLittleEndian size
      (slice message (pos + 4) elemLength).bind fun elem =>
        (parseElements message (pos + 4 + elemLength)).map (elem :: ·)
  else some []
termination_by message.length - pos

def parsePSIMessage (message : List Byte) : Option (List Str) := parseElements message 0

/-- The size of a whole message, the four bytes of its own size included. -/
def framedSize (input : List Str) : Nat := 4 + (stringVectorSize input + input.length * 4)

end Sddr.Codec

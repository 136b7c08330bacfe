import Sddr.Codec.BinaryToUTF8
import Sddr.Codec.PSIMessage

/-!
# Received data

What a remote device sends is parsed on arrays that end. `parsePSIMessage` gets the body of a message, and `decode` the
name of a device.
-/

namespace Sddr.Codec
open Sddr.Lib

/-! ## parsePSIMessage -/

/-- A `vector` whose size is a `size_t` of `w` bits. -/
structure ByteVector (w : Nat) where
  bytes : List Byte
  size_lt : bytes.length < 2 ^ w

/-- What becomes of a call: it returns, it throws, or it reads outside of an array. -/
inductive Outcome (α : Type) where
  | returns (result : α)
  | throws
  | outOfRange
  deriving DecidableEq

variable {w : Nat} (refuses : List Str → Nat → Bool)

theorem slice_le {α : Type} {source elements : List α} {pos n : Nat} (h : slice source pos n = some elements) :
    pos + n ≤ source.length := by
  unfold slice at h
  split_ifs at h with hle
  exact hle

/-- The loop of `parsePSIMessage`. `refuses` says whether a string of a length can be made, with the elements there are
already; its constructor throws where not. -/
def parseElementsIn (message : ByteVector w) (pos : Nat) (output : List Str) : Outcome (List Str) :=
  if _hpos : pos < message.bytes.length then
    match _hsize : slice message.bytes pos 4 with
    | none => .outOfRange
    | some size =>
        let elemLength := ofLittleEndian size
        if refuses output elemLength then .throws
        else
          match _helem : slice message.bytes ((pos + 4) % 2 ^ w) elemLength with
          | none => .outOfRange
          | some elem => parseElementsIn message (((pos + 4) % 2 ^ w + elemLength) % 2 ^ w) (output ++ [elem])
  else .returns output
termination_by message.bytes.length - pos
decreasing_by
  have hlt := message.size_lt
  have h4 := slice_le _hsize
  have hend := slice_le _helem
  have hpos4 : (pos + 4) % 2 ^ w = pos + 4 := Nat.mod_eq_of_lt (by omega)
  rw [hpos4] at hend ⊢
  rw [Nat.mod_eq_of_lt (by omega)]
  omega

def parsePSIMessageIn (message : ByteVector w) : Outcome (List Str) := parseElementsIn refuses message 0 []

/-- Lengths of four bytes, each followed by that many bytes, to the end or up to a length that is refused. -/
inductive Elements : List Str → List Byte → Prop
  | nil {output} : Elements output []
  | refused {output size rest} : size.length = 4 → refuses output (ofLittleEndian size) = true →
      Elements output (size ++ rest)
  | elem {output size elem rest} : size.length = 4 → elem.length = ofLittleEndian size →
      Elements (output ++ [elem]) rest → Elements output (size ++ (elem ++ rest))

/-! ## decode -/

namespace BinaryToUTF8

/-- The loop that copies whole bytes to the output, which has no room behind its end. -/
def drainIn (output : List Byte) (outputPos value numValueBits : Nat) : Option (List Byte × Nat × Nat) :=
  if 8 ≤ numValueBits then
    if outputPos < output.length then
      drainIn (output.set outputPos (BitVec.ofNat 8 (value >>> (numValueBits - 8) &&& 0xFF))) (outputPos + 1) value
        (numValueBits - 8)
    else none
  else some (output, outputPos, numValueBits)
termination_by numValueBits

/-- The loop over the input and what follows it; `length` is the number of its bytes. The index is an `int`, and there
is no result where it overflows. -/
def decodeLoopIn (input : List Byte) (length : Nat) (output : List Byte) (i outputPos value numValueBits : Nat) :
    Option (List Byte) :=
  if i < length then
    input[i]?.bind fun (byte : Byte) =>
      if byte &&& 0xC0 = 0xC0 then
        if i + 2 < 2 ^ 31 then
          input[i + 1]?.bind fun (second : Byte) =>
            let value := escaped value byte second
            (drainIn output outputPos value (numValueBits + 14)).bind fun (output, outputPos, numValueBits) =>
              decodeLoopIn input length output (i + 2) outputPos value numValueBits
        else none
      else
        if i + 1 < 2 ^ 31 then
          let value := shl value 7 ||| (byte &&& 0x7F).toNat
          (drainIn output outputPos value (numValueBits + 7)).bind fun (output, outputPos, numValueBits) =>
            decodeLoopIn input length output (i + 1) outputPos value numValueBits
        else none
  else if 0 < numValueBits then
    if outputPos < output.length then
      some (output.set outputPos (BitVec.ofNat 8 (value &&& (1 <<< numValueBits - 1))))
    else none
  else some output
termination_by length - i

/-- `decode(output, input)`. Behind the characters of a string is its terminator. -/
def decodeIn (output name : List Byte) : Option (List Byte) :=
  decodeLoopIn (name ++ [0]) name.length output 0 0 0 0

/-- The last byte is the lead byte of a pair. -/
def endsWithLead : List Byte → Bool
  | [] => false
  | [byte] => decide (byte &&& 0xC0 = 0xC0)
  | byte :: second :: name => if byte &&& 0xC0 = 0xC0 then endsWithLead name else endsWithLead (second :: name)

/-- The bytes that are decoded. A lead byte at the end takes the terminator for its second byte. -/
def numDecoded (name : List Byte) : Nat := name.length + (endsWithLead name).toNat

end BinaryToUTF8

end Sddr.Codec

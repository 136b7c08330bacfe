import Sddr.Codec.BitMap

/-!
# bitcpy on arrays

The same code as in `bitcpy`, on arrays that end: reading or writing a byte outside of them has no result.
-/

namespace Sddr.Codec
open Sddr.Lib

/-- `twoBytes`, which reads two bytes whatever the offset is. -/
def twoBytesIn (source : List Byte) (sourcePos sourceBitOffset : Nat) : Option Byte :=
  source[sourcePos]?.bind fun (first : Byte) =>
    source[sourcePos + 1]?.map fun (second : Byte) => (first >>> sourceBitOffset) ||| (second <<< (8 - sourceBitOffset))

def sourceBitsIn (source : List Byte) (sourcePos sourceBitOffset amount : Nat) : Option Byte :=
  if amount ≤ 8 - sourceBitOffset then source[sourcePos]?.map fun (first : Byte) => first >>> sourceBitOffset
  else twoBytesIn source sourcePos sourceBitOffset

/-- Start of `bitcpy`. -/
def bitcpyStartIn (dest : List Byte) (destPos destBitOffset : Nat) (source : List Byte)
    (sourcePos sourceBitOffset amount : Nat) : Option (List Byte) :=
  dest[destPos]?.bind fun (b : Byte) =>
    (sourceBitsIn source sourcePos sourceBitOffset amount).map fun bits =>
      dest.set destPos (b ^^^ ((((b >>> destBitOffset) ^^^ bits) &&& lowMask amount) <<< destBitOffset))

/-- Body of `bitcpy`. -/
def bitcpyBodyIn (dest : List Byte) (destPos : Nat) (source : List Byte) (sourcePos sourceBitOffset : Nat) :
    Nat → Option (List Byte)
  | 0 => some dest
  | n + 1 =>
      (twoBytesIn source sourcePos sourceBitOffset).bind fun b =>
        if destPos < dest.length then
          bitcpyBodyIn (dest.set destPos b) (destPos + 1) source (sourcePos + 1) sourceBitOffset n
        else none

/-- Ending of `bitcpy`. -/
def bitcpyEndIn (dest : List Byte) (destPos : Nat) (source : List Byte) (sourcePos sourceBitOffset length : Nat) :
    Option (List Byte) :=
  if length ≠ 0 then
    dest[destPos]?.bind fun (b : Byte) =>
      (sourceBitsIn source sourcePos sourceBitOffset length).map fun bits =>
        dest.set destPos (b ^^^ ((b ^^^ bits) &&& lowMask length))
  else some dest

def bitcpyAlignedIn (dest : List Byte) (destPos : Nat) (source : List Byte) (sourcePos sourceBitOffset length : Nat) :
    Option (List Byte) :=
  let fullLengthBytes := length / 8
  (bitcpyBodyIn dest destPos source sourcePos sourceBitOffset fullLengthBytes).bind fun dest =>
    bitcpyEndIn dest (destPos + fullLengthBytes) source (sourcePos + fullLengthBytes) sourceBitOffset (length % 8)

/-- `bitcpy` on arrays of `dest.length` and `source.length` bytes. -/
def bitcpyIn (dest : List Byte) (destOffset : Nat) (source : List Byte) (sourceOffset length : Nat) :
    Option (List Byte) :=
  let sourcePos := sourceOffset / 8
  let sourceBitOffset := sourceOffset % 8
  let destPos := destOffset / 8
  let destBitOffset := destOffset % 8
  if destBitOffset ≠ 0 then
    let amount := min (8 - destBitOffset) length
    (bitcpyStartIn dest destPos destBitOffset source sourcePos sourceBitOffset amount).bind fun dest =>
      bitcpyAlignedIn dest (destPos + 1) source ((sourceOffset + amount) / 8) ((sourceOffset + amount) % 8)
        (length - amount)
  else
    bitcpyAlignedIn dest destPos source sourcePos sourceBitOffset length

/-- The copy of whole bytes ends with the last bit of a byte on both sides. -/
def Overreads (destOffset sourceOffset length : Nat) : Prop :=
  (sourceOffset + length) % 8 = 0 ∧ (destOffset + length) % 8 = 0 ∧ (8 - destOffset % 8) % 8 + 8 ≤ length

instance (destOffset sourceOffset length : Nat) : Decidable (Overreads destOffset sourceOffset length) :=
  inferInstanceAs (Decidable (_ ∧ _ ∧ _))

end Sddr.Codec

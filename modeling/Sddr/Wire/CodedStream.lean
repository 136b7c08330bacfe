import Sddr.Lib.Varint

/-!
# Coded streams

Numbers of variable length in `coded_stream.cc` and `coded_stream.h`, over one array of bytes: at its end, or at a limit in
it, there is nothing to refresh the buffer with.
-/

namespace Sddr.Wire
open Sddr.Lib

/-! ## Writing -/

/-- `static_cast<uint8>(value | 0x80)`. -/
def continued {w : Nat} (value : BitVec w) : Byte := (value ||| 0x80).setWidth 8

/-- `WriteVarint32FallbackToArrayInline`: what stands between `target` and the result. -/
def writeVarint32FallbackToArray (value : BitVec 32) : List Byte :=
  let target0 := continued value
  if value ≥ 1#32 <<< 7 then
    let target1 := continued (value >>> 7)
    if value ≥ 1#32 <<< 14 then
      let target2 := continued (value >>> 14)
      if value ≥ 1#32 <<< 21 then
        let target3 := continued (value >>> 21)
        if value ≥ 1#32 <<< 28 then [target0, target1, target2, target3, (value >>> 28).setWidth 8]
        else [target0, target1, target2, target3 &&& 0x7F]
      else [target0, target1, target2 &&& 0x7F]
    else [target0, target1 &&& 0x7F]
  else [target0 &&& 0x7F]

def writeVarint32ToArray (value : BitVec 32) : List Byte :=
  if value < 0x80 then [value.setWidth 8] else writeVarint32FallbackToArray value

/-- The size that `WriteVarint64ToArrayInline` finds in the three parts of a value. -/
def sizeOfParts (part0 part1 part2 : BitVec 32) : Nat :=
  if part2 = 0 then
    if part1 = 0 then
      if part0 < 1#32 <<< 14 then if part0 < 1#32 <<< 7 then 1 else 2
      else if part0 < 1#32 <<< 21 then 3 else 4
    else
      if part1 < 1#32 <<< 14 then if part1 < 1#32 <<< 7 then 5 else 6
      else if part1 < 1#32 <<< 21 then 7 else 8
  else if part2 < 1#32 <<< 7 then 9 else 10

/-- `WriteVarint64ToArrayInline`. Each label falls through to the next one, so all bytes below the size are written. -/
def writeVarint64ToArray (value : BitVec 64) : List Byte :=
  let part0 := value.setWidth 32
  let part1 := (value >>> 28).setWidth 32
  let part2 := (value >>> 56).setWidth 32
  let size := sizeOfParts part0 part1 part2
  let target := [continued part0, continued (part0 >>> 7), continued (part0 >>> 14), continued (part0 >>> 21),
    continued part1, continued (part1 >>> 7), continued (part1 >>> 14), continued (part1 >>> 21),
    continued part2, continued (part2 >>> 7)]
  (target.take size).modify (size - 1) (· &&& 0x7F)

def writeVarint32SignExtendedToArray (value : BitVec 32) : List Byte :=
  if value.slt 0 then writeVarint64ToArray (value.signExtend 64) else writeVarint32ToArray value

/-- `CodedOutputStream::WriteTagToArray`. -/
def writeTagValueToArray (value : BitVec 32) : List Byte :=
  if value < 1#32 <<< 7 then [value.setWidth 8]
  else if value < 1#32 <<< 14 then [continued value, (value >>> 7).setWidth 8]
  else writeVarint32FallbackToArray value

/-- The loop of `WriteVarint32` and `WriteVarint64` for a buffer that is nearly full. `room` is what is left of the array
that the bytes are composed in; there is no result if they do not fit in it. -/
def writeVarintSlow {w : Nat} : (room : Nat) → BitVec w → Option (List Byte)
  | 0, _ => none
  | room + 1, value =>
      if 0x7F < value then (writeVarintSlow room (value >>> 7)).map (((value.setWidth 8 &&& 0x7F) ||| 0x80) :: ·)
      else some [value.setWidth 8 &&& 0x7F]

/-! ## Sizes -/

def varintSize32 (value : BitVec 32) : Nat :=
  if value < 1#32 <<< 7 then 1
  else if value < 1#32 <<< 14 then 2
  else if value < 1#32 <<< 21 then 3
  else if value < 1#32 <<< 28 then 4
  else 5

def varintSize64 (value : BitVec 64) : Nat :=
  if value < 1#64 <<< 35 then
    if value < 1#64 <<< 7 then 1
    else if value < 1#64 <<< 14 then 2
    else if value < 1#64 <<< 21 then 3
    else if value < 1#64 <<< 28 then 4
    else 5
  else if value < 1#64 <<< 42 then 6
  else if value < 1#64 <<< 49 then 7
  else if value < 1#64 <<< 56 then 8
  else if value < 1#64 <<< 63 then 9
  else 10

def varintSize32SignExtended (value : BitVec 32) : Nat := if value.slt 0 then 10 else varintSize32 value

/-! ## Reading -/

/-- `kDefaultTotalBytesLimit`, from which on the limit of all bytes is met. -/
def kDefaultTotalBytesLimit : Nat := 64 <<< 20

/-- Up to four bytes of the unrolled loops: where a byte ends the number, or after all of them. -/
inductive Part where
  | ended (part : BitVec 32) (ptr : List Byte)
  | goesOn (part : BitVec 32) (ptr : List Byte)
  | past

/-- `bytes` lines of an unrolled loop. The last result stands for a read behind the buffer. -/
def readPart : (bytes shift : Nat) → BitVec 32 → List Byte → Part
  | 0, _, part, ptr => .goesOn part ptr
  | _ + 1, _, _, [] => .past
  | bytes + 1, shift, part, b :: ptr =>
      let part := part ||| ((b.setWidth 32 &&& 0x7F) <<< shift)
      if b &&& 0x80 = 0 then .ended part ptr else readPart bytes (shift + 7) part ptr

/-- The loop of `ReadVarint32FromArray` over bytes whose bits are discarded. -/
def discard (result : BitVec 32) : Nat → List Byte → Option (Option (BitVec 32 × List Byte))
  | 0, _ => some none
  | _ + 1, [] => none
  | n + 1, b :: ptr => if b &&& 0x80 = 0 then some (some (result, ptr)) else discard result n ptr

/-- `ReadVarint32FromArray`. There is no result if it reads behind the buffer, and no value if the number is too long. -/
def readVarint32FromArray (buffer : List Byte) : Option (Option (BitVec 32 × List Byte)) :=
  match readPart 4 0 0 buffer with
  | .past => none
  | .ended result ptr => some (some (result, ptr))
  | .goesOn _ [] => none
  | .goesOn result (b :: ptr) =>
      let result := result ||| (b.setWidth 32 <<< 28)
      if b &&& 0x80 = 0 then some (some (result, ptr)) else discard result 5 ptr

/-- The three parts of a number. -/
def ofParts (part0 part1 part2 : BitVec 32) : BitVec 64 :=
  part0.setWidth 64 ||| (part1.setWidth 64 <<< 28) ||| (part2.setWidth 64 <<< 56)

/-- The unrolled loop of `ReadVarint64Fallback`. -/
def readVarint64FromArray (buffer : List Byte) : Option (Option (BitVec 64 × List Byte)) :=
  match readPart 4 0 0 buffer with
  | .past => none
  | .ended part0 ptr => some (some (ofParts part0 0 0, ptr))
  | .goesOn part0 ptr =>
      match readPart 4 0 0 ptr with
      | .past => none
      | .ended part1 ptr => some (some (ofParts part0 part1 0, ptr))
      | .goesOn part1 ptr =>
          match readPart 2 0 0 ptr with
          | .past => none
          | .ended part2 ptr => some (some (ofParts part0 part1 part2, ptr))
          | .goesOn _ _ => some none

/-- `ReadVarint64Slow` with `left` of the ten bytes to come. -/
def readVarint64Slow : (left count : Nat) → BitVec 64 → List Byte → Option (BitVec 64 × List Byte)
  | 0, _, _, _ => none
  | _ + 1, _, _, [] => none
  | left + 1, count, result, b :: buffer =>
      let result := result ||| ((b.setWidth 64 &&& 0x7F) <<< (7 * count))
      if b &&& 0x80 = 0 then some (result, buffer) else readVarint64Slow left (count + 1) result buffer

/-- Whether a varint cannot cross the end of the buffer. -/
def staysInside (buffer : List Byte) : Bool :=
  10 ≤ buffer.length || (buffer.getLast?.any fun b => b &&& 0x80 = 0)

/-- `ReadVarint64`, as `readVarint64FromArray`. -/
def readVarint64In (buffer : List Byte) : Option (Option (BitVec 64 × List Byte)) :=
  match buffer with
  | b :: rest =>
      if b < 0x80 then some (some (b.setWidth 64, rest))
      else if staysInside buffer then readVarint64FromArray buffer
      else some (readVarint64Slow 10 0 0 buffer)
  | [] => some none

/-- `ReadVarint32`, as `readVarint32FromArray`. -/
def readVarint32In (buffer : List Byte) : Option (Option (BitVec 32 × List Byte)) :=
  match buffer with
  | b :: rest =>
      if b < 0x80 then some (some (b.setWidth 32, rest))
      else if staysInside buffer then readVarint32FromArray buffer
      else some ((readVarint64Slow 10 0 0 buffer).map fun (value, rest) => (value.setWidth 32, rest))
  | [] => some none

/-- `ReadVarint64`. -/
def readVarint64 (buffer : List Byte) : Option (BitVec 64 × List Byte) := (readVarint64In buffer).join

/-- `ReadVarint32`. -/
def readVarint32 (buffer : List Byte) : Option (BitVec 32 × List Byte) := (readVarint32In buffer).join

/-- `ReadTag`, as `readVarint32FromArray`. Both at the end and where the tag is too long the tag is 0. -/
def readTagIn (buffer : List Byte) : Option (BitVec 32 × List Byte) :=
  match buffer with
  | b :: rest =>
      if b < 0x80 then some (b.setWidth 32, rest)
      else if staysInside buffer then (readVarint32FromArray buffer).map fun read => read.getD (0, buffer)
      else (readVarint64In buffer).map fun read => (read.map fun (value, rest) => (value.setWidth 32, rest)).getD (0, buffer)
  | [] => some (0, [])

/-- `ReadTag`. -/
def readTag (buffer : List Byte) : BitVec 32 × List Byte := (readTagIn buffer).getD (0, buffer)

end Sddr.Wire

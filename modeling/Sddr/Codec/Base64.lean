import Sddr.Lib.Bytes

/-!
# Base64

`Base64.h` and `Base64.cpp`. Reading outside of a table or of the input, writing outside of the output and a failed assert
have no result. Lengths are those of arrays in memory, so `size_t` and the `int` of the loops hold them.
-/

namespace Sddr.Codec.Base64
open Sddr.Lib

def encodeTable : List Char :=
  ['A', 'B', 'C', 'D', 'E', 'F', 'G', 'H', 'I', 'J',
   'K', 'L', 'M', 'N', 'O', 'P', 'Q', 'R', 'S', 'T',
   'U', 'V', 'W', 'X', 'Y', 'Z', 'a', 'b', 'c', 'd',
   'e', 'f', 'g', 'h', 'i', 'j', 'k', 'l', 'm', 'n',
   'o', 'p', 'q', 'r', 's', 't', 'u', 'v', 'w', 'x',
   'y', 'z', '0', '1', '2', '3', '4', '5', '6', '7',
   '8', '9', '+', '/']

def decodeTable : List Byte :=
  [62,  0,  0,  0, 63, 52, 53, 54, 55, 56,
   57, 58, 59, 60, 61,  0,  0,  0,  0,  0,
    0,  0,  0,  1,  2,  3,  4,  5,  6,  7,
    8,  9, 10, 11, 12, 13, 14, 15, 16, 17,
   18, 19, 20, 21, 22, 23, 24, 25,  0,  0,
    0,  0,  0,  0, 26, 27, 28, 29, 30, 31,
   32, 33, 34, 35, 36, 37, 38, 39, 40, 41,
   42, 43, 44, 45, 46, 47, 48, 49, 50, 51]

def getEncodedSize (length : Nat) : Nat := ((length + 2) / 3) * 4

/-- `input[length - back]`. -/
def charAt (input : List Char) (back : Nat) : Option Char :=
  if back ≤ input.length then input[input.length - back]? else none

def getDecodedSize (input : List Char) : Option Nat := do
  if (← charAt input 2) = '=' then return ((input.length - 4) / 4) * 3 + 1
  else if (← charAt input 1) = '=' then return ((input.length - 4) / 4) * 3 + 2
  else return (input.length / 4) * 3

/-! ## encode -/

/-- `encodeTable[index]`. -/
def encodeChar (index : BitVec 32) : Option Char := encodeTable[index.toNat]?

/-- The loop over the blocks; `input` points to the next one. -/
def encodeBlocks (input : Mem) : Nat → Option (List Char)
  | 0 => some []
  | bodyBlocks + 1 => do
      let value : BitVec 32 := (input 0).setWidth 32 <<< 16 ||| (input 1).setWidth 32 <<< 8 ||| (input 2).setWidth 32
      let c0 ← encodeChar (value >>> 18)
      let c1 ← encodeChar ((value >>> 12) &&& 0x3F)
      let c2 ← encodeChar ((value >>> 6) &&& 0x3F)
      let c3 ← encodeChar (value &&& 0x3F)
      let output ← encodeBlocks (input.add 3) bodyBlocks
      return [c0, c1, c2, c3] ++ output

/-- The bytes behind the blocks. -/
def encodeEnd (input : Mem) (endBytes : Nat) : Option (List Char) :=
  if endBytes = 1 then do
    let value : BitVec 32 := (input 0).setWidth 32 <<< 16
    let c0 ← encodeChar (value >>> 18)
    let c1 ← encodeChar ((value >>> 12) &&& 0x3F)
    return [c0, c1, '=', '=']
  else if endBytes = 2 then do
    let value : BitVec 32 := (input 0).setWidth 32 <<< 16 ||| (input 1).setWidth 32 <<< 8
    let c0 ← encodeChar (value >>> 18)
    let c1 ← encodeChar ((value >>> 12) &&& 0x3F)
    let c2 ← encodeChar ((value >>> 6) &&& 0x3F)
    return [c0, c1, c2, '=']
  else some []

/-- What `encode(output, input, length)` writes. -/
def encodeTo (input : Mem) (length : Nat) : Option (List Char) := do
  let body ← encodeBlocks input (length / 3)
  let tail ← encodeEnd (input.add (3 * (length / 3))) (length % 3)
  return body ++ tail

/-- `encode(input, length)`. -/
def encode (input : Mem) (length : Nat) : Option (List Char) := do
  splice (List.replicate (getEncodedSize length) '0') 0 (← encodeTo input length)

/-! ## decode -/

/-- `decodeTable[c - 43]`. -/
def decodeChar (c : Char) : Option (BitVec 32) :=
  if 43 ≤ c.toNat then decodeTable[c.toNat - 43]?.map (BitVec.setWidth 32) else none

/-- The loop over the blocks, with the bytes it writes and the input it leaves. -/
def decodeBlocks : Nat → List Char → Option (List Byte × List Char)
  | 0, input => some ([], input)
  | bodyBlocks + 1, c0 :: c1 :: c2 :: c3 :: input => do
      let value := (← decodeChar c0) <<< 18 ||| (← decodeChar c1) <<< 12 ||| (← decodeChar c2) <<< 6 ||| (← decodeChar c3)
      let (output, input) ← decodeBlocks bodyBlocks input
      return ([(value >>> 16).setWidth 8, (value >>> 8).setWidth 8, value.setWidth 8] ++ output, input)
  | _ + 1, _ => none

/-- The characters behind the blocks. -/
def decodeEnd (endBytes : Nat) (input : List Char) : Option (List Byte) :=
  if endBytes = 2 then
    match input with
    | c0 :: c1 :: _ => do
        let value := (← decodeChar c0) <<< 18 ||| (← decodeChar c1) <<< 12
        return [(value >>> 16).setWidth 8]
    | _ => none
  else if endBytes = 3 then
    match input with
    | c0 :: c1 :: c2 :: _ => do
        let value := (← decodeChar c0) <<< 18 ||| (← decodeChar c1) <<< 12 ||| (← decodeChar c2) <<< 6
        return [(value >>> 16).setWidth 8, (value >>> 8).setWidth 8]
    | _ => none
  else some []

/-- The variable `endBytes`. -/
def endBytesOf (input : List Char) : Option Nat := do
  if (← charAt input 2) = '=' then return 2
  else if (← charAt input 1) = '=' then return 3
  else return 0

/-- `decode(output, input)`, with the bytes that are written from `output` on. -/
def decode (input : List Char) : Option (List Byte) :=
  if input.length % 4 = 0 then do
    let endBytes ← endBytesOf input
    let bodyBlocks := if endBytes = 0 then input.length / 4 else input.length / 4 - 1
    let (body, rest) ← decodeBlocks bodyBlocks input
    let tail ← decodeEnd endBytes rest
    return body ++ tail
  else none

end Sddr.Codec.Base64

import Sddr.Lib.Bits

/-!
# BitMap

`BitMap.h` and `BitMap.cpp`: a vector of bytes with a size in bits. Only the first `sizeBytes` bytes of `bits`
belong to the vector. Sizes, offsets and positions are those of arrays in memory, of fewer than 2^32 bytes, so `size_t` and
the `uint32_t` of the positions hold them.
-/

namespace Sddr.Codec
open Sddr.Lib

/-! ## bitcpy -/

/-- The bits of `source` from bit `sourceBitOffset` of byte `sourcePos` on, taken from two bytes. C computes the
expression in `int`; only its low eight bits reach the byte it is stored to. -/
def twoBytes (source : Mem) (sourcePos sourceBitOffset : Nat) : Byte :=
  (source sourcePos >>> sourceBitOffset) ||| (source (sourcePos + 1) <<< (8 - sourceBitOffset))

/-- The second byte is only read when `amount` bits do not fit in the first. -/
def sourceBits (source : Mem) (sourcePos sourceBitOffset amount : Nat) : Byte :=
  if amount ≤ 8 - sourceBitOffset then source sourcePos >>> sourceBitOffset
  else twoBytes source sourcePos sourceBitOffset

/-- `(1 << amount) - 1`. -/
def lowMask (amount : Nat) : Byte := BitVec.ofNat 8 (1 <<< amount - 1)

/-- Start of `bitcpy`: the bits up to the byte alignment of the destination. -/
def bitcpyStart (dest : Mem) (destPos destBitOffset : Nat) (source : Mem) (sourcePos sourceBitOffset amount : Nat) :
    Mem :=
  dest.store destPos (dest destPos ^^^
    ((((dest destPos >>> destBitOffset) ^^^ sourceBits source sourcePos sourceBitOffset amount) &&& lowMask amount)
      <<< destBitOffset))

/-- Body of `bitcpy`: full bytes of the destination. -/
def bitcpyBody (dest : Mem) (destPos : Nat) (source : Mem) (sourcePos sourceBitOffset : Nat) : Nat → Mem
  | 0 => dest
  | n + 1 =>
      bitcpyBody (dest.store destPos (twoBytes source sourcePos sourceBitOffset)) (destPos + 1) source
        (sourcePos + 1) sourceBitOffset n

/-- Ending of `bitcpy`: the remaining bits. -/
def bitcpyEnd (dest : Mem) (destPos : Nat) (source : Mem) (sourcePos sourceBitOffset length : Nat) : Mem :=
  if length ≠ 0 then
    dest.store destPos (dest destPos ^^^
      ((dest destPos ^^^ sourceBits source sourcePos sourceBitOffset length) &&& lowMask length))
  else dest

/-- Body and ending of `bitcpy`, with the destination at a byte boundary. -/
def bitcpyAligned (dest : Mem) (destPos : Nat) (source : Mem) (sourcePos sourceBitOffset length : Nat) : Mem :=
  let fullLengthBytes := length / 8
  bitcpyEnd (bitcpyBody dest destPos source sourcePos sourceBitOffset fullLengthBytes)
    (destPos + fullLengthBytes) source (sourcePos + fullLengthBytes) sourceBitOffset (length % 8)

def bitcpy (dest : Mem) (destOffset : Nat) (source : Mem) (sourceOffset length : Nat) : Mem :=
  let sourcePos := sourceOffset / 8
  let sourceBitOffset := sourceOffset % 8
  let destPos := destOffset / 8
  let destBitOffset := destOffset % 8
  if destBitOffset ≠ 0 then
    let amount := min (8 - destBitOffset) length
    bitcpyAligned (bitcpyStart dest destPos destBitOffset source sourcePos sourceBitOffset amount) (destPos + 1)
      source ((sourceOffset + amount) / 8) ((sourceOffset + amount) % 8) (length - amount)
  else
    bitcpyAligned dest destPos source sourcePos sourceBitOffset length

/-! ## The class -/

structure BitMap where
  size : Nat
  bits : Mem

namespace BitMap

/-- `BitMap(size)`: all bits zero. -/
def new (size : Nat) : BitMap := ⟨size, fun _ => 0⟩

def sizeBytes (b : BitMap) : Nat := (b.size + 7) / 8

/-- `BitMap(size, bits)`: a copy of the bytes that hold `size` bits. -/
def ofMem (size : Nat) (bits : Mem) : BitMap := ⟨size, Mem.copy (fun _ => 0) bits ((size + 7) / 8)⟩

def get (b : BitMap) (index : Nat) : Bool :=
  (b.bits (index >>> 3)).getLsbD (index &&& 7)

/-- `set(index)`. -/
def set (b : BitMap) (index : Nat) : BitMap :=
  { b with bits := b.bits.store (index >>> 3) (b.bits (index >>> 3) ||| BitVec.ofNat 8 (1 <<< (index &&& 7))) }

/-- `set(index, value)`. -/
def setTo (b : BitMap) (index : Nat) (value : Bool) : BitMap :=
  { b with
    bits := b.bits.store (index >>> 3)
      ((b.bits (index >>> 3) &&& ~~~(BitVec.ofNat 8 (1 <<< (index &&& 7))))
        ||| BitVec.ofNat 8 (value.toNat <<< (index &&& 7))) }

def setByte (b : BitMap) (index : Nat) (value : Byte) : BitMap :=
  { b with bits := b.bits.store index value }

def setAll (b : BitMap) (value : Bool) : BitMap :=
  { b with bits := b.bits.copy (fun _ => if value then 0xFF else 0x00) ((b.size + 7) / 8) }

/-- `getThenSet` returns the old bit and the changed map. -/
def getThenSet (b : BitMap) (index : Nat) : Bool × BitMap := (b.get index, b.set index)

def copyFrom (b : BitMap) (source : Mem) (sourceOffset offset length : Nat) : BitMap :=
  { b with bits := bitcpy b.bits offset source sourceOffset length }

/-- `copyTo` returns the changed destination. -/
def copyTo (b : BitMap) (dest : Mem) (destOffset offset length : Nat) : Mem :=
  bitcpy dest destOffset b.bits offset length

/-- The bytes of the vector. -/
def toBytes (b : BitMap) : List Byte := b.bits.take b.sizeBytes

/-- The loop `for b < n: set(b + offset, (value >> b) & 1)`, which writes a number least significant bit first. -/
def writeNumber (b : BitMap) (offset value : Nat) (n : Nat) : BitMap :=
  (List.range n).foldl (fun acc i => acc.setTo (i + offset) (((value >>> i) &&& 1) = 1)) b

/-- The loop `for b < n: if(get(b + offset)) value |= 1 << b`. -/
def readNumber (b : BitMap) (offset n : Nat) : Nat := natOfBits (fun i => b.get (i + offset)) n

end BitMap

end Sddr.Codec

import Sddr.Codec.BitMap

/-!
# Bloom filters

`BloomFilter.h`, `BloomFilter.cpp`, `SegmentedBloomFilter.h` and `SegmentedBloomFilter.cpp`. SHA-256, the
single-precision arithmetic of the false positive rates and the values of `rand()` are parameters.
-/

namespace Sddr.Codec
open Sddr.Lib

/-! ## Parameters -/

/-- The `SHA256_DIGEST_LENGTH` bytes of a digest as one number, first byte lowest. -/
abbrev Digest := BitVec 256

/-- `htole32(((uint32_t *)hash)[k])`. -/
def Digest.word (hash : Digest) (k : Nat) : Nat := (hash.extractLsb' (32 * k) 32).toNat

/-- The operations of `float` that the code uses, with the two formulas for false positive rates. -/
class FloatOps (P : Type) where
  zero : P
  one : P
  mul : P → P → P
  le : P → P → Bool
  lt : P → P → Bool
  eq : P → P → Bool
  /-- `computePFalse(N, M, K)`. -/
  computePFalse : Nat → Nat → Nat → P
  /-- The rate of one segment in `setSegment`, from `N`, `M`, `K` and the segment's size. -/
  segmentPFalse : Nat → Nat → Nat → Nat → P
  /-- `ceil(2 * (log(0.05) / log(bloomPFalse)))`, from the bits of the filter. -/
  advertsConfirm : Nat → Nat

/-- The values of `advertsConfirm` at the sizes the code asks for. -/
def FloatOps.confirmTable : List (Nat × Nat) :=
  [(462, 8), (446, 8), (430, 8), (414, 8), (382, 9), (366, 9), (350, 10), (286, 12), (254, 14), (222, 16), (94, 89)]

/-- Rates `2 ^ -n`, with 0 as `none`; every filter has rate one half. -/
abbrev LogRate := Option Nat

instance : FloatOps LogRate where
  zero := none
  one := some 0
  mul a b := a.bind fun m => b.map fun n => m + n
  le a b := match a, b with
    | none, _ => true
    | some _, none => false
    | some m, some n => decide (n ≤ m)
  lt a b := match a, b with
    | _, none => false
    | none, some _ => true
    | some m, some n => decide (n < m)
  eq a b := decide (a = b)
  computePFalse _ _ _ := some 1
  segmentPFalse _ _ _ _ := some 1
  advertsConfirm bits := (FloatOps.confirmTable.lookup bits).getD 0

/-! ## BloomFilter -/

structure BloomFilter (P : Type) where
  N : Nat
  M : Nat
  K : Nat
  bits : BitMap
  pFalse : P

namespace BloomFilter

variable {P : Type} [FloatOps P]

/-- `BloomFilter(N, M, K)`. -/
def new (N M K : Nat) : BloomFilter P := ⟨N, M, K, BitMap.new M, FloatOps.computePFalse N M K⟩

/-- `BloomFilter(N, M, K, bits)`. -/
def ofBytes (N M K : Nat) (bits : Mem) : BloomFilter P := ⟨N, M, K, BitMap.ofMem M bits, FloatOps.computePFalse N M K⟩

/-- `BloomFilter(N, K, bits, offset, length)`. -/
def ofBitMap (N K : Nat) (bits : BitMap) (offset length : Nat) : BloomFilter P :=
  ⟨N, length, K, (BitMap.new length).copyFrom bits.bits offset 0 length, FloatOps.computePFalse N length K⟩

def set (b : BloomFilter P) (index : Nat) : BloomFilter P := { b with bits := b.bits.set index }

/-- The loop `for k < n: set(index(k))`. -/
def setIndices (b : BloomFilter P) (index : Nat → Nat) (n : Nat) : BloomFilter P :=
  (List.range n).foldl (fun acc k => acc.set (index k)) b

/-- `add(hash)`. -/
def addHash (b : BloomFilter P) (hash : Digest) : BloomFilter P := b.setIndices (fun k => hash.word k % b.M) b.K

/-- `add(prefix, prefixSize, value, valueSize)`. -/
def add (sha256 : List Byte → Digest) (b : BloomFilter P) (pre value : List Byte) : BloomFilter P :=
  b.addHash (sha256 (pre ++ value))

/-- `addRandom(count)`, with `rand` the values of the calls of `rand()`. -/
def addRandom (b : BloomFilter P) (rand : Nat → Nat) (count : Nat) : BloomFilter P :=
  b.setIndices (fun k => rand k % b.M) (b.K * count)

/-- `query(hash)`. -/
def queryHash (b : BloomFilter P) (hash : Digest) : Bool :=
  (List.range b.K).all fun k => b.bits.get (hash.word k % b.M)

/-- `query(prefix, prefixSize, value, valueSize)`. -/
def query (sha256 : List Byte → Digest) (b : BloomFilter P) (pre value : List Byte) : Bool :=
  b.queryHash (sha256 (pre ++ value))

end BloomFilter

/-! ## SegmentedBloomFilter -/

structure SegmentedBloomFilter (P : Type) extends BloomFilter P where
  B : Nat
  segmentSizes : List Nat
  segmentOffsets : List Nat
  filled : BitMap
  numFilled : Nat

namespace SegmentedBloomFilter

variable {P : Type} [FloatOps P]

/-- The offsets the constructor pushes: every segment starts where the one before ends. -/
def offsetsFrom (curSegmentOffset : Nat) : List Nat → List Nat
  | [] => []
  | size :: rest => curSegmentOffset :: offsetsFrom (curSegmentOffset + size) rest

/-- `if(allOnes)` of the constructors. -/
def init (bloom : BloomFilter P) (allOnes : Bool) : BloomFilter P :=
  if allOnes then { bloom with bits := bloom.bits.setAll true, pFalse := FloatOps.one } else bloom

/-- `SegmentedBloomFilter(N, M, K, B, segmentSizes, allOnes)`. The constructors leave the field `B_` at 0. -/
def new (N M K B : Nat) (segmentSizes : List Nat) (allOnes : Bool) : SegmentedBloomFilter P :=
  { init (BloomFilter.new N M K) allOnes with
    B := 0
    segmentSizes := segmentSizes
    segmentOffsets := offsetsFrom 0 segmentSizes
    filled := BitMap.new B
    numFilled := 0 }

/-- `SegmentedBloomFilter()`. -/
def empty : SegmentedBloomFilter P := ⟨⟨0, 0, 0, BitMap.new 0, FloatOps.one⟩, 0, [], [], BitMap.new 0, 0⟩

def getSegmentSize (b : SegmentedBloomFilter P) (segment : Nat) : Nat := b.segmentSizes.getD segment 0

def segmentOffset (b : SegmentedBloomFilter P) (segment : Nat) : Nat := b.segmentOffsets.getD segment 0

/-- `resetPFalse` returns the old rate and the changed filter. -/
def resetPFalse (b : SegmentedBloomFilter P) : P × SegmentedBloomFilter P :=
  (b.pFalse, { b with pFalse := FloatOps.one })

def isFilled (b : SegmentedBloomFilter P) (segment : Nat) : Bool := b.filled.get segment

/-- `getSegment` returns the changed destination. -/
def getSegment (b : SegmentedBloomFilter P) (segment : Nat) (dest : Mem) (offset : Nat) : Mem :=
  b.bits.copyTo dest offset (b.segmentOffset segment) (b.getSegmentSize segment)

/-- `setSegment` returns the rate of the new segment and the changed filter. -/
def setSegment (b : SegmentedBloomFilter P) (segment : Nat) (source : Mem) (offset : Nat) :
    P × SegmentedBloomFilter P :=
  let bits := b.bits.copyFrom source offset (b.segmentOffset segment) (b.getSegmentSize segment)
  let wasFilled := b.filled.getThenSet segment
  let pFalseDelta :=
    if !wasFilled.1 then FloatOps.segmentPFalse b.N b.M b.K (b.getSegmentSize segment) else FloatOps.one
  (pFalseDelta, { b with bits := bits, filled := wasFilled.2, pFalse := FloatOps.mul b.pFalse pFalseDelta })

end SegmentedBloomFilter

end Sddr.Codec

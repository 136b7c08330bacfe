import Sddr.Codec.Bloom
import Sddr.Lib.Segments

/-!
# Filters that arrive in segments

A filter is sent segment by segment. The receiver starts with ones and stores the segments that arrive, whatever their
order.
-/

namespace Sddr.Codec.SegmentedBloomFilter
open Sddr.Lib

variable (P : Type)

/-- A filter with `K` indices and segments of the given sizes, which add up to its bits. -/
structure Segmented (K : Nat) (sizes : List Nat) where
  filter : SegmentedBloomFilter P
  M_eq : filter.M = sizes.sum
  K_eq : filter.K = K
  size_eq : filter.bits.size = sizes.sum
  segmentSizes_eq : filter.segmentSizes = sizes
  segmentOffsets_eq : filter.segmentOffsets = offsetsFrom 0 sizes

/-- A call of `setSegment`, with the buffer and the offset in it that the segment goes through. -/
structure Transfer (sizes : List Nat) where
  segment : Fin sizes.length
  buffer : Mem
  offset : Nat

variable {P} [FloatOps P] {K : Nat} {sizes : List Nat}

/-- What the constructor makes of the sizes. -/
def Segmented.new (N K : Nat) (sizes : List Nat) (allOnes : Bool) : Segmented P K sizes where
  filter := .new N sizes.sum K sizes.length sizes allOnes
  M_eq := by cases allOnes <;> rfl
  K_eq := by cases allOnes <;> rfl
  size_eq := by cases allOnes <;> rfl
  segmentSizes_eq := rfl
  segmentOffsets_eq := rfl

/-- Stores a segment of `f`. -/
def Segmented.receive (f r : Segmented P K sizes) (t : Transfer sizes) : Segmented P K sizes :=
  let buffer := f.filter.getSegment t.segment t.buffer t.offset
  { r with filter := (r.filter.setSegment t.segment buffer t.offset).2 }

/-- What has arrived of `f`. -/
def Segmented.reassemble (f : Segmented P K sizes) (N : Nat) (transfers : List (Transfer sizes)) : Segmented P K sizes :=
  transfers.foldl f.receive (.new N K sizes true)

end Sddr.Codec.SegmentedBloomFilter

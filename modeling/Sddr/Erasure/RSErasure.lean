import Sddr.Codec.BitMap
import Sddr.Erasure.ReedSol

/-!
# RSMatrix, RSErasureEncoder and RSErasureDecoder

A symbol of `W` bytes is split into parts of 4, 2 and 1 bytes, each coded over its own field. `long` has 64 bits.
-/

namespace Sddr.Erasure
open Sddr.Lib Sddr.Codec

/-! ## RSMatrix -/

/-- One entry of `partW_` and `partMatrices_`. -/
structure Part where
  w : Nat
  matrix : IntMatrix (8 * w)

structure RSMatrix where
  K : Nat
  M : Nat
  W : Nat
  parts : List Part

section
variable (g : Galois)

/-- The inner loop of the constructor: as many parts of `w` bytes as fit. -/
def partWidthsOf (w W : Nat) : List Nat := List.replicate (W / w) w

/-- `partW_`. -/
def partWidths (W : Nat) : List Nat :=
  partWidthsOf 4 W ++ partWidthsOf 2 (W % 4) ++ partWidthsOf 1 (W % 4 % 2)

/-- The constructor; `none` when a part has no coding matrix. -/
def RSMatrix.new (K M W : Nat) : Option RSMatrix :=
  ((partWidths W).mapM fun w => (vandermondeCodingMatrix g (8 * w) K M).map fun matrix => ⟨w, matrix⟩).map
    fun parts => ⟨K, M, W, parts⟩

/-! ## Parts of symbols -/

/-- One entry of `partSymbols_` and `partSymbolPtrs_`. -/
structure PartSymbols where
  part : Part
  drives : Drives (8 * part.w)

def PartSymbols.new (part : Part) : PartSymbols := ⟨part, fun _ _ => 0⟩

/-- The loop `symbol |= *(data++) << (8 * b)`. The shift is done in `int` and the result extended to `long`. -/
def loadLong (data : Mem) (w : Nat) : BitVec 64 :=
  (List.range w).foldl (fun symbol b => symbol ||| (((data b).zeroExtend 32) <<< (8 * b)).signExtend 64) 0

/-- A `long` in memory, as words. -/
def regionOfLong (w : Nat) (symbol : BitVec 64) : Region w := fun i => symbol.extractLsb' (w * i) w

/-- The `long` at a region, of which the code reads the low bytes only. -/
def Region.byte {w : Nat} (r : Region (8 * w)) (b : Nat) : Byte := (r (b / w)).extractLsb' (8 * (b % w)) 8

/-- The bytes of one symbol in all parts. -/
def symbolWidth : List PartSymbols → Nat
  | [] => 0
  | p :: ps => p.part.w + symbolWidth ps

/-- Splits the bytes at `data` over the parts of symbol `index`. -/
def loadSymbol (index : Nat) : List PartSymbols → Mem → List PartSymbols
  | [], _ => []
  | p :: ps, data =>
      { p with drives := Function.update p.drives index (regionOfLong (8 * p.part.w) (loadLong data p.part.w)) }
        :: loadSymbol index ps (data.add p.part.w)

/-- The bytes of symbol `index`, part after part. -/
def storeSymbol (ps : List PartSymbols) (index : Nat) : List Byte :=
  ps.flatMap fun p => (List.range p.part.w).map (Region.byte (p.drives index))

/-! ## RSErasureEncoder -/

structure RSErasureEncoder where
  matrix : RSMatrix
  partSymbols : List PartSymbols
  symbols : List Byte

namespace RSErasureEncoder

def new (matrix : RSMatrix) : RSErasureEncoder :=
  ⟨matrix, matrix.parts.map PartSymbols.new, List.replicate ((matrix.K + matrix.M) * matrix.W) 0⟩

/-- The first loop of `encode`; `data` moves on by the bytes of one symbol. -/
def loadData (ps : List PartSymbols) (data : Mem) (K : Nat) : List PartSymbols :=
  (List.range K).foldl (fun ps k => loadSymbol k ps (data.add (k * symbolWidth ps))) ps

def encode (e : RSErasureEncoder) (data : Mem) : RSErasureEncoder :=
  let ps := (loadData e.partSymbols data e.matrix.K).map fun p =>
    { p with drives := matrixEncode g e.matrix.K e.matrix.M p.part.matrix p.drives }
  { e with
    partSymbols := ps
    symbols := (List.range (e.matrix.K + e.matrix.M)).flatMap (storeSymbol ps) }

def getSymbol (e : RSErasureEncoder) (index : Nat) : Mem := (Mem.ofList e.symbols).add (index * e.matrix.W)

end RSErasureEncoder

/-! ## RSErasureDecoder -/

structure RSErasureDecoder where
  matrix : RSMatrix
  partSymbols : List PartSymbols
  data : List Byte
  received : BitMap
  numReceived : Nat
  isDecoded : Bool

namespace RSErasureDecoder

def new (matrix : RSMatrix) : RSErasureDecoder :=
  { matrix, partSymbols := matrix.parts.map PartSymbols.new, data := List.replicate (matrix.K * matrix.W) 0
    received := (BitMap.new (matrix.K + matrix.M)).setAll false, numReceived := 0, isDecoded := false }

def canDecode (d : RSErasureDecoder) : Bool := decide (d.numReceived ≥ d.matrix.K)

def setSymbol (d : RSErasureDecoder) (index : Nat) (data : Mem) : Bool × RSErasureDecoder :=
  let had := d.received.getThenSet index
  let d :=
    if !had.1 then
      { d with
        received := had.2
        partSymbols := loadSymbol index d.partSymbols data
        numReceived := d.numReceived + 1 }
    else { d with received := had.2 }
  (d.canDecode, d)

/-- `decode` returns its result, `none` for `NULL`, and the changed decoder. -/
def decode (d : RSErasureDecoder) : Option (List Byte) × RSErasureDecoder :=
  if d.isDecoded then (some d.data, d)
  else if d.canDecode then
    let erasures := (List.range (d.matrix.K + d.matrix.M)).filter fun s => !d.received.get s
    let ps := d.partSymbols.map fun p =>
      { p with drives :=
          (matrixDecode g d.matrix.K d.matrix.M p.part.matrix true erasures p.drives).getD p.drives }
    let data := (List.range d.matrix.K).flatMap (storeSymbol ps)
    (some data, { d with partSymbols := ps, data := data, isDecoded := true })
  else (none, d)

/-- A call on the decoder, with a symbol of the encoder for `setSymbol`. -/
inductive Call where
  | setSymbol (index : Nat)
  | decode

def call (e : RSErasureEncoder) (d : RSErasureDecoder) : Call → RSErasureDecoder
  | .setSymbol index => (d.setSymbol index (e.getSymbol index)).2
  | .decode => (d.decode g).2

/-- The symbols that the calls pass. -/
def indices (calls : List Call) : List Nat := calls.filterMap fun
  | .setSymbol index => some index
  | .decode => none

end RSErasureDecoder

end

end Sddr.Erasure

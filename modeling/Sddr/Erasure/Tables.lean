import Mathlib.Algebra.Ring.Nat
import Sddr.Erasure.Shift

/-!
# The tables of galois.c

Products and quotients of 8 and 16 bits are looked up, products of 32 bits are made of those of bytes. Tables are
built when they are first needed. An `int` that holds an element is read modulo `2 ^ w`, so that -1 is the word of
ones. `none` is an exit or an access outside a table or a region.
-/

namespace Sddr.Erasure.Tables

variable {w : Nat}

/-! ## Logarithms -/

def nwm1 (w : Nat) : Nat := 2 ^ w - 1

/-- `galois_log_tables[w]` and the block that `galois_ilog_tables[w]` points into. -/
structure LogTables (w : Nat) where
  log : Array Nat
  ilog : Array (BitVec w)

/-- `galois_ilog_tables[w][sum_j]`. The pointer is `nwm1[w]` entries into its block, so `sum_j` may be negative. -/
def LogTables.ilogAt (t : LogTables w) (sum_j : Int) : Option (BitVec w) :=
  if 0 ≤ nwm1 w + sum_j then t.ilog[(nwm1 w + sum_j).toNat]? else none

/-- Step `j` of the loop that fills both tables, with `b`. It exits when the entry of `b` is taken. -/
def logStep (s : LogTables w × BitVec w) (j : Nat) : Option (LogTables w × BitVec w) :=
  if s.1.log[s.2.toNat]? = some (nwm1 w) then
    some (⟨s.1.log.setIfInBounds s.2.toNat j, s.1.ilog.setIfInBounds j s.2⟩, timesTwo s.2)
  else none

/-- Step `j` of the loop that copies the inverse table twice. -/
def repeatStep (t : LogTables w) (j : Nat) : LogTables w :=
  let b := t.ilog.getD j 0
  { t with ilog := (t.ilog.setIfInBounds (j + nwm1 w) b).setIfInBounds (j + nwm1 w * 2) b }

def newLogTables (w : Nat) : Option (LogTables w) :=
  ((List.range (nwm1 w)).foldlM logStep
    (⟨Array.replicate (2 ^ w) (nwm1 w), Array.replicate (2 ^ w * 3) 0⟩, 1)).map fun s =>
      (List.range (nwm1 w)).foldl repeatStep s.1

/-! ## Products and quotients -/

/-- `galois_mult_tables[w]` and `galois_div_tables[w]`. -/
structure MultTables (w : Nat) where
  mult : Array (BitVec w)
  div : Array (BitVec w)

/-- The entries of `x` and `y` in both tables. -/
def multEntry (t : LogTables w) (x y : Nat) : Option (BitVec w × BitVec w) :=
  if y = 0 then some (0, -1)
  else if x = 0 then some (0, 0)
  else do
    let logx ← t.log[x]?
    let logy ← t.log[y]?
    let product ← t.ilogAt (logx + logy)
    let quotient ← t.ilogAt (logx - logy)
    return (product, quotient)

def newMultTables (t : LogTables w) : Option (MultTables w) :=
  (((List.range (2 ^ w)).flatMap fun x => (List.range (2 ^ w)).map fun y => (x, y)).mapM
    fun p => multEntry t p.1 p.2).map fun entries =>
      ⟨(entries.map Prod.fst).toArray, (entries.map Prod.snd).toArray⟩

/-! ## Products of bytes of 32-bit words -/

/-- The pairs `(i, j)` of the loops of `galois_create_split_w8_tables`. -/
def splitPairs : List (Nat × Nat) :=
  [0, 3].flatMap fun i => (List.range' (if i = 0 then 0 else 1) (if i = 0 then 4 else 3)).map fun j => (i, j)

/-- The products of a byte shifted by `8 i` and a byte shifted by `8 j`. -/
def splitTable (i j : Nat) : Array (BitVec 32) :=
  ((List.range 256).flatMap fun p1 => (List.range 256).map fun p2 =>
    shiftMultiply (BitVec.ofNat 32 p1 <<< (i * 8)) (BitVec.ofNat 32 p2 <<< (j * 8))).toArray

/-- `galois_split_w8`. -/
def newSplitW8 : Array (Array (BitVec 32)) :=
  splitPairs.foldl (fun tables p => tables.setIfInBounds (p.1 + p.2) (splitTable p.1 p.2)) (Array.replicate 7 #[])

/-- The step of `galois_split_w8_multiply` for byte `i` of `x` and byte `j` of `y`. -/
def splitStep (tables : Array (Array (BitVec 32))) (x y : BitVec 32) (accumulator : BitVec 32) (p : Nat × Nat) :
    Option (BitVec 32) := do
  let a := ((x >>> (8 * p.1)) &&& 255).toNat <<< 8
  let b := ((y >>> (8 * p.2)) &&& 255).toNat
  let table ← tables[p.1 + p.2]?
  let product ← table[a ||| b]?
  return accumulator ^^^ product

def splitW8Multiply (tables : Array (Array (BitVec 32))) (x y : BitVec 32) : Option (BitVec 32) :=
  ((List.range 4).flatMap fun i => (List.range 4).map fun j => (i, j)).foldlM (splitStep tables x y) 0

/-! ## Inverses -/

/-- The rows of a matrix of bits; the entry in column `c` is bit `c`. -/
abbrev BinaryMatrix (w : Nat) := Vector (BitVec w) w

def BinaryMatrix.row (a : BinaryMatrix w) (r : Nat) : BitVec w := a[r]?.getD 0

/-- The matrix being inverted and, beside it, the inverse. -/
structure BinaryPair (w : Nat) where
  mat : BinaryMatrix w
  inv : BinaryMatrix w

def BinaryPair.both (f : BinaryMatrix w → BinaryMatrix w) (a : BinaryPair w) : BinaryPair w := ⟨f a.mat, f a.inv⟩

def swapWords (i j : Nat) (a : BinaryMatrix w) : BinaryMatrix w :=
  (a.setIfInBounds i (a.row j)).setIfInBounds j (a.row i)

/-- `a[j] ^= a[i]`. -/
def addWord (j i : Nat) (a : BinaryMatrix w) : BinaryMatrix w := a.setIfInBounds j (a.row j ^^^ a.row i)

/-- A one is brought to the diagonal in column `i`. -/
def binaryPivot (rows i : Nat) (a : BinaryPair w) : Option (BinaryPair w) :=
  if (a.mat.row i).getLsbD i then some a
  else ((List.range' (i + 1) (rows - (i + 1))).find? fun j => (a.mat.row j).getLsbD i).map fun j => a.both (swapWords i j)

def addBelow (i : Nat) (a : BinaryPair w) (j : Nat) : BinaryPair w :=
  if (a.mat.row j).getLsbD i then a.both (addWord j i) else a

/-- Column `i` of the pass that makes the matrix upper triangular. -/
def binaryColumn (rows : Nat) (a : BinaryPair w) (i : Nat) : Option (BinaryPair w) :=
  (binaryPivot rows i a).map fun a => (List.range' (i + 1) (rows - (i + 1))).foldl (addBelow i) a

/-- Row `i` of the pass from the last row up, which leaves the matrix as it is. -/
def binaryBack (mat inv : BinaryMatrix w) (i : Nat) : BinaryMatrix w :=
  (List.range i).foldl (fun inv j => if (mat.row j).getLsbD i then addWord j i inv else inv) inv

/-- `galois_invert_binary_matrix`, with as many rows as columns. -/
def invertBinaryMatrix (mat : BinaryMatrix w) : Option (BinaryMatrix w) :=
  ((List.range w).foldlM (binaryColumn w) ⟨mat, Vector.ofFn fun i => 1#w <<< i.val⟩).map fun a =>
    (List.range w).reverse.foldl (binaryBack a.mat) a.inv

/-- `galois_shift_inverse`: the inverse of the matrix that multiplies with `y`. -/
def shiftInverse (y : BitVec w) : Option (BitVec w) :=
  (invertBinaryMatrix (Vector.ofFn fun i => timesTwo^[i.val] y)).map fun inv => inv.row 0

/-! ## Tables on demand -/

/-- The tables of the module, `none` for `NULL`. -/
structure Statics where
  logTables : (w : Nat) → Option (LogTables w)
  multTables : (w : Nat) → Option (MultTables w)
  splitW8 : Option (Array (Array (BitVec 32)))

def Statics.init : Statics := ⟨fun _ => none, fun _ => none, none⟩

def createLogTables (w : Nat) (s : Statics) : Option Statics :=
  if w > 30 then none
  else if (s.logTables w).isSome then some s
  else (newLogTables w).map fun t => { s with logTables := Function.update s.logTables w (some t) }

def createMultTables (w : Nat) (s : Statics) : Option Statics :=
  if w ≥ 14 then none
  else if (s.multTables w).isSome then some s
  else do
    let s ← createLogTables w s
    let t ← s.logTables w
    let tables ← newMultTables t
    return { s with multTables := Function.update s.multTables w (some tables) }

def createSplitW8Tables (s : Statics) : Option Statics :=
  if s.splitW8.isSome then some s
  else (createMultTables 8 s).map fun s => { s with splitW8 := some newSplitW8 }

/-- `mult_type`. -/
inductive MultType where
  | none
  | table
  | logs
  | shift
  | splitW8

def multType (w : Nat) : MultType :=
  if w = 0 then .none
  else if w ≤ 9 then .table
  else if w ≤ 22 then .logs
  else if w ≤ 31 then .shift
  else if w = 32 then .splitW8
  else .none

/-! ## galois_single_multiply, galois_single_divide and galois_inverse -/

def singleMultiply (x y : BitVec w) (s : Statics) : Option (BitVec w × Statics) :=
  if x = 0 ∨ y = 0 then some (0, s)
  else match multType w with
    | .table => do
        let s ← createMultTables w s
        let t ← s.multTables w
        let z ← t.mult[x.toNat <<< w ||| y.toNat]?
        return (z, s)
    | .logs => do
        let s ← createLogTables w s
        let t ← s.logTables w
        let logx ← t.log[x.toNat]?
        let logy ← t.log[y.toNat]?
        let z ← t.ilogAt (logx + logy)
        return (z, s)
    | .splitW8 => do
        let s ← createSplitW8Tables s
        let tables ← s.splitW8
        let z ← splitW8Multiply tables (x.setWidth 32) (y.setWidth 32)
        return (z.setWidth w, s)
    | .shift => some (shiftMultiply x y, s)
    | .none => none

def singleDivide (a b : BitVec w) (s : Statics) : Option (BitVec w × Statics) :=
  match multType w with
  | .table => do
      let s ← createMultTables w s
      let t ← s.multTables w
      let z ← t.div[a.toNat <<< w ||| b.toNat]?
      return (z, s)
  | .logs =>
      if b = 0 then some (-1, s)
      else if a = 0 then some (0, s)
      else do
        let s ← createLogTables w s
        let t ← s.logTables w
        let loga ← t.log[a.toNat]?
        let logb ← t.log[b.toNat]?
        let z ← t.ilogAt (loga - logb)
        return (z, s)
  | .shift | .splitW8 =>
      if b = 0 then some (-1, s)
      else if a = 0 then some (0, s)
      else (shiftInverse b).bind fun sum_j => singleMultiply a sum_j s -- `galois_inverse` is `galois_shift_inverse` here
  | .none => none

def inverse (y : BitVec w) (s : Statics) : Option (BitVec w × Statics) :=
  if y = 0 then some (-1, s)
  else match multType w with
    | .shift | .splitW8 => (shiftInverse y).map fun z => (z, s)
    | _ => singleDivide 1 y s

/-! ## Regions -/

/-- The words from `i` on get those of `l` added. -/
def xorLong (i : Nat) (l r2 : List (BitVec w)) : Option (List (BitVec w)) :=
  if i + l.length ≤ r2.length then
    some (r2.take i ++ List.zipWith (· ^^^ ·) ((r2.drop i).take l.length) l ++ r2.drop (i + l.length))
  else none

/-- The loop over the `long`s of a region, which have `sol` words each: `*lp2 = (*lp2) ^ l`. -/
def addLongs (sol : Nat) (product : BitVec w → Option (BitVec w)) (region r2 : List (BitVec w)) :
    Option (List (BitVec w)) :=
  (List.range ((region.length + (sol - 1)) / sol)).foldlM (fun r2 k => do
    let l ← (List.range sol).mapM fun j => region[k * sol + j]?.bind product
    xorLong (k * sol) l r2) r2

/-- The loop that sets whole `long`s to zero. -/
def zeroLongs (sol : Nat) (r2 : List (BitVec w)) : Option (List (BitVec w)) :=
  if r2.length % sol = 0 then some (List.replicate r2.length 0) else none

/-- The loops of the two functions with tables of their own, which overwrite `ur2` or add to it. -/
def regionLoop (sol : Nat) (product : BitVec w → Option (BitVec w)) (region : List (BitVec w))
    (r2 : Option (List (BitVec w))) (add : Bool) : Option (List (BitVec w)) :=
  if r2.isNone || !add then region.mapM product else addLongs sol product region (r2.getD region)

/-- `galois_w08_region_multiply`; the result is what it leaves at `ur2`. -/
def w08RegionMultiply (region : List (BitVec 8)) (multby : BitVec 8) (r2 : Option (List (BitVec 8))) (add : Bool)
    (s : Statics) : Option (List (BitVec 8) × Statics) := do
  let s ← createMultTables 8 s
  let t ← s.multTables 8
  let ur2 ← regionLoop 8 (fun x => t.mult[multby.toNat * 2 ^ 8 + x.toNat]?) region r2 add
  return (ur2, s)

/-- `galois_w16_region_multiply`. -/
def w16RegionMultiply (region : List (BitVec 16)) (multby : BitVec 16) (r2 : Option (List (BitVec 16))) (add : Bool)
    (s : Statics) : Option (List (BitVec 16) × Statics) :=
  let ur2 := r2.getD region
  if multby = 0 then
    if !add then (zeroLongs 4 ur2).map fun ur2 => (ur2, s) else some (ur2, s)
  else do
    let s ← createLogTables 16 s
    let t ← s.logTables 16
    let log1 ← t.log[multby.toNat]?
    let ur2 ← regionLoop 4 (fun x => if x = 0 then some 0 else t.log[x.toNat]?.bind fun log2 => t.ilogAt (log2 + log1))
      region r2 add
    return (ur2, s)

/-- `galois_w32_region_multiply`, which has the loops of `galois_split_w8_multiply` inlined. -/
def w32RegionMultiply (region : List (BitVec 32)) (multby : BitVec 32) (r2 : Option (List (BitVec 32))) (add : Bool)
    (s : Statics) : Option (List (BitVec 32) × Statics) := do
  let s ← createSplitW8Tables s
  let tables ← s.splitW8
  if !add then (region.mapM fun x => splitW8Multiply tables multby x).map fun ur2 => (ur2, s)
  else
    ((region.zip (r2.getD region)).mapM fun p => (splitW8Multiply tables multby p.1).map fun z => p.2 ^^^ z).map
      fun ur2 => (ur2, s)

/-! ## Runs -/

/-- A call of the module. -/
inductive Call where
  | singleMultiply (w : Nat) (x y : BitVec w)
  | singleDivide (w : Nat) (a b : BitVec w)
  | inverse (w : Nat) (y : BitVec w)
  | w08RegionMultiply (region : List (BitVec 8)) (multby : BitVec 8) (r2 : Option (List (BitVec 8))) (add : Bool)
  | w16RegionMultiply (region : List (BitVec 16)) (multby : BitVec 16) (r2 : Option (List (BitVec 16))) (add : Bool)
  | w32RegionMultiply (region : List (BitVec 32)) (multby : BitVec 32) (r2 : Option (List (BitVec 32))) (add : Bool)

/-- The words of the answer and the tables afterwards. -/
def Call.run (s : Statics) : Call → Option (List Nat × Statics)
  | .singleMultiply _ x y => (Tables.singleMultiply x y s).map fun z => ([z.1.toNat], z.2)
  | .singleDivide _ a b => (Tables.singleDivide a b s).map fun z => ([z.1.toNat], z.2)
  | .inverse _ y => (Tables.inverse y s).map fun z => ([z.1.toNat], z.2)
  | .w08RegionMultiply region multby r2 add =>
      (Tables.w08RegionMultiply region multby r2 add s).map fun z => (z.1.map BitVec.toNat, z.2)
  | .w16RegionMultiply region multby r2 add =>
      (Tables.w16RegionMultiply region multby r2 add s).map fun z => (z.1.map BitVec.toNat, z.2)
  | .w32RegionMultiply region multby r2 add =>
      (Tables.w32RegionMultiply region multby r2 add s).map fun z => (z.1.map BitVec.toNat, z.2)

/-- The answers of calls one after another. -/
def run : List Call → Statics → Option (List (List Nat) × Statics)
  | [], s => some ([], s)
  | c :: calls, s => do
      let (answer, s) ← c.run s
      let (answers, s) ← run calls s
      return (answer :: answers, s)

/-! ## What the answers should be -/

def plainQuotient (a b : BitVec w) : BitVec w := if b = 0 then -1 else galoisShift.divide w a b

def plainRegion (region : List (BitVec w)) (multby : BitVec w) (r2 : Option (List (BitVec w))) (add : Bool) :
    List (BitVec w) :=
  if add then List.zipWith (fun x z => z ^^^ shiftMultiply multby x) region (r2.getD region)
  else region.map (shiftMultiply multby)

def Call.plain : Call → List Nat
  | .singleMultiply _ x y => [(shiftMultiply x y).toNat]
  | .singleDivide _ a b => [(plainQuotient a b).toNat]
  | .inverse _ y => [(plainQuotient 1 y).toNat]
  | .w08RegionMultiply region multby r2 add => (plainRegion region multby r2 add).map BitVec.toNat
  | .w16RegionMultiply region multby r2 add => (plainRegion region multby r2 add).map BitVec.toNat
  | .w32RegionMultiply region multby r2 add => (plainRegion region multby r2 add).map BitVec.toNat

/-- Regions of whole `long`s, with a region of its own for a sum. -/
def WholeLongs (sol : Nat) (region : List (BitVec w)) (r2 : Option (List (BitVec w))) (add : Bool) : Prop :=
  region.length % sol = 0 ∧ (r2.getD region).length = region.length ∧ (r2 = none → add = false)

/-- The widths in use and regions as `jerasure_matrix_dotprod` passes them. -/
def Call.Allowed : Call → Prop
  | .singleMultiply w _ _ | .singleDivide w _ _ | .inverse w _ => w ∈ [8, 16, 32]
  | .w08RegionMultiply region _ r2 add => WholeLongs 8 region r2 add
  | .w16RegionMultiply region _ r2 add => WholeLongs 4 region r2 add
  | .w32RegionMultiply region _ r2 add => WholeLongs 2 region r2 add

end Sddr.Erasure.Tables

import Mathlib.Logic.Function.Basic
import Mathlib.Data.List.Basic

/-!
# The matrix codes of jerasure

`jerasure.c` and `reed_sol.c`, for matrices with entries of `w` bits. The arithmetic of `galois.c` is a parameter.
A region of memory is read as its `w`-bit words, and the region routines of `galois.c` work word by word.
-/

namespace Sddr.Erasure

/-! ## galois.c -/

/-- `galois_single_multiply(a, b, w)` and `galois_single_divide(a, b, w)`. -/
structure Galois where
  multiply : (w : Nat) → BitVec w → BitVec w → BitVec w
  divide : (w : Nat) → BitVec w → BitVec w → BitVec w

/-- Multiplication and division are those of a field whose addition is xor. -/
structure Galois.IsField (g : Galois) (w : Nat) : Prop where
  multiply_assoc : ∀ a b c, g.multiply w (g.multiply w a b) c = g.multiply w a (g.multiply w b c)
  multiply_comm : ∀ a b, g.multiply w a b = g.multiply w b a
  one_multiply : ∀ a, g.multiply w 1 a = a
  multiply_xor : ∀ a b c, g.multiply w a (b ^^^ c) = g.multiply w a b ^^^ g.multiply w a c
  divide_multiply : ∀ a b, b ≠ 0 → g.multiply w (g.divide w a b) b = a

/-- The sum of the first `k` values, and the product of a row with a vector. -/
def xorSum {w : Nat} (k : Nat) (f : Nat → BitVec w) : BitVec w := (List.range k).foldl (fun acc i => acc ^^^ f i) 0

def Galois.dot (g : Galois) {w : Nat} (k : Nat) (row x : Nat → BitVec w) : BitVec w :=
  xorSum k fun i => g.multiply w (row i) (x i)

abbrev Region (w : Nat) := Nat → BitVec w

/-- A matrix of `int`, by row and column. -/
abbrev IntMatrix (w : Nat) := Nat → Nat → BitVec w

section
variable (g : Galois) {w : Nat}

def regionXor (r1 r2 : Region w) : Region w := fun i => r1 i ^^^ r2 i

/-- `galois_w08_region_multiply` and its siblings for 16 and 32 bits. -/
def regionMultiply (region : Region w) (multby : BitVec w) (r2 : Region w) (add : Bool) : Region w := fun i =>
  if add then r2 i ^^^ g.multiply w multby (region i) else g.multiply w multby (region i)

/-! ## jerasure_matrix_dotprod -/

/-- The regions of the data devices `0 .. k-1` and, from `k` on, of the coding devices. -/
abbrev Drives (w : Nat) := Nat → Region w

/-- The flag `init` and the memory. -/
structure DotState (w : Nat) where
  init : Bool
  drives : Drives w

def dotOnes (row : Nat → BitVec w) (src_ids : Nat → Nat) (dest_id : Nat) (s : DotState w) (i : Nat) : DotState w :=
  if row i = 1 then
    let sptr := s.drives (src_ids i)
    if s.init then { s with drives := Function.update s.drives dest_id (regionXor sptr (s.drives dest_id)) }
    else ⟨true, Function.update s.drives dest_id sptr⟩
  else s

def dotFactors (row : Nat → BitVec w) (src_ids : Nat → Nat) (dest_id : Nat) (s : DotState w) (i : Nat) : DotState w :=
  if row i ≠ 0 ∧ row i ≠ 1 then
    ⟨true, Function.update s.drives dest_id
      (regionMultiply g (s.drives (src_ids i)) (row i) (s.drives dest_id) s.init)⟩
  else s

/-- `jerasure_matrix_dotprod`: first the sources with factor one, then the others. `src_ids` is the identity where
the code passes `NULL`. -/
def matrixDotprod (k : Nat) (row : Nat → BitVec w) (src_ids : Nat → Nat) (dest_id : Nat) (drives : Drives w) :
    Drives w :=
  let s := (List.range k).foldl (dotOnes row src_ids dest_id) ⟨false, drives⟩
  ((List.range k).foldl (dotFactors g row src_ids dest_id) s).drives

/-- `jerasure_matrix_encode`. -/
def matrixEncode (k m : Nat) (matrix : IntMatrix w) (drives : Drives w) : Drives w :=
  (List.range m).foldl (fun acc i => matrixDotprod g k (matrix i) id (k + i) acc) drives

/-! ## jerasure_invert_matrix -/

/-- A row operation: row `r` of the result, from the rows of a matrix. -/
def swapRows (i j : Nat) (a : IntMatrix w) : IntMatrix w := fun r => if r = i then a j else if r = j then a i else a r

def scaleRow (i : Nat) (inverse : BitVec w) (a : IntMatrix w) : IntMatrix w := fun r c =>
  if r = i then g.multiply w (a i c) inverse else a r c

def addRow (j i : Nat) (tmp : BitVec w) (a : IntMatrix w) : IntMatrix w := fun r c =>
  if r = j then a j c ^^^ (if tmp = 1 then a i c else g.multiply w tmp (a i c)) else a r c

/-- The matrix being inverted and, beside it, the inverse. -/
structure Augmented (w : Nat) where
  mat : IntMatrix w
  inv : IntMatrix w

def Augmented.both (f : IntMatrix w → IntMatrix w) (a : Augmented w) : Augmented w := ⟨f a.mat, f a.inv⟩

/-- A non-zero entry is brought to row `i` of column `i`. -/
def pivotRow (rows i : Nat) (a : Augmented w) : Option (Augmented w) :=
  if a.mat i i = 0 then
    match (List.range' (i + 1) (rows - (i + 1))).find? fun j => a.mat j i ≠ 0 with
    | none => none
    | some j => some (a.both (swapRows i j))
  else some a

def normalizeRow (i : Nat) (a : Augmented w) : Augmented w :=
  if a.mat i i ≠ 1 then a.both (scaleRow g i (g.divide w 1 (a.mat i i))) else a

def clearBelow (i : Nat) (a : Augmented w) (j : Nat) : Augmented w :=
  if a.mat j i ≠ 0 then a.both (addRow g j i (a.mat j i)) else a

/-- Column `i` of the first pass, which makes the matrix upper triangular. -/
def forwardColumn (rows : Nat) (a : Augmented w) (i : Nat) : Option (Augmented w) :=
  (pivotRow rows i a).map fun a =>
    (List.range' (i + 1) (rows - (i + 1))).foldl (clearBelow g i) (normalizeRow g i a)

def clearAbove (i : Nat) (a : Augmented w) (j : Nat) : Augmented w :=
  if a.mat j i ≠ 0 then
    ⟨fun r c => if r = j ∧ c = i then 0 else a.mat r c,
      fun r c => if r = j then a.inv j c ^^^ g.multiply w (a.mat j i) (a.inv i c) else a.inv r c⟩
  else a

/-- Row `i` of the second pass, which goes from the last row up. -/
def backRow (a : Augmented w) (i : Nat) : Augmented w := (List.range i).foldl (clearAbove g i) a

def invertMatrix (mat : IntMatrix w) (rows : Nat) : Option (IntMatrix w) :=
  ((List.range rows).foldlM (forwardColumn g rows) ⟨mat, fun i j => if i = j then 1 else 0⟩).map fun a =>
    ((List.range rows).reverse.foldl (backRow g) a).inv

/-! ## Decoding -/

/-- `jerasure_erasures_to_erased`, which gives up when fewer than `k` devices are left. -/
def erasuresToErased (k m : Nat) (erasures : List Nat) : Option (Nat → Bool) :=
  if k ≤ ((List.range (k + m)).filter fun i => i ∉ erasures).length then some fun i => decide (i ∈ erasures)
  else none

/-- The first `k` devices that are not erased. -/
def decodingIds (k m : Nat) (erased : Nat → Bool) (i : Nat) : Nat :=
  ((List.range (k + m)).filter fun d => !erased d).getD i 0

/-- The row of device `d` in the identity above the coding matrix. -/
def deviceRow (k : Nat) (matrix : IntMatrix w) (d : Nat) : Nat → BitVec w := fun j =>
  if d < k then (if j = d then 1 else 0) else matrix (d - k) j

/-- `jerasure_make_decoding_matrix`. -/
def makeDecodingMatrix (k m : Nat) (matrix : IntMatrix w) (erased : Nat → Bool) : Option (IntMatrix w) :=
  invertMatrix g (fun i => deviceRow k matrix (decodingIds k m erased i)) k

/-- The loop that decodes the data devices, with the number of those still erased. -/
def decodeDrive (k : Nat) (erased : Nat → Bool) (decoding_matrix : IntMatrix w) (dm_ids : Nat → Nat)
    (s : Nat × Drives w) (i : Nat) : Nat × Drives w :=
  if s.1 > 0 ∧ erased i then (s.1 - 1, matrixDotprod g k (decoding_matrix i) dm_ids i s.2) else s

/-- `edd`, the number of erased data devices. -/
def erasedData (k : Nat) (erased : Nat → Bool) : Nat := ((List.range k).filter erased).length

/-- `lastdrive`, where the decoding of the data devices stops. -/
def lastDrive (k : Nat) (row_k_ones : Bool) (erased : Nat → Bool) : Nat :=
  if !row_k_ones || erased k then k else ((List.range k).filter erased).getLast?.getD k

/-- The decoding matrix, or zeros where it is not needed and not read. -/
def decodingMatrix (k m : Nat) (matrix : IntMatrix w) (row_k_ones : Bool) (erased : Nat → Bool) :
    Option (IntMatrix w) :=
  if erasedData k erased > 1 ∨ (erasedData k erased > 0 ∧ (!row_k_ones || erased k)) then
    makeDecodingMatrix g k m matrix erased
  else some fun _ _ => 0

/-- `jerasure_matrix_decode`; `none` where it returns -1, which it does before it changes the memory. -/
def matrixDecode (k m : Nat) (matrix : IntMatrix w) (row_k_ones : Bool) (erasures : List Nat) (drives : Drives w) :
    Option (Drives w) :=
  (erasuresToErased k m erasures).bind fun erased =>
    (decodingMatrix g k m matrix row_k_ones erased).map fun decoding_matrix =>
      let lastdrive := lastDrive k row_k_ones erased
      let s := (List.range lastdrive).foldl (decodeDrive g k erased decoding_matrix (decodingIds k m erased))
        (erasedData k erased, drives)
      let drives :=
        if s.1 > 0 then
          matrixDotprod g k (matrix 0) (fun i => if i < lastdrive then i else i + 1) lastdrive s.2
        else s.2
      (List.range m).foldl (fun acc i =>
        if erased (k + i) then matrixDotprod g k (matrix i) id (i + k) acc else acc) drives

end

end Sddr.Erasure

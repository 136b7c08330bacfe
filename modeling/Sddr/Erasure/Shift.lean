import Mathlib.Logic.Function.Iterate
import Sddr.Erasure.Jerasure

/-!
# Shift multiplication

`galois_shift_multiply`, which the tables of `galois.c` are equal to.
-/

namespace Sddr.Erasure

variable {w : Nat}

/-- The entries of `prim_poly` for the widths in use, less the top bit. -/
def primPoly (w : Nat) : BitVec w :=
  match w with
  | 8 => 0x1D
  | 16 => 0x100B
  | 32 => 0x400007
  | _ => 0

def timesTwo (y : BitVec w) : BitVec w := if y.msb then (y <<< 1) ^^^ primPoly w else y <<< 1

/-- `prod`, and `y` doubled as often as there were bits. The code keeps the doubles in `scratch`. -/
def shiftMultiply (x y : BitVec w) : BitVec w :=
  ((List.range w).foldl (fun (s : BitVec w × BitVec w) i =>
    (if x.getLsbD i then s.1 ^^^ s.2 else s.1, timesTwo s.2)) (0, y)).1

def square (y : BitVec w) : BitVec w := shiftMultiply y y

/-- The inverse, as the power `2 ^ w - 2`. -/
def shiftInverse (y : BitVec w) : BitVec w :=
  (List.range (w - 1)).foldl (fun power i => shiftMultiply power (square^[i + 1] y)) 1

def galoisShift : Galois where
  multiply _ x y := shiftMultiply x y
  divide _ a b := shiftMultiply a (shiftInverse b)

end Sddr.Erasure

import Sddr.Erasure.Jerasure

/-!
# Vandermonde coding matrices

`reed_sol.c`.
-/

namespace Sddr.Erasure

section
variable (g : Galois) {w : Nat}

/-- Entry `j` of row `i`: the powers of `i`. -/
def vandermondeRow (w : Nat) (i : Nat) : Nat → BitVec w
  | 0 => 1
  | j + 1 => g.multiply w (vandermondeRow w i j) (BitVec.ofNat w i)

/-- `reed_sol_extended_vandermonde_matrix`. -/
def extendedVandermonde (w rows cols : Nat) : Option (IntMatrix w) :=
  if w < 30 ∧ 1 <<< w < rows then none
  else if w < 30 ∧ 1 <<< w < cols then none
  else some fun i j =>
    if i = 0 then (if j = 0 then 1 else 0)
    else if i = rows - 1 then (if j = cols - 1 then 1 else 0)
    else vandermondeRow g w i j

def scaleColumn (i : Nat) (tmp : BitVec w) (dist : IntMatrix w) : IntMatrix w := fun r c =>
  if c = i then g.multiply w tmp (dist r c) else dist r c

/-- Column `j` of row `i` is made zero by adding a multiple of column `i`. -/
def clearColumn (i : Nat) (dist : IntMatrix w) (j : Nat) : IntMatrix w :=
  let tmp := dist i j
  if j ≠ i ∧ tmp ≠ 0 then fun r c => if c = j then dist r c ^^^ g.multiply w tmp (dist r i) else dist r c
  else dist

/-- Row `i` of the pass that turns the upper square into the identity; `none` where the code exits. -/
def identityRow (rows cols : Nat) (dist : IntMatrix w) (i : Nat) : Option (IntMatrix w) :=
  ((List.range' i (rows - i)).find? fun j => dist j i ≠ 0).map fun j =>
    let dist := if j ≠ i then swapRows i j dist else dist
    let dist := if dist i i ≠ 1 then scaleColumn g i (g.divide w 1 (dist i i)) dist else dist
    (List.range cols).foldl (clearColumn g i) dist

/-- Makes entry `j` of row `cols` one, by a factor on the rows from `cols` on. -/
def onesInRow (cols : Nat) (dist : IntMatrix w) (j : Nat) : IntMatrix w :=
  let tmp := dist cols j
  if tmp ≠ 1 then fun r c =>
    if cols ≤ r ∧ c = j then g.multiply w (g.divide w 1 tmp) (dist r c) else dist r c
  else dist

/-- Makes the first entry of row `i` one. -/
def oneInFirstColumn (dist : IntMatrix w) (i : Nat) : IntMatrix w :=
  let tmp := dist i 0
  if tmp ≠ 1 then fun r c => if r = i then g.multiply w (dist r c) (g.divide w 1 tmp) else dist r c
  else dist

/-- `reed_sol_big_vandermonde_distribution_matrix`. -/
def bigVandermondeDistribution (w rows cols : Nat) : Option (IntMatrix w) :=
  if cols ≥ rows then none
  else (extendedVandermonde g w rows cols).bind fun dist =>
    ((List.range' 1 (cols - 1)).foldlM (identityRow g rows cols) dist).map fun dist =>
      let dist := (List.range cols).foldl (onesInRow g cols) dist
      (List.range' (cols + 1) (rows - (cols + 1))).foldl (oneInFirstColumn g) dist

/-- `reed_sol_vandermonde_coding_matrix`: the rows below the identity. -/
def vandermondeCodingMatrix (w k m : Nat) : Option (IntMatrix w) :=
  (bigVandermondeDistribution g w (k + m) k).map fun vdm => fun i j => vdm (k + i) j

/-- Any `k` of the devices determine the data. -/
def MDS (k m : Nat) (matrix : IntMatrix w) : Prop :=
  ∀ ids : Nat → Nat, (∀ i < k, ids i < k + m) → (∀ i < k, ∀ j < k, ids i = ids j → i = j) →
    ∀ x : Nat → BitVec w, (∀ i < k, g.dot k (deviceRow k matrix (ids i)) x = 0) → ∀ i < k, x i = 0

end

end Sddr.Erasure

import Sddr.Radio.Identity

/-!
# Chains of addresses

`Address.cpp` for addresses of any size, with the loop of `shiftWithPartial`. The functions of `LinkValue` are those for
one round and for the size that the radios use.
-/

namespace Sddr.Device.Address
open Sddr.Lib

/-- `value_[0] = (value_[0] & ~mask) | (value & mask)`. -/
def setPartial (bytes : List Byte) (value mask : Byte) : List Byte :=
  bytes.set 0 ((bytes.getD 0 0 &&& ~~~mask) ||| (value &&& mask))

/-- `value_[last] &= 0xF0`, and then `value_[last] |= computeChecksum(&value_[start], half)`. -/
def setChecksum (bytes : List Byte) (last start half : Nat) : List Byte :=
  let bytes := bytes.set last (bytes.getD last 0 &&& 0xF0)
  bytes.set last (bytes.getD last 0 ||| computeChecksum ((bytes.drop start).take half))

/-- `generateWithPartial(size, value, mask)`, with the bytes that `rand()` yields. -/
def generateSized (size : Nat) (value mask : Byte) (rand : Nat → Byte) : Address :=
  let bytes := setPartial ((List.range size).map rand) value mask
  let bytes := setChecksum bytes (size / 2 - 1) 0 (size / 2)
  setChecksum bytes (size - 1) (size / 2) (size / 2)

/-- One round of the loop of `shiftWithPartial`. An odd last byte is left at 0. -/
def shiftRound (a : Address) (value mask : Byte) (rand : Nat → Byte) : Address :=
  let half := a.length / 2
  let bytes := (List.range half).map rand ++ a.take half ++ List.replicate (a.length - (half + half)) 0
  setChecksum (setPartial bytes value mask) (half - 1) 0 half

/-- `shiftWithPartial`, with the bytes that `rand()` yields in the rounds of its loop. There is no result as long as
each round yields the address itself. -/
def shiftLoop (a : Address) (value mask : Byte) : List (Nat → Byte) → Option Address
  | [] => none
  | rand :: rounds =>
      let address := shiftRound a value mask rand
      if address = a then shiftLoop a value mask rounds else some address

structure ShiftCall where
  value : Byte
  mask : Byte
  rounds : List (Nat → Byte)

/-- The addresses that calls of `shiftWithPartial` yield, each called on the address before. -/
def shiftChain (a : Address) : List ShiftCall → Option (List Address)
  | [] => some []
  | call :: calls => do
      let next ← shiftLoop a call.value call.mask call.rounds
      let others ← shiftChain next calls
      return next :: others

/-! ## The digits of an address -/

def highNibble (b : Byte) : BitVec 4 := b.extractLsb' 4 4

def lowNibble (b : Byte) : BitVec 4 := b.extractLsb' 0 4

/-- Exactly one of the two nibbles differs. -/
def OneNibble (b c : Byte) : Prop :=
  highNibble b ≠ highNibble c ∧ lowNibble b = lowNibble c ∨ highNibble b = highNibble c ∧ lowNibble b ≠ lowNibble c

instance (b c : Byte) : Decidable (OneNibble b c) := inferInstanceAs (Decidable (_ ∨ _))

def nibbles (part : List Byte) : List (BitVec 4) := part.flatMap fun b => [highNibble b, lowNibble b]

end Sddr.Device.Address

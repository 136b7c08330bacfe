import Sddr.Codec.Exact
import Sddr.Radio.EbNRadio

/-!
# What fillBloomFilter inserts

The counters of `fillBloomFilter` and the calls of `set` that it makes, kept where the code only has their effect.
-/

namespace Sddr.Radio
open Sddr.Lib Sddr.Codec Sddr.Device

structure Insertions (P : Type) where
  advertised : List LinkValue
  passive : List (SharedSecret P)
  numRandom : Nat

namespace Insertions

variable {P : Type} (i : Insertions P)

/-- `numAdvert`, `numPassive` and `numRandom` together. -/
def count : Nat := i.advertised.length + i.passive.length + i.numRandom

/-- The link values, in the order of the calls of `add`. -/
def linkValues : List LinkValue := i.advertised ++ i.passive.map SharedSecret.value

/-- The indices of the calls of `set`, with the values of `rand()`. -/
def indices (sha256 : List Byte → Digest) (rand : Nat → Nat) (bloom : BloomFilter P) (pre : List Byte) : List Nat :=
  (i.linkValues.flatMap fun v => (List.range bloom.K).map fun k => (sha256 (pre ++ v)).word k % bloom.M)
    ++ (List.range (bloom.K * i.numRandom)).map fun k => rand k % bloom.M

end Insertions

variable {P D : Type} [FloatOps P] [IsDevice D P]

/-- The secrets that are popped from the queue and those that are left in it. -/
def passiveSecrets (secrets : List (SharedSecret P)) : List (SharedSecret P) × List (SharedSecret P) :=
  (popOrder secrets).splitAt BF_N_PASSIVE

def EbNRadio.insertions (r : EbNRadio P D) (includePassive : Bool) : Insertions P :=
  let type := r.confirmScheme.type
  let advertised := r.advertisedSet.take (maxAdvert type)
  let passive := if includePassive && type.hasPassive then (passiveSecrets (recentSecrets r)).1 else []
  { advertised, passive
    numRandom := (maxAdvert type - advertised.length)
      + if includePassive && type.hasPassive then BF_N_PASSIVE - passive.length else 0 }

end Sddr.Radio

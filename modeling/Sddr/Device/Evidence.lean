import Mathlib.Algebra.BigOperators.Group.List.Basic
import Sddr.Codec.Exact
import Sddr.Device.EbNDevice

/-!
# Evidence for a shared secret

The calls that concern the shared secrets of a device, and what they amount to for the secret of one value.
-/

namespace Sddr.Device
open Sddr.Lib Sddr.Codec

variable {P K : Type} [FloatOps P] (sha256 : List Byte → Digest)

/-- A secret that is added was made by one of the constructors of `SharedSecret`, with a value. -/
inductive SecretCall (P : Type) where
  | addSharedSecret (value : LinkValue) (confirmed : Bool)
  | addSharedSecretBy (value : LinkValue) (confirmedBy : SecretConfirm)
  | confirmPassive (bloom : BloomFilter P) (pre : List Byte) (pFalseDelta : P)

namespace SecretCall

def apply (threshold : P) (d : EbNDevice P) : SecretCall P → EbNDevice P
  | .addSharedSecret value confirmed => d.addSharedSecret { SharedSecret.ofConfirmed confirmed with value }
  | .addSharedSecretBy value confirmedBy => d.addSharedSecret { SharedSecret.ofScheme confirmedBy with value }
  | .confirmPassive bloom pre pFalseDelta => d.confirmPassiveDelta sha256 bloom pre threshold pFalseDelta

/-- The call adds the value. -/
def adds (v : LinkValue) : SecretCall P → Bool
  | .addSharedSecret value _ => decide (value = v)
  | .addSharedSecretBy value _ => decide (value = v)
  | .confirmPassive _ _ _ => false

/-- The filter of the call lacks the value. -/
def lacks (v : LinkValue) : SecretCall P → Bool
  | .confirmPassive bloom pre _ => !bloom.query sha256 pre v
  | _ => false

def factor : SecretCall P → Option P
  | .confirmPassive _ _ pFalseDelta => some pFalseDelta
  | _ => none

/-- The factors of the longest run of filters up to now that hold the value, since it was added. -/
def evidence (calls : List (SecretCall P)) (v : LinkValue) : List P :=
  ((calls.dropWhile fun call => !call.adds v).reverse.takeWhile fun call => !call.lacks sha256 v).filterMap factor

variable [LinearOrder K] [CommMonoid K] (val : P → K) (threshold : P)

/-- The product of these factors. -/
def weight (calls : List (SecretCall P)) (v : LinkValue) : K := ((evidence sha256 calls v).map val).prod

/-- By what a call confirms the secret of a value, if that is not confirmed; `calls` are those before. -/
def confirms (calls : List (SecretCall P)) (v : LinkValue) : SecretCall P → Option SecretConfirm
  | .addSharedSecret value confirmed => if value = v ∧ confirmed = true then some .none else none
  | .addSharedSecretBy value confirmedBy => if value = v then some confirmedBy else none
  | .confirmPassive bloom pre pFalseDelta =>
      if (calls.any fun call => call.adds v) ∧ bloom.query sha256 pre v = true ∧
          weight sha256 val (calls ++ [.confirmPassive bloom pre pFalseDelta]) v ≤ val threshold then
        some .passive
      else none

/-- By what the first of the calls after `before` that confirms the secret of a value does so. -/
def verdictFrom (v : LinkValue) (before : List (SecretCall P)) : List (SecretCall P) → Option SecretConfirm
  | [] => none
  | call :: rest => (call.confirms sha256 val threshold before v).or (verdictFrom v (before ++ [call]) rest)

def verdict (calls : List (SecretCall P)) (v : LinkValue) : Option SecretConfirm :=
  verdictFrom sha256 val threshold v [] calls

end SecretCall

end Sddr.Device

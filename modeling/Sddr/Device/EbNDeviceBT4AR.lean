import Sddr.Device.EbNDevice

/-!
# EbNDeviceBT4AR

`EbNDeviceBT4AR.cpp`: a device whose address is resolved by the link values. AES-128-ECB is a parameter, a function of
the key and a block, and so is the rate `1.0 / (1 << 24)`.
-/

namespace Sddr.Device
open Sddr.Lib Sddr.Codec

/-- The loop of `updateMatching` from an iterator on: what is left of the list, and whether something was erased. There
is no result when the iterator is advanced past the end. -/
def eraseUnless {α : Type} (keep : α → Bool) : List α → Option (List α × Bool)
  | [] => some ([], false)
  | value :: matching =>
      if keep value then (eraseUnless keep matching).map fun (rest, erased) => (value :: rest, erased)
      else
        -- `erase` returns the next position, and `it++` goes on from there
        match matching with
        | [] => none
        | next :: matching => (eraseUnless keep matching).map fun (rest, _) => (next :: rest, true)

namespace EbNDeviceBT4AR

variable {P : Type} [FloatOps P] (aes : List Byte → List Byte → List Byte) (addressPFalse : P)

/-- The single block that is encrypted: three bytes of the address and 13 bytes of padding. -/
def block (address : Address) : List Byte := (address.drop 3).take 3 ++ List.replicate 13 13

/-- The comparison of `updateMatching`. A key has 16 bytes. -/
def resolves (address : Address) (value : LinkValue) : Bool :=
  address.take 3 == ((aes (value.take 16) (block address)).drop 13).take 3

/-- `updateMatching()`. -/
def updateMatching (d : EbNDevice P) : Option (Bool × EbNDevice P) :=
  (eraseUnless (resolves aes d.address) d.matching).map fun (matching, erased) =>
    let d := { d with
      matching := matching
      updatedMatching := d.updatedMatching || erased
      matchingPFalse := FloatOps.mul d.matchingPFalse addressPFalse }
    (d.updatedMatching, d)

/-- `EbNDeviceBT4AR(id, address, listenSet)`. -/
def new (id : DeviceID) (address : Address) (listenSet : List LinkValue) : Option (EbNDevice P) :=
  (updateMatching aes addressPFalse (EbNDevice.new id address listenSet)).map Prod.snd

def setAddress (d : EbNDevice P) (address : Address) : Option (EbNDevice P) :=
  (updateMatching aes addressPFalse (d.setAddress address)).map Prod.snd

end EbNDeviceBT4AR

/-- Every entry that is to be erased is followed by one that is kept. -/
def Spaced {α : Type} (keep : α → Bool) (l : List α) : Prop :=
  ∀ front value back, l = front ++ value :: back → keep value = false →
    ∃ next rest, back = next :: rest ∧ keep next = true

end Sddr.Device

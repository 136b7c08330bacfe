import Sddr.Device.EbNDevice
import Sddr.Lib.UMap

/-!
# EbNDeviceMap

`EbNDeviceMap.h` and the parts of `Address.cpp` it uses. A `TDevice *` is a number, and the heap says which device it
points to. An operation that would erase `end()` or follow a pointer to nothing has no result.
-/

namespace Sddr.Device
open Sddr.Lib Sddr.Codec

/-- What `EbNDeviceMap` uses of `TDevice`. -/
class Addressed (D : Type) where
  getID : D → DeviceID
  getAddress : D → Address
  setAddress : D → Address → D

class LawfulAddressed (D : Type) [Addressed D] : Prop where
  getAddress_setAddress (d : D) (a : Address) : Addressed.getAddress (Addressed.setAddress d a) = a
  getID_setAddress (d : D) (a : Address) : Addressed.getID (Addressed.setAddress d a) = Addressed.getID d

instance (P : Type) : Addressed (EbNDevice P) := ⟨EbNDevice.id, EbNDevice.address, EbNDevice.setAddress⟩

instance (P : Type) : LawfulAddressed (EbNDevice P) := ⟨fun _ _ => rfl, fun _ _ => rfl⟩

namespace Address

/-- The second half in place of the first one. -/
def unshift (a : Address) : Address :=
  (a.drop (a.length / 2)).take (a.length / 2) ++ List.replicate (a.length - a.length / 2) 0

/-- What `Address::Hash` digests. -/
def hashed (a : Address) : List Byte := a.take (a.length / 2)

end Address

end Sddr.Device

namespace Sddr.Radio
open Sddr.Lib Sddr.Codec Sddr.Device

/-- The two indexes of `EbNDeviceMap`. -/
structure EbNDeviceMap where
  addressToDevice : UMap Address DeviceID
  idToDevice : UMap DeviceID DeviceID

/-- The number of buckets at some time, and the order in which the entries of a bucket are iterated over. -/
structure Buckets where
  count : Nat
  order : List (Sigma fun _ : Address => DeviceID) → List (Sigma fun _ : Address => DeviceID)
  perm : ∀ entries, (order entries).Perm entries

def oneBucket : Buckets := ⟨1, fun entries => entries, fun _ => .refl _⟩

/-- `digest` is the hash function of `Address::Hash`. -/
def Buckets.bucket (buckets : Buckets) (digest : List Byte → Nat) (address : Address) : Nat :=
  digest address.hashed % buckets.count

/-- A device map and the devices that exist. -/
structure Devices (D : Type) where
  map : EbNDeviceMap
  heap : DeviceID → Option D

namespace Devices

variable {D : Type} [Addressed D] (digest : List Byte → Nat) (s : Devices D)

def new (heap : DeviceID → Option D) : Devices D := ⟨⟨∅, ∅⟩, heap⟩

def findExactMatch (address : Address) : Option DeviceID := s.map.addressToDevice.lookup address

/-- The body of the `if` in `findShiftedMatch`. -/
def rekey (old address : Address) (device : DeviceID) : Devices D where
  heap := Function.update s.heap device ((s.heap device).map fun d => Addressed.setAddress d address)
  map := { s.map with addressToDevice := UMap.insertNew (s.map.addressToDevice.erase old) address device }

def findShiftedMatch (buckets : Buckets) (address : Address) : Option DeviceID × Devices D :=
  let bucket := s.map.addressToDevice.entries.filter fun entry =>
    buckets.bucket digest entry.1 = buckets.bucket digest address.unshift
  match (buckets.order bucket).find? fun entry => address.isShift entry.1 with
  | some entry => (some entry.2, s.rekey entry.1 address entry.2)
  | none => (none, s)

/-- `get(id)`. -/
def getID (id : DeviceID) : Option DeviceID := s.map.idToDevice.lookup id

/-- `get(address)`. -/
def getAddress (buckets : Buckets) (address : Address) : Option DeviceID × Devices D :=
  match s.findExactMatch address with
  | some device => (some device, s)
  | none => s.findShiftedMatch digest buckets address

def add (address : Address) (device : DeviceID) : Option (Devices D) :=
  (s.heap device).map fun d =>
    { s with
      map :=
        { addressToDevice := UMap.insertNew s.map.addressToDevice address device
          idToDevice := UMap.insertNew s.map.idToDevice (Addressed.getID d) device } }

/-- Both entries of a device are erased, and it is deleted. -/
def delete (address : Address) (id : DeviceID) (device : DeviceID) : Devices D where
  heap := Function.update s.heap device none
  map := ⟨s.map.addressToDevice.erase address, s.map.idToDevice.erase id⟩

/-- `remove(address)`. -/
def removeAddress (address : Address) : Option (Bool × Devices D) :=
  match s.map.addressToDevice.lookup address with
  | some device =>
      (s.heap device).bind fun d =>
        if Addressed.getID d ∈ s.map.idToDevice then some (true, s.delete address (Addressed.getID d) device) else none
  | none => some (false, s)

/-- `remove(id)`. -/
def removeID (id : DeviceID) : Option (Bool × Devices D) :=
  match s.map.idToDevice.lookup id with
  | some device =>
      (s.heap device).bind fun d =>
        if Addressed.getAddress d ∈ s.map.addressToDevice then some (true, s.delete (Addressed.getAddress d) id device)
        else none
  | none => some (false, s)

/-- `clear` deletes no device. -/
def clear : Devices D := { s with map := ⟨∅, ∅⟩ }

/-- `new TDevice(…)` at the address `device`, which nothing points to yet. -/
def allocate (device : DeviceID) (d : D) : Devices D := { s with heap := Function.update s.heap device (some d) }

/-! ## The indexes -/

/-- `addressToDevice` holds each device of `idToDevice` under its present address, and `idToDevice` holds live devices
under their ids. -/
structure Consistent (s : Devices D) : Prop where
  address : ∀ a p, s.map.addressToDevice.lookup a = some p ↔
    ∃ d, s.heap p = some d ∧ Addressed.getAddress d = a ∧ s.map.idToDevice.lookup (Addressed.getID d) = some p
  id : ∀ i p, s.map.idToDevice.lookup i = some p → ∃ d, s.heap p = some d ∧ Addressed.getID d = i

/-- No two devices of the map share an address or an id. -/
def Distinct (s : Devices D) : Prop :=
  ∀ i j p q d e, s.map.idToDevice.lookup i = some p → s.map.idToDevice.lookup j = some q → p ≠ q →
    s.heap p = some d → s.heap q = some e →
      Addressed.getAddress d ≠ Addressed.getAddress e ∧ Addressed.getID d ≠ Addressed.getID e

end Devices

/-! ## Runs -/

inductive MapOp (D : Type) where
  | getAddress (address : Address) (buckets : Buckets)
  | getID (id : DeviceID)
  | add (address : Address) (device : DeviceID) (d : D)
  | removeAddress (address : Address)
  | removeID (id : DeviceID)
  | clear

namespace MapOp

variable {D : Type} [Addressed D] (digest : List Byte → Nat)

def step (s : Devices D) : MapOp D → Option (Devices D)
  | getAddress address buckets => some (s.getAddress digest buckets address).2
  | getID _ => some s
  | add address device d => (s.allocate device d).add address device
  | removeAddress address => (s.removeAddress address).map Prod.snd
  | removeID id => (s.removeID id).map Prod.snd
  | clear => some s.clear

/-- A device is added under its own address and a fresh id, after `get(address)` returned `NULL`. -/
def Legal (s : Devices D) : MapOp D → Prop
  | add address device d =>
      (∃ buckets, (s.getAddress digest buckets address).1 = none) ∧ s.heap device = none ∧
        Addressed.getID d ∉ s.map.idToDevice ∧ Addressed.getAddress d = address
  | _ => True

def run (s : Devices D) (ops : List (MapOp D)) : Option (Devices D) := ops.foldlM (step digest) s

def AllLegal (s : Devices D) : List (MapOp D) → Prop
  | [] => True
  | op :: ops => op.Legal digest s ∧ ∀ s' ∈ op.step digest s, AllLegal s' ops

end MapOp

end Sddr.Radio

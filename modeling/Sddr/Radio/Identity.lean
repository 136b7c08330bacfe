import Sddr.Radio.EbNDeviceMap
import Mathlib.Data.List.Basic

/-!
# Sightings of senders that shift their addresses

Each sender has the sequence of addresses it uses. The radio looks every sighted address up, and adds a new device when
there is none.
-/

namespace Sddr.Radio
open Sddr.Lib Sddr.Codec Sddr.Device

section
variable {D : Type} [Addressed D] (digest : List Byte → Nat)

/-- `get(address)`, and `add` of the device `d` newly created at the address `fresh` when that is `NULL`. -/
def Devices.sight (s : Devices D) (buckets : Buckets) (address : Address) (fresh : DeviceID) (d : D) :
    Option (DeviceID × Devices D) :=
  match s.getAddress digest buckets address with
  | (some device, s) => some (device, s)
  | (none, s) => ((s.allocate fresh d).add address fresh).map fun s => (fresh, s)

end

/-- From each address to the next by `shiftWithPartial`. -/
def ShiftSequence (size : Nat) (a : Nat → Address) : Prop :=
  (a 0).length = size ∧ ∀ n, ∃ value mask rand, a (n + 1) = (a n).shiftWithPartial value mask rand

/-- The address with number `index` of a sender is sighted; `fresh` and `device` are used if it is not known. -/
structure AddressSighting (S D : Type) where
  sender : S
  index : Nat
  buckets : Buckets
  fresh : DeviceID
  device : D

/-- The devices, and for each sighting, the last one first, its sender, the number of its address and the device that
was returned. -/
structure Sighted (S D : Type) where
  devices : Devices D
  seen : List (S × Nat × DeviceID)

namespace Sighted

variable {S D : Type} [DecidableEq S] [Addressed D] (digest : List Byte → Nat) (a : S → Nat → Address)

def start (heap : DeviceID → Option D) : Sighted S D := ⟨Devices.new heap, []⟩

def step (t : Sighted S D) (e : AddressSighting S D) : Option (Sighted S D) :=
  (t.devices.sight digest e.buckets (a e.sender e.index) e.fresh e.device).map fun result =>
    ⟨result.2, (e.sender, e.index, result.1) :: t.seen⟩

def run (t : Sighted S D) (events : List (AddressSighting S D)) : Option (Sighted S D) := events.foldlM (step digest a) t

/-- A sender is first sighted under its first address, and then under the same address as before or the next one. -/
def InOrder (t : Sighted S D) (e : AddressSighting S D) : Prop :=
  match t.seen.lookup e.sender with
  | none => e.index = 0
  | some (n, _) => e.index = n ∨ e.index = n + 1

/-- Both halves of the address differ from the first half of every address that is stored for another sender. -/
def Apart (t : Sighted S D) (e : AddressSighting S D) : Prop :=
  ∀ sender n device stored, (sender, n, device) ∈ t.seen → sender ≠ e.sender →
    t.devices.map.addressToDevice.lookup stored = some device →
      let address := a e.sender e.index
      let half := address.length / 2
      address.take half ≠ stored.take half ∧ address.drop half ≠ stored.take half

/-- A device that is to be added is a new one, with a fresh id and the sighted address. -/
def Fresh (t : Sighted S D) (e : AddressSighting S D) : Prop :=
  (t.devices.getAddress digest e.buckets (a e.sender e.index)).1 = none →
    t.devices.heap e.fresh = none ∧ Addressed.getID e.device ∉ t.devices.map.idToDevice ∧
      Addressed.getAddress e.device = a e.sender e.index

instance (t : Sighted S D) (e : AddressSighting S D) : Decidable (t.InOrder e) :=
  match h : t.seen.lookup e.sender with
  | none => decidable_of_iff (e.index = 0) (by rw [InOrder, h])
  | some (n, _) => decidable_of_iff (e.index = n ∨ e.index = n + 1) (by rw [InOrder, h])

omit [DecidableEq S] [Addressed D] in
theorem apart_iff (t : Sighted S D) (e : AddressSighting S D) :
    t.Apart a e ↔ ∀ x ∈ t.seen, x.1 ≠ e.sender → ∀ entry ∈ t.devices.map.addressToDevice.entries, entry.2 = x.2.2 →
      (a e.sender e.index).take ((a e.sender e.index).length / 2) ≠ entry.1.take ((a e.sender e.index).length / 2) ∧
        (a e.sender e.index).drop ((a e.sender e.index).length / 2)
          ≠ entry.1.take ((a e.sender e.index).length / 2) := by
  constructor
  · rintro h ⟨sender, n, device⟩ hx hne ⟨stored, device'⟩ hentry rfl
    exact h sender n device' stored hx hne (AList.mem_lookup_iff.mpr hentry)
  · intro h sender n device stored hx hne hstored
    exact h (sender, n, device) hx hne ⟨stored, device⟩ (AList.mem_lookup_iff.mp hstored) rfl

instance (t : Sighted S D) (e : AddressSighting S D) : Decidable (t.Apart a e) := decidable_of_iff _ (apart_iff a t e).symm

instance (t : Sighted S D) (e : AddressSighting S D) : Decidable (t.Fresh digest a e) :=
  inferInstanceAs (Decidable (_ = none → _ = none ∧ _ ∉ _ ∧ _ = _))

def AllInOrder (t : Sighted S D) : List (AddressSighting S D) → Prop
  | [] => True
  | e :: events => (t.InOrder e ∧ t.Apart a e ∧ t.Fresh digest a e) ∧ ∀ t' ∈ t.step digest a e, AllInOrder t' events

instance decidableAllInOrder :
    ∀ (events : List (AddressSighting S D)) (t : Sighted S D), Decidable (AllInOrder digest a t events)
  | [], _ => isTrue trivial
  | e :: events, t =>
      have := decidableAllInOrder events
      inferInstanceAs (Decidable ((t.InOrder e ∧ t.Apart a e ∧ t.Fresh digest a e) ∧
        ∀ t' ∈ t.step digest a e, AllInOrder digest a t' events))

end Sighted

end Sddr.Radio

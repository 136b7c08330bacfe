import Mathlib.Data.Finset.Lattice.Fold
import Sddr.Radio.Actions

/-!
# Devices that were already contacted

`handshake` of `EbNRadioBT2PSI.cpp` over all requested devices, with the sessions reduced to their shared secrets.
`discDevices_` holds the devices contacted in this discovery period; the thread of `listen` adds those it accepts.
-/

namespace Sddr.Radio
open Sddr.Lib Sddr.Codec Sddr.Device

/-- The constructor throws for any other scheme. -/
structure EbNRadioBT2PSI (P D : Type) extends EbNRadio P D where
  discDevices : Finset Address
  active : toEbNRadio.confirmScheme.type = .Active

/-- What goes on around a handshake: the addresses that `listen` inserts before it is a device's turn and after it was
that of the one before, and the shared secret that a connection to a device leads to, if any. -/
structure Surroundings where
  inserted : DeviceID → Finset Address
  connect : DeviceID → Option LinkValue

namespace EbNRadioBT2PSI

variable {P D : Type} [FloatOps P] [IsDevice D P] [Addressed D]

def change (r : EbNRadioBT2PSI P D) (device : DeviceID) (f : EbNDevice P → EbNDevice P) : EbNRadioBT2PSI P D :=
  { r with toEbNRadio := r.toEbNRadio.update device (IsDevice.update f), active := r.active }

/-- The connection to a device, which adds the shared secret. -/
def contact (r : EbNRadioBT2PSI P D) (device : DeviceID) : Option LinkValue → EbNRadioBT2PSI P D
  | some value => r.change device fun d => d.addSharedSecret { SharedSecret.ofScheme .active with value }
  | none => r

/-- The loop over the requested devices: those to which a connection was attempted, and the radio. -/
def shakeHands (around : Surroundings) :
    List DeviceID → EbNRadioBT2PSI P D → Option (List DeviceID × EbNRadioBT2PSI P D)
  | [], r => some ([], r)
  | id :: ids, r =>
      (r.devices.getID id).bind fun device =>
        (r.heap device).bind fun d =>
          let r := { r with discDevices := r.discDevices ∪ around.inserted id }
          if !(IsDevice.base d).confirmed && r.getHandshakeScheme == .Active then
            -- the loop is left for a device that was contacted already
            if Addressed.getAddress d ∈ r.discDevices then some ([], r)
            else
              let r := { r with discDevices := insert (Addressed.getAddress d) r.discDevices }
              let r := r.contact device (around.connect id)
              (shakeHands around ids (r.change device (·.setShakenHands true))).map fun (attempted, r) =>
                (id :: attempted, r)
          else shakeHands around ids (r.change device (·.setShakenHands true))

/-- `handshake(deviceIDs)` goes through the ids in their order. -/
def handshake (around : Surroundings) (deviceIDs : Finset DeviceID) (r : EbNRadioBT2PSI P D) :
    Option (Finset DeviceID × List DeviceID × EbNRadioBT2PSI P D) :=
  (shakeHands around (deviceIDs.sort (· ≤ ·)) r).map fun (attempted, r) => (r.encountered, attempted, r)

end EbNRadioBT2PSI

/-! ## What a handshake should do -/

variable {P : Type}

/-- Every requested device has shaken hands, and a connection to each that was unconfirmed was attempted unless its
address is in `discDevices_`. `base` is what is known of the devices before, and `base'` after the handshake. -/
structure Served (base base' : DeviceID → EbNDevice P) (ids attempted : List DeviceID) (discDevices : Finset Address) :
    Prop where
  shaken : ∀ id ∈ ids, (base' id).shakenHands = true
  attempted : ∀ id ∈ ids, (base id).confirmed = false → id ∈ attempted ∨ (base id).address ∈ discDevices

/-- `discDevices_` after the turn of a device that is contacted if it is unconfirmed. -/
def contacted (base : DeviceID → EbNDevice P) (around : Surroundings) (known : Finset Address) (id : DeviceID) :
    Finset Address :=
  if (base id).confirmed then known ∪ around.inserted id else insert (base id).address (known ∪ around.inserted id)

/-- `discDevices_` when it is the turn of `id`, after that of `front`. -/
def knownAt (base : DeviceID → EbNDevice P) (around : Surroundings) (known : Finset Address) (front : List DeviceID)
    (id : DeviceID) : Finset Address :=
  front.foldl (contacted base around) known ∪ around.inserted id

/-- Where an unconfirmed device was already contacted when it is its turn, it and the devices behind it have shaken hands
before, and the unconfirmed ones of them were all contacted. -/
def Skippable (base : DeviceID → EbNDevice P) (around : Surroundings) (known : Finset Address) (ids : List DeviceID) : Prop :=
  ∀ front id back, ids = front ++ id :: back → (base id).confirmed = false →
    (base id).address ∈ knownAt base around known front id → ∀ j ∈ id :: back, (base j).shakenHands = true ∧
      ((base j).confirmed = false → (base j).address ∈ knownAt base around known front id)

end Sddr.Radio

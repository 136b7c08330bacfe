import Sddr.Control.EbNController

/-!
# What a run keeps to

The order of the events of one device, and the devices that the radio is asked about.
-/

namespace Sddr.Control
open Sddr.Lib Sddr.Codec Sddr.Device Sddr.Radio

variable {P D : Type}

/-! ## Events -/

/-- The types of the events of one device. -/
def typesOf (events : List (EncounterEvent P)) (id : DeviceID) : List EventType :=
  (events.filter fun e => e.id = id).map EncounterEvent.type

/-- What has come so far of: an `UnconfirmedStarted` or not, then a `Started` and any number of `Updated` or not, then
an `Ended`. -/
def InOrder (types : List EventType) : Prop :=
  ∃ (unconfirmed started : Bool) (updates : Nat),
    types <+: (if unconfirmed then [.UnconfirmedStarted] else [])
      ++ (if started then .Started :: List.replicate updates .Updated else []) ++ [.Ended]

end Sddr.Control

namespace Sddr.Radio

/-- Every recent device is in the map. -/
def EbNRadio.RecentKnown {P D : Type} (r : EbNRadio P D) : Prop :=
  ∀ entry ∈ r.recent.nodes, ∃ id, r.deviceMap.idToDevice.lookup id = some entry.2

end Sddr.Radio

namespace Sddr.Control.EbNController
open Sddr.Lib Sddr.Codec Sddr.Device Sddr.Radio

variable {P D : Type} [FloatOps P] [IsDevice D P] [Addressed D]

/-! ## Lookups -/

/-- Each device is in the map when the radio is to be done with it. -/
def ExpiresKnown (clock : Nat → Time × Time × Time) : List (DeviceID × Time) → EbNRadio P D → Prop
  | [], _ => True
  | (id, _) :: expired, r =>
      id ∈ r.deviceMap.idToDevice ∧
        ∃ event r', r.doneWithDevice id (clock expired.length).1 (clock expired.length).2.1 (clock expired.length).2.2
            = some (event, r') ∧
          r'.RecentKnown ∧ ExpiresKnown clock expired r'

variable [RadioDevice D] {sha256 : List Byte → Digest} (version : Version) (digest : List Byte → Nat)
  (c : EbNController P D)

/-- The policy when it checks what has expired. -/
def judge (m : Meeting sha256 D) (discovered : List DiscoverEvent) (encountered : Finset DeviceID) : EbNHystPolicy :=
  (c.hystPolicy.discovered discovered [] m.discovered).policy.encountered encountered m.encountered

/-- What the radio is asked about is in its map at that moment, and so are its recent devices. -/
def LooksUp : Action sha256 D → Prop
  | .discover m =>
      ∃ discovered r, c.radio.discover version digest m.responses m.interval = some (discovered, r) ∧ r.RecentKnown ∧
        let found := c.hystPolicy.discovered discovered [] m.discovered
        (∀ id ∈ found.toHandshake, id ∈ r.deviceMap.idToDevice) ∧
        ∃ encountered r', r.handshake version digest m.incoming m.connect found.toHandshake = some (encountered, r') ∧
          r'.RecentKnown ∧
          ∃ reports r'', reportAll c.rssiReportInterval m.report discovered r' = some (reports, r'') ∧ r''.RecentKnown ∧
            ExpiresKnown m.done ((found.policy.encountered encountered m.encountered).checkExpired m.checkExpired).1 r''
  | .changeEpoch effect => (c.radio.changeEpoch effect).RecentKnown
  | .setAdvertisedSet _ => c.radio.RecentKnown
  | .setListenSet _ => c.radio.RecentKnown

/-- With `NoMemory` there is no recent device when a discovery starts. -/
def Remembered : Action sha256 D → Prop
  | .discover _ => c.radio.memoryScheme = .NoMemory → c.radio.recent.nodes = []
  | _ => True

/-- `Holds` of every action of a run. -/
def EveryAction (Holds : EbNController P D → Action sha256 D → Prop) : List (Action sha256 D) → EbNController P D → Prop
  | [], _ => True
  | action :: actions, c =>
      Holds c action ∧ ∀ events c', c.act version digest action = some (events, c') → EveryAction Holds actions c'

end Sddr.Control.EbNController

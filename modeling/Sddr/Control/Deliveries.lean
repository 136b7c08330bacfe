import Sddr.Control.EbNControllerBT4
import Sddr.Control.Encounters
import Sddr.Radio.Lemmas.Steps

/-!
# Confirmed secrets and tracked devices

What is to become of the confirmed secrets of a device, and of the devices in the map. Both depend on the messages that
are queued when a discovery starts.
-/

namespace Sddr.Control
open Sddr.Lib Sddr.Codec Sddr.Device Sddr.Radio Sddr.Erasure

/-- The `Started` and `Updated` events of a device with the secret of a value. -/
def deliveries {P : Type} (events : List (EncounterEvent P)) (id : DeviceID) (v : LinkValue) : List (EncounterEvent P) :=
  events.filter fun e => e.id = id ∧ (e.type = .Started ∨ e.type = .Updated) ∧ v ∈ e.sharedSecrets.map SharedSecret.value

/-- `lastTime` of the entry of an id when the entries are checked, if the id is not discovered; `encountered` adds the
missing ones. -/
def EbNHystPolicy.lastTime (p : EbNHystPolicy) (encountered : Time) (id : DeviceID) : Time :=
  ((p.deviceInfo.lookup id).map DeviceInfo.lastTime).getD encountered

namespace EbNController

variable {P D : Type} [FloatOps P] [IsDevice D P] [Addressed D] [RadioDevice D] {sha256 : List Byte → Digest}
  (version : Version) (digest : List Byte → Nat) (c : EbNController P D)

/-- Each confirmed secret of a device that now expires, if there was a handshake with it, has been delivered by one event
up to now. `events` are those of earlier actions. -/
def Delivers (events : List (EncounterEvent P)) (m : Meeting sha256 D) : Prop :=
  ∃ discovered r₁ encountered r₂ reports r₃,
    let found := c.hystPolicy.discovered discovered [] m.discovered
    let started := found.newlyDiscovered.map fun nd => EncounterEvent.new .UnconfirmedStarted nd.2 nd.1
    c.radio.discover version digest m.responses m.interval = some (discovered, r₁) ∧
      r₁.handshake version digest m.incoming m.connect found.toHandshake = some (encountered, r₂) ∧
      reportAll c.rssiReportInterval m.report discovered r₂ = some (reports, r₃) ∧
      ∀ expired ∈ ((c.judge m discovered encountered).checkExpired m.checkExpired).1,
        (r₃.baseAt expired.1).shakenHands = true → ∀ v ∈ confirmedValues (r₃.baseAt expired.1).sharedSecrets,
          (deliveries (events ++ started ++ reports) expired.1 v).length = 1

/-- The devices of the map are those that the policy tracks. -/
def Tracks : Prop := ∀ id, id ∈ c.radio.deviceMap.idToDevice ↔ id ∈ c.hystPolicy.deviceInfo

end EbNController

namespace EbNControllerBT4

variable {P : Type} [FloatOps P] {ec : Ec} (sha256 : List Byte → Digest) (g : Galois) (digest : List Byte → Nat)
  (c : EbNControllerBT4 P ec) (m : MeetingBT4)

/-- The secret that a message of an active handshake confirms, if its public key is valid. -/
def secretOf (message : List Byte) : Option (SharedSecret P) :=
  if message.length = c.radio.dhExchange.getPublicSize + (BT4.ACTIVE_BF_M + 7) / 8 then
    c.radio.dhExchange.computeSharedSecret (SharedSecret.ofScheme .active) (Mem.ofList message)
  else none

/-- The queued messages of a device, with the devices as the scan leaves them in `r`. -/
def messagesOf (r : EbNRadio P (EbNDeviceBT4 P ec)) (id : DeviceID) : List (List Byte) :=
  ((r.recipients digest (c.meeting sha256 g m).incoming).zip c.radio.listenAdverts).filterMap fun entry =>
    if entry.1 = id then some entry.2.2 else none

/-- What the scan finds, and the radio after it. -/
def scan : Option (List DiscoverEvent × EbNRadio P (EbNDeviceBT4 P ec)) :=
  let met := c.meeting sha256 g m
  c.base.radio.discover .Bluetooth4 digest met.responses met.interval

/-- A device that has been silent for too long, with a handshake behind it or in the queue, has nothing left to be
reported and gets no new secret from the queue. -/
def Settled : Prop :=
  ∀ discovered r, c.scan sha256 g digest m = some (discovered, r) → ∀ id, id ∉ discovered.map DiscoverEvent.id →
    c.hystPolicy.endTime < m.checkExpired - c.hystPolicy.lastTime m.encountered id →
      let device := c.radio.baseAt id
      let messages := c.messagesOf sha256 g digest m r id
      id ∈ c.radio.deviceMap.idToDevice ∧ device.shakenHands = true ∨ messages ≠ [] →
        device.secretsToReport = [] ∧ ∀ message ∈ messages, ∀ secret ∈ c.secretOf message,
          secret.value ∈ confirmedValues device.sharedSecrets

/-- A device with queued messages is tracked, or discovered now, or the public key of one of the messages is valid. -/
def Reached : Prop :=
  ∀ discovered r, c.scan sha256 g digest m = some (discovered, r) → ∀ id,
    c.messagesOf sha256 g digest m r id ≠ [] →
      id ∈ c.hystPolicy.deviceInfo ∨ id ∈ discovered.map DiscoverEvent.id ∨
        ∃ message ∈ c.messagesOf sha256 g digest m r id, (c.secretOf message).isSome

/-- `Holds` of every discovery of a run, with the events before it. -/
def EveryDiscovery (Holds : List (EncounterEvent P) → EbNControllerBT4 P ec → MeetingBT4 → Prop) :
    List (ActionBT4 ec) → List (EncounterEvent P) → EbNControllerBT4 P ec → Prop
  | [], _, _ => True
  | action :: actions, events, c =>
      (∀ m, action = .discover m → Holds events c m) ∧ ∀ more c', c.act sha256 g digest action = some (more, c') →
        EveryDiscovery Holds actions (events ++ more) c'

end EbNControllerBT4

end Sddr.Control

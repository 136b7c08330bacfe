import Sddr.Sockets.Messages
import Sddr.Wire.EbNCore

/-!
# Events on the client socket

`requestSleep` and `notifyEncounter` of `Main.cpp`, and the event that its message loop finds in the bytes of a message.
-/

namespace Sddr.Sockets.Main
open Sddr.Lib Sddr.Wire

/-! ## Messages that are sent -/

/-- A `CodedOutputStream` over an array: what was written, and how much of the array is left. -/
structure Output where
  written : List Byte
  room : Nat

namespace Output

/-- `WriteRaw`. There is no result for more bytes than there is room for. -/
def writeRaw (out : Output) (data : List Byte) : Option Output :=
  if data.length ≤ out.room then some ⟨out.written ++ data, out.room - data.length⟩ else none

/-- `SerializeToCodedStream`. There is no result where it does not get a direct buffer, or where the event has another size
than it said. -/
def serialize (out : Output) (event : EbNCore.Event) : Option Output :=
  let size := event.byteSize
  if size ≤ out.room then
    if event.serialize.length = size then some ⟨out.written ++ event.serialize, out.room - size⟩ else none
  else none

end Output

/-- The vector `message` when it is given to `sendAll`. What was not written of it is zero. -/
def message (event : EbNCore.Event) : Option (List Byte) :=
  (((Output.mk [] (4 + event.byteSize)).writeRaw (littleEndian 4 event.byteSize)).bind fun out => out.serialize event).map
    fun out => out.written ++ List.replicate out.room 0

def requestSleep (duration : BitVec 64) : Option (List Byte) := message { sleepEvent := some { duration := some duration } }

/-- The cast to `Event_EncounterEvent_EventType`. -/
def eventType : Device.EventType → EbNCore.EventType
  | .Started => .Start
  | .Updated => .Update
  | .Ended => .End
  | .UnconfirmedStarted => .UnconfirmedStart

variable {P : Type}

/-- `getPKID`. -/
def getPKID (sddrStartTimestamp : BitVec 64) (event : Device.EncounterEvent P) : BitVec 64 :=
  sddrStartTimestamp + (BitVec.ofNat 32 event.id).signExtend 64

/-- `fullEvent` of `notifyEncounter`. The characters of an address are bytes. -/
def fullEvent (sddrStartTimestamp : BitVec 64) (event : Device.EncounterEvent P) : EbNCore.Event where
  encounterEvent := some {
    type := some (eventType event.type)
    time := some event.time
    id := some (BitVec.ofNat 32 event.id)
    pkid := some (getPKID sddrStartTimestamp event)
    address := some (event.address.toList.map fun c => BitVec.ofNat 8 c.toNat)
    matchingSetUpdated := some event.matchingSetUpdated
    rssiEvents := event.rssiEvents.map fun rssiEvent =>
      { time := some rssiEvent.time, rssi := some (rssiEvent.rssi.signExtend 32) }
    matchingSet := event.matching
    sharedSecrets := event.sharedSecrets.map Device.SharedSecret.value }

def notifyEncounter (sddrStartTimestamp : BitVec 64) (event : Device.EncounterEvent P) : Option (List Byte) :=
  message (fullEvent sddrStartTimestamp event)

/-! ## Messages that are received -/

/-- `linkvalue()` and `mode()`, with their defaults. -/
def entryOf (entry : EbNCore.Entry) : Entry where
  linkvalue := entry.linkValue.getD []
  mode :=
    match entry.mode.getD .Listen with
    | .Listen => ModeType.Listen
    | .AdvertAndListen => ModeType.AdvertAndListen

/-- What the loop looks at in an event. -/
def eventOf (event : EbNCore.Event) : Event where
  hasLinkabilityEvent := event.linkabilityEvent.isSome
  entries := (event.linkabilityEvent.getD {}).entries.map entryOf

/-- `ParseFromCodedStream` of the loop. -/
def parse (body : List Byte) : Bool × Event :=
  let parsed := EbNCore.Event.parseFromCodedStream body
  (parsed.1, eventOf parsed.2)

/-! ## What a client should get -/

/-- The bytes of some messages, one behind the other. -/
def messages (events : List EbNCore.Event) : List Byte :=
  events.flatMap fun event => littleEndian 4 event.byteSize ++ event.serialize

/-- Each call moves something, and there is a call for each of so many bytes. -/
def Enough (offers : List Offer) (size : Nat) : Prop := (∀ offer ∈ offers, 0 < offer.amount) ∧ size ≤ offers.length

/-- The sets after an event: its own if it has any. -/
def setsOf (sets : List Device.LinkValue × List Device.LinkValue) (event : EbNCore.Event) :
    List Device.LinkValue × List Device.LinkValue :=
  if event.linkabilityEvent.isSome then (eventOf event).sets else sets

variable {D : Type}

/-- All that is advertised is listened for as well. -/
def Listens (radio : Radio.EbNRadio P D) : Prop := radio.advertisedSet.Sublist radio.listenSet

end Sddr.Sockets.Main

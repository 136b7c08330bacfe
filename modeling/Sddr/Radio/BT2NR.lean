import Sddr.Codec.Received
import Sddr.Radio.ECDH
import Sddr.Radio.Devices

/-!
# EbNRadioBT2NR

`EbNRadioBT2NR.cpp`: the advert is the name of the adapter, and a handshake is a name request. What the adapters do with
a name is a parameter, and so are the bytes that the allocator leaves behind the 216 of an advert. `decode` writes one byte
more than these, and where no byte is left for it there is no result.
-/

namespace Sddr.Radio
open Sddr.Lib Sddr.Codec Sddr.Device

/-- `publicAddress` and `localName` are what `hci_` was last given. The constructor throws for any other scheme. -/
structure EbNRadioBT2NR (P : Type) (ec : Ec) extends EbNRadio P (EbNDevice P) where
  dhExchange : ECDH ec
  publicAddress : Address
  localName : List Byte
  scheme : toEbNRadio.confirmScheme.type = .None

namespace EbNRadioBT2NR

variable {P : Type} [FloatOps P] {ec : Ec} (sha256 : List Byte → Digest)

open BinaryToUTF8 (NAME_DECODED_SIZE)

/-- The constructor, with the generated key and the address and the name the adapter has. -/
def new (confirmScheme : ConfirmScheme P) (memoryScheme : MemoryScheme) (now : Time) (key : ec.Key)
    (publicAddress : Address) (localName : List Byte) : Option (EbNRadioBT2NR P ec) :=
  if scheme : confirmScheme.type = .None then
    some
      { EbNRadio.new confirmScheme memoryScheme now with
        dhExchange := ECDH.generateSecret key, publicAddress, localName, scheme }
  else none

def keySize (_ : EbNRadioBT2NR P ec) : Nat := ec.keySize
def BF_M (r : EbNRadioBT2NR P ec) : Nat := NAME_DECODED_SIZE - 2 - r.keySize
def BF_K (_ : EbNRadioBT2NR P ec) : Nat := 3

/-! ## Sending -/

/-- The version bit, which is 0, and the public key. -/
def advertHeader (r : EbNRadioBT2NR P ec) : BitMap :=
  let advert := (BitMap.new NAME_DECODED_SIZE).setTo 1 r.dhExchange.getPublicY
  advert.copyFrom r.dhExchange.getPublicX 0 2 r.keySize

def advertBloom (rand : Nat → Nat) (r : EbNRadioBT2NR P ec) : BloomFilter P :=
  fillBloomFilter sha256 rand r.toEbNRadio (BloomFilter.new BF_N r.BF_M r.BF_K)
    (r.dhExchange.getPublicX.take (r.keySize / 8)) true

def advert (rand : Nat → Nat) (r : EbNRadioBT2NR P ec) : BitMap :=
  let bloom := advertBloom sha256 rand r
  r.advertHeader.copyFrom bloom.bits.bits 0 (2 + r.keySize) bloom.M

def changeAdvert (rand : Nat → Nat) (r : EbNRadioBT2NR P ec) : EbNRadioBT2NR P ec :=
  let advert := advert sha256 rand r
  { r with localName := BinaryToUTF8.encode advert.bits advert.size }

def initializeRadio (rand : Nat → Nat) (random : Nat → Byte) (r : EbNRadioBT2NR P ec) : EbNRadioBT2NR P ec :=
  changeAdvert sha256 rand { r with publicAddress := Address.generateWithPartial 0 0 random }

/-- What `discover()` does before the inquiry. -/
def discover (rand : Nat → Nat) (r : EbNRadioBT2NR P ec) : EbNRadioBT2NR P ec :=
  changeAdvert sha256 rand
    { r with
      toEbNRadio := r.forget
      scheme := by
        unfold EbNRadio.forget
        split <;> exact r.scheme }

/-- The new key, address and advert. -/
def shiftEpoch (rand : Nat → Nat) (r : EbNRadioBT2NR P ec) (key : ec.Key) (random : Nat → Byte) : EbNRadioBT2NR P ec :=
  let r := { r with dhExchange := ECDH.generateSecret key }
  changeAdvert sha256 rand { r with publicAddress := Address.shiftWithPartial r.publicAddress 0 0 random }

def changeEpoch (rand : Nat → Nat) (r : EbNRadioBT2NR P ec) (key : ec.Key) (random : Nat → Byte) : EbNRadioBT2NR P ec :=
  let r := shiftEpoch sha256 rand r key random
  { r with nextChangeEpoch := Time.addMS r.nextChangeEpoch EPOCH_INTERVAL, scheme := r.scheme }

/-! ## Receiving -/

/-- What `handshake` does with an advert: the shared secret, and the matching set. -/
def processAdvert (r : EbNRadioBT2NR P ec) (device : EbNDevice P) (advert : BitMap) : EbNDevice P :=
  let remotePublicX := (advert.copyTo (fun _ => 0) 0 2 r.keySize).take (r.keySize / 8)
  let device :=
    match r.dhExchange.computeSharedSecretXY (SharedSecret.ofConfirmed (r.confirmScheme.type = .None))
        (Mem.ofList remotePublicX) (advert.get 1) with
    | some sharedSecret => device.addSharedSecret sharedSecret
    | none => device
  let bloom : BloomFilter P := BloomFilter.ofBitMap BF_N r.BF_K advert (2 + r.keySize) r.BF_M
  device.updateMatching sha256 bloom remotePublicX

/-- The advert in the answer to a name request, which may have failed. Others than EbN devices have names of other lengths.
Behind the bytes of the advert is `slack`. -/
def readName (slack : List Byte) : Option (List Byte) → Option (Option BitMap)
  | some remoteName =>
      if BinaryToUTF8.getNumEncodedBits NAME_DECODED_SIZE = remoteName.length * 8 then
        let advert := BitMap.new NAME_DECODED_SIZE
        (BinaryToUTF8.decodeIn (advert.toBytes ++ slack) remoteName).map fun bytes =>
          some ⟨advert.size, Mem.ofList bytes⟩
      else some none
  | none => some none

theorem processAdvert_changed (r : EbNRadioBT2NR P ec) (device : EbNDevice P) (advert : BitMap) :
    Changed sha256 device (r.processAdvert sha256 device advert) := by
  unfold processAdvert
  dsimp only
  split
  · next sharedSecret _ => exact (Changed.op (.addSharedSecret sharedSecret) _).trans (.op (.updateMatching _ _) _)
  · exact .op (.updateMatching _ _) _

/-- What a name request with this advert does to a device, if there is one. -/
def requestEffect (r : EbNRadioBT2NR P ec) (advert : Option BitMap) : Effect sha256 (EbNDevice P) where
  run device :=
    match advert with
    | some advert => r.processAdvert sha256 device advert
    | none => device
  changed device := by
    cases advert with
    | none => exact .refl _
    | some advert => exact processAdvert_changed sha256 r device advert

/-- The loop of `handshake`: `names` is the outcome of the name requests, or `none` where the next action is less than two
seconds away and the loop is left. -/
def requestNames (r : EbNRadioBT2NR P ec) (slack : List Byte) (names : DeviceID → Option (Option (List Byte))) :
    List DeviceID → EbNRadio P (EbNDevice P) → Option (EbNRadio P (EbNDevice P))
  | [], base => some base
  | id :: ids, base =>
      (base.devices.getID id).bind fun device =>
        (base.heap device).bind fun _ =>
          match names id with
          | none => some base
          | some remoteName =>
              (readName slack remoteName).bind fun advert =>
                requestNames r slack names ids
                  (base.update device fun d => ((r.requestEffect sha256 advert).run d).setShakenHands true)

/-- `handshake(deviceIDs)`, which changes nothing of the radio but what all radios have. -/
def handshake (slack : List Byte) (names : DeviceID → Option (Option (List Byte))) (deviceIDs : Finset DeviceID)
    (r : EbNRadioBT2NR P ec) : Option (Finset DeviceID × EbNRadio P (EbNDevice P)) :=
  (r.requestNames sha256 slack names (deviceIDs.sort (· ≤ ·)) r.toEbNRadio).map fun base => (base.encountered, base)

/-! ## Runs -/

/-- What changes the name or the key of a radio, and whatever else happens to the part that all radios share. -/
inductive Action (P : Type) (ec : Ec) where
  | start (rand : Nat → Nat) (random : Nat → Byte)
  | discover (rand : Nat → Nat)
  | changeEpoch (rand : Nat → Nat) (key : ec.Key) (random : Nat → Byte)
  | other (base : EbNRadio P (EbNDevice P)) (scheme : base.confirmScheme.type = .None)

def Action.apply (r : EbNRadioBT2NR P ec) : Action P ec → EbNRadioBT2NR P ec
  | start rand random => initializeRadio sha256 rand random r
  | discover rand => EbNRadioBT2NR.discover sha256 rand r
  | changeEpoch rand key random => EbNRadioBT2NR.changeEpoch sha256 rand r key random
  | other base scheme => { r with toEbNRadio := base, scheme }

def Action.newKey? : Action P ec → Option ec.Key
  | changeEpoch _ key _ => some key
  | _ => none

/-- The radios that a run can get to. -/
inductive Reachable : EbNRadioBT2NR P ec → Prop where
  | new {confirmScheme : ConfirmScheme P} {memoryScheme : MemoryScheme} {now : Time} {key : ec.Key}
      {publicAddress : Address} {localName : List Byte} {r : EbNRadioBT2NR P ec}
      (h : new confirmScheme memoryScheme now key publicAddress localName = some r) : Reachable r
  | act {r : EbNRadioBT2NR P ec} (h : Reachable r) (action : Action P ec) : Reachable (action.apply sha256 r)

/-! ## Two radios -/

/-- `HCI_MAX_NAME_LENGTH`, with the terminator. -/
def HCI_MAX_NAME_LENGTH : Nat := 248

/-- Adapters answer a name request with the name they were given, if it fits and does not end before its end. -/
def Carries (carry : List Byte → List Byte) : Prop :=
  ∀ name, name.length < HCI_MAX_NAME_LENGTH → 0 ∉ name → carry name = name

/-- A radio, and the device that the other radio is to it. -/
structure Contact (P : Type) (ec : Ec) where
  radio : EbNRadioBT2NR P ec
  device : EbNDevice P

/-- What happens at one end: an action of the radio, a name request in a handshake, a report, or a new address. -/
inductive ContactEvent (P : Type) (ec : Ec) where
  | act (action : Action P ec)
  | request (answered : Bool)
  | report (time rssiReportInterval now later : Time)
  | setAddress (address : Address)

variable (slack : List Byte) (carry : List Byte → List Byte)

def ContactEvent.apply (self other : Contact P ec) : ContactEvent P ec → Option (Contact P ec)
  | act action => some { self with radio := action.apply sha256 self.radio }
  | request answered =>
      (readName slack (if answered then some (carry other.radio.localName) else none)).map fun advert =>
        { self with device := ((self.radio.requestEffect sha256 advert).run self.device).setShakenHands true }
  | report time rssiReportInterval now later =>
      let report := self.device.getEncounterInfo (EncounterEvent.ofTime time) rssiReportInterval false now later
      some { self with device := report.2.2 }
  | setAddress address => some { self with device := self.device.setAddress address }

/-- An event at the first end, or at the second. -/
def exchange (s : Contact P ec × Contact P ec) (event : Bool × ContactEvent P ec) : Option (Contact P ec × Contact P ec) :=
  if event.1 then (event.2.apply sha256 slack carry s.1 s.2).map fun c => (c, s.2)
  else (event.2.apply sha256 slack carry s.2 s.1).map fun c => (s.1, c)

/-- The radio has set its name, and knows nothing of the other one but what it listens for. -/
structure Contact.Begins (c : Contact P ec) (listenSet : List LinkValue) : Prop where
  radio : ∃ rand r, Reachable sha256 r ∧ c.radio = changeAdvert sha256 rand r
  device : ∃ id address, c.device = EbNDevice.new id address listenSet

def ContactEvent.newKey? : ContactEvent P ec → Option ec.Key
  | act action => action.newKey?
  | _ => none

/-- The advertised set that the radio has after an event it may have another one after. -/
def ContactEvent.newSet? : ContactEvent P ec → Option (List LinkValue)
  | act (.other base _) => some base.advertisedSet
  | _ => none

/-- The keys that the radio of one end has in a run. -/
def Contact.keys (c : Contact P ec) (events : List (ContactEvent P ec)) : List ec.Key :=
  c.radio.dhExchange.secret :: events.filterMap ContactEvent.newKey?

/-- The advertised sets that it has. -/
def Contact.sets (c : Contact P ec) (events : List (ContactEvent P ec)) : List (List LinkValue) :=
  c.radio.advertisedSet :: events.filterMap ContactEvent.newSet?

/-- The events at one end. -/
def eventsAt (first : Bool) (events : List (Bool × ContactEvent P ec)) : List (ContactEvent P ec) :=
  (events.filter fun event => event.1 = first).map Prod.snd

/-- What a device may say about a radio with the keys `keys'`, to one with the keys `keys`: its matching set has what was
listened for and always advertised, and its secrets are confirmed and of the keys. -/
structure Knows (listenSet : List LinkValue) (keys keys' : List ec.Key) (sets' : List (List LinkValue))
    (device : EbNDevice P) : Prop where
  listened : device.matching.Sublist listenSet
  matching : ∀ v ∈ listenSet, (∀ advertised ∈ sets', v ∈ advertised.take BF_N) → v ∈ device.matching
  secrets : ∀ secret ∈ device.sharedSecrets, secret.confirmed = true ∧
    ∃ key ∈ keys, ∃ key' ∈ keys', ec.computeKey (ec.publicKey key') key = some secret.value

end EbNRadioBT2NR

end Sddr.Radio

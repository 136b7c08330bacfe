import Sddr.Lib.Numbering
import Sddr.Radio.BT2
import Sddr.Radio.BT4

/-!
# The filters that a radio sends

`changeAdvert` is called by `initialize`, `discover` and, for Bluetooth 2, by `changeEpoch`. Every
advert is kept as the radio that generates it and the values of `rand()`.
-/

namespace Sddr.Radio
open Sddr.Lib Sddr.Codec Sddr.Device

/-- The octets of the public X coordinate. -/
def ECDH.publicX {ec : Ec} (dh : ECDH ec) : List Byte := dh.getPublicX.take (ec.keySize / 8)

/-- The X coordinate that belongs to a key. -/
def Ec.xCoord (ec : Ec) (key : ec.Key) : List Byte := (ECDH.generateSecret key).publicX

/-- Filters with the same hash prefix have the same contents. -/
def OnePerPrefix {B F : Type} (pre : B → List Byte) (bloom : B → F) (sent : List B) : Prop :=
  ∀ b ∈ sent, ∀ b' ∈ sent, pre b = pre b' → bloom b = bloom b'

/-! ## Bluetooth 2 -/

namespace EbNRadioBT2
open BT2

variable {P : Type} [FloatOps P] {ec : Ec} (sha256 : List Byte → Digest)

structure Sent (P : Type) (ec : Ec) where
  rand : Nat → Nat
  radio : EbNRadioBT2 P ec

namespace Sent

variable (b : Sent P ec)

def advertNum : Nat := b.radio.advertNum
def pre : List Byte := (b.radio.prefixOf b.advertNum b.radio.dhExchange.getPublicX).toBytes
def bloom : BloomFilter P := advertBloom sha256 b.rand b.radio b.advertNum
def advert : BitMap := generateAdvert sha256 b.rand b.radio b.advertNum

end Sent

/-- The advert that `changeAdvert` sends. -/
def sentAt (rand : Nat → Nat) (r : EbNRadioBT2 P ec) : List (Sent P ec) :=
  if r.advertNum ≥ ADV_N then [] else [⟨rand, r⟩]

/-- The actions that change the advert. Whatever else happens changes the part that all radios share. -/
inductive Action (P : Type) (ec : Ec) where
  | start (rand : Nat → Nat) (random : Nat → Byte)
  | discover (rand : Nat → Nat)
  | changeEpoch (rand : Nat → Nat) (next : DeviceID → Byte) (key : ec.Key) (random : Nat → Byte)
  | other (base : EbNRadio P (EbNDeviceBT2 P))

namespace Action

def apply (r : EbNRadioBT2 P ec) : Action P ec → EbNRadioBT2 P ec
  | start rand random => initializeRadio sha256 rand random r
  | discover rand => EbNRadioBT2.discover sha256 rand r
  | changeEpoch rand next key random => EbNRadioBT2.changeEpoch sha256 rand next r key random
  | other base => { r with toEbNRadio := base }

def sent (r : EbNRadioBT2 P ec) : Action P ec → List (Sent P ec)
  | start rand random =>
      EbNRadioBT2.sentAt rand { r with publicAddress := Address.generateWithPartial r.addressPartial 0x20 random }
  | discover rand => EbNRadioBT2.sentAt rand { r with toEbNRadio := r.forget }
  | changeEpoch rand _ key random =>
      let r := { r with advertNum := 0, dhExchange := ECDH.generateSecret key }
      EbNRadioBT2.sentAt rand
        { r with publicAddress := Address.shiftWithPartial r.publicAddress r.addressPartial 0x20 random }
  | other _ => []

def newKey? : Action P ec → Option ec.Key
  | changeEpoch _ _ key _ => some key
  | _ => none

end Action

/-- The adverts of a run. -/
def sentIn : EbNRadioBT2 P ec → List (Action P ec) → List (Sent P ec)
  | _, [] => []
  | r, action :: actions => action.sent r ++ sentIn (action.apply sha256 r) actions

end EbNRadioBT2

/-! ## Bluetooth 4 -/

namespace EbNRadioBT4
open Sddr.Erasure BT4

variable {P : Type} [FloatOps P] {ec : Ec} (sha256 : List Byte → Digest) (g : Galois)

structure Sent (P : Type) (ec : Ec) where
  rand : Nat → Nat
  radio : EbNRadioBT4 P ec

namespace Sent

variable (b : Sent P ec)

def advertNum : Nat := b.radio.advertNum
def bloomNum : Nat := b.advertNum / BF_B
def pre : List Byte := (b.radio.prefixOf b.bloomNum b.radio.dhExchange.getPublicX).toBytes
def bloom : SegmentedBloomFilter P := (updateBloom sha256 b.rand b.radio b.advertNum).advertBloom
def advert : BitMap := (generateAdvert sha256 b.rand b.radio b.advertNum).1

end Sent

/-- The adverts that `changeAdvert` sends. -/
def sentAt (rand scanRand : Nat → Nat) (r : EbNRadioBT4 P ec) : List (Sent P ec) :=
  if r.advertNum ≥ ADV_N then [] else [⟨rand, r⟩, ⟨scanRand, setAdvertData sha256 rand r⟩]

inductive Action (P : Type) (ec : Ec) where
  | start (rand scanRand : Nat → Nat) (random : Nat → Byte)
  | discover (rand scanRand : Nat → Nat)
  | changeEpoch (key : ec.Key) (randomAddress : Address)
  | other (base : EbNRadio P (EbNDeviceBT4 P ec))

namespace Action

def apply (r : EbNRadioBT4 P ec) : Action P ec → EbNRadioBT4 P ec
  | start rand scanRand random => initializeRadio sha256 rand scanRand random r
  | discover rand scanRand => EbNRadioBT4.discover sha256 rand scanRand r
  | changeEpoch key randomAddress => EbNRadioBT4.changeEpoch g r key randomAddress
  | other base => { r with toEbNRadio := base }

def sent (r : EbNRadioBT4 P ec) : Action P ec → List (Sent P ec)
  | start rand scanRand random =>
      EbNRadioBT4.sentAt sha256 rand scanRand
        { r with randomAddress := Address.generateWithPartial r.addressPartial 0x20 random }
  | discover rand scanRand => EbNRadioBT4.sentAt sha256 rand scanRand { r with toEbNRadio := r.forget }
  | changeEpoch _ _ => []
  | other _ => []

def newKey? : Action P ec → Option ec.Key
  | changeEpoch key _ => some key
  | _ => none

end Action

def sentIn : EbNRadioBT4 P ec → List (Action P ec) → List (Sent P ec)
  | _, [] => []
  | r, action :: actions => action.sent sha256 r ++ sentIn (action.apply sha256 g r) actions

/-- The filter was filled under the prefix of its number and the key that was current then. -/
def Sent.Fresh (b : Sent P ec) : Prop :=
  ∃ (rand : Nat → Nat) (base : EbNRadio P (EbNDeviceBT4 P ec)),
    let empty := segmentedBloom P ec b.bloomNum false
    b.bloom sha256 = { empty with toBloomFilter := fillBloomFilter sha256 rand base empty.toBloomFilter b.pre true }

/-! ### Handshakes -/

/-- An active handshake that is generated: the values of `rand()`, the radio and the exchange. -/
structure Handshake (P : Type) (ec : Ec) where
  rand : Nat → Nat
  radio : EbNRadioBT4 P ec
  dhExchange : ECDH ec

namespace Handshake

variable (h : Handshake P ec)

def pre : List Byte := h.dhExchange.getPublic.take h.dhExchange.getPublicSize
def bloom : BloomFilter P := activeBloom sha256 h.rand h.radio h.dhExchange
def message : List Byte := generateActiveHandshake sha256 h.rand h.radio h.dhExchange

/-- The first octet of the public key. -/
def lead : Nat := (h.dhExchange.getPublic 0).toNat

end Handshake

/-- A filter that is sent. -/
inductive Filter (P : Type) (ec : Ec) where
  | advert (b : Sent P ec)
  | handshake (h : Handshake P ec)

def Filter.pre : Filter P ec → List Byte
  | advert b => b.pre
  | handshake h => h.pre

/-- The filter of a handshake and another filter that is sent have different prefixes, unless they are handshakes with
the same filter. -/
def Filter.Apart : Filter P ec → Filter P ec → Prop
  | advert _, advert _ => True
  | handshake h, handshake h' => h.bloom sha256 ≠ h'.bloom sha256 → h.pre ≠ h'.pre
  | f, f' => f.pre ≠ f'.pre

/-- The filter of a handshake has a prefix of its own. -/
def OwnPrefix (sent : List (Filter P ec)) : Prop := ∀ f ∈ sent, ∀ f' ∈ sent, f.Apart sha256 f'

/-- A radio with its listener thread: the exchange it copied for the connection it accepted. -/
structure Talker (P : Type) (ec : Ec) where
  radio : EbNRadioBT4 P ec
  dhExchangeCopy : Option (ECDH ec)

/-- An action, the two steps of an incoming connection, or an outgoing one. -/
inductive TalkerEvent (P : Type) (ec : Ec) where
  | action (action : Action P ec)
  | accept
  | answer (rand : Nat → Nat)
  | connect (rand : Nat → Nat)

namespace TalkerEvent

def apply (s : Talker P ec) : TalkerEvent P ec → Talker P ec
  | action a => { s with radio := a.apply sha256 g s.radio }
  | accept => { s with dhExchangeCopy := some s.radio.dhExchange }
  | answer _ => { s with dhExchangeCopy := none }
  | connect _ => s

def filters (s : Talker P ec) : TalkerEvent P ec → List (Filter P ec)
  | action a => (a.sent sha256 s.radio).map .advert
  | accept => []
  | answer rand => s.dhExchangeCopy.toList.map fun dhExchange => .handshake ⟨rand, s.radio, dhExchange⟩
  | connect rand => [.handshake ⟨rand, s.radio, s.radio.dhExchange⟩]

end TalkerEvent

/-- The filters of a run. -/
def filtersIn : Talker P ec → List (TalkerEvent P ec) → List (Filter P ec)
  | _, [] => []
  | s, event :: events => event.filters sha256 s ++ filtersIn (event.apply sha256 g s) events

end EbNRadioBT4

end Sddr.Radio

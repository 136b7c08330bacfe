import Sddr.Codec.Bloom

/-!
# Link values, shared secrets and events

`LinkValue.h`, `EbNEvents.h` and the text form of `Address.cpp`. Two `SharedArray`s are equal when their sizes and
elements are, so a link value is the list of its bytes.
-/

namespace Sddr.Device
open Sddr.Lib Sddr.Codec

abbrev LinkValue := List Byte

/-- `uint64_t` milliseconds. Differences wrap around. -/
abbrev Time := BitVec 64

def Time.addMS (t : Time) (ms : Nat) : Time := t + BitVec.ofNat 64 ms

/-- `int32_t`. Ids are handed out from 0 on, so they stay below `2 ^ 31` while fewer devices than that exist. -/
abbrev DeviceID := Nat

/-! ## SharedSecret -/

/-- `SharedSecret::ConfirmScheme`. -/
inductive SecretConfirm where
  | none
  | passive
  | active
  deriving DecidableEq, Repr

structure SharedSecret (P : Type) where
  value : LinkValue
  pFalse : P
  confirmed : Bool
  confirmedBy : SecretConfirm

namespace SharedSecret

variable {P : Type} [FloatOps P]

/-- `SharedSecret(bool confirmed)`. -/
def ofConfirmed (confirmed : Bool) : SharedSecret P :=
  ⟨[], if confirmed then FloatOps.zero else FloatOps.one, confirmed, .none⟩

/-- `SharedSecret(ConfirmScheme confirmedBy)`. -/
def ofScheme (confirmedBy : SecretConfirm) : SharedSecret P := ⟨[], FloatOps.zero, true, confirmedBy⟩

def confirm (s : SharedSecret P) (confirmedBy : SecretConfirm) : SharedSecret P :=
  { s with confirmed := true, confirmedBy := confirmedBy }

end SharedSecret

/-! ## Address -/

abbrev Address := List Byte

namespace Address

def getPartialValue (a : Address) (mask : Byte) : Byte := a.getD 0 0 &&& mask

/-- `getPartialValue(0x20) >> 5`, the bit of an address that carries the Y coordinate of the public key. -/
def yCoord (a : Address) : Bool := a.getPartialValue 0x20 >>> 5 != 0

def computeChecksum (part : List Byte) : Byte :=
  ((part.dropLast.foldl (fun (checksum b : Byte) => checksum + ((b >>> 4) + (b &&& 0x0F))) 0) + (part.getLastD 0 >>> 4)) &&& 0x0F

/-- The bits of `mask` are taken from `value`, and the low half of the last byte is the checksum. -/
def withPartial (value mask : Byte) : List Byte → List Byte
  | [] => []
  | b :: rest =>
      let part := ((b &&& ~~~mask) ||| (value &&& mask)) :: rest
      part.dropLast ++ [(part.getLastD 0 &&& 0xF0) ||| computeChecksum part]

/-- `generateWithPartial(6, value, mask)`, with the bytes that `rand()` yields. -/
def generateWithPartial (value mask : Byte) (rand : Nat → Byte) : Address :=
  withPartial value mask [rand 0, rand 1, rand 2] ++ withPartial 0 0 [rand 3, rand 4, rand 5]

/-- `shiftWithPartial`, with the bytes that the last round of its loop draws. -/
def shiftWithPartial (a : Address) (value mask : Byte) (rand : Nat → Byte) : Address :=
  withPartial value mask ((List.range (a.length / 2)).map rand) ++ a.take (a.length / 2)

/-- The second half of this address is the first half of the other. -/
def isShift (a other : Address) : Bool :=
  (List.range (a.length / 2)).all fun i => a.getD (i + a.length / 2) 0 == other.getD i 0

def verifyChecksum (a : Address) : Bool :=
  (a.getD (a.length / 2 - 1) 0 &&& 0x0F) == computeChecksum (a.take (a.length / 2))
    && (a.getD (a.length - 1) 0 &&& 0x0F) == computeChecksum (a.drop (a.length / 2))

def hexDigit (n : Nat) : Char := "0123456789ABCDEF".toList.getD n '0'

def toString (a : Address) : String :=
  String.intercalate ":" (a.map fun (b : Byte) => String.ofList [hexDigit (b >>> 4).toNat, hexDigit (b &&& 0x0F).toNat])

end Address

/-! ## Events -/

structure RSSIEvent where
  time : Time
  rssi : BitVec 8
  deriving DecidableEq, Repr

inductive EventType where
  | Started
  | Updated
  | Ended
  | UnconfirmedStarted
  deriving DecidableEq, Repr

structure EncounterEvent (P : Type) where
  type : EventType
  time : Time
  id : DeviceID
  address : String
  rssiEvents : List RSSIEvent
  matching : List LinkValue
  sharedSecrets : List (SharedSecret P)
  matchingSetUpdated : Bool
  sharedSecretsUpdated : Bool

namespace EncounterEvent

variable {P : Type}

/-- `EncounterEvent(type, time, id)`. -/
def new (type : EventType) (time : Time) (id : DeviceID) : EncounterEvent P :=
  ⟨type, time, id, "", [], [], [], false, false⟩

/-- `EncounterEvent(time)`. The constructor sets neither type nor id; they are written before an event leaves
`getEncounterInfo`, and the values here stand for whatever the memory holds until then. -/
def ofTime (time : Time) : EncounterEvent P := new .Started time 0

end EncounterEvent

structure DiscoverEvent where
  time : Time
  id : DeviceID
  rssi : BitVec 8
  deriving DecidableEq, Repr

end Sddr.Device

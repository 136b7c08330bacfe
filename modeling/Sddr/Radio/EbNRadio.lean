import Sddr.Radio.EbNDeviceMap

/-!
# EbNRadio

`EbNRadio.h` and `EbNRadio.cpp`: the state all radios share. Devices live on a heap; a pointer to a device is the id
the device was created with. The members of `std::list` are nodes with a handle that stands for
their iterator.
-/

namespace Sddr.Radio
open Sddr.Lib Sddr.Codec Sddr.Device

def BF_N : Nat := 256
def BF_N_PASSIVE : Nat := 128
def EPOCH_INTERVAL : Nat := 15 * 60 * 1000

/-! ## Schemes -/

/-- `EbNRadio::ConfirmScheme::Type`. -/
inductive ConfirmType where
  | None
  | Passive
  | Active
  | Hybrid
  deriving DecidableEq, Repr

namespace ConfirmType

def toNat : ConfirmType → Nat
  | None => 0
  | Passive => 1
  | Active => 2
  | Hybrid => 3

/-- `(type & ConfirmScheme::Passive) != 0`. -/
def hasPassive (type : ConfirmType) : Bool := (type.toNat &&& Passive.toNat) != 0

/-- `(type & ConfirmScheme::Active) != 0`. -/
def hasActive (type : ConfirmType) : Bool := (type.toNat &&& Active.toNat) != 0

end ConfirmType

structure ConfirmScheme (P : Type) where
  type : ConfirmType
  threshold : P

inductive MemoryScheme where
  | Standard
  | NoMemory
  deriving DecidableEq, Repr

/-! ## Devices -/

/-- `recentDevices_`, as nodes with their handles, and `idToRecentDevices_`. -/
structure RecentDevices where
  nodes : List (Nat × DeviceID)
  index : UMap DeviceID Nat
  nextNode : Nat

/-- A subclass of `EbNDevice`. -/
class IsDevice (D : Type) (P : outParam Type) where
  base : D → EbNDevice P
  update : (EbNDevice P → EbNDevice P) → D → D

instance (P : Type) : IsDevice (EbNDevice P) P := ⟨id, id⟩

structure EbNRadio (P D : Type) where
  heap : DeviceID → Option D
  deviceMap : EbNDeviceMap
  recent : RecentDevices
  nextDeviceID : DeviceID
  confirmScheme : ConfirmScheme P
  memoryScheme : MemoryScheme
  advertisedSet : List LinkValue
  listenSet : List LinkValue
  nextDiscover : Time
  nextChangeEpoch : Time

namespace EbNRadio

variable {P D : Type}

def new (confirmScheme : ConfirmScheme P) (memoryScheme : MemoryScheme) (now : Time) : EbNRadio P D :=
  { nextDeviceID := 0, confirmScheme, memoryScheme, advertisedSet := [], listenSet := [], recent := ⟨[], ∅, 0⟩
    nextDiscover := Time.addMS now 10000, nextChangeEpoch := Time.addMS now EPOCH_INTERVAL, deviceMap := ⟨∅, ∅⟩
    heap := fun _ => none }

def setAdvertisedSet (r : EbNRadio P D) (advertisedSet : List LinkValue) : EbNRadio P D :=
  { r with advertisedSet := advertisedSet }

def setListenSet (r : EbNRadio P D) (listenSet : List LinkValue) : EbNRadio P D := { r with listenSet := listenSet }

/-- The start of `discover()`. -/
def forget (r : EbNRadio P D) : EbNRadio P D :=
  if r.memoryScheme = .NoMemory then { r with deviceMap := ⟨∅, ∅⟩ } else r

end EbNRadio

/-! ## Filling a Bloom filter -/

section
variable {P D : Type} [FloatOps P] [IsDevice D P]

/-- `maxAdvert` of `fillBloomFilter`. -/
def maxAdvert (type : ConfirmType) : Nat := if type.hasPassive then BF_N - BF_N_PASSIVE else BF_N

/-- The secrets in the order `secrets.top()` and `secrets.pop()` yield them. `Compare` is `<` on `pFalse`, so the
largest comes first. -/
def popOrder (secrets : List (SharedSecret P)) : List (SharedSecret P) :=
  secrets.mergeSort fun a b => !FloatOps.lt a.pFalse b.pFalse

/-- The secrets of recently discovered devices which were not actively confirmed. -/
def recentSecrets (r : EbNRadio P D) : List (SharedSecret P) :=
  (r.recent.nodes.filterMap fun node => r.heap node.2).flatMap fun device =>
    (IsDevice.base device).sharedSecrets.filter fun secret => secret.confirmedBy ≠ .active

/-- The link values `fillBloomFilter` inserts for passive confirmation. -/
def passiveValues (type : ConfirmType) (secrets : List (SharedSecret P)) (includePassive : Bool) : List LinkValue :=
  if includePassive && type.hasPassive then ((popOrder secrets).take BF_N_PASSIVE).map SharedSecret.value else []

def fillBloomFilter (sha256 : List Byte → Digest) (rand : Nat → Nat) (r : EbNRadio P D) (bloom : BloomFilter P)
    (pre : List Byte) (includePassive : Bool) : BloomFilter P :=
  let type := r.confirmScheme.type
  let advertised := r.advertisedSet.take (maxAdvert type)
  let passive := passiveValues type (recentSecrets r) includePassive
  let numRandom := (maxAdvert type - advertised.length)
    + if includePassive && type.hasPassive then BF_N_PASSIVE - passive.length else 0
  let bloom := advertised.foldl (fun acc v => acc.add sha256 pre v) bloom
  let bloom := passive.foldl (fun acc v => acc.add sha256 pre v) bloom
  bloom.addRandom rand numRandom

end

/-- Where `processAdvert` puts an advert: `isDuplicate`, or else `isNew`, or else the current epoch. -/
inductive AdvertClass (E : Type) where
  | isDuplicate
  | current (curEpoch : E)
  | isNew

/-- The hash prefix of a Bloom filter: a number of `numBits` bits followed by `keySize` bits of a public key. -/
def hashPrefix (numBits num : Nat) (publicX : Mem) (keySize : Nat) : BitMap :=
  ((BitMap.new (numBits + keySize)).writeNumber 0 num numBits).copyFrom publicX 0 numBits keySize

end Sddr.Radio

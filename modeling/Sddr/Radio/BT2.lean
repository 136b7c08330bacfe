import Sddr.Radio.ECDH
import Sddr.Radio.Insertions

/-!
# EbNRadioBT2

`EbNDeviceBT2` and the advertisements of `EbNRadioBT2.cpp`. The inquiries and the listening thread, which drive the
Bluetooth hardware, are left out.
-/

namespace Sddr.Radio
open Sddr.Lib Sddr.Codec Sddr.Device

namespace BT2

def DISC_INTERVAL : Nat := 60 * 1000
def ADV_N : Nat := (EPOCH_INTERVAL + (DISC_INTERVAL - 1)) / DISC_INTERVAL
def ADV_N_LOG2 : Nat := 4

structure Epoch where
  lastAdvertNum : Nat
  lastAdvertTime : Time
  dhRemotePublic : List Byte

def Epoch.new (advertNum : Nat) (advertTime : Time) (keySize : Nat) : Epoch :=
  ⟨advertNum, advertTime, List.replicate (keySize / 8) 0⟩

def classify (epochs : List Epoch) (advertNum : Nat) (time : Time) : AdvertClass Epoch :=
  match epochs.getLast? with
  | none => .isNew
  | some curEpoch =>
      let diffAdvertTime := (time - curEpoch.lastAdvertTime).toNat
      if curEpoch.lastAdvertNum = advertNum then
        if diffAdvertTime < (ADV_N - 3) * DISC_INTERVAL then .isDuplicate else .isNew
      else if curEpoch.lastAdvertNum < advertNum
          ∧ diffAdvertTime < ((advertNum - curEpoch.lastAdvertNum) + 3) * DISC_INTERVAL then .current curEpoch
      else .isNew

end BT2

structure EbNDeviceBT2 (P : Type) extends EbNDevice P where
  epochs : List BT2.Epoch

def EbNDeviceBT2.new {P : Type} [FloatOps P] (id : DeviceID) (address : Address) (listenSet : List LinkValue) :
    EbNDeviceBT2 P :=
  { EbNDevice.new id address listenSet with epochs := [] }

instance (P : Type) : IsDevice (EbNDeviceBT2 P) P :=
  ⟨EbNDeviceBT2.toEbNDevice, fun f d => { d with toEbNDevice := f d.toEbNDevice }⟩

/-- `publicAddress` and `extInquiryResponse` are what `hci_` was last given. -/
structure EbNRadioBT2 (P : Type) (ec : Ec) extends EbNRadio P (EbNDeviceBT2 P) where
  dhExchange : ECDH ec
  advertNum : Nat
  publicAddress : Address
  extInquiryResponse : BitMap

namespace EbNRadioBT2

variable {P : Type} [FloatOps P] {ec : Ec} (sha256 : List Byte → Digest)

open BT2

/-- The constructor, with the generated key and the address the adapter has. -/
def new (confirmScheme : ConfirmScheme P) (memoryScheme : MemoryScheme) (now : Time) (key : ec.Key)
    (publicAddress : Address) : EbNRadioBT2 P ec :=
  { EbNRadio.new confirmScheme memoryScheme now with
    dhExchange := ECDH.generateSecret key, advertNum := 0, publicAddress, extInquiryResponse := BitMap.new 0 }

def keySize (_ : EbNRadioBT2 P ec) : Nat := ec.keySize
def BF_M (r : EbNRadioBT2 P ec) : Nat := 238 * 8 - 1 - ADV_N_LOG2 - r.keySize
def BF_K (_ : EbNRadioBT2 P ec) : Nat := 4

def prefixOf (r : EbNRadioBT2 P ec) (advertNum : Nat) (publicX : Mem) : BitMap :=
  hashPrefix ADV_N_LOG2 advertNum publicX r.keySize

/-- The flags, version bit, number and public key of `generateAdvert`. -/
def advertHeader (r : EbNRadioBT2 P ec) (advertNum : Nat) : BitMap :=
  let advert := (BitMap.new (240 * 8)).setAll false
  let advert := (advert.setByte 0 239).setByte 1 0xFF
  let advert := advert.writeNumber 17 advertNum ADV_N_LOG2
  advert.copyFrom r.dhExchange.getPublicX 0 (17 + ADV_N_LOG2) r.keySize

def advertBloom (rand : Nat → Nat) (r : EbNRadioBT2 P ec) (advertNum : Nat) : BloomFilter P :=
  fillBloomFilter sha256 rand r.toEbNRadio (BloomFilter.new BF_N r.BF_M r.BF_K)
    (r.prefixOf advertNum r.dhExchange.getPublicX).toBytes true

def generateAdvert (rand : Nat → Nat) (r : EbNRadioBT2 P ec) (advertNum : Nat) : BitMap :=
  let bloom := advertBloom sha256 rand r advertNum
  (r.advertHeader advertNum).copyFrom bloom.bits.bits 0 (17 + ADV_N_LOG2 + r.keySize) (bloom.M - 16)

def changeAdvert (rand : Nat → Nat) (r : EbNRadioBT2 P ec) : EbNRadioBT2 P ec :=
  if r.advertNum ≥ ADV_N then r
  else { r with extInquiryResponse := generateAdvert sha256 rand r r.advertNum, advertNum := r.advertNum + 1 }

/-- `partial` of `initialize()` and `changeEpoch`. -/
def addressPartial (r : EbNRadioBT2 P ec) : Byte := BitVec.ofNat 8 r.dhExchange.getPublicY.toNat <<< 5

def initializeRadio (rand : Nat → Nat) (random : Nat → Byte) (r : EbNRadioBT2 P ec) : EbNRadioBT2 P ec :=
  changeAdvert sha256 rand { r with publicAddress := Address.generateWithPartial r.addressPartial 0x20 random }

/-- What `discover()` does before the inquiry. -/
def discover (rand : Nat → Nat) (r : EbNRadioBT2 P ec) : EbNRadioBT2 P ec :=
  changeAdvert sha256 rand { r with toEbNRadio := r.forget }

/-! ## Receiving -/

/-- `advert.copyTo(curEpoch->dhRemotePublic.data(), 0, advertOffset, keySize_)`. -/
def readPublicX (r : EbNRadioBT2 P ec) (advert : BitMap) (dhRemotePublic : List Byte) : List Byte :=
  (advert.copyTo (Mem.ofList dhRemotePublic) 0 (17 + ADV_N_LOG2) r.keySize).take (r.keySize / 8)

/-- A new epoch and, if asked for, its shared secret. -/
def openEpoch (r : EbNRadioBT2 P ec) (device : EbNDeviceBT2 P) (time : Time) (advert : BitMap) (advertNum : Nat)
    (computeSecret : Bool) : Epoch × EbNDeviceBT2 P :=
  let curEpoch := Epoch.new advertNum time r.keySize
  let curEpoch := { curEpoch with dhRemotePublic := r.readPublicX advert curEpoch.dhRemotePublic }
  let device := { device with epochs := device.epochs ++ [curEpoch] }
  if computeSecret then
    match r.dhExchange.computeSharedSecretXY (SharedSecret.ofConfirmed (r.confirmScheme.type = .None))
        (Mem.ofList curEpoch.dhRemotePublic) (device.address.yCoord) with
    | some sharedSecret => (curEpoch, { device with toEbNDevice := device.addSharedSecret sharedSecret })
    | none => (curEpoch, device)
  else (curEpoch, device)

/-- The Bloom filter of an advert: matching set, and confidence in the shared secrets. `advertOffset` is still that of the
public key, which is not added to it when the key is read. -/
def applyBloom (r : EbNRadioBT2 P ec) (device : EbNDeviceBT2 P) (advert : BitMap) (advertNum : Nat)
    (curEpoch : Epoch) (isNew : Bool) : EbNDeviceBT2 P :=
  let advertOffset := 17 + ADV_N_LOG2
  let bloom : BloomFilter P := BloomFilter.ofBitMap BF_N r.BF_K advert advertOffset (advert.size - advertOffset)
  let pre := (r.prefixOf advertNum (Mem.ofList curEpoch.dhRemotePublic)).toBytes
  let base := device.updateMatching sha256 bloom pre
  let base :=
    if r.confirmScheme.type.hasPassive && !isNew then
      base.confirmPassive sha256 bloom pre r.confirmScheme.threshold
    else base
  { device with toEbNDevice := base }

def processAdvert (r : EbNRadioBT2 P ec) (device : EbNDeviceBT2 P) (time : Time) (data : Mem)
    (computeSecret : Bool) : Bool × EbNDeviceBT2 P :=
  let advert := BitMap.ofMem (240 * 8) data
  let advertNum := advert.readNumber 17 ADV_N_LOG2
  if advertNum < ADV_N then
    match classify device.epochs advertNum time with
    | .isDuplicate => (false, device)
    | .current curEpoch => (true, applyBloom sha256 r device advert advertNum curEpoch false)
    | .isNew =>
        let opened := r.openEpoch device time advert advertNum computeSecret
        (true, applyBloom sha256 r opened.2 advert advertNum opened.1 true)
  else (false, device)

/-- The loop of `processEpochs`: the first epoch is erased while there is more than one. -/
def pastErased : List Epoch → List Epoch
  | _ :: epoch :: epochs => pastErased (epoch :: epochs)
  | epochs => epochs

def processEpochs (device : EbNDeviceBT2 P) : EbNDeviceBT2 P :=
  { device with epochs := pastErased device.epochs }

/-! ## Epoch changes -/

/-- The shared secret with the new key. `computeSharedSecret` reads one byte more than `dhRemotePublic` has, and
`next` is the byte that the heap holds there. -/
def changeEpochDevice (r : EbNRadioBT2 P ec) (next : Byte) (device : EbNDeviceBT2 P) : EbNDeviceBT2 P :=
  match device.epochs.getLast? with
  | none => device
  | some curEpoch =>
      match r.dhExchange.computeSharedSecret (SharedSecret.ofConfirmed (r.confirmScheme.type = .None))
          (Mem.ofList (curEpoch.dhRemotePublic ++ [next])) with
      | some sharedSecret => { device with toEbNDevice := device.addSharedSecret sharedSecret }
      | none => device

/-- The new key, its address and the first advert. -/
def shiftEpoch (rand : Nat → Nat) (r : EbNRadioBT2 P ec) (key : ec.Key) (random : Nat → Byte) : EbNRadioBT2 P ec :=
  let r := { r with advertNum := 0, dhExchange := ECDH.generateSecret key }
  changeAdvert sha256 rand
    { r with publicAddress := Address.shiftWithPartial r.publicAddress r.addressPartial 0x20 random }

def changeEpoch (rand : Nat → Nat) (next : DeviceID → Byte) (r : EbNRadioBT2 P ec) (key : ec.Key)
    (random : Nat → Byte) : EbNRadioBT2 P ec :=
  let r := shiftEpoch sha256 rand r key random
  { r with
    heap := if r.confirmScheme.type.hasPassive then
        fun id => if id ∈ r.deviceMap.idToDevice then (r.heap id).map (r.changeEpochDevice (next id)) else r.heap id
      else r.heap
    nextChangeEpoch := Time.addMS r.nextChangeEpoch EPOCH_INTERVAL }

/-! ## What a receiver finds -/

/-- The indices that `generateAdvert` sets in its filter, for the link values and at random. -/
def advertIndices (rand : Nat → Nat) (r : EbNRadioBT2 P ec) (advertNum : Nat) : List Nat :=
  (r.toEbNRadio.insertions true).indices sha256 rand (BloomFilter.new BF_N r.BF_M r.BF_K : BloomFilter P)
    (r.prefixOf advertNum r.dhExchange.getPublicX).toBytes

/-- Of the places where a receiver looks, the first have the public key and the next the sender's filter without its last
16 bits. -/
def FoundAt (rand : Nat → Nat) (r : EbNRadioBT2 P ec) (advertNum index : Nat) : Prop :=
  if index < r.keySize then r.dhExchange.getPublicX.bit index = true
  else index - r.keySize < r.BF_M - 16 ∧ index - r.keySize ∈ advertIndices sha256 rand r advertNum

instance (rand : Nat → Nat) (r : EbNRadioBT2 P ec) (advertNum index : Nat) :
    Decidable (FoundAt sha256 rand r advertNum index) :=
  inferInstanceAs (Decidable (ite _ _ _))

end EbNRadioBT2

end Sddr.Radio

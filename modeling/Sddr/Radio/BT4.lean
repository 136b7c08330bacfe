import Sddr.Erasure.RSErasure
import Sddr.Radio.ECDH
import Sddr.Radio.EbNRadio

/-!
# EbNRadioBT4

`EbNDeviceBT4` and the advertisements of `EbNRadioBT4.cpp`. The scans, which drive the Bluetooth hardware, are left
out.
-/

namespace Sddr.Radio
open Sddr.Lib Sddr.Codec Sddr.Device Sddr.Erasure

namespace BT4

def SCAN_INTERVAL : Nat := 13500
def ADV_N : Nat := 2 * ((EPOCH_INTERVAL + (SCAN_INTERVAL - 1)) / SCAN_INTERVAL)
def ADV_N_LOG2 : Nat := 8
def BF_K : Nat := 1
def BF_B : Nat := 2
def ACTIVE_BF_M : Nat := 1108
def ACTIVE_BF_K : Nat := 3

/-! ## Parameters -/

section
variable (P : Type) [FloatOps P]

/-- The body of the loop of `computeRSSymbolSize`, on `bestW` and `bestNumAdverts`. -/
def betterSymbolSize (keySize advertBits : Nat) (best : Nat × Nat) (w : Nat) : Nat × Nat :=
  if keySize / 8 % w ≠ 0 then best
  else
    let bloomBits := 2 * (advertBits - 8 * w)
    let advertsDecode := keySize / 8 / w
    let advertsConfirm := FloatOps.advertsConfirm P bloomBits
    let advertsTotal := advertsDecode + advertsConfirm
    if advertsTotal < best.2 ∨ (advertsTotal = best.2 ∧ w < best.1) then (w, advertsTotal) else best

def computeRSSymbolSize (keySize advertBits : Nat) : Nat :=
  ((List.range' 1 (keySize / 8 - 1)).foldl (betterSymbolSize P keySize advertBits) (0, 100000)).1

variable (ec : Ec)

def RS_W : Nat := computeRSSymbolSize P ec.keySize (31 * 8 - 1 - ADV_N_LOG2)
def RS_K : Nat := ec.keySize / 8 / RS_W P ec
def RS_M : Nat := ADV_N - RS_K P ec
def BF_SM : Nat := 31 * 8 - 1 - ADV_N_LOG2 - RS_W P ec * 8

/-- The sizes of the segments of filter `bloomNum`. The adverts of an epoch that carry a symbol of the epoch before
have shorter ones. -/
def segmentSizes (bloomNum : Nat) : List Nat :=
  (List.range' (bloomNum * BF_B) BF_B).map fun s =>
    if s < RS_K P ec - 1 then BF_SM P ec - 8 * RS_W P ec else BF_SM P ec

/-- An empty filter, or one with all bits set, for the adverts of `bloomNum`. -/
def segmentedBloom (bloomNum : Nat) (allOnes : Bool) : SegmentedBloomFilter P :=
  SegmentedBloomFilter.new BF_N (segmentSizes P ec bloomNum).sum BF_K BF_B (segmentSizes P ec bloomNum) allOnes

end

/-! ## Epochs -/

structure Epoch (P : Type) (ec : Ec) where
  lastAdvertNum : Nat
  lastAdvertTime : Time
  dhDecoder : RSErasureDecoder
  dhExchanges : List (ECDH ec)
  dhExchangeYCoord : Bool
  blooms : List (Nat × SegmentedBloomFilter P)
  decodeBloomNum : Nat

variable {P : Type} {ec : Ec}

def Epoch.new (advertNum : Nat) (advertTime : Time) (dhCodeMatrix : RSMatrix) (dhExchange : ECDH ec)
    (dhExchangeYCoord : Bool) : Epoch P ec :=
  ⟨advertNum, advertTime, RSErasureDecoder.new dhCodeMatrix, [dhExchange], dhExchangeYCoord, [], 0⟩

def classify (epochs : List (Epoch P ec)) (advertNum : Nat) (time : Time) : AdvertClass (Epoch P ec) :=
  match epochs.getLast? with
  | none => .isNew
  | some curEpoch =>
      let diffAdvertTime := (time - curEpoch.lastAdvertTime).toNat
      if curEpoch.lastAdvertNum = advertNum ∨ curEpoch.lastAdvertNum = advertNum + 1 then
        if diffAdvertTime < (ADV_N / 2) * SCAN_INTERVAL then .isDuplicate else .isNew
      else if curEpoch.lastAdvertNum < advertNum
          ∧ diffAdvertTime < ((advertNum - curEpoch.lastAdvertNum) + 6) * SCAN_INTERVAL / 2 then .current curEpoch
      else .isNew

end BT4

structure EbNDeviceBT4 (P : Type) (ec : Ec) extends EbNDevice P where
  epochs : List (BT4.Epoch P ec)

def EbNDeviceBT4.new {P : Type} [FloatOps P] {ec : Ec} (id : DeviceID) (address : Address)
    (listenSet : List LinkValue) : EbNDeviceBT4 P ec :=
  { EbNDevice.new id address listenSet with epochs := [] }

instance (P : Type) (ec : Ec) : IsDevice (EbNDeviceBT4 P ec) P :=
  ⟨EbNDeviceBT4.toEbNDevice, fun f d => { d with toEbNDevice := f d.toEbNDevice }⟩

instance (P : Type) (ec : Ec) : Addressed (EbNDeviceBT4 P ec) :=
  ⟨fun d => d.id, fun d => d.address, fun d a => { d with toEbNDevice := d.toEbNDevice.setAddress a }⟩

instance (P : Type) (ec : Ec) : LawfulAddressed (EbNDeviceBT4 P ec) := ⟨fun _ _ => rfl, fun _ _ => rfl⟩

/-- `randomAddress`, `advertData` and `scanResponseData` are what `hci_` was last given. -/
structure EbNRadioBT4 (P : Type) (ec : Ec) extends EbNRadio P (EbNDeviceBT4 P ec) where
  dhCodeMatrix : RSMatrix
  dhEncoder : RSErasureEncoder
  dhPrevSymbols : List Byte
  dhExchange : ECDH ec
  advertNum : Nat
  advertBloom : SegmentedBloomFilter P
  advertBloomNum : Nat
  randomAddress : Address
  advertData : BitMap
  scanResponseData : BitMap
  listenAdverts : List (Address × List Byte)

namespace EbNRadioBT4

open BT4

variable {P : Type} [FloatOps P] {ec : Ec} (sha256 : List Byte → Digest) (g : Galois)

/-- The constructor, with the generated key and the address the adapter has; `none` where `RSMatrix` fails. -/
def new (confirmScheme : ConfirmScheme P) (memoryScheme : MemoryScheme) (now : Time) (key : ec.Key)
    (randomAddress : Address) : Option (EbNRadioBT4 P ec) :=
  (RSMatrix.new g (RS_K P ec) (RS_M P ec + 2 * (RS_K P ec - 1)) (RS_W P ec)).map fun dhCodeMatrix =>
    let dhExchange := ECDH.generateSecret key
    { EbNRadio.new confirmScheme memoryScheme now with
      dhCodeMatrix, dhExchange, randomAddress
      dhEncoder := (RSErasureEncoder.new dhCodeMatrix).encode g dhExchange.getPublicX
      dhPrevSymbols := List.replicate (2 * (RS_K P ec - 1) * RS_W P ec) 0
      advertNum := 0
      advertBloom := SegmentedBloomFilter.empty, advertBloomNum := 2 ^ 64 - 1
      advertData := BitMap.new 0, scanResponseData := BitMap.new 0
      listenAdverts := [] }

def prefixOf (_ : EbNRadioBT4 P ec) (bloomNum : Nat) (publicX : Mem) : BitMap :=
  hashPrefix ADV_N_LOG2 bloomNum publicX ec.keySize

/-! ## Sending -/

/-- Where the segment of advert `advertNum` starts. -/
def segmentStart (P : Type) [FloatOps P] (ec : Ec) (advertNum : Nat) : Nat :=
  1 + ADV_N_LOG2 + 8 * RS_W P ec + if advertNum < RS_K P ec - 1 then 8 * RS_W P ec else 0

/-- Version bit, number and symbols of `generateAdvert`. -/
def advertHeader (r : EbNRadioBT4 P ec) (advertNum : Nat) : BitMap :=
  let advert := ((BitMap.new (31 * 8)).setAll false).writeNumber 1 advertNum ADV_N_LOG2
  let advert := advert.copyFrom (r.dhEncoder.getSymbol advertNum) 0 (1 + ADV_N_LOG2) (8 * RS_W P ec)
  if advertNum < RS_K P ec - 1 then
    advert.copyFrom ((Mem.ofList r.dhPrevSymbols).add (advertNum * RS_W P ec)) 0 (1 + ADV_N_LOG2 + 8 * RS_W P ec)
      (8 * RS_W P ec)
  else advert

/-- A new Bloom filter every `BF_B` adverts. -/
def updateBloom (rand : Nat → Nat) (r : EbNRadioBT4 P ec) (advertNum : Nat) : EbNRadioBT4 P ec :=
  let bloomNum := advertNum / BF_B
  if advertNum % BF_B = 0 ∨ bloomNum ≠ r.advertBloomNum then
    let bloom := segmentedBloom P ec bloomNum false
    let filled := fillBloomFilter sha256 rand r.toEbNRadio bloom.toBloomFilter
      (r.prefixOf bloomNum r.dhExchange.getPublicX).toBytes true
    { r with advertBloom := { bloom with toBloomFilter := filled }, advertBloomNum := bloomNum }
  else r

/-- `generateAdvert` returns the advert and the changed radio. -/
def generateAdvert (rand : Nat → Nat) (r : EbNRadioBT4 P ec) (advertNum : Nat) : BitMap × EbNRadioBT4 P ec :=
  let r := updateBloom sha256 rand r advertNum
  let advert := r.advertHeader advertNum
  ({ advert with bits := r.advertBloom.getSegment (advertNum % BF_B) advert.bits (segmentStart P ec advertNum) }, r)

/-- The first half of `changeAdvert`. -/
def setAdvertData (rand : Nat → Nat) (r : EbNRadioBT4 P ec) : EbNRadioBT4 P ec :=
  let generated := generateAdvert sha256 rand r r.advertNum
  { generated.2 with advertData := generated.1, advertNum := generated.2.advertNum + 1 }

/-- The second half of `changeAdvert`, since `SCAN_ACTIVE` is set. -/
def setScanResponseData (rand : Nat → Nat) (r : EbNRadioBT4 P ec) : EbNRadioBT4 P ec :=
  let generated := generateAdvert sha256 rand r r.advertNum
  { generated.2 with scanResponseData := generated.1, advertNum := generated.2.advertNum + 1 }

def changeAdvert (rand scanRand : Nat → Nat) (r : EbNRadioBT4 P ec) : EbNRadioBT4 P ec :=
  if r.advertNum ≥ ADV_N then r else setScanResponseData sha256 scanRand (setAdvertData sha256 rand r)

/-- `partial` of `initialize()`. -/
def addressPartial (r : EbNRadioBT4 P ec) : Byte := BitVec.ofNat 8 r.dhExchange.getPublicY.toNat <<< 5

def initializeRadio (rand scanRand : Nat → Nat) (random : Nat → Byte) (r : EbNRadioBT4 P ec) : EbNRadioBT4 P ec :=
  changeAdvert sha256 rand scanRand
    { r with randomAddress := Address.generateWithPartial r.addressPartial 0x20 random }

/-- What `discover()` does before the scan. -/
def discover (rand scanRand : Nat → Nat) (r : EbNRadioBT4 P ec) : EbNRadioBT4 P ec :=
  changeAdvert sha256 rand scanRand { r with toEbNRadio := r.forget }

/-! ## Receiving -/

/-- `advert.copyTo(dhSymbol, 0, advertOffset, 8 * RS_W)`. -/
def readSymbol (P : Type) [FloatOps P] (ec : Ec) (advert : BitMap) (advertOffset : Nat) : Mem :=
  advert.copyTo (fun _ => 0) 0 advertOffset (8 * RS_W P ec)

/-- The filter that holds the segments of `bloomNum`: the latest of the epoch, or a new one. -/
def bloomFor (epoch : Epoch P ec) (bloomNum : Nat) : List (Nat × SegmentedBloomFilter P) × SegmentedBloomFilter P :=
  match epoch.blooms.getLast? with
  | some last =>
      if last.1 = bloomNum then (epoch.blooms.dropLast, last.2)
      else (epoch.blooms, segmentedBloom P ec bloomNum true)
  | none => (epoch.blooms, segmentedBloom P ec bloomNum true)

/-- The symbol and the segment of an advert go to the current epoch. -/
def receiveAdvert (advert : BitMap) (advertNum : Nat) (curEpoch : Epoch P ec) : Epoch P ec :=
  let bloomNum := advertNum / BF_B
  let found := bloomFor curEpoch bloomNum
  let bloom := (found.2.setSegment (advertNum % BF_B) advert.bits (segmentStart P ec advertNum)).2
  { curEpoch with
    dhDecoder := (curEpoch.dhDecoder.setSymbol advertNum (readSymbol P ec advert (1 + ADV_N_LOG2))).2
    blooms := found.1 ++ [(bloomNum, bloom)] }

/-- The first adverts of an epoch carry a symbol for the epoch before, if that is not yet decoded. -/
def receivePrevSymbol (advert : BitMap) (advertNum : Nat) (prevEpoch : Epoch P ec) : Epoch P ec :=
  if advertNum < RS_K P ec - 1 ∧ prevEpoch.dhDecoder.isDecoded = false then
    { prevEpoch with
      dhDecoder := (prevEpoch.dhDecoder.setSymbol (advertNum + RS_K P ec + RS_M P ec)
        (readSymbol P ec advert (1 + ADV_N_LOG2 + 8 * RS_W P ec))).2 }
  else prevEpoch

/-- The epochs after an advert that is no duplicate. `prevEpoch` is the epoch before a new one, and otherwise the
first epoch if that is not the current one. -/
def receiveEpochs (r : EbNRadioBT4 P ec) (device : EbNDeviceBT4 P ec) (time : Time) (advert : BitMap)
    (advertNum : Nat) : AdvertClass (Epoch P ec) → List (Epoch P ec)
  | .isDuplicate => device.epochs
  | .current curEpoch =>
      device.epochs.dropLast.modifyHead (receivePrevSymbol advert advertNum) ++ [receiveAdvert advert advertNum curEpoch]
  | .isNew =>
      let curEpoch := Epoch.new advertNum time r.dhCodeMatrix r.dhExchange device.address.yCoord
      device.epochs.dropLast ++ (device.epochs.getLast?.map (receivePrevSymbol advert advertNum)).toList
        ++ [receiveAdvert advert advertNum curEpoch]

def processAdvert (r : EbNRadioBT4 P ec) (device : EbNDeviceBT4 P ec) (time : Time) (data : Mem) :
    Bool × EbNDeviceBT4 P ec :=
  let advert := BitMap.ofMem (31 * 8) data
  let advertNum := advert.readNumber 1 ADV_N_LOG2
  if advertNum < RS_K P ec + RS_M P ec then
    match classify device.epochs advertNum time with
    | .isDuplicate => (false, device)
    | advertClass => (true, { device with epochs := r.receiveEpochs device time advert advertNum advertClass })
  else (false, device)

/-! ## Processing epochs -/

/-- The shared secrets of the exchanges that were current while the epoch was. -/
def addSecrets (r : EbNRadioBT4 P ec) (epoch : Epoch P ec) (dhRemotePublic : List Byte) (device : EbNDevice P) :
    EbNDevice P :=
  epoch.dhExchanges.foldl (fun device dhExchange =>
    match dhExchange.computeSharedSecretXY (SharedSecret.ofConfirmed (r.confirmScheme.type = .None))
        (Mem.ofList dhRemotePublic) epoch.dhExchangeYCoord with
    | some sharedSecret => device.addSharedSecret sharedSecret
    | none => device) device

/-- Decodes the remote public value when possible. The secrets are left out if `type & Active` is `Active`. -/
def decodeEpoch (r : EbNRadioBT4 P ec) (epoch : Epoch P ec) (device : EbNDevice P) : Epoch P ec × EbNDevice P :=
  if !epoch.dhDecoder.isDecoded && epoch.dhDecoder.canDecode then
    match epoch.dhDecoder.decode g with
    | (some dhRemotePublic, dhDecoder) =>
        let epoch := { epoch with dhDecoder, decodeBloomNum := (epoch.blooms.getLast?.map Prod.fst).getD 0 }
        (epoch, if r.confirmScheme.type.hasActive then device else r.addSecrets epoch dhRemotePublic device)
    | (none, dhDecoder) => ({ epoch with dhDecoder }, device)
  else (epoch, device)

/-- A Bloom filter with a new segment updates the matching set and the confidence in the shared secrets. -/
def processBloom (r : EbNRadioBT4 P ec) (dhRemotePublic : List Byte) (decodeBloomNum bloomNum : Nat)
    (bloom : SegmentedBloomFilter P) (device : EbNDevice P) : SegmentedBloomFilter P × EbNDevice P :=
  if !FloatOps.eq bloom.pFalse FloatOps.one then
    let pre := (r.prefixOf bloomNum (Mem.ofList dhRemotePublic)).toBytes
    let (bloomPFalse, bloom) := bloom.resetPFalse
    let device := device.updateMatchingDelta sha256 bloom.toBloomFilter pre bloomPFalse
    (bloom,
      if r.confirmScheme.type.hasPassive && decide (bloomNum > decodeBloomNum) then
        device.confirmPassiveDelta sha256 bloom.toBloomFilter pre r.confirmScheme.threshold bloomPFalse
      else device)
  else (bloom, device)

/-- The loop over the filters of an epoch, which keeps only the latest and only until its last segment is there. -/
def processBlooms (r : EbNRadioBT4 P ec) (dhRemotePublic : List Byte) (decodeBloomNum lastNum : Nat) :
    List (Nat × SegmentedBloomFilter P) → EbNDevice P → List (Nat × SegmentedBloomFilter P) × EbNDevice P
  | [], device => ([], device)
  | (bloomNum, bloom) :: blooms, device =>
      let processed := processBloom sha256 r dhRemotePublic decodeBloomNum bloomNum bloom device
      let rest := processBlooms r dhRemotePublic decodeBloomNum lastNum blooms processed.2
      if bloomNum ≠ lastNum ∨ processed.1.isFilled (BF_B - 1) then rest
      else ((bloomNum, processed.1) :: rest.1, rest.2)

/-- The body of the loop of `processEpochs`, up to the removal of the epoch. -/
def processEpoch (r : EbNRadioBT4 P ec) (epoch : Epoch P ec) (device : EbNDevice P) : Epoch P ec × EbNDevice P :=
  let (epoch, device) := decodeEpoch g r epoch device
  match epoch.dhDecoder.isDecoded, epoch.blooms.getLast? with
  | true, some last =>
      let processed := processBlooms sha256 r epoch.dhDecoder.data epoch.decodeBloomNum last.1 epoch.blooms device
      ({ epoch with blooms := processed.1 }, processed.2)
  | _, _ => (epoch, device)

/-- The loop of `processEpochs`, with the number of epochs kept so far. -/
def processEpochsFrom (r : EbNRadioBT4 P ec) (kept : Nat) :
    List (Epoch P ec) → EbNDevice P → List (Epoch P ec) × EbNDevice P
  | [], device => ([], device)
  | epoch :: epochs, device =>
      let (epoch, device) := processEpoch sha256 g r epoch device
      if epochs ≠ [] ∧ (epoch.dhDecoder.isDecoded = true ∨ kept + epochs.length + 1 > 2) then
        processEpochsFrom r kept epochs device
      else
        let rest := processEpochsFrom r (kept + 1) epochs device
        (epoch :: rest.1, rest.2)

def processEpochs (r : EbNRadioBT4 P ec) (device : EbNDeviceBT4 P ec) : EbNDeviceBT4 P ec :=
  let processed := processEpochsFrom sha256 g r 0 device.epochs device.toEbNDevice
  { device with toEbNDevice := processed.2, epochs := processed.1 }

/-! ## Active handshakes -/

/-- The filter in an active handshake, which `ACTIVE_BF_ENABLED` adds. -/
def activeBloom (rand : Nat → Nat) (r : EbNRadioBT4 P ec) (dhExchange : ECDH ec) : BloomFilter P :=
  fillBloomFilter sha256 rand r.toEbNRadio (BloomFilter.new BF_N ACTIVE_BF_M ACTIVE_BF_K)
    (dhExchange.getPublic.take dhExchange.getPublicSize) false

def generateActiveHandshake (rand : Nat → Nat) (r : EbNRadioBT4 P ec) (dhExchange : ECDH ec) : List Byte :=
  dhExchange.getPublic.take dhExchange.getPublicSize ++ (activeBloom sha256 rand r dhExchange).bits.toBytes

def processActiveHandshake (r : EbNRadioBT4 P ec) (message : List Byte) (device : EbNDevice P) : EbNDevice P :=
  let publicSize := r.dhExchange.getPublicSize
  if message.length ≠ publicSize + (ACTIVE_BF_M + 7) / 8 then device
  else
    let data := Mem.ofList message
    let device :=
      match r.dhExchange.computeSharedSecret (SharedSecret.ofScheme .active) data with
      | some sharedSecret => device.addSharedSecret sharedSecret
      | none => device
    let bloom : BloomFilter P := BloomFilter.ofBytes BF_N ACTIVE_BF_M ACTIVE_BF_K (data.add publicSize)
    device.updateMatching sha256 bloom (data.take publicSize)

/-! ## Epoch changes -/

/-- The leftover symbols of the epoch that ends. -/
def leftoverSymbols (r : EbNRadioBT4 P ec) : List Byte :=
  (List.range (RS_K P ec - 1)).flatMap fun k => (r.dhEncoder.getSymbol (RS_K P ec + RS_M P ec + k)).take (RS_W P ec)

/-- The new key, its symbols and its address. -/
def shiftEpoch (r : EbNRadioBT4 P ec) (key : ec.Key) (randomAddress : Address) : EbNRadioBT4 P ec :=
  let dhExchange := ECDH.generateSecret key
  let leftover := r.leftoverSymbols
  { r with
    dhExchange, randomAddress
    dhPrevSymbols := leftover ++ r.dhPrevSymbols.drop leftover.length
    dhEncoder := r.dhEncoder.encode g dhExchange.getPublicX
    advertNum := 0 }

/-- Shared secret with the new key, now or once the epoch is decoded. -/
def changeEpochDevice (r : EbNRadioBT4 P ec) (device : EbNDeviceBT4 P ec) : EbNDeviceBT4 P ec :=
  match device.epochs.getLast? with
  | none => device
  | some curEpoch =>
      if curEpoch.dhDecoder.isDecoded then
        match r.dhExchange.computeSharedSecretXY (SharedSecret.ofConfirmed (r.confirmScheme.type = .None))
            (Mem.ofList curEpoch.dhDecoder.data) curEpoch.dhExchangeYCoord with
        | some sharedSecret => { device with toEbNDevice := device.addSharedSecret sharedSecret }
        | none => device
      else
        { device with
          epochs := device.epochs.dropLast
            ++ [{ curEpoch with dhExchanges := curEpoch.dhExchanges ++ [r.dhExchange] }] }

/-- `changeEpoch`, with the generated key and the shifted address. -/
def changeEpoch (r : EbNRadioBT4 P ec) (key : ec.Key) (randomAddress : Address) : EbNRadioBT4 P ec :=
  let r := shiftEpoch g r key randomAddress
  { r with
    heap := if r.confirmScheme.type.hasPassive then
        fun id => if id ∈ r.deviceMap.idToDevice then (r.heap id).map r.changeEpochDevice else r.heap id
      else r.heap
    nextChangeEpoch := Time.addMS r.nextChangeEpoch EPOCH_INTERVAL }

end EbNRadioBT4

end Sddr.Radio

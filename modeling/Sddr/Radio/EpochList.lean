import Sddr.Radio.Broadcast

/-!
# The epochs of a device

`processAdvert`, `processEpochs` and the loop of `changeEpoch` with the calls that have no result in some states:
`back()` of an empty list, and `setSymbol` with an index past the symbols of the code.
-/

namespace Sddr.Erasure

/-- `setSymbol`, with an index of the code matrix. -/
def RSErasureDecoder.setSymbolIn (d : RSErasureDecoder) (index : Nat) (data : Lib.Mem) : Option RSErasureDecoder :=
  if index < d.matrix.K + d.matrix.M then some (d.setSymbol index data).2 else none

end Sddr.Erasure

namespace Sddr.Radio.EbNRadioBT4
open Sddr.Lib Sddr.Codec Sddr.Device Sddr.Erasure BT4

variable {P : Type} [FloatOps P] {ec : Ec} (sha256 : List Byte → Digest) (g : Galois)

/-! ## processAdvert -/

def receiveAdvertIn (advert : BitMap) (advertNum : Nat) (curEpoch : Epoch P ec) : Option (Epoch P ec) :=
  (curEpoch.dhDecoder.setSymbolIn advertNum (readSymbol P ec advert (1 + ADV_N_LOG2))).map fun dhDecoder =>
    { receiveAdvert advert advertNum curEpoch with dhDecoder }

def receivePrevSymbolIn (advert : BitMap) (advertNum : Nat) (prevEpoch : Epoch P ec) : Option (Epoch P ec) :=
  if advertNum < RS_K P ec - 1 ∧ prevEpoch.dhDecoder.isDecoded = false then
    (prevEpoch.dhDecoder.setSymbolIn (advertNum + RS_K P ec + RS_M P ec)
      (readSymbol P ec advert (1 + ADV_N_LOG2 + 8 * RS_W P ec))).map fun dhDecoder => { prevEpoch with dhDecoder }
  else some prevEpoch

def receiveEpochsIn (r : EbNRadioBT4 P ec) (device : EbNDeviceBT4 P ec) (time : Time) (advert : BitMap)
    (advertNum : Nat) : AdvertClass (Epoch P ec) → Option (List (Epoch P ec))
  | .isDuplicate => some device.epochs
  | .current curEpoch => do
      let curEpoch ← receiveAdvertIn advert advertNum curEpoch
      match device.epochs.dropLast with
      | [] => return [curEpoch]
      | prevEpoch :: epochs => return (← receivePrevSymbolIn advert advertNum prevEpoch) :: epochs ++ [curEpoch]
  | .isNew => do
      let curEpoch ← receiveAdvertIn advert advertNum
        (Epoch.new advertNum time r.dhCodeMatrix r.dhExchange device.address.yCoord)
      match device.epochs.getLast? with
      | none => return [curEpoch]
      | some prevEpoch =>
          return device.epochs.dropLast ++ [← receivePrevSymbolIn advert advertNum prevEpoch] ++ [curEpoch]

def processAdvertIn (r : EbNRadioBT4 P ec) (device : EbNDeviceBT4 P ec) (time : Time) (data : Mem) :
    Option (Bool × EbNDeviceBT4 P ec) :=
  let advert := BitMap.ofMem (31 * 8) data
  let advertNum := advert.readNumber 1 ADV_N_LOG2
  if advertNum < RS_K P ec + RS_M P ec then
    match classify device.epochs advertNum time with
    | .isDuplicate => some (false, device)
    | advertClass => (r.receiveEpochsIn device time advert advertNum advertClass).map fun epochs =>
        (true, { device with epochs })
  else some (false, device)

/-! ## processEpochs -/

def decodeEpochIn (r : EbNRadioBT4 P ec) (epoch : Epoch P ec) (device : EbNDevice P) :
    Option (Epoch P ec × EbNDevice P) :=
  if !epoch.dhDecoder.isDecoded && epoch.dhDecoder.canDecode then do
    let decoded := epoch.dhDecoder.decode g
    let last ← epoch.blooms.getLast?
    match decoded with
    | (some dhRemotePublic, dhDecoder) =>
        let epoch := { epoch with dhDecoder, decodeBloomNum := last.1 }
        return (epoch, if r.confirmScheme.type.hasActive then device else r.addSecrets epoch dhRemotePublic device)
    | (none, dhDecoder) => return ({ epoch with dhDecoder }, device)
  else some (epoch, device)

/-- The loop over the filters, of which `kept` are passed and still in the list. The last one of the list is looked up
in every round. -/
def processBloomsIn (r : EbNRadioBT4 P ec) (dhRemotePublic : List Byte) (decodeBloomNum : Nat)
    (kept : List (Nat × SegmentedBloomFilter P)) :
    List (Nat × SegmentedBloomFilter P) → EbNDevice P → Option (List (Nat × SegmentedBloomFilter P) × EbNDevice P)
  | [], device => some (kept, device)
  | (bloomNum, bloom) :: blooms, device => do
      let processed := processBloom sha256 r dhRemotePublic decodeBloomNum bloomNum bloom device
      let last ← (kept ++ (bloomNum, processed.1) :: blooms).getLast?
      if bloomNum ≠ last.1 ∨ processed.1.isFilled (BF_B - 1) then
        processBloomsIn r dhRemotePublic decodeBloomNum kept blooms processed.2
      else processBloomsIn r dhRemotePublic decodeBloomNum (kept ++ [(bloomNum, processed.1)]) blooms processed.2

def processEpochIn (r : EbNRadioBT4 P ec) (epoch : Epoch P ec) (device : EbNDevice P) :
    Option (Epoch P ec × EbNDevice P) := do
  let (epoch, device) ← decodeEpochIn g r epoch device
  if epoch.dhDecoder.isDecoded = true ∧ epoch.blooms ≠ [] then
    let (blooms, device) ←
      processBloomsIn sha256 r epoch.dhDecoder.data epoch.decodeBloomNum [] epoch.blooms device
    return ({ epoch with blooms }, device)
  else return (epoch, device)

def processEpochsFromIn (r : EbNRadioBT4 P ec) (kept : Nat) :
    List (Epoch P ec) → EbNDevice P → Option (List (Epoch P ec) × EbNDevice P)
  | [], device => some ([], device)
  | epoch :: epochs, device => do
      let (epoch, device) ← processEpochIn sha256 g r epoch device
      if epochs ≠ [] ∧ (epoch.dhDecoder.isDecoded = true ∨ kept + epochs.length + 1 > 2) then
        processEpochsFromIn r kept epochs device
      else
        let (rest, device) ← processEpochsFromIn r (kept + 1) epochs device
        return (epoch :: rest, device)

/-- `processAdvert` followed by `processEpochs`. -/
def receiveIn (r : EbNRadioBT4 P ec) (device : EbNDeviceBT4 P ec) (time : Time) (data : Mem) :
    Option (EbNDeviceBT4 P ec) := do
  let (_, device) ← r.processAdvertIn device time data
  let (epochs, base) ← processEpochsFromIn sha256 g r 0 device.epochs device.toEbNDevice
  return { device with toEbNDevice := base, epochs := epochs }

/-! ## changeEpoch -/

/-- The body of the loop over the devices. -/
def changeEpochDeviceIn (r : EbNRadioBT4 P ec) (device : EbNDeviceBT4 P ec) : Option (EbNDeviceBT4 P ec) :=
  if device.epochs ≠ [] then do
    let curEpoch ← device.epochs.getLast?
    if curEpoch.dhDecoder.isDecoded then
      match r.dhExchange.computeSharedSecretXY (SharedSecret.ofConfirmed (r.confirmScheme.type = .None))
          (Mem.ofList curEpoch.dhDecoder.data) curEpoch.dhExchangeYCoord with
      | some sharedSecret => return { device with toEbNDevice := device.addSharedSecret sharedSecret }
      | none => return device
    else
      return { device with
        epochs := device.epochs.dropLast ++ [{ curEpoch with dhExchanges := curEpoch.dhExchanges ++ [r.dhExchange] }] }
  else some device

/-! ## Runs -/

/-- An advert of a device is received, or the epoch of the radio changes. -/
inductive EpochEvent (ec : Ec) where
  | advert (id : DeviceID) (time : Time) (data : Mem)
  | changeEpoch (key : ec.Key) (randomAddress : Address)

def onEpochEvent (r : EbNRadioBT4 P ec) : EpochEvent ec → EbNRadioBT4 P ec
  | .advert id time data =>
      { r with heap := Function.update r.heap id ((r.heap id).map fun device => receive sha256 g r device time data) }
  | .changeEpoch key randomAddress => changeEpoch g r key randomAddress

/-- At most two epochs, of which the first one is not decoded, and filters for every epoch that is not decoded. -/
structure EpochsKept (device : EbNDeviceBT4 P ec) : Prop where
  length : device.epochs.length ≤ 2
  past : ∀ epoch ∈ device.epochs.dropLast, epoch.dhDecoder.isDecoded = false
  blooms : ∀ epoch ∈ device.epochs, epoch.dhDecoder.isDecoded = false → epoch.blooms ≠ []

end Sddr.Radio.EbNRadioBT4

import Sddr.Codec.Lemmas.Received
import Sddr.Codec.Lemmas.Text
import Sddr.Device.Lemmas.Accounts
import Sddr.Radio.BT2NR
import Sddr.Radio.Lemmas.Actions
import Sddr.Radio.Lemmas.ECDH
import Sddr.Radio.Lemmas.EbNRadio

/-!
# What a name carries

The name has the length that `handshake` asks for, and takes one byte more than the advert to decode. All of the advert
arrives but its last three bits, which become ones, so that the filter a receiver reads holds at least what the sender put
into it.
-/

namespace Sddr.Radio.EbNRadioBT2NR
open Sddr.Lib Sddr.Codec Sddr.Device
open BinaryToUTF8 (NAME_DECODED_SIZE)

variable {P : Type} [FloatOps P] {ec : Ec} {sha256 : List Byte → Digest} {rand : Nat → Nat}
  {sender receiver : EbNRadioBT2NR P ec}

/-! ## The sender's layout -/

theorem advertBloom_shape (sha256 : List Byte → Digest) (rand : Nat → Nat) (sender : EbNRadioBT2NR P ec) :
    (advertBloom sha256 rand sender).M = 1721 - ec.keySize ∧ (advertBloom sha256 rand sender).K = 3 :=
  have hgrows := fillBloomFilter_grows sha256 rand sender.toEbNRadio (BloomFilter.new BF_N sender.BF_M sender.BF_K)
    (sender.dhExchange.getPublicX.take (sender.keySize / 8)) true
  ⟨hgrows.M, hgrows.K⟩

theorem size_advert : (advert sha256 rand sender).size = NAME_DECODED_SIZE := rfl

theorem get_advert (sha256 : List Byte → Digest) (rand : Nat → Nat) (sender : EbNRadioBT2NR P ec) {j : Nat}
    (hj : j < NAME_DECODED_SIZE) :
    (advert sha256 rand sender).get j =
      if j = 0 then false else if j = 1 then sender.dhExchange.getPublicY
      else if j < 2 + ec.keySize then sender.dhExchange.getPublicX.bit (j - 2)
      else (advertBloom sha256 rand sender).bits.get (j - (2 + ec.keySize)) := by
  have hkeySize := ec.keySize_facts
  obtain ⟨hM, -⟩ := advertBloom_shape sha256 rand sender
  simp only [NAME_DECODED_SIZE] at hj
  rw [advert, BitMap.get_copyFrom, hM, advertHeader, BitMap.get_copyFrom, BitMap.get_eq_bit (BitMap.setTo _ _ _),
    BitMap.bit_setTo, ← BitMap.get_eq_bit (BitMap.new _), BitMap.get_new, BitMap.get_eq_bit]
  simp only [keySize, Nat.zero_add]
  split_ifs <;> first | rfl | omega

/-! ## The name -/

theorem encodedSize_advert : BinaryToUTF8.encodedSize (advert sha256 rand sender) = 247 := by
  have hdangling : ¬ BinaryToUTF8.Dangling
      (BinaryToUTF8.stream (advert sha256 rand sender).bits (advert sha256 rand sender).size) := by
    rintro ⟨hlength, -⟩
    rw [BinaryToUTF8.length_stream, size_advert] at hlength
    exact absurd hlength (by decide)
  rw [BinaryToUTF8.encodedSize, if_neg hdangling, size_advert]
  rfl

theorem length_localName : (changeAdvert sha256 rand sender).localName.length = 247 :=
  (BinaryToUTF8.length_encode _).trans encodedSize_advert

variable {carry : List Byte → List Byte}

theorem Carries.localName (hcarry : Carries carry) :
    carry (changeAdvert sha256 rand sender).localName = (changeAdvert sha256 rand sender).localName := by
  refine hcarry _ ?_ (BinaryToUTF8.encodes_encode _ _).legal.zero_notMem
  rw [length_localName]
  decide

/-- The 217 bytes of a name with the length of an advert need a byte behind the 216 of the advert. -/
theorem readName_isSome_iff (slack remoteName : List Byte) :
    (readName slack (some remoteName)).isSome ↔
      slack ≠ [] ∨ BinaryToUTF8.getNumEncodedBits NAME_DECODED_SIZE ≠ remoteName.length * 8 := by
  rw [readName]
  split_ifs with hlength
  · rw [Option.isSome_map, BinaryToUTF8.decodeIn_isSome, List.length_append, BitMap.toBytes, Mem.length_take,
      ← List.length_pos_iff]
    have hbytes : (BitMap.new NAME_DECODED_SIZE).sizeBytes = 216 := rfl
    have hcharacters : 1976 = remoteName.length * 8 := hlength
    have hleast := BinaryToUTF8.length_le_numDecoded remoteName
    have hmost := BinaryToUTF8.numDecoded_le remoteName
    rw [hbytes]
    omega
  · exact iff_of_true rfl (Or.inr hlength)

theorem numEncodedBits_localName :
    BinaryToUTF8.getNumEncodedBits NAME_DECODED_SIZE = (changeAdvert sha256 rand sender).localName.length * 8 := by
  rw [length_localName]
  rfl

/-- The name of `sender` as the advert that `decode` makes of it. -/
def Received (sha256 : List Byte → Digest) (rand : Nat → Nat) (sender : EbNRadioBT2NR P ec) (received : BitMap) : Prop :=
  ∀ j < NAME_DECODED_SIZE, received.get j = if j < 1720 then (advert sha256 rand sender).get j else true

theorem readName_localName {slack : List Byte} {advert? : Option BitMap}
    (h : readName slack (some (changeAdvert sha256 rand sender).localName) = some advert?) :
    ∃ received, advert? = some received ∧ Received sha256 rand sender received := by
  rw [readName, if_pos numEncodedBits_localName, Option.map_eq_some_iff] at h
  obtain ⟨bytes, hdecode, rfl⟩ := h
  refine ⟨_, rfl, fun j hj => ?_⟩
  have hindexed : BinaryToUTF8.encodedSize (advert sha256 rand sender) < 2 ^ 31 := by
    rw [encodedSize_advert]
    decide
  obtain ⟨bits, hbits, hget⟩ := BinaryToUTF8.get_decode_encode (advert sha256 rand sender) hindexed
  have hin : j / 8 < 216 := by
    simp only [NAME_DECODED_SIZE] at hj
    omega
  have hempty : Mem.ofList ((BitMap.new NAME_DECODED_SIZE).toBytes ++ slack) (j / 8)
      = (BitMap.new NAME_DECODED_SIZE).bits (j / 8) :=
    (List.getD_append _ _ _ _ ((Mem.length_take _ 216).symm ▸ hin)).trans (Mem.take_getD hin 0)
  have hsame : (BitMap.mk NAME_DECODED_SIZE (Mem.ofList bytes)).get j = (BitMap.mk NAME_DECODED_SIZE bits).get j := by
    rw [BitMap.get_eq_bit, BitMap.get_eq_bit, Mem.bit, Mem.bit]
    exact congrArg (BitVec.getLsbD · (j % 8))
      (BinaryToUTF8.decode_congr (BinaryToUTF8.decode_of_decodeIn hdecode) hbits hempty)
  refine hsame.trans ((hget j hj).trans ?_)
  -- there are six ones behind the 1723 bits, and five of them fit into the last byte
  rw [encodedSize_advert, size_advert]
  by_cases hwhole : j < 1720
  · exact (if_pos hwhole).trans (if_pos hwhole).symm
  · rw [if_neg hwhole]
    exact (if_neg hwhole).trans (if_pos (Nat.lt_of_lt_of_le hj (by decide)))

/-! ## The receiver's reading -/

variable {received : BitMap}

theorem Received.publicY (h : Received sha256 rand sender received) : received.get 1 = sender.dhExchange.getPublicY := by
  rw [h 1 (by decide), if_pos (by decide), get_advert _ _ _ (by decide), if_neg (by decide), if_pos rfl]

theorem Received.publicX (h : Received sha256 rand sender received) :
    (received.copyTo (fun _ => 0) 0 2 ec.keySize).take (ec.keySize / 8)
      = sender.dhExchange.getPublicX.take (ec.keySize / 8) := by
  have hkeySize := ec.keySize_facts
  refine Mem.take_eq_of_bits fun j hj => ?_
  have hlt : 2 + (j - 0) < NAME_DECODED_SIZE := by simp only [NAME_DECODED_SIZE]; omega
  rw [BitMap.bit_copyTo, if_pos (by omega), h _ hlt, if_pos (by omega), get_advert _ _ _ hlt, if_neg (by omega),
    if_neg (by omega), if_pos (by omega)]
  congr 1
  omega

/-- The receiver's filter has at least the sender's bits. -/
theorem Received.holds (h : Received sha256 rand sender received) {hash : Digest}
    (hsent : (advertBloom sha256 rand sender).Holds hash) :
    (BloomFilter.ofBitMap (P := P) BF_N 3 received (2 + ec.keySize) (1721 - ec.keySize)).Holds hash := by
  have hkeySize := ec.keySize_facts
  obtain ⟨hM, hK⟩ := advertBloom_shape sha256 rand sender
  intro k hk
  have hset := hsent k (hK.symm ▸ hk)
  rw [hM] at hset
  have hlt : hash.word k % (1721 - ec.keySize) < 1721 - ec.keySize := Nat.mod_lt _ (by omega)
  show ((BitMap.new _).copyFrom received.bits (2 + ec.keySize) 0 (1721 - ec.keySize)).get
    (hash.word k % (1721 - ec.keySize)) = true
  generalize hash.word k % (1721 - ec.keySize) = j at hset hlt ⊢
  have hin : 2 + ec.keySize + (j - 0) < NAME_DECODED_SIZE := by simp only [NAME_DECODED_SIZE]; omega
  rw [BitMap.get_copyFrom, if_pos (by omega), ← BitMap.get_eq_bit, h _ hin]
  split_ifs
  · have hj : 2 + ec.keySize + (j - 0) - (2 + ec.keySize) = j := by omega
    rw [get_advert _ _ _ hin, if_neg (by omega), if_neg (by omega), if_neg (by omega), hj, hset]
  · rfl

/-- An advert adds the secret of the two keys, and then what is not found in a filter with the sender's link values no
longer matches. -/
theorem processAdvert_received (h : Received sha256 rand sender received) (receiver : EbNRadioBT2NR P ec)
    (hlaws : ec.Laws) {key : ec.Key} (hkey : sender.dhExchange = ECDH.generateSecret key) (device : EbNDevice P) :
    ∃ value bloom, ec.computeKey (ec.publicKey key) receiver.dhExchange.secret = some value ∧
      receiver.processAdvert sha256 device received
        = (device.addSharedSecret { SharedSecret.ofConfirmed true with value }).updateMatching sha256 bloom
          (sender.dhExchange.getPublicX.take (ec.keySize / 8)) ∧
      ∀ v ∈ sender.advertisedSet.take BF_N,
        bloom.query sha256 (sender.dhExchange.getPublicX.take (ec.keySize / 8)) v = true := by
  have hoctets : ec.point2oct (ec.publicKey key) = (if sender.dhExchange.getPublicY then 0x03 else 0x02) ::
      sender.dhExchange.getPublicX.take (ec.keySize / 8) := by
    rw [hkey]
    exact (ECDH.publicKey_octets hlaws key).symm
  obtain ⟨value, hvalue⟩ := Option.isSome_iff_exists.mp (hlaws.computeKey_isSome key receiver.dhExchange.secret)
  have hsecret : ∀ dest : SharedSecret P, receiver.dhExchange.computeSharedSecretXY dest
      (Mem.ofList (sender.dhExchange.getPublicX.take (ec.keySize / 8))) sender.dhExchange.getPublicY
        = some { dest with value } := by
    intro dest
    rw [ECDH.computeSharedSecretXY_public hlaws _ dest hoctets, hvalue, Option.map_some]
  refine ⟨value, .ofBitMap BF_N 3 received (2 + ec.keySize) (1721 - ec.keySize), hvalue, ?_, fun v hv => ?_⟩
  · rw [processAdvert, keySize, h.publicX, h.publicY, hsecret, receiver.scheme]
    rfl
  · refine BloomFilter.queryHash_iff.mpr (h.holds (fillBloomFilter_holds rand _ _ true ?_))
    rw [sender.scheme]
    exact hv

/-! ## The radio -/

/-- The name was made with the present key and an advertised set that `p` holds of, as it does of the present one. -/
structure Named (sha256 : List Byte → Digest) (p : List LinkValue → Prop) (r : EbNRadioBT2NR P ec) : Prop where
  key : r.dhExchange = ECDH.generateSecret r.dhExchange.secret
  advertised : p r.advertisedSet
  name : ∃ (rand : Nat → Nat) (r₀ : EbNRadioBT2NR P ec), r₀.dhExchange = r.dhExchange ∧ p r₀.advertisedSet ∧
    r.localName = (changeAdvert sha256 rand r₀).localName

variable {p : List LinkValue → Prop} {r : EbNRadioBT2NR P ec}

theorem Reachable.key (h : Reachable sha256 r) : r.dhExchange = ECDH.generateSecret r.dhExchange.secret := by
  induction h with
  | new h =>
      unfold EbNRadioBT2NR.new at h
      split_ifs at h
      cases h
      rfl
  | act _ action ih =>
      cases action with
      | start rand random => exact ih
      | discover rand => exact ih
      | changeEpoch rand key random => rfl
      | other base scheme => exact ih

variable (sha256) in
theorem named_changeAdvert (hkey : r.dhExchange = ECDH.generateSecret r.dhExchange.secret) (hadvertised : p r.advertisedSet)
    (rand : Nat → Nat) : Named sha256 p (changeAdvert sha256 rand r) :=
  ⟨hkey, hadvertised, rand, r, rfl, hadvertised, rfl⟩

omit [FloatOps P] in
theorem advertisedSet_forget (r : EbNRadioBT2NR P ec) : r.forget.advertisedSet = r.advertisedSet := by
  unfold EbNRadio.forget
  split_ifs <;> rfl

theorem Named.setNextChangeEpoch (h : Named sha256 p r) (next : Time) :
    Named sha256 p { r with nextChangeEpoch := next, scheme := r.scheme } :=
  ⟨h.key, h.advertised, h.name⟩

theorem Named.shiftEpoch (h : Named sha256 p r) (rand : Nat → Nat) (key : ec.Key) (random : Nat → Byte) :
    Named sha256 p (shiftEpoch sha256 rand r key random) := by
  refine named_changeAdvert sha256 ?_ ?_ rand
  · rfl
  · exact h.advertised

theorem Named.changeEpoch (h : Named sha256 p r) (rand : Nat → Nat) (key : ec.Key) (random : Nat → Byte) :
    Named sha256 p (changeEpoch sha256 rand r key random) := by
  exact (h.shiftEpoch rand key random).setNextChangeEpoch _

theorem Named.apply (h : Named sha256 p r) (action : Action P ec)
    (hadvertised : ∀ advertised ∈ (ContactEvent.act action).newSet?, p advertised) :
    Named sha256 p (action.apply sha256 r) := by
  cases action with
  | start rand random =>
      refine named_changeAdvert sha256 ?_ ?_ rand
      · exact h.key
      · exact h.advertised
  | discover rand =>
      refine named_changeAdvert sha256 ?_ ?_ rand
      · exact h.key
      · show p r.forget.advertisedSet
        rw [advertisedSet_forget]
        exact h.advertised
  | changeEpoch rand key random => exact h.changeEpoch rand key random
  | other base scheme => exact ⟨h.key, hadvertised _ rfl, h.name⟩

end Sddr.Radio.EbNRadioBT2NR

import Sddr.Erasure.Lemmas.RSCodec
import Sddr.Radio.Broadcast
import Sddr.Radio.Lemmas.BT4Advert

/-!
# The adverts of a sender

Every reachable radio has an encoder that holds its current key. In the adverts of an epoch the receiver finds the
symbols of that key, the leftover symbols of the key before, and segments of filters that hold the advertised set.
-/

namespace Sddr.Radio.EbNRadioBT4
open Sddr.Lib Sddr.Codec Sddr.Device Sddr.Erasure BT4

variable {P : Type} [FloatOps P] {ec : Ec} {sha256 : List Byte → Digest} {g : Galois} {r : EbNRadioBT4 P ec}

/-! ## The encoder -/

/-- All symbols, with those left over for the adverts of the next epoch. -/
abbrev symbolCount (P : Type) [FloatOps P] (ec : Ec) : Nat := RS_K P ec + (RS_M P ec + 2 * (RS_K P ec - 1))

/-- The code that all radios of this key size use. -/
structure Code (g : Galois) (P : Type) [FloatOps P] (ec : Ec) (parts : List Part) : Prop where
  new : RSMatrix.new g (RS_K P ec) (RS_M P ec + 2 * (RS_K P ec - 1)) (RS_W P ec)
    = some ⟨RS_K P ec, RS_M P ec + 2 * (RS_K P ec - 1), RS_W P ec, parts⟩
  width : (parts.map Part.w).sum = RS_W P ec
  sound : ∀ p ∈ parts, p.Sound g (RS_K P ec) (RS_M P ec + 2 * (RS_K P ec - 1))

variable {parts : List Part}

/-- The encoder was last run on the current key. -/
structure Built (g : Galois) (parts : List Part) (r : EbNRadioBT4 P ec) : Prop where
  matrix : r.dhCodeMatrix = ⟨RS_K P ec, RS_M P ec + 2 * (RS_K P ec - 1), RS_W P ec, parts⟩
  encoder : ∃ e : RSErasureEncoder, e.matrix = r.dhCodeMatrix ∧ e.partSymbols.map PartSymbols.part = parts ∧
    r.dhEncoder = e.encode g r.dhExchange.getPublicX
  key : ∃ key, r.dhExchange = ECDH.generateSecret key

theorem Built.codeOf (h : Built g parts r) (hcode : Code g P ec parts) (hK : 0 < RS_K P ec) :
    CodeOf g (RS_K P ec) (RS_M P ec + 2 * (RS_K P ec - 1)) parts
        (r.dhExchange.getPublicX.take (RS_K P ec * RS_W P ec)) r.dhEncoder.partSymbols ∧
      ∀ i < symbolCount P ec, (r.dhEncoder.getSymbol i).take (RS_W P ec) = storeSymbol r.dhEncoder.partSymbols i := by
  obtain ⟨e, hmatrix, hparts, hencoder⟩ := h.encoder
  have hspec := encode_codeOf hK hcode.sound (hmatrix.trans (by rw [h.matrix, hcode.width])) hparts
    r.dhExchange.getPublicX
  rwa [← hencoder, hcode.width] at hspec

variable (sha256) in
/-- A new filter changes nothing but the filter. -/
theorem updateBloom_fields (r : EbNRadioBT4 P ec) (rand : Nat → Nat) (n : Nat) :
    let r' := updateBloom sha256 rand r n
    r'.dhCodeMatrix = r.dhCodeMatrix ∧ r'.dhEncoder = r.dhEncoder ∧ r'.dhPrevSymbols = r.dhPrevSymbols ∧
      r'.dhExchange = r.dhExchange ∧ r'.toEbNRadio = r.toEbNRadio := by
  unfold updateBloom
  dsimp only
  split_ifs <;> exact ⟨rfl, rfl, rfl, rfl, rfl⟩

theorem changeEpoch_fields (key : ec.Key) (randomAddress : Address) :
    let r' := changeEpoch g r key randomAddress
    r'.dhCodeMatrix = r.dhCodeMatrix ∧ r'.dhExchange = ECDH.generateSecret key ∧
      r'.dhEncoder = r.dhEncoder.encode g r'.dhExchange.getPublicX ∧
      r'.dhPrevSymbols = r.leftoverSymbols ++ r.dhPrevSymbols.drop r.leftoverSymbols.length ∧
      r'.advertisedSet = r.advertisedSet ∧ r'.confirmScheme = r.confirmScheme := by
  dsimp only [changeEpoch, shiftEpoch]
  exact ⟨rfl, rfl, rfl, rfl, rfl, rfl⟩

theorem Built.base (h : Built g parts r) (base : EbNRadio P (EbNDeviceBT4 P ec)) :
    Built g parts { r with toEbNRadio := base } := ⟨h.matrix, h.encoder, h.key⟩

theorem Built.generateAdvert (h : Built g parts r) (rand : Nat → Nat) (n : Nat) :
    Built g parts (generateAdvert sha256 rand r n).2 := by
  obtain ⟨hmatrix, hencoder, _, hexchange, _⟩ := updateBloom_fields sha256 r rand n
  obtain ⟨e, he, hparts, hrun⟩ := h.encoder
  obtain ⟨key, hkey⟩ := h.key
  refine ⟨hmatrix.trans h.matrix, ⟨e, he.trans hmatrix.symm, hparts, ?_⟩, ⟨key, hexchange.trans hkey⟩⟩
  rw [EbNRadioBT4.generateAdvert, hencoder, hexchange]
  exact hrun

theorem Built.changeEpoch (h : Built g parts r) (hcode : Code g P ec parts) (hK : 0 < RS_K P ec) (key : ec.Key)
    (randomAddress : Address) : Built g parts (changeEpoch g r key randomAddress) := by
  obtain ⟨hmatrix, hexchange, hencoder, _⟩ := changeEpoch_fields (g := g) (r := r) key randomAddress
  obtain ⟨e, he, _, hrun⟩ := h.encoder
  refine ⟨hmatrix.trans h.matrix, ⟨r.dhEncoder, ?_, (h.codeOf hcode hK).1.parts, hencoder⟩, ⟨key, hexchange⟩⟩
  rw [hmatrix, hrun]
  exact he

theorem Built.new (hcode : Code g P ec parts) {confirmScheme : ConfirmScheme P} {memoryScheme : MemoryScheme}
    {now : Time} {key : ec.Key} {randomAddress : Address}
    (h : new g confirmScheme memoryScheme now key randomAddress = some r) : Built g parts r := by
  rw [EbNRadioBT4.new, hcode.new, Option.map_some] at h
  obtain rfl := Option.some.inj h
  exact ⟨rfl, ⟨RSErasureEncoder.new _, rfl, map_part_new parts, rfl⟩, ⟨_, rfl⟩⟩

theorem Reachable.built (hvalues : ConfirmValues P) (hcode : Code g P ec parts) (hreach : Reachable sha256 g r) :
    Built g parts r := by
  have hK : 0 < RS_K P ec := by have := size_facts hvalues ec; omega
  induction hreach with
  | new h => exact .new hcode h
  | changeEpoch _ key randomAddress ih => exact ih.changeEpoch hcode hK key randomAddress
  | generateAdvert _ rand n ih => exact ih.generateAdvert rand n
  | other _ base ih => exact ih.base base

/-! ## The filters -/

/-- The filter of `bloomNum` is there and holds the advertised set. -/
structure BloomReady (sha256 : List Byte → Digest) (r : EbNRadioBT4 P ec) (bloomNum : Nat) : Prop where
  num : r.advertBloomNum = bloomNum
  isFilter : IsFilter ec bloomNum r.advertBloom
  holds : ∀ v ∈ r.advertisedSet.take (maxAdvert r.confirmScheme.type),
    r.advertBloom.Holds (sha256 ((r.prefixOf bloomNum r.dhExchange.getPublicX).toBytes ++ v))

/-- A new filter keeps its form while it is filled. -/
theorem isFilter_filled (rand : Nat → Nat) (r : EbNRadioBT4 P ec) (n : Nat) :
    IsFilter ec (n / 2) { segmentedBloom P ec (n / BF_B) false with
      toBloomFilter := fillBloomFilter sha256 rand r.toEbNRadio (segmentedBloom P ec (n / BF_B) false).toBloomFilter
        (r.prefixOf (n / BF_B) r.dhExchange.getPublicX).toBytes true } := by
  have hgrows := fillBloomFilter_grows sha256 rand r.toEbNRadio (segmentedBloom P ec (n / BF_B) false).toBloomFilter
    (r.prefixOf (n / BF_B) r.dhExchange.getPublicX).toBytes true
  have hfilter := isFilter_segmentedBloom (P := P) ec (n / 2) false
  exact ⟨hgrows.M.trans hfilter.M, hgrows.K.trans hfilter.K, hfilter.sizes, hfilter.offsets⟩

/-- The first advert of a filter creates it, the second takes the same. -/
theorem updateBloom_ready {rand : Nat → Nat} {n : Nat} (h : n % 2 = 0 ∨ BloomReady sha256 r (n / 2)) :
    BloomReady sha256 (updateBloom sha256 rand r n) (n / 2) := by
  unfold updateBloom
  dsimp only
  split_ifs with hnew
  · exact ⟨rfl, isFilter_filled rand r n, fun v hv => fillBloomFilter_holds rand _ _ true hv⟩
  · rcases h with heven | hready
    · exact absurd (Or.inl heven) hnew
    · exact hready

variable {env : Nat → Surroundings P ec} {sender : EbNRadioBT4 P ec}

variable (sha256 env sender) in
/-- What stays the same while the adverts of an epoch are generated, and the filter of the last one. -/
theorem senderAt_spec (n : Nat) :
    let s := senderAt sha256 env sender n
    s.dhEncoder = sender.dhEncoder ∧ s.dhPrevSymbols = sender.dhPrevSymbols ∧ s.dhExchange = sender.dhExchange ∧
      s.advertisedSet = sender.advertisedSet ∧ s.confirmScheme = sender.confirmScheme ∧
      (0 < n → BloomReady sha256 s ((n - 1) / 2)) := by
  induction n with
  | zero => exact ⟨rfl, rfl, rfl, rfl, rfl, fun h => absurd h (Nat.lt_irrefl 0)⟩
  | succ n ih =>
      obtain ⟨hencoder, hprev, hexchange, hset, hscheme, hready⟩ := ih
      obtain ⟨_, hencoder', hprev', hexchange', hbase⟩ := updateBloom_fields sha256
        ((env n).apply (senderAt sha256 env sender n)) (env n).rand n
      refine ⟨hencoder'.trans hencoder, hprev'.trans hprev, hexchange'.trans hexchange,
        (congrArg EbNRadio.advertisedSet hbase).trans hset, (congrArg EbNRadio.confirmScheme hbase).trans hscheme,
        fun _ => ?_⟩
      refine updateBloom_ready ?_
      rcases Nat.mod_two_eq_zero_or_one n with heven | hodd
      · exact Or.inl heven
      · obtain ⟨hnum, hfilter, hholds⟩ := hready (by omega)
        have hhalf : (n - 1) / 2 = n / 2 := by omega
        rw [hhalf] at hnum hfilter hholds
        exact Or.inr ⟨hnum, hfilter, hholds⟩

theorem Reachable.senderAt (h : Reachable sha256 g sender) (env : Nat → Surroundings P ec) (n : Nat) :
    Reachable sha256 g (senderAt sha256 env sender n) := by
  induction n with
  | zero => exact h
  | succ n ih => exact (ih.other _).generateAdvert (env n).rand n

/-! ## What a receiver finds in an advert -/

/-- The digest of a link value under the prefix of a filter. -/
abbrev filterHash (sha256 : List Byte → Digest) (ec : Ec) (publicX : Mem) (bloomNum : Nat) (v : LinkValue) : Digest :=
  sha256 ((hashPrefix ADV_N_LOG2 bloomNum publicX ec.keySize).toBytes ++ v)

/-- The number, the symbols, and a segment that takes no value of `values` out of a filter. -/
structure Carries (P : Type) [FloatOps P] (ec : Ec) (sha256 : List Byte → Digest) (values : List LinkValue)
    (publicX : Mem) (symbol prevSymbol : List Byte) (n : Nat) (advert : BitMap) : Prop where
  number : advert.readNumber 1 ADV_N_LOG2 = n
  symbol : (readSymbol P ec advert (1 + ADV_N_LOG2)).take (RS_W P ec) = symbol
  prevSymbol : n < RS_K P ec - 1 →
    (readSymbol P ec advert (1 + ADV_N_LOG2 + 8 * RS_W P ec)).take (RS_W P ec) = prevSymbol
  segment : ∀ bloom : SegmentedBloomFilter P, IsFilter ec (n / 2) bloom → ∀ v ∈ values,
    bloom.Holds (filterHash sha256 ec publicX (n / 2) v) →
      (bloom.setSegment (n % 2) advert.bits (segmentStart P ec n)).2.Holds (filterHash sha256 ec publicX (n / 2) v)

/-- A segment keeps a value in a filter when the filter it was taken from has the value. -/
theorem setSegment_holds {bloom sent : SegmentedBloomFilter P} {n : Nat} {source : Mem} {offset : Nat} {hash : Digest}
    (hbloom : IsFilter ec (n / 2) bloom) (hsent : IsFilter ec (n / 2) sent)
    (hsource : ∀ j < segmentSize P ec n, source.bit (offset + j) = sent.bits.get (sent.segmentOffset (n % 2) + j))
    (hholds : bloom.Holds hash) (hcontains : sent.Holds hash) :
    (bloom.setSegment (n % 2) source offset).2.Holds hash := by
  have hoffset : bloom.segmentOffset (n % 2) = sent.segmentOffset (n % 2) := by
    rw [SegmentedBloomFilter.segmentOffset, SegmentedBloomFilter.segmentOffset, hbloom.offsets, hsent.offsets]
  have hM : sent.M = bloom.M := hsent.M.trans hbloom.M.symm
  intro k hk
  have hk' : k < bloom.K := hk
  have hget : (bloom.setSegment (n % 2) source offset).2.bits.get (hash.word k % bloom.M)
      = if bloom.segmentOffset (n % 2) ≤ hash.word k % bloom.M
          ∧ hash.word k % bloom.M < bloom.segmentOffset (n % 2) + segmentSize P ec n then
          source.bit (offset + (hash.word k % bloom.M - bloom.segmentOffset (n % 2)))
        else bloom.bits.get (hash.word k % bloom.M) := by
    rw [← hbloom.segment.1]
    exact BitMap.get_copyFrom _ _ _ _ _ _
  refine hget.trans ?_
  split_ifs with hin
  · rw [hsource _ (by omega), ← hoffset, Nat.add_sub_cancel' hin.1, ← hM]
    exact hcontains k (by rw [hsent.K, ← hbloom.K]; exact hk')
  · exact hholds k hk'

/-- The symbols that the first adverts of an epoch carry for the epoch before. -/
abbrev prevSymbol (r : EbNRadioBT4 P ec) (n : Nat) : List Byte :=
  ((Mem.ofList r.dhPrevSymbols).add (n * RS_W P ec)).take (RS_W P ec)

/-- The advert as it is received: its header, and the segment from its filter. -/
theorem get_received (hvalues : ConfirmValues P) {rand : Nat → Nat} {n : Nat}
    (hfilter : IsFilter ec (n / 2) (updateBloom sha256 rand r n).advertBloom) {j : Nat} (hj : j < 248) :
    (BitMap.ofMem (31 * 8) (Mem.ofList (generateAdvert sha256 rand r n).1.toBytes)).get j
      = if segmentStart P ec n ≤ j then
          (updateBloom sha256 rand r n).advertBloom.bits.get
            ((updateBloom sha256 rand r n).advertBloom.segmentOffset (n % 2) + (j - segmentStart P ec n))
        else ((updateBloom sha256 rand r n).advertHeader n).get j := by
  have hreceived := BitMap.get_ofMem_toBytes (j := j) (b := (generateAdvert sha256 rand r n).1)
    (by rw [size_generateAdvert]; exact hj)
  rw [size_generateAdvert] at hreceived
  refine hreceived.trans ((get_generateAdvert hvalues hfilter j).trans ?_)
  simp only [hj, and_true]

/-- A receiver finds the number and the symbols in the header of an advert. -/
theorem Built.header (hvalues : ConfirmValues P) (hcode : Code g P ec parts) (hr : Built g parts r) {rand : Nat → Nat}
    {n : Nat} (hfilter : IsFilter ec (n / 2) (updateBloom sha256 rand r n).advertBloom) (hn : n < ADV_N) :
    let advert := BitMap.ofMem (31 * 8) (Mem.ofList (EbNRadioBT4.generateAdvert sha256 rand r n).1.toBytes)
    advert.readNumber 1 ADV_N_LOG2 = n ∧
      (readSymbol P ec advert (1 + ADV_N_LOG2)).take (RS_W P ec) = storeSymbol r.dhEncoder.partSymbols n ∧
      (n < RS_K P ec - 1 →
        (readSymbol P ec advert (1 + ADV_N_LOG2 + 8 * RS_W P ec)).take (RS_W P ec) = r.prevSymbol n) := by
  intro advert
  obtain ⟨_, hW, hK4, hK6⟩ := size_facts hvalues ec
  obtain ⟨hstart, _⟩ := segmentStart_add_size hvalues ec n
  obtain ⟨_, hencoder, hprev, _, _⟩ := updateBloom_fields sha256 r rand n
  have hget : ∀ j < 248, advert.get j = _ := fun j hj => get_received hvalues hfilter hj
  have hheader := fun j => get_advertHeader (r := updateBloom sha256 rand r n) (n := n) j
  have hstart9 : 9 + 8 * RS_W P ec ≤ segmentStart P ec n := Nat.le_add_right _ _
  refine ⟨BitMap.readNumber_eq ?_ fun i hi => ?_, ?_, fun hfirst => ?_⟩
  · simp only [ADV_N, ADV_N_LOG2, EPOCH_INTERVAL, SCAN_INTERVAL] at *
    omega
  · simp only [ADV_N_LOG2] at hi
    rw [hget _ (by omega), if_neg (by omega), hheader, if_neg (by omega), if_neg (by omega), if_pos (by omega),
      Nat.add_sub_cancel]
  · have hsymbol := (hr.codeOf hcode (by omega)).2 n (by simp only [symbolCount, RS_M]; omega)
    rw [← hsymbol, readSymbol]
    refine Mem.take_eq_of_bits fun j hj => ?_
    simp only [ADV_N_LOG2]
    rw [BitMap.bit_copyTo, if_pos (by omega), hget _ (by omega), if_neg (by omega), hheader, if_neg (by omega),
      if_pos (by omega), hencoder]
    congr 1
    omega
  · have hstart16 : segmentStart P ec n = 9 + 8 * RS_W P ec + 8 * RS_W P ec := by
      rw [segmentStart, if_pos hfirst, ADV_N_LOG2]
    rw [readSymbol]
    refine Mem.take_eq_of_bits fun j hj => ?_
    simp only [ADV_N_LOG2]
    rw [BitMap.bit_copyTo, if_pos (by omega), hget _ (by omega), if_neg (by omega), hheader,
      if_pos ⟨hfirst, by omega, by omega⟩, hprev]
    congr 1
    omega

theorem broadcast_carries (hvalues : ConfirmValues P) (hcode : Code g P ec parts) (hsender : Built g parts sender)
    (hset : sender.advertisedSet.length ≤ maxAdvert sender.confirmScheme.type) {n : Nat} (hn : n < ADV_N) :
    Carries P ec sha256 sender.advertisedSet sender.dhExchange.getPublicX (storeSymbol sender.dhEncoder.partSymbols n)
      (sender.prevSymbol n) n (BitMap.ofMem (31 * 8) (Mem.ofList (broadcast sha256 env sender n))) := by
  obtain ⟨hstart, _⟩ := segmentStart_add_size hvalues ec n
  obtain ⟨hencoder, hprev, _⟩ := senderAt_spec sha256 env sender n
  obtain ⟨_, _, hexchange, hadvertised, hscheme, hready⟩ := senderAt_spec sha256 env sender (n + 1)
  have hready := hready (Nat.succ_pos n)
  rw [Nat.add_sub_cancel] at hready
  have hbuilt : ∀ m, Built g parts ((env m).apply (senderAt sha256 env sender m)) := by
    intro m
    induction m with
    | zero => exact hsender.base _
    | succ m ih => exact (ih.generateAdvert (env m).rand m).base _
  obtain ⟨hnumber, hsymbol, hprevSymbol⟩ := (hbuilt n).header hvalues hcode hready.isFilter hn
  refine ⟨hnumber, hsymbol.trans (congrArg (fun e : RSErasureEncoder => storeSymbol e.partSymbols n) hencoder),
    fun hfirst => ?_, fun bloom hbloom v hv hholds => ?_⟩
  · exact (hprevSymbol hfirst).trans
      (congrArg (fun symbols : List Byte => ((Mem.ofList symbols).add (n * RS_W P ec)).take (RS_W P ec)) hprev)
  · refine setSegment_holds hbloom hready.isFilter (fun j hj => ?_) hholds ?_
    · rw [← BitMap.get_eq_bit]
      refine (get_received hvalues hready.isFilter (by omega)).trans ?_
      rw [if_pos (by omega), Nat.add_sub_cancel_left]
      rfl
    · have hheld := hready.holds v (by rw [hadvertised, hscheme, List.take_of_length_le hset]; exact hv)
      rw [hexchange] at hheld
      exact hheld

/-- The key as the receiver decodes it. -/
abbrev publicBlock (r : EbNRadioBT4 P ec) : List Byte := r.dhExchange.getPublicX.take (RS_K P ec * RS_W P ec)

theorem filterHash_publicBlock (hvalues : ConfirmValues P) (r : EbNRadioBT4 P ec) (bloomNum : Nat) (v : LinkValue) :
    filterHash sha256 ec (Mem.ofList r.publicBlock) bloomNum v
      = filterHash sha256 ec r.dhExchange.getPublicX bloomNum v := by
  have hkey := (size_facts hvalues ec).1
  have hbits : ∀ j < ec.keySize, (Mem.ofList r.publicBlock).bit j = r.dhExchange.getPublicX.bit j :=
    fun j hj => Mem.bit_ofList_take (by rw [Nat.mul_comm (RS_K P ec), hkey]; exact hj)
  rw [filterHash, filterHash, hashPrefix_congr ADV_N_LOG2 bloomNum hbits]

variable (sha256 env) in
theorem Built.carries (hvalues : ConfirmValues P) (hcode : Code g P ec parts) (hsender : Built g parts sender)
    (hset : sender.advertisedSet.length ≤ maxAdvert sender.confirmScheme.type) {n : Nat} (hn : n < ADV_N) :
    Carries P ec sha256 sender.advertisedSet (Mem.ofList sender.publicBlock)
      (storeSymbol sender.dhEncoder.partSymbols n) (sender.prevSymbol n) n
      (BitMap.ofMem (31 * 8) (Mem.ofList (broadcast sha256 env sender n))) := by
  obtain ⟨hnumber, hsymbol, hprev, hsegment⟩ :=
    broadcast_carries hvalues hcode hsender hset hn
  refine ⟨hnumber, hsymbol, hprev, fun bloom hbloom v hv => ?_⟩
  rw [filterHash_publicBlock hvalues]
  exact hsegment bloom hbloom v hv

/-- After a change of epoch these are the leftover symbols of the epoch that ended. -/
theorem prevSymbol_changeEpoch (hcode : Code g P ec parts) (hsender : Built g parts sender) (hK : 2 ≤ RS_K P ec)
    (key : ec.Key) (randomAddress : Address) {n : Nat} (hn : n < RS_K P ec - 1) :
    (changeEpoch g sender key randomAddress).prevSymbol n
      = storeSymbol sender.dhEncoder.partSymbols (n + RS_K P ec + RS_M P ec) := by
  obtain ⟨_, _, _, hprev, _⟩ := changeEpoch_fields (g := g) (r := sender) key randomAddress
  have hlength : ∀ k, ((sender.dhEncoder.getSymbol (RS_K P ec + RS_M P ec + k)).take (RS_W P ec)).length = RS_W P ec :=
    fun k => Mem.length_take _ _
  have hall : sender.leftoverSymbols.length = (RS_K P ec - 1) * RS_W P ec := length_flatMap_range hlength _
  have hindex : n + RS_K P ec + RS_M P ec = RS_K P ec + RS_M P ec + n := by omega
  rw [hindex, ← (hsender.codeOf hcode (by omega)).2 _ (by simp only [symbolCount]; omega)]
  refine (Mem.take_congr fun b hb => ?_).trans (take_flatMap hlength hn)
  have hle : (n + 1) * RS_W P ec ≤ (RS_K P ec - 1) * RS_W P ec := Nat.mul_le_mul_right _ hn
  rw [Nat.succ_mul] at hle
  rw [hprev, Mem.add, Mem.add, Mem.ofList, Mem.ofList, List.getD_append _ _ _ _ (by omega), leftoverSymbols]

end Sddr.Radio.EbNRadioBT4

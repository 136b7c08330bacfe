import Sddr.Radio.Lemmas.ECDH
import Sddr.Radio.Lemmas.Filters
import Sddr.Radio.Theorems.BT4

/-! # Main results about the filters that a radio sends -/

namespace Sddr.Radio
open Sddr.Lib Sddr.Codec Sddr.Device Sddr.Erasure

/-- If no X coordinate returns, no prefix is used for two filters. -/
theorem sentIn_onePerPrefix {P : Type} [FloatOps P] (ec : Ec) (sha256 : List Byte → Digest)
    (confirmScheme : ConfirmScheme P) (memoryScheme : MemoryScheme) (now : Time) (key : ec.Key) (address : Address) :
    (∀ actions : List (EbNRadioBT2.Action P ec),
      ((key :: actions.filterMap EbNRadioBT2.Action.newKey?).map ec.xCoord).Nodup →
        let sent := EbNRadioBT2.sentIn sha256 (.new confirmScheme memoryScheme now key address) actions
        (∀ b ∈ sent, b.advertNum < BT2.ADV_N) ∧
          OnePerPrefix EbNRadioBT2.Sent.pre (EbNRadioBT2.Sent.bloom sha256) sent) ∧
      ∀ (g : Galois) (r : EbNRadioBT4 P ec) (actions : List (EbNRadioBT4.Action P ec)),
        EbNRadioBT4.new g confirmScheme memoryScheme now key address = some r →
          ((key :: actions.filterMap EbNRadioBT4.Action.newKey?).map ec.xCoord).Nodup →
            let sent := EbNRadioBT4.sentIn sha256 g r actions
            (∀ b ∈ sent, b.advertNum < BT4.ADV_N ∧ b.Fresh sha256) ∧
              OnePerPrefix EbNRadioBT4.Sent.pre (EbNRadioBT4.Sent.bloom sha256) sent ∧
              (∀ b ∈ sent, ∃ other ∈ sent, other.advertNum % BT4.BF_B ≠ b.advertNum % BT4.BF_B ∧
                other.pre = b.pre ∧ other.bloom sha256 = b.bloom sha256) := by
  constructor
  · intro actions hkeys sent
    exact ⟨fun b hb => EbNRadioBT2.advertNum_lt hb, EbNRadioBT2.onePerPrefix hkeys⟩
  · intro g r actions hnew hkeys sent
    obtain ⟨hkey, hzero, -⟩ := EbNRadioBT4.new_fields g hnew
    have heven : r.advertNum % BT4.BF_B = 0 := by
      rw [hzero]
      rfl
    have hpaired : ∀ b ∈ sent, EbNRadioBT4.Paired sha256 sent b := fun b hb =>
      EbNRadioBT4.sentIn_paired heven actions hb
    refine ⟨fun b hb => ⟨EbNRadioBT4.advertNum_lt heven hb, (hpaired b hb).fresh⟩,
      EbNRadioBT4.onePerPrefix heven ?_, fun b hb => (hpaired b hb).other⟩
    rwa [hkey]

/-- Two epochs of each radio. -/
theorem sentIn_onePerPrefix_two :
    let actions : List (EbNRadioBT2.Action LogRate byteCurve) :=
      [.start id fun _ => 0, .discover id, .changeEpoch id (fun _ => 0) (9 : Byte) fun _ => 0, .discover id]
    let sent := EbNRadioBT2.sentIn (fun _ => 0) (.new ⟨.Passive, some 4⟩ .Standard 0 (5 : Byte) []) actions
    ((∀ b ∈ sent, b.advertNum < BT2.ADV_N) ∧
        OnePerPrefix EbNRadioBT2.Sent.pre (EbNRadioBT2.Sent.bloom fun _ => 0) sent) ∧
      ∃ r : EbNRadioBT4 LogRate byteCurve,
        EbNRadioBT4.new galoisShift ⟨.Passive, some 4⟩ .Standard 0 (5 : Byte) [] = some r ∧
          let actions : List (EbNRadioBT4.Action LogRate byteCurve) :=
            [.start id id fun _ => 0, .discover id id, .changeEpoch (9 : Byte) [], .discover id id]
          let sent := EbNRadioBT4.sentIn (fun _ => 0) galoisShift r actions
          (∀ b ∈ sent, b.advertNum < BT4.ADV_N ∧ b.Fresh fun _ => 0) ∧
            OnePerPrefix EbNRadioBT4.Sent.pre (EbNRadioBT4.Sent.bloom fun _ => 0) sent ∧
            (∀ b ∈ sent, ∃ other ∈ sent, other.advertNum % BT4.BF_B ≠ b.advertNum % BT4.BF_B ∧
              other.pre = b.pre ∧ other.bloom (fun _ => 0) = b.bloom fun _ => 0) := by
  intro actions sent
  obtain ⟨hBT2, hBT4⟩ := sentIn_onePerPrefix (P := LogRate) byteCurve (fun _ => 0) ⟨.Passive, some 4⟩ .Standard 0
    (5 : Byte) []
  obtain ⟨r, hr⟩ := EbNRadioBT4.new_logRate ⟨.Passive, some 4⟩ .Standard 0 (5 : Byte) []
  exact ⟨hBT2 actions (by decide), r, hr, hBT4 galoisShift r _ hr (by decide)⟩

/-! ## Keys with the same X coordinate -/

/-- A curve like `byteCurve` where a point has a Y coordinate too. -/
def signedCurve : Ec where
  keySize := 192
  supported := byteCurve.supported
  Key := Bool × Byte
  Point := Bool × Byte
  publicKey k := k
  point2oct p := (if p.1 then 3 else 2) :: p.2 :: List.replicate 23 0
  oct2point octets :=
    if octets.getD 0 0 = 2 then some (false, octets.getD 1 0)
    else if octets.getD 0 0 = 3 then some (true, octets.getD 1 0) else none
  computeKey p k := some (p.2 * k.2 :: List.replicate 23 0)

theorem signedCurve_laws : signedCurve.Laws where
  length_point2oct _ := rfl
  oct2point_point2oct p := by
    rcases p with ⟨y, x⟩
    cases y <;> rfl
  lead_oct2point octets p h := by
    change (if octets.getD 0 0 = 2 then some (false, octets.getD 1 0)
      else if octets.getD 0 0 = 3 then some (true, octets.getD 1 0) else none) = some p at h
    split_ifs at h with htwo hthree
    · exact Or.inl htwo
    · exact Or.inr hthree
  computeKey_symm k k' := congrArg (fun b => some (b :: List.replicate 23 0)) (BitVec.mul_comm k.2 k'.2)
  computeKey_isSome _ _ := rfl

/-- Two public keys that differ in the Y coordinate only lead to two filters with one prefix. -/
theorem sentIn_onePerPrefix_fails :
    signedCurve.Laws ∧
      let keys : List signedCurve.Key := [(false, (5 : Byte)), (true, (5 : Byte))]
      (keys.map fun key => signedCurve.point2oct (signedCurve.publicKey key)).Nodup ∧
        ¬ OnePerPrefix EbNRadioBT2.Sent.pre (EbNRadioBT2.Sent.bloom fun _ => 0)
          (EbNRadioBT2.sentIn (fun _ => 0)
            (.new ⟨.Active, none⟩ .Standard 0 (false, (5 : Byte)) [] : EbNRadioBT2 LogRate signedCurve)
            [.start (fun _ => 0) fun _ => 0, .changeEpoch (fun _ => 1) (fun _ => 0) (true, (5 : Byte)) fun _ => 0]) := by
  refine ⟨signedCurve_laws, by decide, fun hone => ?_⟩
  have hX : (ECDH.generateSecret (false, (5 : Byte)) : ECDH signedCurve).getPublicX
      = (ECDH.generateSecret (true, (5 : Byte)) : ECDH signedCurve).getPublicX := by
    funext i
    unfold ECDH.getPublicX Mem.add
    rw [Nat.add_comm]
    rfl
  have hbloom := hone _ List.mem_cons_self _ (List.mem_cons_of_mem _ List.mem_cons_self)
    (congrArg (fun publicX => (hashPrefix BT2.ADV_N_LOG2 0 publicX 192).toBytes) hX)
  unfold EbNRadioBT2.Sent.bloom EbNRadioBT2.advertBloom at hbloom
  rw [fillBloomFilter_random rfl rfl, fillBloomFilter_random rfl rfl] at hbloom
  exact BloomFilter.addRandom_ne (by decide) (by decide) (BitMap.get_new _ _) hbloom

/-! ## Handshakes -/

/-- The filter of a handshake shares its prefix with just one filter number under its key, which is the first octet of
the public key, and with the other handshakes under that key. -/
theorem EbNRadioBT4.handshake_pre_iff {P : Type} [FloatOps P] {ec : Ec} (hlaws : ec.Laws)
    (sha256 : List Byte → Digest) (g : Galois) (confirmScheme : ConfirmScheme P) (memoryScheme : MemoryScheme)
    (now : Time) (key : ec.Key) (randomAddress : Address) (r : EbNRadioBT4 P ec)
    (hnew : new g confirmScheme memoryScheme now key randomAddress = some r) (events : List (TalkerEvent P ec))
    (h : Handshake P ec) (hh : .handshake h ∈ filtersIn sha256 g ⟨r, none⟩ events) :
    (h.lead = 2 ∨ h.lead = 3) ∧
      (∀ b, .advert b ∈ filtersIn sha256 g ⟨r, none⟩ events →
        (h.pre = b.pre ↔ b.radio.dhExchange.publicX = h.dhExchange.publicX ∧ b.bloomNum = h.lead)) ∧
      ∀ h', .handshake h' ∈ filtersIn sha256 g ⟨r, none⟩ events →
        (h.pre = h'.pre ↔ h.dhExchange.localPublic = h'.dhExchange.localPublic) := by
  obtain ⟨hkey₀, hzero, -⟩ := new_fields g hnew
  have hstart : Talker.Generated ⟨r, none⟩ := ⟨⟨key, hkey₀⟩, fun _ hcopy => by cases hcopy⟩
  obtain ⟨key, hkey⟩ := generated_of_mem hstart hh
  obtain ⟨hpre, hlead⟩ := Handshake.pre_public hlaws hkey
  refine ⟨hlead, fun b hb => ?_, fun h' hh' => ?_⟩
  · have hnum : b.bloomNum < BT4.ADV_N / BT4.BF_B := bloomNum_lt (by rw [hzero]; rfl) (advert_mem hb)
    exact Handshake.pre_eq_advert (Nat.lt_trans hnum (by decide))
  · obtain ⟨key', hkey'⟩ := generated_of_mem hstart hh'
    rw [hpre, (Handshake.pre_public hlaws hkey').1]

/-- An outgoing connection before the first adverts. -/
theorem EbNRadioBT4.handshake_pre_iff_first :
    ∃ r : EbNRadioBT4 LogRate byteCurve, new galoisShift ⟨.Active, none⟩ .Standard 0 (5 : Byte) [] = some r ∧
      let h : Handshake LogRate byteCurve := ⟨id, r, r.dhExchange⟩
      let sent := filtersIn (fun _ => 0) galoisShift ⟨r, none⟩ [.connect id, .action (.discover id id)]
      (h.lead = 2 ∨ h.lead = 3) ∧
        (∀ b, .advert b ∈ sent →
          (h.pre = b.pre ↔ b.radio.dhExchange.publicX = h.dhExchange.publicX ∧ b.bloomNum = h.lead)) ∧
        ∀ h', .handshake h' ∈ sent → (h.pre = h'.pre ↔ h.dhExchange.localPublic = h'.dhExchange.localPublic) := by
  obtain ⟨r, hr⟩ := new_logRate ⟨.Active, none⟩ .Standard 0 (5 : Byte) []
  exact ⟨r, hr, handshake_pre_iff byteCurve_laws (fun _ => 0) galoisShift _ _ _ _ _ r hr
    [.connect id, .action (.discover id id)] _ List.mem_cons_self⟩

/-- The first octet of the public key is the number of the third filter. -/
theorem EbNRadioBT4.ownPrefix_third {r : EbNRadioBT4 LogRate byteCurve} (hnum : r.advertNum = 4)
    (hkey : r.dhExchange = ECDH.generateSecret (5 : Byte)) :
    ¬ OwnPrefix (fun _ => 0) (filtersIn (fun _ => 0) galoisShift ⟨r, none⟩
      [.action (.discover id id), .connect id]) := by
  intro hown
  have hadvert : ⟨id, { r with toEbNRadio := r.forget }⟩ ∈ sentAt (fun _ => 0) id id { r with toEbNRadio := r.forget } :=
    first_mem _ id id (by rw [hnum]; decide)
  have happart := hown _ (List.mem_append_left _ (List.mem_map_of_mem hadvert)) _
    (List.mem_append_right _ List.mem_cons_self)
  have hbloomNum : r.advertNum / BT4.BF_B = 2 := by
    rw [hnum]
    rfl
  have hkey₃ := (discover_dhExchange (fun _ => 0) id id r).trans hkey
  refine happart (Eq.symm ((Handshake.pre_eq_advert ?_).mpr ⟨?_, hbloomNum.trans ?_⟩))
  · exact Nat.lt_of_le_of_lt (Nat.le_of_eq hbloomNum) (by decide)
  · exact congrArg ECDH.publicX (discover_dhExchange (fun _ => 0) id id r).symm
  · exact congrArg (fun dh : ECDH byteCurve => (dh.getPublic 0).toNat) hkey₃.symm

/-- The filter of a handshake has the prefix of the third filter of the epoch, and that of a later handshake. -/
theorem EbNRadioBT4.ownPrefix_fails :
    ∃ r : EbNRadioBT4 LogRate byteCurve, new galoisShift ⟨.Active, none⟩ .Standard 0 (5 : Byte) [] = some r ∧
      ¬ OwnPrefix (fun _ => 0) (filtersIn (fun _ => 0) galoisShift ⟨r, none⟩
        [.action (.start id id fun _ => 0), .action (.discover id id), .action (.discover id id), .connect id]) ∧
      ¬ OwnPrefix (fun _ => 0) (filtersIn (fun _ => 0) galoisShift ⟨r, none⟩
        [.connect fun _ => 0, .connect fun _ => 1]) := by
  obtain ⟨r, hr⟩ := new_logRate ⟨.Active, none⟩ .Standard 0 (5 : Byte) []
  obtain ⟨hkey, hzero, hbase⟩ := new_fields galoisShift hr
  refine ⟨r, hr, fun hown => ?_, fun hown => ?_⟩
  · have hnum₁ : (initializeRadio (fun _ => 0) id id (fun _ => 0) r).advertNum = 2 :=
      changeAdvert_next _ hzero (by decide)
    have hnum₂ : (EbNRadioBT4.discover (fun _ => 0) id id
        (initializeRadio (fun _ => 0) id id (fun _ => 0) r)).advertNum = 4 := changeAdvert_next _ hnum₁ (by decide)
    refine ownPrefix_third hnum₂ ?_ fun f hf f' hf' => hown f ?_ f' ?_
    · rw [discover_dhExchange]
      exact (changeAdvert_fields _ id id _).2.trans hkey
    · exact List.mem_append_right _ (List.mem_append_right _ hf)
    · exact List.mem_append_right _ (List.mem_append_right _ hf')
  · have hscheme : r.confirmScheme.type.hasPassive = false := by
      rw [hbase]
      rfl
    have hset : r.advertisedSet = [] := by
      rw [hbase]
      rfl
    have hsame := hown _ List.mem_cons_self _ (List.mem_cons_of_mem _ List.mem_cons_self)
    refine hsame (fun heq => ?_) rfl
    have hfilled : ∀ rand, activeBloom (fun _ => 0) rand r r.dhExchange
        = (BloomFilter.new BF_N BT4.ACTIVE_BF_M BT4.ACTIVE_BF_K : BloomFilter LogRate).addRandom rand BF_N :=
      fun rand => fillBloomFilter_random hscheme hset _ rand _ _ _
    exact BloomFilter.addRandom_ne (by decide) (by decide) (BitMap.get_new _ _)
      ((hfilled _).symm.trans (heq.trans (hfilled _)))

end Sddr.Radio

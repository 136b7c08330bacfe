import Sddr.Radio.Filters
import Sddr.Radio.Lemmas.EbNRadio

/-!
# No prefix is used for two filters

The numbers of the filters are taken as in `Numbering`, so a number and a key belong to one call of `changeAdvert`.
-/

namespace Sddr.Radio
open Sddr.Lib Sddr.Codec Sddr.Device

/-- A prefix determines the number and the X coordinate. -/
theorem ECDH.hashPrefix_inj {ec : Ec} {numBits num num' : Nat} {dh dh' : ECDH ec} (hnum : num < 2 ^ numBits)
    (hnum' : num' < 2 ^ numBits)
    (h : (hashPrefix numBits num dh.getPublicX ec.keySize).toBytes
      = (hashPrefix numBits num' dh'.getPublicX ec.keySize).toBytes) : dh.publicX = dh'.publicX ∧ num = num' := by
  obtain ⟨hbytes, -, -⟩ := Ec.keySize_facts ec
  obtain ⟨hnums, hbits⟩ := Radio.hashPrefix_inj hnum hnum' h
  refine ⟨Mem.take_eq_of_bits fun j hj => hbits j ?_, hnums⟩
  omega

/-! ## Bluetooth 2 -/

namespace EbNRadioBT2
open BT2

variable {P : Type} [FloatOps P] {ec : Ec} {sha256 : List Byte → Digest}

/-- What `changeAdvert` gives to `hci_` is what it sends. -/
theorem changeAdvert_sent (rand : Nat → Nat) (r : EbNRadioBT2 P ec) :
    changeAdvert sha256 rand r = (sentAt rand r).foldl
      (fun r b => { r with extInquiryResponse := b.advert sha256, advertNum := b.advertNum + 1 }) r := by
  unfold changeAdvert sentAt
  split_ifs <;> rfl

/-- The events at the numbers of an action. -/
def Action.events : Action P ec → List (Numbering.Event (List Byte))
  | start _ _ => [.take]
  | discover _ => [.take]
  | changeEpoch _ _ key _ => [.rekey (ec.xCoord key), .take]
  | other _ => []

/-- The key and the number of the next advert. -/
def numbering (r : EbNRadioBT2 P ec) : Numbering (List Byte) := ⟨r.dhExchange.publicX, r.advertNum⟩

/-- The key and the number of an advert. -/
def Sent.nonce (b : Sent P ec) : List Byte × Nat := (b.radio.dhExchange.publicX, b.advertNum)

variable (sha256) in
theorem sentAt_nonce (rand : Nat → Nat) (r : EbNRadioBT2 P ec) (events : List (Numbering.Event (List Byte))) :
    (sentAt rand r).map Sent.nonce ++ (changeAdvert sha256 rand r).numbering.taken ADV_N events
      = r.numbering.taken ADV_N (.take :: events) := by
  unfold sentAt changeAdvert
  split_ifs with hlast
  · exact (Numbering.taken_full hlast).symm
  · have hnext : r.numbering.next < ADV_N := Nat.not_le.mp hlast
    exact (Numbering.taken_take hnext).symm

variable (sha256) in
theorem sentIn_nonce (r : EbNRadioBT2 P ec) (actions : List (Action P ec)) :
    (sentIn sha256 r actions).map Sent.nonce = r.numbering.taken ADV_N (actions.flatMap Action.events) := by
  induction actions generalizing r with
  | nil => rfl
  | cons action actions ih =>
      rw [sentIn, List.map_append, ih, List.flatMap_cons]
      cases action with
      | start rand random => exact sentAt_nonce sha256 rand _ _
      | discover rand => exact sentAt_nonce sha256 rand _ _
      | changeEpoch rand next key random => exact sentAt_nonce sha256 rand _ _
      | other base => rfl

omit [FloatOps P] in
theorem newKeys_events (actions : List (Action P ec)) :
    (actions.flatMap Action.events).filterMap Numbering.Event.newKey?
      = (actions.filterMap Action.newKey?).map ec.xCoord := by
  induction actions with
  | nil => rfl
  | cons action actions ih =>
      rw [List.flatMap_cons, List.filterMap_append, ih]
      cases action <;> rfl

/-- An advert is determined by its key and its number. -/
theorem sentIn_inj {r : EbNRadioBT2 P ec} {actions : List (Action P ec)}
    (hkeys : (r.dhExchange.publicX :: (actions.filterMap Action.newKey?).map ec.xCoord).Nodup)
    {b b' : Sent P ec} (hb : b ∈ sentIn sha256 r actions) (hb' : b' ∈ sentIn sha256 r actions)
    (h : b.nonce = b'.nonce) : b = b' := by
  rw [← newKeys_events] at hkeys
  have hnodup := Numbering.nodup_taken ADV_N hkeys (s := r.numbering)
  rw [← sentIn_nonce sha256] at hnodup
  exact List.inj_on_of_nodup_map hnodup hb hb' h

theorem advertNum_lt {r : EbNRadioBT2 P ec} {actions : List (Action P ec)} {b : Sent P ec}
    (hb : b ∈ sentIn sha256 r actions) : b.advertNum < ADV_N := by
  have hmem : b.nonce ∈ r.numbering.taken ADV_N (actions.flatMap Action.events) := by
    rw [← sentIn_nonce sha256]
    exact List.mem_map_of_mem hb
  exact (Numbering.mem_taken hmem).1

theorem onePerPrefix {r : EbNRadioBT2 P ec} {actions : List (Action P ec)}
    (hkeys : (r.dhExchange.publicX :: (actions.filterMap Action.newKey?).map ec.xCoord).Nodup) :
    OnePerPrefix Sent.pre (Sent.bloom sha256) (sentIn sha256 r actions) := by
  intro b hb b' hb' hpre
  have hlimit : ADV_N ≤ 2 ^ ADV_N_LOG2 := by decide
  have hnonce : b.nonce = b'.nonce := by
    obtain ⟨hkey, hnum⟩ := ECDH.hashPrefix_inj (Nat.lt_of_lt_of_le (advertNum_lt hb) hlimit)
      (Nat.lt_of_lt_of_le (advertNum_lt hb') hlimit) hpre
    exact Prod.ext hkey hnum
  rw [sentIn_inj hkeys hb hb' hnonce]

end EbNRadioBT2

/-! ## Bluetooth 4 -/

namespace EbNRadioBT4
open Sddr.Erasure BT4

variable {P : Type} [FloatOps P] {ec : Ec} (sha256 : List Byte → Digest) (g : Galois)

/-- What `changeAdvert` gives to `hci_` is what it sends. -/
theorem changeAdvert_sent (rand scanRand : Nat → Nat) (r : EbNRadioBT4 P ec) (hlt : r.advertNum < ADV_N) :
    (sentAt sha256 rand scanRand r).map (Sent.advert sha256)
      = [(changeAdvert sha256 rand scanRand r).advertData, (changeAdvert sha256 rand scanRand r).scanResponseData] := by
  unfold sentAt changeAdvert
  rw [if_neg (Nat.not_le.mpr hlt), if_neg (Nat.not_le.mpr hlt)]
  have hkept : (setScanResponseData sha256 scanRand (setAdvertData sha256 rand r)).advertData
      = (setAdvertData sha256 rand r).advertData := by
    unfold setScanResponseData generateAdvert updateBloom
    dsimp only
    split_ifs <;> rfl
  rw [hkept]
  rfl

/-- The key and the number of the next filter. -/
def numbering (r : EbNRadioBT4 P ec) : Numbering (List Byte) := ⟨r.dhExchange.publicX, r.advertNum / BF_B⟩

/-- The key and the number of the filter of an advert. -/
def Sent.nonce (b : Sent P ec) : List Byte × Nat := (b.radio.dhExchange.publicX, b.bloomNum)

def Sent.isFirst (b : Sent P ec) : Bool := b.advertNum % BF_B = 0

theorem new_fields {confirmScheme : ConfirmScheme P} {memoryScheme : MemoryScheme} {now : Time} {key : ec.Key}
    {randomAddress : Address} {r : EbNRadioBT4 P ec}
    (h : new g confirmScheme memoryScheme now key randomAddress = some r) :
    r.dhExchange = ECDH.generateSecret key ∧ r.advertNum = 0 ∧
      r.toEbNRadio = EbNRadio.new confirmScheme memoryScheme now := by
  obtain ⟨_, -, rfl⟩ := Option.map_eq_some_iff.mp h
  exact ⟨rfl, rfl, rfl⟩

/-! ### One call of changeAdvert -/

/-- The radio between the two halves of `changeAdvert`. -/
theorem setAdvertData_fields (rand : Nat → Nat) (r : EbNRadioBT4 P ec) :
    (setAdvertData sha256 rand r).advertNum = r.advertNum + 1 ∧
      (setAdvertData sha256 rand r).dhExchange = r.dhExchange := by
  unfold setAdvertData generateAdvert updateBloom
  dsimp only
  split_ifs <;> exact ⟨rfl, rfl⟩

theorem setScanResponseData_fields (rand : Nat → Nat) (r : EbNRadioBT4 P ec) :
    (setScanResponseData sha256 rand r).advertNum = r.advertNum + 1 ∧
      (setScanResponseData sha256 rand r).dhExchange = r.dhExchange := by
  unfold setScanResponseData generateAdvert updateBloom
  dsimp only
  split_ifs <;> exact ⟨rfl, rfl⟩

/-- `changeAdvert` takes two numbers, or none at the end of the epoch. -/
theorem changeAdvert_fields (rand scanRand : Nat → Nat) (r : EbNRadioBT4 P ec) :
    (changeAdvert sha256 rand scanRand r).advertNum = (if r.advertNum ≥ ADV_N then r.advertNum else r.advertNum + 2) ∧
      (changeAdvert sha256 rand scanRand r).dhExchange = r.dhExchange := by
  obtain ⟨hnum, hkey⟩ := setAdvertData_fields sha256 rand r
  obtain ⟨hnum', hkey'⟩ := setScanResponseData_fields sha256 scanRand (setAdvertData sha256 rand r)
  unfold changeAdvert
  split_ifs
  · exact ⟨rfl, rfl⟩
  · exact ⟨by rw [hnum', hnum], hkey'.trans hkey⟩

theorem changeAdvert_next {rand scanRand : Nat → Nat} {r : EbNRadioBT4 P ec} {n : Nat} (hn : r.advertNum = n)
    (hlt : n < ADV_N) : (changeAdvert sha256 rand scanRand r).advertNum = n + 2 := by
  rw [(changeAdvert_fields sha256 rand scanRand r).1, hn, if_neg (Nat.not_le.mpr hlt)]

theorem discover_dhExchange (rand scanRand : Nat → Nat) (r : EbNRadioBT4 P ec) :
    (EbNRadioBT4.discover sha256 rand scanRand r).dhExchange = r.dhExchange :=
  (changeAdvert_fields sha256 rand scanRand { r with toEbNRadio := r.forget }).2

/-- A filter begins at an even number. -/
theorem updateBloom_even {rand : Nat → Nat} {r : EbNRadioBT4 P ec} {n : Nat} (h : n % BF_B = 0) :
    (updateBloom sha256 rand r n).advertBloomNum = n / BF_B ∧
      let empty := segmentedBloom P ec (n / BF_B) false
      (updateBloom sha256 rand r n).advertBloom =
        { empty with
          toBloomFilter := fillBloomFilter sha256 rand r.toEbNRadio empty.toBloomFilter
            (r.prefixOf (n / BF_B) r.dhExchange.getPublicX).toBytes true } := by
  unfold updateBloom
  dsimp only
  rw [if_pos (Or.inl h)]
  exact ⟨rfl, rfl⟩

/-- Otherwise it is kept if it has the right number. -/
theorem updateBloom_odd {rand : Nat → Nat} {r : EbNRadioBT4 P ec} {n : Nat} (h : n % BF_B ≠ 0)
    (hnum : r.advertBloomNum = n / BF_B) : updateBloom sha256 rand r n = r := by
  unfold updateBloom
  dsimp only
  rw [if_neg]
  rintro (heven | hother)
  · exact h heven
  · exact hother hnum.symm

variable {rand scanRand : Nat → Nat} {r : EbNRadioBT4 P ec}

/-- The first advert of a filter has a new one, filled under its prefix. -/
theorem first_fresh (heven : r.advertNum % BF_B = 0) : Sent.Fresh sha256 ⟨rand, r⟩ :=
  ⟨rand, r.toEbNRadio, (updateBloom_even sha256 heven).2⟩

variable (rand scanRand) in
/-- The second advert takes the filter of the first. -/
theorem second_spec (heven : r.advertNum % BF_B = 0) :
    let first : Sent P ec := ⟨rand, r⟩
    let second : Sent P ec := ⟨scanRand, setAdvertData sha256 rand r⟩
    second.advertNum = first.advertNum + 1 ∧ second.nonce = first.nonce ∧ second.pre = first.pre ∧
      second.bloom sha256 = first.bloom sha256 := by
  intro first second
  obtain ⟨hnum, hkey⟩ := setAdvertData_fields sha256 rand r
  have hbloomNum : second.bloomNum = first.bloomNum := by
    show (setAdvertData sha256 rand r).advertNum / BF_B = r.advertNum / BF_B
    rw [hnum]
    simp only [BF_B] at heven ⊢
    omega
  have hodd : (setAdvertData sha256 rand r).advertNum % BF_B ≠ 0 := by
    rw [hnum]
    simp only [BF_B] at heven ⊢
    omega
  have hcached : (setAdvertData sha256 rand r).advertBloomNum = (setAdvertData sha256 rand r).advertNum / BF_B :=
    (updateBloom_even sha256 heven).1.trans hbloomNum.symm
  refine ⟨hnum, Prod.ext (congrArg ECDH.publicX hkey) hbloomNum, ?_, ?_⟩
  · show (hashPrefix _ second.bloomNum (setAdvertData sha256 rand r).dhExchange.getPublicX _).toBytes = _
    rw [hbloomNum, hkey]
    rfl
  · have hkept : updateBloom sha256 scanRand (setAdvertData sha256 rand r) second.advertNum
        = setAdvertData sha256 rand r := updateBloom_odd sha256 hodd hcached
    have hcache : (setAdvertData sha256 rand r).advertBloom = first.bloom sha256 := rfl
    exact (congrArg advertBloom hkept).trans hcache

/-! ### Runs -/

/-- The events at the numbers of an action. -/
def Action.events : Action P ec → List (Numbering.Event (List Byte))
  | start _ _ _ => [.take]
  | discover _ _ => [.take]
  | changeEpoch key _ => [.rekey (ec.xCoord key)]
  | other _ => []

variable (rand scanRand r) in
theorem sentAt_nonce (heven : r.advertNum % BF_B = 0) (events : List (Numbering.Event (List Byte))) :
    ((sentAt sha256 rand scanRand r).filter Sent.isFirst).map Sent.nonce
        ++ (changeAdvert sha256 rand scanRand r).numbering.taken (ADV_N / BF_B) events
      = r.numbering.taken (ADV_N / BF_B) (.take :: events) := by
  obtain ⟨hnum, hkey⟩ := changeAdvert_fields sha256 rand scanRand r
  by_cases hlast : r.advertNum ≥ ADV_N
  · have hfull : ADV_N / BF_B ≤ r.numbering.next := Nat.div_le_div_right hlast
    rw [Numbering.taken_full hfull, sentAt, if_pos hlast, changeAdvert, if_pos hlast]
    rfl
  · have hnext : r.numbering.next < ADV_N / BF_B := by
      show r.advertNum / BF_B < _
      simp only [BF_B, ADV_N, EPOCH_INTERVAL, SCAN_INTERVAL] at *
      omega
    have hnumbering : (changeAdvert sha256 rand scanRand r).numbering = ⟨r.numbering.key, r.numbering.next + 1⟩ := by
      rw [numbering, hkey, hnum, if_neg hlast]
      exact congrArg (Numbering.mk _) (Nat.add_div_right _ (by decide))
    have hsecond : ¬ Sent.isFirst (⟨scanRand, setAdvertData sha256 rand r⟩ : Sent P ec) = true := by
      intro hfirst
      have hzero : (setAdvertData sha256 rand r).advertNum % BF_B = 0 := of_decide_eq_true hfirst
      rw [(setAdvertData_fields sha256 rand r).1] at hzero
      simp only [BF_B] at heven hzero
      omega
    have hfirst : Sent.isFirst (⟨rand, r⟩ : Sent P ec) = true := decide_eq_true heven
    rw [Numbering.taken_take hnext, sentAt, if_neg hlast, hnumbering, List.filter_cons_of_pos hfirst,
      List.filter_cons_of_neg hsecond]
    rfl

variable (rand scanRand) in
theorem first_mem (hlt : r.advertNum < ADV_N) : ⟨rand, r⟩ ∈ sentAt sha256 rand scanRand r := by
  rw [sentAt, if_neg (Nat.not_le.mpr hlt)]
  exact List.mem_cons_self

theorem changeAdvert_even (heven : r.advertNum % BF_B = 0) (rand scanRand : Nat → Nat) :
    (changeAdvert sha256 rand scanRand r).advertNum % BF_B = 0 := by
  rw [(changeAdvert_fields sha256 rand scanRand r).1]
  split_ifs
  · exact heven
  · exact (Nat.add_mod_right _ BF_B).trans heven

theorem Action.apply_even (heven : r.advertNum % BF_B = 0) (action : Action P ec) :
    (action.apply sha256 g r).advertNum % BF_B = 0 := by
  cases action with
  | start rand scanRand random => exact changeAdvert_even sha256 (by exact heven) rand scanRand
  | discover rand scanRand => exact changeAdvert_even sha256 (by exact heven) rand scanRand
  | changeEpoch key randomAddress => rfl
  | other base => exact heven

theorem sentIn_nonce (heven : r.advertNum % BF_B = 0) (actions : List (Action P ec)) :
    ((sentIn sha256 g r actions).filter Sent.isFirst).map Sent.nonce
      = r.numbering.taken (ADV_N / BF_B) (actions.flatMap Action.events) := by
  induction actions generalizing r with
  | nil => rfl
  | cons action actions ih =>
      rw [sentIn, List.filter_append, List.map_append, ih (action.apply_even sha256 g heven), List.flatMap_cons]
      cases action with
      | start rand scanRand random => exact sentAt_nonce sha256 rand scanRand _ (by exact heven) _
      | discover rand scanRand => exact sentAt_nonce sha256 rand scanRand _ (by exact heven) _
      | changeEpoch key randomAddress =>
          have hstart : (EbNRadioBT4.changeEpoch g r key randomAddress).numbering = ⟨ec.xCoord key, 0⟩ :=
            congrArg (Numbering.mk _) (Nat.zero_div BF_B)
          exact congrArg (Numbering.taken _ · _) hstart
      | other base => rfl

omit [FloatOps P] in
theorem newKeys_events (actions : List (Action P ec)) :
    (actions.flatMap Action.events).filterMap Numbering.Event.newKey?
      = (actions.filterMap Action.newKey?).map ec.xCoord := by
  induction actions with
  | nil => rfl
  | cons action actions ih =>
      rw [List.flatMap_cons, List.filterMap_append, ih]
      cases action <;> rfl

/-- Two adverts have one fresh filter. -/
structure Paired (sent : List (Sent P ec)) (b : Sent P ec) : Prop where
  first : ∃ f ∈ sent.filter Sent.isFirst, f.nonce = b.nonce ∧ f.bloom sha256 = b.bloom sha256
  other : ∃ o ∈ sent, o.advertNum % BF_B ≠ b.advertNum % BF_B ∧ o.pre = b.pre ∧ o.bloom sha256 = b.bloom sha256
  fresh : b.Fresh sha256

variable {sha256 g}

theorem Paired.mono {sent sent' : List (Sent P ec)} {b : Sent P ec} (h : Paired sha256 sent b)
    (hsub : ∀ b ∈ sent, b ∈ sent') : Paired sha256 sent' b := by
  obtain ⟨f, hf, hsame⟩ := h.first
  obtain ⟨o, ho, hother⟩ := h.other
  obtain ⟨hmem, hfirst⟩ := List.mem_filter.mp hf
  exact ⟨⟨f, List.mem_filter.mpr ⟨hsub f hmem, hfirst⟩, hsame⟩, ⟨o, hsub o ho, hother⟩, h.fresh⟩

theorem Sent.Fresh.of_eq {b b' : Sent P ec} (h : b.Fresh sha256) (hnonce : b'.nonce = b.nonce)
    (hpre : b'.pre = b.pre) (hbloom : b'.bloom sha256 = b.bloom sha256) : b'.Fresh sha256 := by
  obtain ⟨rand, base, hfresh⟩ := h
  have hnum : b'.bloomNum = b.bloomNum := congrArg Prod.snd hnonce
  exact ⟨rand, base, by rw [hbloom, hnum, hpre]; exact hfresh⟩

/-- The two adverts of a call of `changeAdvert`. -/
theorem sentAt_paired (heven : r.advertNum % BF_B = 0) {b : Sent P ec}
    (hb : b ∈ sentAt sha256 rand scanRand r) : Paired sha256 (sentAt sha256 rand scanRand r) b := by
  obtain ⟨hnum, hnonce, hpre, hbloom⟩ := second_spec sha256 rand scanRand heven
  unfold sentAt at hb ⊢
  split_ifs at hb ⊢
  · cases hb
  · have hodd : (r.advertNum + 1) % BF_B ≠ r.advertNum % BF_B := by
      simp only [BF_B] at heven ⊢
      omega
    have hfirst : ⟨rand, r⟩ ∈ List.filter Sent.isFirst [⟨rand, r⟩, ⟨scanRand, setAdvertData sha256 rand r⟩] :=
      List.mem_filter.mpr ⟨List.mem_cons_self, decide_eq_true heven⟩
    rcases List.mem_pair.mp hb with rfl | rfl
    · refine ⟨⟨_, hfirst, rfl, rfl⟩, ⟨_, List.mem_cons_of_mem _ List.mem_cons_self, ?_, hpre, hbloom⟩,
        first_fresh sha256 heven⟩
      rw [hnum]
      exact hodd
    · refine ⟨⟨_, hfirst, hnonce.symm, hbloom.symm⟩, ⟨_, List.mem_cons_self, ?_, hpre.symm, hbloom.symm⟩,
        (first_fresh sha256 heven).of_eq hnonce hpre hbloom⟩
      rw [hnum]
      exact hodd.symm

theorem sentIn_paired (heven : r.advertNum % BF_B = 0) (actions : List (Action P ec)) {b : Sent P ec}
    (hb : b ∈ sentIn sha256 g r actions) : Paired sha256 (sentIn sha256 g r actions) b := by
  induction actions generalizing r with
  | nil => cases hb
  | cons action actions ih =>
      rcases List.mem_append.mp hb with hnow | hlater
      · have hpaired : Paired sha256 (action.sent sha256 r) b := by
          cases action with
          | start rand scanRand random => exact sentAt_paired (by exact heven) hnow
          | discover rand scanRand => exact sentAt_paired (by exact heven) hnow
          | changeEpoch key randomAddress => cases hnow
          | other base => cases hnow
        exact hpaired.mono fun _ h => List.mem_append_left _ h
      · exact (ih (action.apply_even sha256 g heven) hlater).mono fun _ h => List.mem_append_right _ h

/-! ### Numbers and prefixes -/

variable {actions : List (Action P ec)} {b b' : Sent P ec}

theorem bloomNum_lt (heven : r.advertNum % BF_B = 0) (hb : b ∈ sentIn sha256 g r actions) :
    b.bloomNum < ADV_N / BF_B := by
  obtain ⟨f, hf, hnonce, -⟩ := (sentIn_paired heven actions hb).first
  have hmem : b.nonce ∈ r.numbering.taken (ADV_N / BF_B) (actions.flatMap Action.events) := by
    rw [← sentIn_nonce sha256 g heven, ← hnonce]
    exact List.mem_map_of_mem hf
  exact (Numbering.mem_taken hmem).1

theorem advertNum_lt (heven : r.advertNum % BF_B = 0) (hb : b ∈ sentIn sha256 g r actions) :
    b.advertNum < ADV_N := by
  have hlt : b.advertNum / BF_B < ADV_N / BF_B := bloomNum_lt heven hb
  have hdouble : ADV_N / BF_B * BF_B = ADV_N := by decide
  rwa [Nat.div_lt_iff_lt_mul (by decide), hdouble] at hlt

/-- Adverts with one key and one number of a filter have one filter. -/
theorem bloom_eq (heven : r.advertNum % BF_B = 0)
    (hkeys : (r.dhExchange.publicX :: (actions.filterMap Action.newKey?).map ec.xCoord).Nodup)
    (hb : b ∈ sentIn sha256 g r actions) (hb' : b' ∈ sentIn sha256 g r actions) (h : b.nonce = b'.nonce) :
    b.bloom sha256 = b'.bloom sha256 := by
  obtain ⟨f, hf, hnonce, hbloom⟩ := (sentIn_paired heven actions hb).first
  obtain ⟨f', hf', hnonce', hbloom'⟩ := (sentIn_paired heven actions hb').first
  rw [← newKeys_events] at hkeys
  have hnodup := Numbering.nodup_taken (ADV_N / BF_B) hkeys (s := r.numbering)
  rw [← sentIn_nonce sha256 g heven] at hnodup
  have hsame : f = f' := List.inj_on_of_nodup_map hnodup hf hf' (hnonce.trans (h.trans hnonce'.symm))
  rw [← hbloom, hsame, hbloom']

theorem onePerPrefix (heven : r.advertNum % BF_B = 0)
    (hkeys : (r.dhExchange.publicX :: (actions.filterMap Action.newKey?).map ec.xCoord).Nodup) :
    OnePerPrefix Sent.pre (Sent.bloom sha256) (sentIn sha256 g r actions) := by
  intro b hb b' hb' hpre
  have hlimit : ADV_N / BF_B ≤ 2 ^ ADV_N_LOG2 := by decide
  obtain ⟨hkey, hnum⟩ := ECDH.hashPrefix_inj (Nat.lt_of_lt_of_le (bloomNum_lt heven hb) hlimit)
    (Nat.lt_of_lt_of_le (bloomNum_lt heven hb') hlimit) hpre
  exact bloom_eq heven hkeys hb hb' (Prod.ext hkey hnum)

/-! ### Handshakes -/

omit [FloatOps P] in
theorem Sent.pre_eq (b : Sent P ec) : b.pre = BitVec.ofNat 8 b.bloomNum :: b.radio.dhExchange.publicX := by
  have hbytes := toBytes_hashPrefix b.bloomNum b.radio.dhExchange.getPublicX (ec.keySize / 8)
  rwa [(Ec.keySize_facts ec).1] at hbytes

omit [FloatOps P] in
theorem Handshake.pre_eq (h : Handshake P ec) : h.pre = h.dhExchange.getPublic 0 :: h.dhExchange.publicX :=
  Mem.take_succ _ _

omit [FloatOps P] in
/-- The prefix of a handshake is the public key. -/
theorem Handshake.pre_public (hlaws : ec.Laws) {h : Handshake P ec} {key : ec.Key}
    (hkey : h.dhExchange = ECDH.generateSecret key) :
    h.pre = h.dhExchange.localPublic ∧ (h.lead = 2 ∨ h.lead = 3) := by
  rw [Handshake.pre, Handshake.lead, hkey]
  constructor
  · have hlength : (ECDH.generateSecret key).localPublic.length = (ECDH.generateSecret key).getPublicSize :=
      hlaws.length_point2oct (ec.publicKey key)
    rw [← hlength]
    exact Mem.take_ofList _
  · have hlead := hlaws.lead_oct2point _ _ (hlaws.oct2point_point2oct (ec.publicKey key))
    exact hlead.imp (congrArg BitVec.toNat) (congrArg BitVec.toNat)

omit [FloatOps P] in
/-- The prefix of a handshake is that of one filter number. -/
theorem Handshake.pre_eq_advert {h : Handshake P ec} (hb : b.bloomNum < 2 ^ 8) :
    h.pre = b.pre ↔ b.radio.dhExchange.publicX = h.dhExchange.publicX ∧ b.bloomNum = h.lead := by
  rw [h.pre_eq, b.pre_eq, List.cons.injEq, and_comm, eq_comm, Handshake.lead]
  refine and_congr_right fun _ => ⟨fun heq => ?_, fun heq => ?_⟩
  · rw [heq, BitVec.toNat_ofNat, Nat.mod_eq_of_lt hb]
  · rw [heq, BitVec.ofNat_toNat, BitVec.setWidth_eq]

/-- Every exchange of a run has a generated key. -/
structure Talker.Generated (s : Talker P ec) : Prop where
  radio : ∃ key, s.radio.dhExchange = ECDH.generateSecret key
  copy : ∀ dhExchange ∈ s.dhExchangeCopy, ∃ key, dhExchange = ECDH.generateSecret key

theorem Action.apply_generated (h : ∃ key, r.dhExchange = ECDH.generateSecret key) (action : Action P ec) :
    ∃ key, (action.apply sha256 g r).dhExchange = ECDH.generateSecret key := by
  cases action with
  | start rand scanRand random =>
      obtain ⟨key, hkey⟩ := h
      exact ⟨key, (changeAdvert_fields sha256 rand scanRand _).2.trans hkey⟩
  | discover rand scanRand =>
      obtain ⟨key, hkey⟩ := h
      exact ⟨key, (changeAdvert_fields sha256 rand scanRand _).2.trans hkey⟩
  | changeEpoch key randomAddress => exact ⟨key, rfl⟩
  | other base => exact h

theorem Talker.Generated.apply {s : Talker P ec} (h : s.Generated) (event : TalkerEvent P ec) :
    (event.apply sha256 g s).Generated := by
  cases event with
  | action a => exact ⟨a.apply_generated h.radio, h.copy⟩
  | accept => exact ⟨h.radio, fun dhExchange hmem => Option.some.inj hmem ▸ h.radio⟩
  | answer rand => exact ⟨h.radio, fun dhExchange hmem => by cases hmem⟩
  | connect rand => exact h

variable {s : Talker P ec} {events : List (TalkerEvent P ec)}

theorem generated_of_mem (hs : s.Generated) {h : Handshake P ec} (hmem : .handshake h ∈ filtersIn sha256 g s events) :
    ∃ key, h.dhExchange = ECDH.generateSecret key := by
  induction events generalizing s with
  | nil => cases hmem
  | cons event events ih =>
      rcases List.mem_append.mp hmem with hnow | hlater
      · cases event with
        | action a =>
            obtain ⟨b, -, hb⟩ := List.mem_map.mp hnow
            cases hb
        | accept => cases hnow
        | answer rand =>
            obtain ⟨dhExchange, hcopy, hh⟩ := List.mem_map.mp hnow
            cases hh
            exact hs.copy dhExchange (Option.mem_toList.mp hcopy)
        | connect rand =>
            cases List.mem_singleton.mp hnow
            exact hs.radio
      · exact ih (hs.apply event) hlater

def TalkerEvent.action? : TalkerEvent P ec → Option (Action P ec)
  | action a => some a
  | _ => none

/-- The adverts among the filters are those of the actions. -/
theorem advert_mem (hmem : .advert b ∈ filtersIn sha256 g s events) :
    b ∈ sentIn sha256 g s.radio (events.filterMap TalkerEvent.action?) := by
  induction events generalizing s with
  | nil => cases hmem
  | cons event events ih =>
      rcases List.mem_append.mp hmem with hnow | hlater
      · cases event with
        | action a =>
            obtain ⟨b', hb', heq⟩ := List.mem_map.mp hnow
            cases heq
            exact List.mem_append_left _ hb'
        | accept => cases hnow
        | answer rand =>
            obtain ⟨_, -, heq⟩ := List.mem_map.mp hnow
            cases heq
        | connect rand => cases List.mem_singleton.mp hnow
      · have hin := ih hlater
        cases event with
        | action a => exact List.mem_append_right _ hin
        | accept => exact hin
        | answer rand => exact hin
        | connect rand => exact hin

end EbNRadioBT4

end Sddr.Radio

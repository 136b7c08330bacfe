import Sddr.Erasure.Lemmas.Shift
import Sddr.Radio.Lemmas.BT4Receiver

/-! # Main results about the BT4 radio -/

namespace Sddr.Radio.EbNRadioBT4
open Sddr.Lib Sddr.Codec Sddr.Device Sddr.Erasure BT4

/-! ## Adverts -/

theorem code_of_codable {P : Type} [FloatOps P] {ec : Ec} {g : Galois} (hvalues : ConfirmValues P)
    (hcodec : Codable g (RS_K P ec) (RS_M P ec + 2 * (RS_K P ec - 1)) (RS_W P ec)) : ∃ parts, Code g P ec parts := by
  have hK := size_facts hvalues ec
  obtain ⟨parts, hnew, hwidth, hsound⟩ := RSMatrix.new_sound (by omega) hcodec
  exact ⟨parts, hnew, hwidth, hsound⟩

/-- No common link value is lost, whichever adverts of an epoch and of the next one are heard. -/
theorem matching_kept {P : Type} [FloatOps P] {ec : Ec} (sha256 : List Byte → Digest) (g : Galois)
    (hvalues : ConfirmValues P) (hcodec : Codable g (RS_K P ec) (RS_M P ec + 2 * (RS_K P ec - 1)) (RS_W P ec))
    (sender : EbNRadioBT4 P ec) (hsender : Reachable sha256 g sender)
    (hset : sender.advertisedSet.length ≤ maxAdvert sender.confirmScheme.type) (env env' : Nat → Surroundings P ec)
    (key : ec.Key) (randomAddress : Address) (device : EbNDeviceBT4 P ec) (hdevice : device.epochs = [])
    (events events' : List (Hearing P ec)) :
    let adverts := broadcast sha256 env sender
    let adverts' := broadcast sha256 env' (changeEpoch g (senderAt sha256 env sender ADV_N) key randomAddress)
    let heard := events.foldl (hear sha256 g adverts) device
    Heard sha256 g adverts true 0 device events → Heard sha256 g adverts' true 0 heard events' →
      ∀ v ∈ sender.advertisedSet, v ∈ device.matching →
        v ∈ (events'.foldl (hear sha256 g adverts') heard).matching := by
  intro adverts adverts' heard hevents hevents' v hv hlisten
  obtain ⟨parts, hcode⟩ := code_of_codable hvalues hcodec
  obtain ⟨_, _, hK4, _⟩ := size_facts hvalues ec
  have hK : 2 ≤ RS_K P ec := by omega
  -- the first epoch, of which the device knows nothing yet
  have hbuilt := hsender.built hvalues hcode
  have hcodeOf := (hbuilt.codeOf hcode (by omega)).1
  have hstart : Before sha256 parts sender.advertisedSet none device.epochs := by
    rw [hdevice]
    exact ⟨Nat.zero_le 1, fun p hp => by cases hp⟩
  obtain ⟨hfirst, hkept⟩ := heard_spec hvalues hcode hcodeOf
    (fun code hc => by cases hc) (fun n hn => hbuilt.carries sha256 env hvalues hcode hset hn) events hevents hstart
  -- the next epoch, whose first adverts carry symbols of the first
  have hend := hsender.senderAt env ADV_N
  obtain ⟨hencoder, _, _, hadvertised, hscheme, _⟩ := senderAt_spec sha256 env sender ADV_N
  obtain ⟨_, _, _, _, hadvertised', hscheme'⟩ :=
    changeEpoch_fields (g := g) (r := senderAt sha256 env sender ADV_N) key randomAddress
  have hbuilt' := (hend.changeEpoch key randomAddress).built hvalues hcode
  have hset' : (changeEpoch g (senderAt sha256 env sender ADV_N) key randomAddress).advertisedSet.length
      ≤ maxAdvert (changeEpoch g (senderAt sha256 env sender ADV_N) key randomAddress).confirmScheme.type := by
    rw [hadvertised', hadvertised, hscheme', hscheme]
    exact hset
  have hbefore : Before sha256 parts sender.advertisedSet (some (sender.publicBlock, sender.dhEncoder.partSymbols))
      heard.epochs := by
    rcases hfirst with ⟨_, hnone⟩ | ⟨init, e, hepochs, ⟨_, hinit⟩, he⟩
    · cases hheard : heard.epochs with
      | nil => exact ⟨Nat.zero_le 1, fun p hp => by cases hp⟩
      | cons p rest =>
          obtain ⟨_, _, hcode, _⟩ := hnone p (by rw [hheard]; exact List.mem_cons_self)
          cases hcode
    · cases init with
      | nil =>
          rw [hepochs]
          refine ⟨Nat.le_refl 1, fun p hp => ?_⟩
          rw [List.mem_singleton.mp hp]
          exact ⟨_, _, rfl, he⟩
      | cons p rest =>
          obtain ⟨_, _, hcode, _⟩ := hinit p List.mem_cons_self
          cases hcode
  have hcarries := fun n hn => hbuilt'.carries sha256 env' hvalues hcode hset' (n := n) hn
  rw [hadvertised', hadvertised] at hcarries
  refine (heard_spec hvalues hcode (hbuilt'.codeOf hcode (by omega)).1 (fun code hc => ?_) hcarries
    events' hevents' hbefore).2 v hv (hkept v hv hlisten)
  cases hc
  refine ⟨hcodeOf, fun n hn => ?_⟩
  rw [prevSymbol_changeEpoch hcode (hend.built hvalues hcode) hK key randomAddress hn, hencoder]

/-- The constructor succeeds with the field arithmetic of the repository. -/
theorem new_logRate (confirmScheme : ConfirmScheme LogRate) (memoryScheme : MemoryScheme) (now : Time) (key : Byte)
    (randomAddress : Address) :
    ∃ r : EbNRadioBT4 LogRate byteCurve,
      new galoisShift confirmScheme memoryScheme now key randomAddress = some r := by
  have hcodec : Codable galoisShift (RS_K LogRate byteCurve)
      (RS_M LogRate byteCurve + 2 * (RS_K LogRate byteCurve - 1)) (RS_W LogRate byteCurve) :=
    codable_galoisShift (by decide) (by decide) (by decide) _
  obtain ⟨parts, hcode⟩ := code_of_codable confirmValues_logRate hcodec
  exact ⟨_, Option.map_eq_some_iff.mpr ⟨_, hcode.new, rfl⟩⟩

/-- The first `K` adverts of an epoch, with which its key is decoded, and the first one of the next epoch. -/
theorem matching_kept_advert :
    ∃ r : EbNRadioBT4 LogRate byteCurve,
      new galoisShift ⟨.Passive, some 4⟩ .Standard 0 (5 : Byte) (List.replicate 6 0) = some r ∧
        let sender := { r with toEbNRadio := r.setAdvertisedSet [[1]] }
        let env : Nat → Surroundings LogRate byteCurve := fun _ => ⟨id, ⟨[], ∅, 0⟩, fun _ => none⟩
        let next := changeEpoch galoisShift (senderAt (fun _ => 0) env sender ADV_N) (7 : Byte) (List.replicate 6 1)
        let device := EbNDeviceBT4.new 0 (List.replicate 6 0) [[1]]
        let events := (List.range' 0 (RS_K LogRate byteCurve)).map fun n => Hearing.advert n 0 r
        let heard := events.foldl (hear (fun _ => 0) galoisShift (broadcast (fun _ => 0) env sender)) device
        ∀ v ∈ sender.advertisedSet, v ∈ device.matching →
          v ∈ ([Hearing.advert 0 1000000 r].foldl (hear (fun _ => 0) galoisShift (broadcast (fun _ => 0) env next))
            heard).matching := by
  have hcodec : Codable galoisShift (RS_K LogRate byteCurve)
      (RS_M LogRate byteCurve + 2 * (RS_K LogRate byteCurve - 1)) (RS_W LogRate byteCurve) :=
    codable_galoisShift (by decide) (by decide) (by decide) _
  obtain ⟨parts, hcode⟩ := code_of_codable confirmValues_logRate hcodec
  obtain ⟨r, hr⟩ := new_logRate ⟨.Passive, some 4⟩ .Standard 0 (5 : Byte) (List.replicate 6 0)
  have hreach : Reachable (fun _ => 0) galoisShift r := .new hr
  have hset : 1 ≤ maxAdvert r.confirmScheme.type := by
    unfold maxAdvert
    split_ifs <;> decide
  refine ⟨r, hr, ?_⟩
  intro sender env next device events heard
  have hsender : Reachable (fun _ => 0) galoisShift sender := hreach.other (r.setAdvertisedSet [[1]])
  have hnumber : ∀ n < ADV_N, (BitMap.ofMem (31 * 8) (Mem.ofList (broadcast (fun _ => 0) env sender n))).readNumber 1
      ADV_N_LOG2 = n := fun n hn =>
    ((hsender.built confirmValues_logRate hcode).carries (fun _ => 0) env confirmValues_logRate hcode hset hn).number
  obtain ⟨K, hK⟩ : ∃ K, RS_K LogRate byteCurve = K + 1 := ⟨3, by decide⟩
  have hwindow := heard_fresh device confirmValues_logRate hreach hnumber 0 0 K (by rw [← hK]; decide) rfl
  rw [← hK] at hwindow
  obtain ⟨hevents, init, e, hepochs, hnum, htime⟩ := hwindow
  refine matching_kept (fun _ => 0) galoisShift confirmValues_logRate hcodec sender hsender hset env env (7 : Byte)
    (List.replicate 6 1) device rfl events [.advert 0 1000000 r] hevents
    ⟨hreach, Nat.le_refl 0, by decide, ?_, trivial⟩
  have hclass : classify heard.epochs 0 1000000 = .isNew := by
    unfold classify
    rw [hepochs, List.getLast?_concat]
    dsimp only
    rw [if_pos (Or.inl hnum), htime, if_neg (by decide)]
  show Attributed true (classify heard.epochs 0 1000000)
  rw [hclass]
  rfl

end Sddr.Radio.EbNRadioBT4

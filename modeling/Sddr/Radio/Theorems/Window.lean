import Sddr.Radio.Lemmas.Window
import Sddr.Radio.Theorems.BT4

/-! # Main results about windows of adverts -/

namespace Sddr.Radio.EbNRadioBT4
open Sddr.Lib Sddr.Codec Sddr.Device Sddr.Erasure BT4

/-- A receiver that hears `K` consecutive adverts of an epoch and the next one, and nothing else, decodes just the
public key of that epoch. -/
theorem any_window_decodes {P : Type} [FloatOps P] {ec : Ec} (sha256 : List Byte → Digest) (g : Galois)
    (hvalues : ConfirmValues P) (hcodec : Codable g (RS_K P ec) (RS_M P ec + 2 * (RS_K P ec - 1)) (RS_W P ec))
    (confirmScheme : ConfirmScheme P) (memoryScheme : MemoryScheme) (now : Time) (key : ec.Key)
    (randomAddress : Address) (sender : EbNRadioBT4 P ec)
    (hsender : new g confirmScheme memoryScheme now key randomAddress = some sender)
    (plans : Nat → EpochPlan P ec) (hplans : ∀ k, (plans k).count ≤ ADV_N) (epochs k : Nat) (w : List (Nat × Nat))
    (hw : w <:+: broadcasts plans epochs) (hlength : w.length = RS_K P ec) (hhas : ∃ n, (k, n) ∈ w)
    (honly : ∀ x ∈ w, x.1 = k ∨ x.1 = k + 1) (device : EbNDeviceBT4 P ec) (hdevice : device.epochs = [])
    (events : List (Reception P ec)) (hheard : events.filterMap Reception.heard? = w)
    (hattributed : Listener.AllAttributed sha256 g (epochAdvert sha256 g plans sender) ⟨device, none, []⟩ events) :
    (events.foldl (Listener.step sha256 g (epochAdvert sha256 g plans sender)) ⟨device, none, []⟩).decoded
      = [(epochSender sha256 g plans sender k).dhExchange.getPublicX.take (ec.keySize / 8)] := by
  obtain ⟨parts, hcode⟩ := code_of_codable hvalues hcodec
  obtain ⟨n, a, b, ha, hlt, hsum, hsplit⟩ := window_split hw hhas honly
  have hstart : Progress sha256 g parts plans sender k w ⟨device, none, []⟩ :=
    .start n a b hsplit (hsum.trans hlength) ha (hlt.trans (hplans k)) hdevice rfl rfl
  have hdone := hstart.run hvalues hcode (.new hsender) events hheard hattributed
  have hsize : RS_K P ec * RS_W P ec = ec.keySize / 8 := by
    have hkey := (size_facts hvalues ec).1
    rw [Nat.mul_comm]
    omega
  rw [← hsize]
  exact hdone.decoded

/-- The first `K` adverts of a run, all heard at once. -/
theorem any_window_decodes_first :
    ∃ sender : EbNRadioBT4 LogRate byteCurve,
      new galoisShift ⟨.Passive, some 4⟩ .Standard 0 (5 : Byte) (List.replicate 6 0) = some sender ∧
        let K := RS_K LogRate byteCurve
        let plans : Nat → EpochPlan LogRate byteCurve := fun _ =>
          ⟨K, fun _ => id, fun _ => sender.toEbNRadio, (7 : Byte), List.replicate 6 1⟩
        let adverts := epochAdvert (fun _ => 0) galoisShift plans sender
        let events := (List.range' 0 K).map fun n => Reception.hear 0 n 0 sender
        let device := EbNDeviceBT4.new 0 (List.replicate 6 0) [[1]]
        (events.foldl (Listener.step (fun _ => 0) galoisShift adverts) ⟨device, none, []⟩).decoded
          = [(epochSender (fun _ => 0) galoisShift plans sender 0).dhExchange.getPublicX.take (byteCurve.keySize / 8)] := by
  have hcodec : Codable galoisShift (RS_K LogRate byteCurve)
      (RS_M LogRate byteCurve + 2 * (RS_K LogRate byteCurve - 1)) (RS_W LogRate byteCurve) :=
    codable_galoisShift (by decide) (by decide) (by decide) _
  obtain ⟨parts, hcode⟩ := code_of_codable confirmValues_logRate hcodec
  obtain ⟨_, _, hK4, hK6⟩ := size_facts confirmValues_logRate byteCurve
  have hADV := symbols_per_epoch confirmValues_logRate byteCurve
  obtain ⟨sender, hsender⟩ := new_logRate ⟨.Passive, some 4⟩ .Standard 0 (5 : Byte) (List.replicate 6 0)
  refine ⟨sender, hsender, ?_⟩
  intro K plans adverts events device
  have hcount : K ≤ ADV_N := hADV ▸ Nat.le_add_right _ _
  have hwindow : broadcasts plans 1 = (List.range K).map (Prod.mk 0) := List.flatMap_singleton _ _
  refine any_window_decodes (fun _ => 0) galoisShift confirmValues_logRate hcodec _ _ _ _ _ sender hsender plans
    (fun _ => hcount) 1 0 _ (List.infix_refl _) ?_ ⟨0, ?_⟩ ?_ device rfl events ?_ ?_
  · rw [hwindow, List.length_map, List.length_range]
  · rw [hwindow]
    exact List.mem_map.mpr ⟨0, List.mem_range.mpr (by omega), rfl⟩
  · intro x hx
    rw [hwindow] at hx
    obtain ⟨n, -, rfl⟩ := List.mem_map.mp hx
    exact Or.inl rfl
  · rw [hwindow, List.filterMap_map, List.range_eq_range']
    exact congrFun (List.filterMap_eq_map (f := Prod.mk 0)) (List.range' 0 K)
  · exact allAttributed_fresh confirmValues_logRate hcode (.new hsender) (.new hsender) 0 0 (by omega) rfl

end Sddr.Radio.EbNRadioBT4

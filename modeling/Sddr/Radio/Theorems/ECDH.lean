import Sddr.Radio.Lemmas.ECDH

/-! # Main results about ECDH -/

namespace Sddr.Radio
open Sddr.Lib Sddr.Codec Sddr.Device

/-- What both ends derive is a function of the X coordinate for just the key sizes that a digest covers. -/
theorem ECDH.bothDerive_iff (P : Type) [FloatOps P] (ec : Ec) (sharedX : ec.Point → ec.Key → Option (List Byte))
    (sha256 : List Byte → Digest) (key : ec.Key) (h : ec.PointLaws sharedX) :
    (∃ f, ec.BothDerive sharedX sha256 P f) ↔ ec.keySize ∈ [192, 224, 256] := by
  have hsupported := ec.supported
  simp only [supportedKeySizes, List.mem_cons, List.not_mem_nil, or_false] at hsupported ⊢
  constructor
  · rintro ⟨f, hf⟩
    by_contra hother
    have hsize : SHA256_DIGEST_LENGTH < ec.keySize / 8 := by
      unfold SHA256_DIGEST_LENGTH
      omega
    exact not_bothDerive h key hsize f hf
  · intro hcovered
    refine ⟨_, bothDerive h ?_⟩
    unfold SHA256_DIGEST_LENGTH
    omega

theorem ECDH.bothDerive_iff_192 :
    let sharedX : byteCurve.Point → byteCurve.Key → Option (List Byte) := byteCurve.computeKey
    (∃ f, byteCurve.BothDerive sharedX (fun bytes => BitVec.ofNat 256 bytes.length) LogRate f) ↔
      byteCurve.keySize ∈ [192, 224, 256] :=
  ECDH.bothDerive_iff LogRate byteCurve byteCurve.computeKey (fun bytes => BitVec.ofNat 256 bytes.length) (5 : Byte)
    ⟨byteCurve_laws.length_point2oct, byteCurve_laws.oct2point_point2oct, byteCurve_laws.lead_oct2point,
      byteCurve_laws.computeKey_symm, byteCurve_laws.computeKey_isSome⟩

/-- `byteCurve` with keys of 384 bits. -/
def wideCurve : Ec :=
  { byteCurve with keySize := 384, supported := by decide, point2oct := fun p : Byte => 2 :: p :: List.replicate 47 0 }

/-- With 384 bits, 16 bytes of what both ends derive are whatever lies behind the buffer. -/
theorem ECDH.bothDerive_fails :
    let sharedX : wideCurve.Point → wideCurve.Key → Option (List Byte) := fun (p k : Byte) =>
      some (p * k :: List.replicate 47 0)
    wideCurve.PointLaws sharedX ∧
      ∀ f, ¬ wideCurve.BothDerive sharedX (fun bytes => BitVec.ofNat 256 bytes.length) LogRate f := by
  intro sharedX
  have hlaws : wideCurve.PointLaws sharedX := by
    refine ⟨fun _ => rfl, fun _ => rfl, byteCurve_laws.lead_oct2point, fun k k' => ?_, fun _ _ => rfl⟩
    exact congrArg (fun b : Byte => some (b :: List.replicate 47 0)) (BitVec.mul_comm k k')
  exact ⟨hlaws, not_bothDerive hlaws (5 : Byte) (by decide)⟩

end Sddr.Radio

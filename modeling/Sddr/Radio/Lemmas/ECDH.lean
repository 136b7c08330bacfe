import Sddr.Radio.ECDH

/-! # Key exchanges -/

namespace Sddr.Radio
open Sddr.Lib Sddr.Codec Sddr.Device

variable {ec : Ec} {P : Type}

/-! ## Encodings -/

theorem Ec.Laws.lead (h : ec.Laws) (p : ec.Point) :
    ∃ y : Bool, ∃ X : List Byte, ec.point2oct p = (if y then 0x03 else 0x02) :: X ∧ X.length = ec.keySize / 8 := by
  have hlength := h.length_point2oct p
  have hlead := h.lead_oct2point _ _ (h.oct2point_point2oct p)
  cases hoctets : ec.point2oct p with
  | nil =>
      rw [hoctets] at hlength
      cases hlength
  | cons lead X =>
      rw [hoctets] at hlength hlead
      rw [List.getD_cons_zero] at hlead
      rcases hlead with rfl | rfl
      · exact ⟨false, X, rfl, Nat.succ.inj hlength⟩
      · exact ⟨true, X, rfl, Nat.succ.inj hlength⟩

namespace ECDH

variable {key key' : ec.Key}

/-- The X coordinate and the Y bit make up the encoding of the public key. -/
theorem publicKey_octets (h : ec.Laws) (key : ec.Key) :
    (if (generateSecret key).getPublicY then 0x03 else 0x02) :: (generateSecret key).getPublicX.take (ec.keySize / 8)
      = ec.point2oct (ec.publicKey key) := by
  obtain ⟨y, X, hoctets, hlength⟩ := h.lead (ec.publicKey key)
  have hy : (generateSecret key).getPublicY = y := by
    unfold getPublicY getPublic generateSecret Mem.ofList
    rw [hoctets, List.getD_cons_zero]
    cases y <;> decide
  have hX : (generateSecret key).getPublicX.take (ec.keySize / 8) = X := by
    rw [← hlength]
    refine (Mem.take_congr fun i _ => ?_).trans (Mem.take_ofList X)
    unfold getPublicX getPublic generateSecret Mem.add Mem.ofList
    rw [hoctets, Nat.add_comm, List.getD_cons_succ]
  rw [hy, hX, hoctets]

theorem computeSharedSecret_octets (dh : ECDH ec) (dest : SharedSecret P) {octets : List Byte}
    (hlength : octets.length = ec.keySize / 8 + 1) :
    dh.computeSharedSecret dest (Mem.ofList octets)
      = (ec.oct2point octets).bind fun p => (ec.computeKey p dh.secret).map fun value => { dest with value := value } := by
  rw [computeSharedSecret, ← hlength, Mem.take_ofList]

/-- With X coordinate and Y bit of a public key the secret of the two keys is computed. -/
theorem computeSharedSecretXY_public (h : ec.Laws) (dh : ECDH ec) (dest : SharedSecret P) {X : List Byte} {y : Bool}
    {p : ec.Point} (hX : ec.point2oct p = (if y then 0x03 else 0x02) :: X) :
    dh.computeSharedSecretXY dest (Mem.ofList X) y
      = (ec.computeKey p dh.secret).map fun value => { dest with value := value } := by
  have hlength : X.length = ec.keySize / 8 := by
    have := h.length_point2oct p
    rw [hX] at this
    exact Nat.succ.inj this
  have htake : (Mem.ofList X).take (ec.keySize / 8) = X := hlength ▸ Mem.take_ofList X
  rw [computeSharedSecretXY, htake, ← hX, computeSharedSecret_octets dh dest (h.length_point2oct p),
    h.oct2point_point2oct, Option.bind_some]

/-- A public key as it is sent. -/
theorem computeSharedSecret_public (h : ec.Laws) (dh : ECDH ec) (dest : SharedSecret P) (key : ec.Key) :
    dh.computeSharedSecret dest (generateSecret key).getPublic
      = (ec.computeKey (ec.publicKey key) dh.secret).map fun value => { dest with value := value } := by
  refine (computeSharedSecret_octets dh dest (h.length_point2oct (ec.publicKey key))).trans ?_
  rw [h.oct2point_point2oct, Option.bind_some]

end ECDH

/-! ## Derived keys -/

section
variable {sha256 : List Byte → Digest} {stack stack' : Mem} {n : Nat}

@[simp] theorem length_derivateKey (x : List Byte) : (derivateKey sha256 stack x n).length = n := by simp [derivateKey]

/-- Up to the size of the digest, nothing but the digest is copied. -/
theorem derivateKey_congr (hn : n ≤ SHA256_DIGEST_LENGTH) (x : List Byte) :
    derivateKey sha256 stack x n = derivateKey sha256 stack' x n := by
  refine Mem.take_congr fun i hi => ?_
  have hin : i < SHA256_DIGEST_LENGTH := Nat.lt_of_lt_of_le hi hn
  simp [Mem.copy, hin]

/-- The byte behind the digest is what was in memory. -/
theorem derivateKey_behind (hn : SHA256_DIGEST_LENGTH < n) (x : List Byte) :
    (derivateKey sha256 stack x n).getD SHA256_DIGEST_LENGTH 0 = stack SHA256_DIGEST_LENGTH := by
  simp [derivateKey, Mem.take, Mem.copy, List.getD_eq_getElem?_getD, hn]

variable {sharedX : ec.Point → ec.Key → Option (List Byte)}

theorem Ec.PointLaws.laws (h : ec.PointLaws sharedX) (sha256 : List Byte → Digest) (stack : Mem) :
    (ec.withDerivateKey sharedX sha256 stack).Laws where
  length_point2oct := h.length_point2oct
  oct2point_point2oct := h.oct2point_point2oct
  lead_oct2point := h.lead_oct2point
  computeKey_symm k k' := congrArg (Option.map _) (h.sharedX_symm k k')
  computeKey_isSome k k' := (Option.isSome_map ..).trans (h.sharedX_isSome k k')

variable (sha256) in
/-- What an end computes from the other's public key, in both forms. -/
theorem computeSharedSecret_derived (h : ec.PointLaws sharedX) (k k' : ec.Key) (stack stack' : Mem)
    (dest : SharedSecret P) {x : List Byte} (hx : sharedX (ec.publicKey k') k = some x) :
    let dh : ECDH (ec.withDerivateKey sharedX sha256 stack) := ECDH.generateSecret k
    let dh' : ECDH (ec.withDerivateKey sharedX sha256 stack') := ECDH.generateSecret k'
    let secret := { dest with value := derivateKey sha256 stack x (ec.keySize / 8) }
    dh.computeSharedSecret dest dh'.getPublic = some secret ∧
      dh.computeSharedSecretXY dest dh'.getPublicX dh'.getPublicY = some secret := by
  intro dh dh' secret
  have hfull : dh.computeSharedSecret dest dh'.getPublic = some secret := by
    refine (ECDH.computeSharedSecret_public (h.laws sha256 stack) dh dest k').trans ?_
    show ((sharedX (ec.publicKey k') k).map _).map _ = _
    rw [hx]
    rfl
  refine ⟨hfull, ?_⟩
  have hoctets := ECDH.publicKey_octets (h.laws sha256 stack') k'
  exact (congrArg (fun octets => dh.computeSharedSecret dest (Mem.ofList octets)) hoctets).trans hfull

/-- One end that runs twice, with different bytes behind its buffer. -/
theorem not_bothDerive [FloatOps P] (h : ec.PointLaws sharedX) (key : ec.Key)
    (hsize : SHA256_DIGEST_LENGTH < ec.keySize / 8) (f : List Byte → List Byte) : ¬ ec.BothDerive sharedX sha256 P f := by
  intro hf
  obtain ⟨x, hx⟩ := Option.isSome_iff_exists.mp (h.sharedX_isSome key key)
  have hvalue : ∀ stack, f x = derivateKey sha256 stack x (ec.keySize / 8) := by
    intro stack
    obtain ⟨hone, -⟩ := (hf key key x hx hx).2 stack stack (SharedSecret.ofConfirmed false)
    have heq := hone.symm.trans (computeSharedSecret_derived sha256 h key key stack stack _ hx).1
    exact congrArg SharedSecret.value (Option.some.inj heq)
  have hbyte : ∀ b : Byte, (f x).getD SHA256_DIGEST_LENGTH 0 = b := by
    intro b
    rw [hvalue fun _ => b, derivateKey_behind hsize]
  exact absurd ((hbyte 0).symm.trans (hbyte 1)) (by decide)

theorem bothDerive (h : ec.PointLaws sharedX) (hsize : ec.keySize / 8 ≤ SHA256_DIGEST_LENGTH) :
    ec.BothDerive sharedX sha256 P fun x => derivateKey sha256 (fun _ => 0) x (ec.keySize / 8) := by
  intro k k' x hx hx'
  refine ⟨length_derivateKey x, ?_⟩
  intro stack stack' dest dh dh'
  obtain ⟨hfull, hXY⟩ := computeSharedSecret_derived sha256 h k k' stack stack' dest hx
  obtain ⟨hfull', hXY'⟩ := computeSharedSecret_derived sha256 h k' k stack' stack dest hx'
  rw [derivateKey_congr hsize x] at hfull hXY hfull' hXY'
  exact ⟨hfull, hfull', hXY, hXY'⟩

end

end Sddr.Radio

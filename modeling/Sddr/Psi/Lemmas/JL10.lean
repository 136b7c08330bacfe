import Sddr.Lib.Blinding
import Sddr.Psi.JL10
import Mathlib.FieldTheory.Finite.Basic

/-!
# Elements and tags

Each item is hashed to an element of the subgroup of order `q`. What the client reads off an answer is the element raised
to the server's number, unless its own random number is zero.
-/

namespace Sddr.Psi
open Sddr.Lib Sddr.Codec

/-! ## Integers -/

section Integers

variable {b b' e e' m p q r rop : Nat}

theorem cast_powm (b e p : Nat) : ((powm b e p : Nat) : ZMod p) = (b : ZMod p) ^ e := by
  rw [powm, ZMod.natCast_mod, Nat.cast_pow]

theorem powm_eq_powm_iff : powm b e p = powm b' e' p ↔ (b : ZMod p) ^ e = (b' : ZMod p) ^ e' := by
  rw [← Nat.cast_pow, ← Nat.cast_pow, ZMod.natCast_eq_natCast_iff']
  rfl

theorem powm_powm (b e e' m : Nat) : powm (powm b e m) e' m = powm b (e * e') m := by
  rw [powm, powm, ← Nat.pow_mod, ← Nat.pow_mul, powm]

theorem powm_lt (hp : p.Prime) : powm b e p < p := Nat.mod_lt _ hp.pos

theorem one_powm (hp : p.Prime) (e : Nat) : powm 1 e p = 1 := by rw [powm, Nat.one_pow, Nat.mod_eq_of_lt hp.one_lt]

theorem powm_zero (hp : p.Prime) (b : Nat) : powm b 0 p = 1 := by rw [powm, Nat.pow_zero, Nat.mod_eq_of_lt hp.one_lt]

/-- Zero is the only number whose powers are zero. -/
theorem powm_eq_zero_iff (hp : p.Prime) (he : e ≠ 0) : powm b e p = 0 ↔ b % p = 0 := by
  rw [powm, ← Nat.dvd_iff_mod_eq_zero, ← Nat.dvd_iff_mod_eq_zero]
  exact ⟨hp.dvd_of_dvd_pow, fun h => Dvd.dvd.trans h (dvd_pow_self b he)⟩

theorem powm_ne_zero (hp : p.Prime) (hb : b % p ≠ 0) : powm b e p ≠ 0 := by
  rcases Nat.eq_zero_or_pos e with rfl | he
  · rw [powm_zero hp]
    exact Nat.one_ne_zero
  · exact fun h => hb ((powm_eq_zero_iff hp he.ne').mp h)

theorem invert_spec (hq : q.Prime) (hr : r ≠ 0) (hlt : r < q) : r * invert rop r q % q = 1 % q := by
  have hcoprime : r.gcd q = 1 := (Nat.coprime_of_lt_prime hr hlt hq).symm
  have hpos : (q : Int) ≠ 0 := Int.natCast_ne_zero.mpr hq.ne_zero
  have hcast : ((r.gcdA q % q).toNat : Int) = r.gcdA q % q := Int.toNat_of_nonneg (Int.emod_nonneg _ hpos)
  have hbezout : (r * r.gcdA q + q * r.gcdB q : Int) = 1 := by
    rw [← Nat.gcd_eq_gcd_ab, hcoprime, Nat.cast_one]
  rw [invert, if_pos hcoprime, ← Int.natCast_inj]
  push_cast
  rw [hcast, Int.mul_emod, Int.emod_emod_of_dvd _ (dvd_refl _), ← Int.mul_emod, ← hbezout, Int.add_mul_emod_self_left]

theorem toString_eq_some (h : b ≠ 0) : MpzTool.toString b = some (toBigEndian b) := by
  rw [MpzTool.toString, sizeInBase2, length_toBigEndian_of_ne_zero h, if_pos rfl]

theorem toString_zero : MpzTool.toString 0 = none := rfl

theorem toString_isSome_iff : (MpzTool.toString b).isSome ↔ b ≠ 0 := by
  by_cases h : b = 0
  · rw [h, toString_zero]
    simp
  · rw [toString_eq_some h]
    simpa using h

@[simp] theorem fromString_toBigEndian (n : Nat) : MpzTool.fromString (toBigEndian n) = n := ofBigEndian_toBigEndian n

theorem fromString_toString {s : Str} (h : MpzTool.toString b = some s) : MpzTool.fromString s = b := by
  rw [toString_eq_some (toString_isSome_iff.mp (Option.isSome_of_eq_some h))] at h
  cases h
  exact fromString_toBigEndian b

/-- Nothing stale is hashed but for zero. -/
theorem hash_eq (sha : SHA1) (stale : Byte) (h : b ≠ 0) : CryptoTool.hash sha stale b = sha.digest (toBigEndian b) := by
  rw [CryptoTool.hash, sizeInBase2, length_toBigEndian_of_ne_zero h, Nat.sub_self, List.replicate_zero, List.append_nil]

end Integers

/-! ## Elements -/

/-- The element of the subgroup for an item. -/
def element (sha : SHA1) (key : DSAKey) (item : Str) : Nat :=
  powm (CryptoTool.fdh sha item key.p) ((key.p - 1) / key.q) key.p

/-- The digest of the bytes of a number. -/
def tag (sha : SHA1) (n : Nat) : Str := sha.digest (toBigEndian n)

/-- The items that are hashed to an element of the group. -/
def Hashed (sha : SHA1) (key : DSAKey) (data : List Str) : Prop := ∀ item ∈ data, CryptoTool.fdh sha item key.p ≠ 0

section Elements

variable {sha : SHA1} {key : DSAKey} {item : Str}

theorem fdh_lt (sha : SHA1) (key : DSAKey) (item : Str) : CryptoTool.fdh sha item key.p < key.p :=
  Nat.mod_lt _ key.prime_p.pos

theorem fdh_mod_ne_zero (h : CryptoTool.fdh sha item key.p ≠ 0) : CryptoTool.fdh sha item key.p % key.p ≠ 0 := by
  rwa [Nat.mod_eq_of_lt (fdh_lt sha key item)]

theorem element_mod_ne_zero (h : CryptoTool.fdh sha item key.p ≠ 0) : element sha key item % key.p ≠ 0 := by
  rw [element, Nat.mod_eq_of_lt (powm_lt key.prime_p)]
  exact powm_ne_zero key.prime_p (fdh_mod_ne_zero h)

/-- By Fermat's little theorem. -/
theorem element_pow_q (h : CryptoTool.fdh sha item key.p ≠ 0) : (element sha key item : ZMod key.p) ^ key.q = 1 := by
  have := Fact.mk key.prime_p
  have hne : (CryptoTool.fdh sha item key.p : ZMod key.p) ≠ 0 := by
    rw [Ne, ZMod.natCast_eq_zero_iff, Nat.dvd_iff_mod_eq_zero]
    exact fdh_mod_ne_zero h
  rw [element, cast_powm, ← pow_mul, Nat.div_mul_cancel key.dvd]
  exact ZMod.pow_card_sub_one_eq_one hne

/-- Blinding, the server's power and the inverse leave the server's power. -/
theorem powm_unblind (h : CryptoTool.fdh sha item key.p ≠ 0) {r k rop : Nat} (hr : r ≠ 0) (hlt : r < key.q) :
    powm (powm (powm (element sha key item) r key.p) k key.p) (invert rop r key.q) key.p
      = powm (element sha key item) k key.p := by
  have hinv : r * invert rop r key.q % key.q = 1 % key.q := invert_spec key.prime_q hr hlt
  rw [powm_powm, powm_powm, powm_eq_powm_iff, pow_mul, pow_mul]
  exact pow_unblind (element_pow_q h) hinv

/-- Without a blinding, whatever stands for the inverse. -/
theorem powm_unblind_zero (item : Str) (k rinv : Nat) :
    powm (powm (powm (element sha key item) 0 key.p) k key.p) rinv key.p = 1 := by
  rw [powm_zero key.prime_p, one_powm key.prime_p, one_powm key.prime_p]

theorem element_lt (sha : SHA1) (key : DSAKey) (item : Str) : element sha key item < key.p := powm_lt key.prime_p

theorem natCast_inj_of_lt {m n p : Nat} (hm : m < p) (hn : n < p) : (m : ZMod p) = n ↔ m = n := by
  rw [ZMod.natCast_eq_natCast_iff', Nat.mod_eq_of_lt hm, Nat.mod_eq_of_lt hn]

theorem cast_element_ne_one (h : element sha key item ≠ 1) : (element sha key item : ZMod key.p) ≠ 1 := by
  rw [← Nat.cast_one, Ne, natCast_inj_of_lt (element_lt sha key item) key.prime_p.one_lt]
  exact h

/-- The server's number keeps elements apart, unless it is zero. -/
theorem element_eq_of_powm_eq {item' : Str} {k : Nat} (h : CryptoTool.fdh sha item key.p ≠ 0)
    (h' : CryptoTool.fdh sha item' key.p ≠ 0) (hk : k ≠ 0) (hlt : k < key.q)
    (heq : powm (element sha key item) k key.p = powm (element sha key item') k key.p) :
    element sha key item = element sha key item' := by
  obtain ⟨s, hs⟩ := exists_inverse key.prime_q hk hlt
  rw [← natCast_inj_of_lt (element_lt sha key item) (element_lt sha key item')]
  exact pow_injective_of_inverse (element_pow_q h) (element_pow_q h') hs (powm_eq_powm_iff.mp heq)

/-- A blinded element is one of every other item, for one number. -/
theorem powm_hides {item' : Str} {r : Nat} (h : CryptoTool.fdh sha item key.p ≠ 0)
    (h' : CryptoTool.fdh sha item' key.p ≠ 0) (hone : element sha key item ≠ 1) (hone' : element sha key item' ≠ 1)
    (hr : r ≠ 0) (hlt : r < key.q) :
    ∃! s, (s ≠ 0 ∧ s < key.q) ∧ powm (element sha key item') s key.p = powm (element sha key item) r key.p := by
  have := Fact.mk key.prime_p
  simp only [powm_eq_powm_iff]
  exact blinding_hides key.prime_q (element_pow_q h) (cast_element_ne_one hone) (element_pow_q h')
    (cast_element_ne_one hone') hr hlt

end Elements

end Sddr.Psi

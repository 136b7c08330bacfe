import Mathlib.RingTheory.RootsOfUnity.PrimitiveRoots

/-!
# Blinded powers

For an element with `x ^ q = 1` exponents matter modulo `q` only. A power with an exponent that has an inverse modulo `q`
can be undone, and in an integral domain it hides the element: for a prime `q`, each power of one element is a power of
every other one.
-/

namespace Sddr.Lib

section Monoid

variable {M : Type} [Monoid M] {x y : M} {q r s k : ℕ}

theorem pow_inverse (hx : x ^ q = 1) (hinv : r * s % q = 1 % q) : x ^ (r * s) = x := by
  rw [pow_eq_pow_mod _ hx, hinv, ← pow_eq_pow_mod _ hx, pow_one]

/-- Who does not know `r` has raised the element to `k`. -/
theorem pow_unblind (hx : x ^ q = 1) (hinv : r * s % q = 1 % q) : ((x ^ r) ^ k) ^ s = x ^ k := by
  have hswap : r * (k * s) = r * s * k := by rw [Nat.mul_comm k s, Nat.mul_assoc]
  rw [← pow_mul, ← pow_mul, hswap, pow_mul, pow_inverse hx hinv]

theorem pow_injective_of_inverse (hx : x ^ q = 1) (hy : y ^ q = 1) (hinv : r * s % q = 1 % q) (h : x ^ r = y ^ r) :
    x = y := by
  rw [← pow_inverse hx hinv, pow_mul, h, ← pow_mul, pow_inverse hy hinv]

/-- An exponent below a prime has an inverse, unless it is zero. -/
theorem exists_inverse (hq : q.Prime) (hr : r ≠ 0) (hlt : r < q) : ∃ s, r * s % q = 1 % q := by
  have hcoprime : r.Coprime q := (Nat.coprime_of_lt_prime hr hlt hq).symm
  obtain ⟨s, _, hs⟩ := Nat.exists_mul_mod_eq_one_of_coprime hcoprime hq.one_lt
  exact ⟨s, hs.trans (Nat.mod_eq_of_lt hq.one_lt).symm⟩

theorem pow_ne_one (hq : q.Prime) (hx : x ^ q = 1) (hone : x ≠ 1) (hr : r ≠ 0) (hlt : r < q) : x ^ r ≠ 1 := by
  intro h
  obtain ⟨s, hs⟩ := exists_inverse hq hr hlt
  exact hone (pow_injective_of_inverse hx (one_pow q) hs (h.trans (one_pow r).symm))

end Monoid

section Domain

variable {R : Type} [CommRing R] [IsDomain R] {x y : R} {q r : ℕ}

/-- The powers of one element are those of every other one. -/
theorem exists_pow_eq (hq : q.Prime) (hx : x ^ q = 1) (hy : y ^ q = 1) (hone : y ≠ 1) : ∃ s < q, y ^ s = x := by
  have : NeZero q := ⟨hq.ne_zero⟩
  have hroot : IsPrimitiveRoot y q := by
    have := Fact.mk hq
    rw [IsPrimitiveRoot.iff_orderOf]
    exact orderOf_eq_prime hy hone
  exact hroot.eq_pow_of_pow_eq_one hx

/-- For each blinding of `x` there is exactly one of `y` with the same result. -/
theorem blinding_hides (hq : q.Prime) (hx : x ^ q = 1) (hxone : x ≠ 1) (hy : y ^ q = 1) (hyone : y ≠ 1) (hr : r ≠ 0)
    (hlt : r < q) : ∃! s, (s ≠ 0 ∧ s < q) ∧ y ^ s = x ^ r := by
  have hpow : (x ^ r) ^ q = 1 := by rw [← pow_mul, Nat.mul_comm, pow_mul, hx, one_pow]
  obtain ⟨s, hs, heq⟩ := exists_pow_eq hq hpow hy hyone
  have hne := pow_ne_one hq hx hxone hr hlt
  refine ⟨s, ⟨⟨fun hzero => ?_, hs⟩, heq⟩, fun s' ⟨⟨_, hs'⟩, heq'⟩ => ?_⟩
  · rw [hzero, pow_zero] at heq
    exact hne heq.symm
  · have := Fact.mk hq
    have horder : orderOf y = q := orderOf_eq_prime hy hyone
    exact pow_injOn_Iio_orderOf (horder ▸ hs' : s' < orderOf y) (horder ▸ hs : s < orderOf y) (heq'.trans heq.symm)

end Domain

end Sddr.Lib

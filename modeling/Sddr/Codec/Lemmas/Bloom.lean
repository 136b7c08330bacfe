import Sddr.Codec.Bloom
import Sddr.Codec.Lemmas.BitMap

/-!
# Bloom filters never forget

Adding only sets bits, so a value that was added is found again by every filter that has at least the bits the
value hashes to.
-/

namespace Sddr.Codec
open Sddr.Lib

namespace BloomFilter

variable {P : Type} {b b' : BloomFilter P}

/-- All bits a digest selects are set. -/
def Holds (b : BloomFilter P) (hash : Digest) : Prop := ∀ k < b.K, b.bits.get (hash.word k % b.M) = true

theorem queryHash_iff {hash : Digest} : b.queryHash hash = true ↔ b.Holds hash := by
  simp [queryHash, Holds]

/-! ## Growing filters -/

/-- The same filter with at least the same bits. -/
structure Grows (b b' : BloomFilter P) : Prop where
  N : b'.N = b.N
  M : b'.M = b.M
  K : b'.K = b.K
  size : b'.bits.size = b.bits.size
  bits : ∀ j, b.bits.get j = true → b'.bits.get j = true

theorem Grows.refl (b : BloomFilter P) : b.Grows b := ⟨rfl, rfl, rfl, rfl, fun _ h => h⟩

theorem Grows.trans {b'' : BloomFilter P} (h : b.Grows b') (h' : b'.Grows b'') : b.Grows b'' :=
  ⟨h'.N.trans h.N, h'.M.trans h.M, h'.K.trans h.K, h'.size.trans h.size, fun j hj => h'.bits j (h.bits j hj)⟩

theorem Grows.holds {hash : Digest} (h : b.Grows b') (hb : b.Holds hash) : b'.Holds hash := by
  intro k hk
  rw [h.K] at hk
  rw [h.M]
  exact h.bits _ (hb k hk)

theorem set_grows (b : BloomFilter P) (index : Nat) : b.Grows (b.set index) :=
  ⟨rfl, rfl, rfl, rfl, fun j hj => by rw [set, BitMap.get_set, hj, Bool.or_true]⟩

theorem get_set_self (b : BloomFilter P) (index : Nat) : (b.set index).bits.get index = true := by
  rw [set, BitMap.get_set, decide_eq_true rfl, Bool.true_or]

theorem setIndices_succ (b : BloomFilter P) (index : Nat → Nat) (n : Nat) :
    b.setIndices index (n + 1) = (b.setIndices index n).set (index n) := by
  simp [setIndices, List.range_succ]

theorem setIndices_grows (b : BloomFilter P) (index : Nat → Nat) (n : Nat) : b.Grows (b.setIndices index n) := by
  induction n with
  | zero => exact Grows.refl b
  | succ n ih => rw [setIndices_succ]; exact ih.trans (set_grows _ _)

theorem get_setIndices (b : BloomFilter P) (index : Nat → Nat) {n k : Nat} (hk : k < n) :
    (b.setIndices index n).bits.get (index k) = true := by
  induction n with
  | zero => omega
  | succ n ih =>
      rw [setIndices_succ]
      rcases Nat.lt_succ_iff_lt_or_eq.mp hk with hlt | rfl
      · exact (set_grows _ _).bits _ (ih hlt)
      · exact get_set_self _ _

theorem get_setIndices_ne (b : BloomFilter P) {index : Nat → Nat} {n j : Nat} (h : ∀ k < n, index k ≠ j) :
    (b.setIndices index n).bits.get j = b.bits.get j := by
  induction n with
  | zero => rfl
  | succ n ih =>
      have hne : j ≠ index n := fun heq => h n (Nat.lt_succ_self n) heq.symm
      rw [setIndices_succ, set, BitMap.get_set, ih fun k hk => h k (Nat.lt_succ_of_lt hk), decide_eq_false hne,
        Bool.false_or]

theorem addHash_grows (b : BloomFilter P) (hash : Digest) : b.Grows (b.addHash hash) := setIndices_grows _ _ _

theorem addHash_holds (b : BloomFilter P) (hash : Digest) : (b.addHash hash).Holds hash := by
  have hgrows := addHash_grows b hash
  intro k hk
  rw [hgrows.K] at hk
  rw [hgrows.M]
  exact get_setIndices b (fun k => hash.word k % b.M) hk

theorem addRandom_grows (b : BloomFilter P) (rand : Nat → Nat) (count : Nat) : b.Grows (b.addRandom rand count) :=
  setIndices_grows _ _ _

/-- Other random values make another filter. -/
theorem addRandom_ne {count : Nat} (hcount : 0 < b.K * count) (hM : 1 < b.M) (hb : b.bits.get 0 = false) :
    b.addRandom (fun _ => 0) count ≠ b.addRandom (fun _ => 1) count := by
  intro heq
  have hset : (b.addRandom (fun _ => 0) count).bits.get 0 = true := by
    have hbit := get_setIndices b (fun _ => 0 % b.M) hcount
    rwa [Nat.zero_mod] at hbit
  have hunset : (b.addRandom (fun _ => 1) count).bits.get 0 = false := by
    refine (get_setIndices_ne b fun k _ => ?_).trans hb
    rw [Nat.mod_eq_of_lt hM]
    exact Nat.one_ne_zero
  rw [heq, hunset] at hset
  cases hset

/-! ## Adding a list of values -/

theorem foldl_add_grows (sha256 : List Byte → Digest) (pre : List Byte) (values : List (List Byte))
    (b : BloomFilter P) : b.Grows (values.foldl (fun acc v => acc.add sha256 pre v) b) := by
  induction values generalizing b with
  | nil => exact Grows.refl b
  | cons v values ih => exact (addHash_grows b _).trans (ih _)

theorem foldl_add_holds {sha256 : List Byte → Digest} {pre v : List Byte} {values : List (List Byte)}
    (b : BloomFilter P) (hv : v ∈ values) :
    (values.foldl (fun acc v => acc.add sha256 pre v) b).Holds (sha256 (pre ++ v)) := by
  induction values generalizing b with
  | nil => cases hv
  | cons w values ih =>
      rcases List.mem_cons.mp hv with rfl | hv
      · exact (foldl_add_grows sha256 pre values _).holds (addHash_holds b _)
      · exact ih _ hv

end BloomFilter

end Sddr.Codec

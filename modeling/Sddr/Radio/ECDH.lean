import Sddr.Device.LinkValue

/-!
# ECDH

`ECDH.h` and `ECDH.cpp` over the elliptic curve functions of OpenSSL, which are parameters. What the code relies
on is stated in `Ec.Laws`.
-/

namespace Sddr.Radio
open Sddr.Lib Sddr.Codec Sddr.Device

/-- The key sizes the constructor of `ECDH` accepts; it throws for every other. -/
def supportedKeySizes : List Nat := [192, 224, 256, 384]

/-- The curve of one key size. `point2oct` is the compressed form, and `computeKey` is `ECDH_compute_key` with
`derivateKey` and an output of the key's size. -/
structure Ec where
  keySize : Nat
  supported : keySize ∈ supportedKeySizes
  Key : Type
  Point : Type
  publicKey : Key → Point
  point2oct : Point → List Byte
  oct2point : List Byte → Option Point
  computeKey : Point → Key → Option LinkValue

/-- A compressed encoding has `keySize / 8 + 1` octets, the first of them 2 or 3, nothing else is decoded, and both
sides of an exchange compute the same secret. -/
structure Ec.Laws (ec : Ec) : Prop where
  length_point2oct : ∀ p, (ec.point2oct p).length = ec.keySize / 8 + 1
  oct2point_point2oct : ∀ p, ec.oct2point (ec.point2oct p) = some p
  lead_oct2point : ∀ octets p, ec.oct2point octets = some p → octets.getD 0 0 = 2 ∨ octets.getD 0 0 = 3
  computeKey_symm : ∀ k k', ec.computeKey (ec.publicKey k) k' = ec.computeKey (ec.publicKey k') k
  computeKey_isSome : ∀ k k', (ec.computeKey (ec.publicKey k) k').isSome

/-- A curve that satisfies the laws: keys and points are bytes, and the secret is their product. -/
def byteCurve : Ec where
  keySize := 192
  supported := by decide
  Key := Byte
  Point := Byte
  publicKey k := k
  point2oct p := 2 :: p :: List.replicate 23 0
  oct2point octets := if octets.getD 0 0 = 2 then some (octets.getD 1 0) else none
  computeKey p k := some (p * k :: List.replicate 23 0)

theorem byteCurve_laws : byteCurve.Laws where
  length_point2oct _ := rfl
  oct2point_point2oct _ := rfl
  lead_oct2point octets p h := by
    change (if octets.getD 0 0 = 2 then some (octets.getD 1 0) else none) = some p at h
    split_ifs at h with hlead
    exact Or.inl hlead
  computeKey_symm k k' := congrArg (fun b => some (b :: List.replicate 23 0)) (BitVec.mul_comm k k')
  computeKey_isSome _ _ := rfl

structure ECDH (ec : Ec) where
  secret : ec.Key
  localPublic : List Byte

namespace ECDH

variable {ec : Ec} {P : Type}

/-- `generateSecret()`, and with it the constructor: `key` is the generated key. -/
def generateSecret (key : ec.Key) : ECDH ec := ⟨key, ec.point2oct (ec.publicKey key)⟩

def getPublic (dh : ECDH ec) : Mem := Mem.ofList dh.localPublic

def getPublicX (dh : ECDH ec) : Mem := dh.getPublic.add 1

def getPublicY (dh : ECDH ec) : Bool := (dh.getPublic 0).getLsbD 0

def getPublicSize (_ : ECDH ec) : Nat := ec.keySize / 8 + 1

/-- `computeSharedSecret(dest, remotePublic)` reads `keySize / 8 + 1` octets. -/
def computeSharedSecret (dh : ECDH ec) (dest : SharedSecret P) (remotePublic : Mem) : Option (SharedSecret P) :=
  (ec.oct2point (remotePublic.take (ec.keySize / 8 + 1))).bind fun remotePublicPoint =>
    (ec.computeKey remotePublicPoint dh.secret).map fun value => { dest with value := value }

/-- `computeSharedSecret(dest, remotePublicX, remotePublicY)`. -/
def computeSharedSecretXY (dh : ECDH ec) (dest : SharedSecret P) (remotePublicX : Mem) (remotePublicY : Bool) :
    Option (SharedSecret P) :=
  dh.computeSharedSecret dest
    (Mem.ofList ((if remotePublicY then 0x03 else 0x02) :: remotePublicX.take (ec.keySize / 8)))

end ECDH

/-! ## The derivation of keys -/

def SHA256_DIGEST_LENGTH : Nat := 32

/-- `derivateKey(in, inLength, out, outLength)`. `stack` is the memory from the address of `buffer` on, of which `SHA256`
writes the first bytes. -/
def derivateKey (sha256 : List Byte → Digest) (stack : Mem) (input : List Byte) (outLength : Nat) : List Byte :=
  let buffer := stack.copy (fun i => (sha256 input).extractLsb' (8 * i) 8) SHA256_DIGEST_LENGTH
  buffer.take outLength

namespace Ec

variable (ec : Ec) (sharedX : ec.Point → ec.Key → Option (List Byte)) (sha256 : List Byte → Digest)

/-- What the code relies on where `ECDH_compute_key` calls `derivateKey`: the encodings are as in `Laws`, and the
Diffie-Hellman point of two keys has one X coordinate. -/
structure PointLaws : Prop where
  length_point2oct : ∀ p, (ec.point2oct p).length = ec.keySize / 8 + 1
  oct2point_point2oct : ∀ p, ec.oct2point (ec.point2oct p) = some p
  lead_oct2point : ∀ octets p, ec.oct2point octets = some p → octets.getD 0 0 = 2 ∨ octets.getD 0 0 = 3
  sharedX_symm : ∀ k k', sharedX (ec.publicKey k) k' = sharedX (ec.publicKey k') k
  sharedX_isSome : ∀ k k', (sharedX (ec.publicKey k) k').isSome

/-- The curve with `ECDH_compute_key` as it calls `derivateKey`, with the X coordinate of the Diffie-Hellman point and
the length of the output. -/
def withDerivateKey (stack : Mem) : Ec :=
  { ec with computeKey := fun p k => (sharedX p k).map fun x => derivateKey sha256 stack x (ec.keySize / 8) }

/-- Both ends of every exchange over a point with X coordinate `x` get the `keySize / 8` bytes `f x`, with either
`computeSharedSecret` and whatever their memory holds. -/
def BothDerive (P : Type) (f : List Byte → List Byte) : Prop :=
  ∀ (k k' : ec.Key) (x : List Byte), sharedX (ec.publicKey k') k = some x → sharedX (ec.publicKey k) k' = some x →
    (f x).length = ec.keySize / 8 ∧ ∀ (stack stack' : Mem) (dest : SharedSecret P),
      let dh : ECDH (ec.withDerivateKey sharedX sha256 stack) := ECDH.generateSecret k
      let dh' : ECDH (ec.withDerivateKey sharedX sha256 stack') := ECDH.generateSecret k'
      dh.computeSharedSecret dest dh'.getPublic = some { dest with value := f x } ∧
        dh'.computeSharedSecret dest dh.getPublic = some { dest with value := f x } ∧
        dh.computeSharedSecretXY dest dh'.getPublicX dh'.getPublicY = some { dest with value := f x } ∧
        dh'.computeSharedSecretXY dest dh.getPublicX dh.getPublicY = some { dest with value := f x }

end Ec

end Sddr.Radio

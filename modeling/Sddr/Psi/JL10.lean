import Sddr.Codec.PSIMessage
import Sddr.Lib.BigEndian
import Mathlib.Data.Nat.GCD.Basic
import Mathlib.Data.Nat.Prime.Defs

/-!
# JL10

The client and the server of the private set intersection in `jl10_psi_client.cpp` and `jl10_psi_server.cpp`, over what they
use of `mpz_tool.cpp` and `crypto_tool.cpp`. The digest of OpenSSL is a parameter. An assertion that fails, and an element
that is read behind the end of a vector, have no result.
-/

namespace Sddr.Psi
open Sddr.Lib Sddr.Codec

/-- `SHA1`. -/
structure SHA1 where
  digest : Str → Str
  length_digest : ∀ input, (digest input).length = 20

/-- What both sides load of a file with a DSA key: two primes, and the second one divides the first one minus one. -/
structure DSAKey where
  p : Nat
  q : Nat
  prime_p : p.Prime
  prime_q : q.Prime
  dvd : q ∣ p - 1

/-! ## Integers -/

def powm (base exp mod : Nat) : Nat := base ^ exp % mod

/-- `mpz_invert`. Without an inverse the result is not defined, and `rop` is what is found there. -/
def invert (rop r q : Nat) : Nat := if r.gcd q = 1 then (r.gcdA q % q).toNat else rop

/-- `mpz_sizeinbase(n, 2)`, which is one for zero. -/
def sizeInBase2 (n : Nat) : Nat := n.log2 + 1

namespace MpzTool

def fromString (input : Str) : Nat := ofBigEndian input

/-- `Mpz_to_string`. Nothing is exported of zero, but its size is one. -/
def toString (input : Nat) : Option Str :=
  let len := (sizeInBase2 input + 7) / 8
  let exported := toBigEndian input
  if len = exported.length then some exported else none

end MpzTool

namespace CryptoTool

variable (sha : SHA1)

/-- `Hash` of an integer. `stale` is found in the bytes of the new array that nothing is exported to. -/
def hash (stale : Byte) (input : Nat) : Str :=
  let len := (sizeInBase2 input + 7) / 8
  let exported := toBigEndian input
  sha.digest (exported ++ List.replicate (len - exported.length) stale)

/-- The characters of `ss<<i`. -/
def decimal (i : Nat) : Str := (Nat.toDigits 10 i).map fun c => BitVec.ofNat 8 c.toNat

/-- `FDH`: digests of the input behind a counter, as many as the modulus has bits for. -/
def fdh (input : Str) (modulus : Nat) : Nat :=
  let repetition := (sizeInBase2 modulus + 160 - 1) / 160
  MpzTool.fromString ((List.range repetition).flatMap fun i => sha.digest (decimal i ++ input)) % modulus

end CryptoTool

/-! ## The client -/

structure JL10Client where
  adaptive : Bool
  p : Nat
  q : Nat
  t : Nat
  set : List Nat
  rawset : List Str
  vecR : List Nat
  vecRinv : List Nat
  data : List Str
  mapTp : Str → Option Nat
  vecResult : List Nat

namespace JL10Client

/-- The constructor, and `SetAdaptive` if the mode is wanted. -/
def new (adaptive : Bool) : JL10Client := ⟨adaptive, 0, 0, 0, [], [], [], [], [], fun _ => none, []⟩

def setup (c : JL10Client) (key : DSAKey) : JL10Client := { c with p := key.p, q := key.q, t := (key.p - 1) / key.q }

def loadData (sha : SHA1) (c : JL10Client) (data : List Str) : JL10Client :=
  { c with set := data.map (CryptoTool.fdh sha · c.p), rawset := data }

/-- `Initialize`. `r` are the random numbers below `q`, and `rop` is where their inverses are put. -/
def initializeDraws (c : JL10Client) (r rop : Nat → Nat) : JL10Client :=
  { c with
    vecR := (List.range c.set.length).map r
    vecRinv := (List.range c.set.length).map fun i => invert (rop i) (r i) c.q }

def storeData (c : JL10Client) (input : List Str) : JL10Client := if c.adaptive then { c with data := input } else c

/-- A client as each exchange begins with it. -/
def start (sha : SHA1) (key : DSAKey) (adaptive : Bool) (data : List Str) (r rop : Nat → Nat) : JL10Client :=
  (((new adaptive).setup key).loadData sha data).initializeDraws r rop

/-- `Request1`, which leaves the elements of the set raised to `t`. -/
def request1 (c : JL10Client) (output : List Str) : Option (JL10Client × List Str) :=
  let set := c.set.map (powm · c.t c.p)
  let request := (List.range set.length).mapM fun i => do
    let m ← set[i]?
    let r ← c.vecR[i]?
    MpzTool.toString (powm m r c.p)
  request.map fun request => ({ c with set := set }, output ++ request)

/-- A step of the loop of `OnResponse1`. -/
def addTag (sha : SHA1) (stale : Byte) (c : JL10Client) (input : List Str) (mapTp : Str → Option Nat) (i : Nat) :
    Option (Str → Option Nat) := do
  let zi ← input[i]?
  let rinv ← c.vecRinv[i]?
  let wi := powm (MpzTool.fromString zi) rinv c.p
  return Function.update mapTp (CryptoTool.hash sha stale wi) (some i)

def onResponse1 (sha : SHA1) (stale : Byte) (c : JL10Client) (input : List Str) : Option JL10Client :=
  ((List.range c.set.length).foldlM (c.addTag sha stale input) c.mapTp).map fun mapTp =>
    let tags := if c.adaptive then c.data else input.drop c.set.length
    { c with mapTp := mapTp, vecResult := tags.filterMap mapTp }

/-- The elements that `Verify` prints. -/
def verify (c : JL10Client) : Option (List Str) := c.vecResult.mapM (c.rawset[·]?)

end JL10Client

/-! ## The server -/

structure JL10Server where
  adaptive : Bool
  p : Nat
  q : Nat
  t : Nat
  k : Nat
  set : List Nat
  rawset : List Str
  vecUi : List Str
  output : List Str

namespace JL10Server

def new (adaptive : Bool) : JL10Server := ⟨adaptive, 0, 0, 0, 0, [], [], [], []⟩

def setup (s : JL10Server) (key : DSAKey) : JL10Server := { s with p := key.p, q := key.q, t := (key.p - 1) / key.q }

def loadData (sha : SHA1) (s : JL10Server) (data : List Str) : JL10Server :=
  { s with set := data.map (CryptoTool.fdh sha · s.p), rawset := data }

/-- `Initialize`. `k` is a random number below `q`. -/
def initializeDraws (sha : SHA1) (stale : Byte) (s : JL10Server) (k : Nat) : JL10Server :=
  let set := s.set.map (powm · s.t s.p)
  { s with k := k, set := set, vecUi := s.vecUi ++ set.map fun m => CryptoTool.hash sha stale (powm m k s.p) }

/-- A server as each exchange begins with it. -/
def start (sha : SHA1) (key : DSAKey) (adaptive : Bool) (data : List Str) (stale : Byte) (k : Nat) : JL10Server :=
  (((new adaptive).setup key).loadData sha data).initializeDraws sha stale k

def publishData (s : JL10Server) (output : List Str) : List Str := if s.adaptive then output ++ s.vecUi else output

def onRequest1 (s : JL10Server) (input : List Str) : Option JL10Server :=
  let answer := input.mapM fun yi => MpzTool.toString (powm (MpzTool.fromString yi) s.k s.p)
  answer.map fun answer => { s with output := if s.adaptive then answer else answer ++ s.vecUi }

def response1 (s : JL10Server) : List Str := s.output

end JL10Server

/-! ## An exchange -/

/-- The random numbers of both sides, which are below the order, and what they find where nothing was written. -/
structure Draws (key : DSAKey) where
  r : Nat → Nat
  k : Nat
  r_lt : ∀ i, r i < key.q
  k_lt : k < key.q
  rop : Nat → Nat
  stale : Byte

/-- The calls of `main` in `main_adaptive.cpp`, in either mode, with the result. -/
def exchange (sha : SHA1) {key : DSAKey} (draws : Draws key) (adaptive : Bool) (clientData serverData : List Str) :
    Option JL10Client := do
  let pc := JL10Client.start sha key adaptive clientData draws.r draws.rop
  let ps := JL10Server.start sha key adaptive serverData draws.stale draws.k
  let pc := pc.storeData (ps.publishData [])
  let (pc, output) ← pc.request1 []
  let ps ← ps.onRequest1 output
  pc.onResponse1 sha draws.stale ps.response1

end Sddr.Psi

import Sddr.Lib.SipHash

/-!
# SipHash

`SipHash.cpp` and `csiphash.c`, over pointers to the key, the data and the output. Lengths are those of arrays in memory,
so `size_t` and `unsigned long` hold them.
-/

namespace Sddr.Codec.SipHash
open Sddr.Lib

def rotl64 (u : BitVec 64) (s : Nat) : BitVec 64 := u <<< s ||| u >>> (64 - s)

def sipround (v : SipState) : SipState :=
  let v0 := v.v0 + v.v1
  let v1 := rotl64 v.v1 13
  let v1 := v1 ^^^ v0
  let v0 := rotl64 v0 32
  let v2 := v.v2 + v.v3
  let v3 := rotl64 v.v3 16
  let v3 := v3 ^^^ v2
  let v2 := v2 + v1
  let v1 := rotl64 v1 17
  let v1 := v1 ^^^ v2
  let v2 := rotl64 v2 32
  let v0 := v0 + v3
  let v3 := rotl64 v3 21
  let v3 := v3 ^^^ v0
  { v0, v1, v2, v3 }

def sipcompress2 (v : SipState) (m : BitVec 64) : SipState :=
  let v := { v with v3 := v.v3 ^^^ m }
  let v := sipround v
  let v := sipround v
  { v with v0 := v.v0 ^^^ m }

def get64le (data : Mem) (ix : Nat) : BitVec 64 :=
  let p := data.add (ix * 8)
  (List.range 8).foldl (fun ret i => ret ||| (p i).setWidth 64 <<< (i * 8)) 0

def put64le (v : BitVec 64) (out : Mem) : Mem :=
  (List.range 8).foldl (fun p i => p.store i ((v >>> (i * 8)).setWidth 8)) out

def get8 (data : Mem) (ix : Nat) : Byte := data ix

def siplast (data : Mem) (size : Nat) : BitVec 64 :=
  let last := (List.range (size % 8)).foldl
    (fun last i => last ||| (get8 data (size / 8 * 8 + i)).setWidth 64 <<< (i * 8)) 0
  last ||| BitVec.ofNat 64 (size % 256) <<< (7 * 8)

/-- The memory at `out` afterwards. -/
def siphash24 (key data : Mem) (size : Nat) (out : Mem) : Mem :=
  let key0 := get64le key 0
  let key1 := get64le key 1
  let v : SipState :=
    { v0 := key0 ^^^ 0x736f6d6570736575, v1 := key1 ^^^ 0x646f72616e646f6d,
      v2 := key0 ^^^ 0x6c7967656e657261, v3 := key1 ^^^ 0x7465646279746573 }
  let v := (List.range (size / 8)).foldl (fun v i => sipcompress2 v (get64le data i)) v
  let v := sipcompress2 v (siplast data size)
  let v := { v with v2 := v.v2 ^^^ 0xff }
  let v := sipround v
  let v := sipround v
  let v := sipround v
  let v := sipround v
  put64le (v.v0 ^^^ v.v1 ^^^ v.v2 ^^^ v.v3) out

/-- The value on a little-endian machine. `output` is what the variable holds before it is written. -/
def digest (key output data : Mem) (size : Nat) : BitVec 64 := word64 ((siphash24 key data size output).take 8)

end Sddr.Codec.SipHash

namespace Sddr.Codec.CSipHash
open Sddr.Lib

/-- `_le64toh` of the word at a pointer. -/
def le64toh (p : Mem) : BitVec 64 := word64 (p.take 8)

def rotate (x : BitVec 64) (b : Nat) : BitVec 64 := x <<< b ||| x >>> (64 - b)

/-- The values of `a`, `b`, `c` and `d` afterwards. -/
def halfRound (a b c d : BitVec 64) (s t : Nat) : BitVec 64 × BitVec 64 × BitVec 64 × BitVec 64 :=
  let a := a + b
  let c := c + d
  let b := rotate b s ^^^ a
  let d := rotate d t ^^^ c
  let a := rotate a 32
  (a, b, c, d)

def doubleRound (v : SipState) : SipState :=
  let (v0, v1, v2, v3) := halfRound v.v0 v.v1 v.v2 v.v3 13 16
  let (v2, v1, v0, v3) := halfRound v2 v1 v0 v3 17 21
  let (v0, v1, v2, v3) := halfRound v0 v1 v2 v3 13 16
  let (v2, v1, v0, v3) := halfRound v2 v1 v0 v3 17 21
  { v0, v1, v2, v3 }

/-- The loop over whole words, with the values of `in`, `src_sz` and the state after it. -/
def readWords (input : Mem) (srcSz : Nat) (v : SipState) : Mem × Nat × SipState :=
  if 8 ≤ srcSz then
    let mi := le64toh input
    let v := { v with v3 := v.v3 ^^^ mi }
    let v := doubleRound v
    readWords (input.add 8) (srcSz - 8) { v with v0 := v.v0 ^^^ mi }
  else (input, srcSz, v)
termination_by srcSz

/-- The `switch` over the rest, with its cases falling through. -/
def readRest (m : Mem) : Nat → Mem → Mem
  | 7, pt => readRest m 6 (pt.store 6 (m 6))
  | 6, pt => readRest m 5 (pt.store 5 (m 5))
  | 5, pt => readRest m 4 (pt.store 4 (m 4))
  | 4, pt => pt.copy m 4
  | 3, pt => readRest m 2 (pt.store 2 (m 2))
  | 2, pt => readRest m 1 (pt.store 1 (m 1))
  | 1, pt => pt.store 0 (m 0)
  | _, pt => pt

def siphash24 (src : Mem) (srcSz : Nat) (key : Mem) : BitVec 64 :=
  let k0 := le64toh key
  let k1 := le64toh (key.add 8)
  let b := BitVec.ofNat 64 srcSz <<< 56
  let v : SipState :=
    { v0 := k0 ^^^ 0x736f6d6570736575, v1 := k1 ^^^ 0x646f72616e646f6d,
      v2 := k0 ^^^ 0x6c7967656e657261, v3 := k1 ^^^ 0x7465646279746573 }
  let (m, srcSz, v) := readWords src srcSz v
  let t := readRest m srcSz fun _ => 0
  let b := b ||| le64toh t
  let v := { v with v3 := v.v3 ^^^ b }
  let v := doubleRound v
  let v := { v with v0 := v.v0 ^^^ b, v2 := v.v2 ^^^ 0xff }
  let v := doubleRound v
  let v := doubleRound v
  (v.v0 ^^^ v.v1) ^^^ (v.v2 ^^^ v.v3)

end Sddr.Codec.CSipHash

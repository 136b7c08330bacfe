import Sddr.Lib.Transfer

/-!
# BluetoothHCI

`send` and `recv` of `BluetoothHCI.cpp`, which wait for their socket until a time-out. A reading of the clock, the
result of `poll` and what the socket lets through then are one round.
-/

namespace Sddr.Sockets
open Sddr.Lib

structure Round where
  time : BitVec 64
  poll : Int
  offer : Offer

namespace BluetoothHCI

/-- `timeout - (getTimeMS() - startTime)`, computed in a `uint64_t`. -/
def remainingTime (timeout startTime time : BitVec 64) : Int := (timeout - (time - startTime)).toInt

/-- What `success`, `pos` and the moved bytes are after the loop. -/
structure Result (σ : Type) where
  success : Bool
  pos : Nat
  moved : σ

variable {σ : Type} (mover : Mover σ) (size : Nat) (timeout startTime : BitVec 64) (rounds : Nat → Round)

/-- The loop of `send` and `recv` from round `n` on. -/
def transfer (n pos : Nat) (moved : σ) : Result σ :=
  if pos < size ∧ 0 ≤ remainingTime timeout startTime (rounds n).time then
    if (rounds n).poll ≤ 0 then ⟨false, pos, moved⟩
    else
      let numMoved := (rounds n).offer.result (size - pos)
      if numMoved ≤ 0 then ⟨false, pos, moved⟩
      else transfer (n + 1) (pos + numMoved.toNat) (mover.move moved pos numMoved.toNat)
  else ⟨true, pos, moved⟩
termination_by size - pos

/-- `send(sock, message, size, timeout)`. -/
def send (message : Mem) (written : List Byte) : Result (List Byte) :=
  transfer (sending message) size timeout startTime rounds 0 0 written

/-- `recv(sock, dest, size, timeout)`. -/
def recv (stream dest : Mem) : Result Received :=
  transfer (receiving stream) size timeout startTime rounds 0 0 ⟨0, dest⟩

/-! ## Running out of time -/

/-- A round that comes in time and moves something. -/
structure Moves (n : Nat) : Prop where
  inTime : 0 ≤ remainingTime timeout startTime (rounds n).time
  ready : 0 < (rounds n).poll
  amount : 0 < (rounds n).offer.amount

/-- The bytes that are let through before round `n`. -/
def offered (n : Nat) : Nat := ((List.range n).map fun k => (rounds k).offer.amount).sum

/-- Every round moves something until one comes too late, and there are bytes left then. -/
def RunsOut : Prop :=
  ∃ n, (∀ k < n, Moves timeout startTime rounds k) ∧ remainingTime timeout startTime (rounds n).time < 0 ∧
    offered rounds n < size

end BluetoothHCI

end Sddr.Sockets

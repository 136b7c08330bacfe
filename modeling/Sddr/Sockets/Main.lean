import Sddr.Lib.Splits
import Sddr.Lib.Transfer

/-!
# The client socket

`sendAll` and `recvAll` of `Main.cpp`. Results of system calls go into a `size_t`, so an error is a large number.
-/

namespace Sddr.Sockets.Main
open Sddr.Lib

variable {σ : Type} {w : Nat} (mover : Mover σ) (size : BitVec w)

/-- `success`, what was moved, and what the socket lets through afterwards. -/
structure Transferred (σ : Type) where
  success : Bool
  moved : σ
  rest : List Offer

/-- The loop of `sendAll` and `recvAll` from position `pos` on. There is no result while it waits for the socket. -/
def transferAll : List Offer → BitVec w → σ → Option (Transferred σ)
  | [], pos, moved => if pos < size then none else some ⟨true, moved, []⟩
  | offer :: offers, pos, moved =>
      if pos < size then
        let result := offer.result (size - pos).toNat
        let numMoved : BitVec w := BitVec.ofInt w result
        let moved := mover.move moved pos.toNat result.toNat
        if numMoved < 0 then some ⟨false, moved, offers⟩
        else transferAll offers (pos + numMoved) moved
      else some ⟨true, moved, offer :: offers⟩

/-- `sendAll(sock, message, size)`. -/
def sendAll (message : Mem) (offers : List Offer) (written : List Byte) : Option (Transferred (List Byte)) :=
  transferAll (sending message) size offers 0 written

/-- `recvAll(sock, dest, size)`. -/
def recvAll (stream : Mem) (offers : List Offer) (received : Received) : Option (Transferred Received) :=
  transferAll (receiving stream) size offers 0 received

/-! ## What a transfer should do -/

def offered (offers : List Offer) : Nat := (offers.map Offer.amount).sum

/-- One of the offers that count as failures comes before as much as `size` bytes have been let through. -/
def FailsBefore (fails : Offer → Prop) (size : Nat) (offers : List Offer) : Prop :=
  ∃ before offer after, offers = before ++ offer :: after ∧ fails offer ∧ offered before < size

theorem not_failsBefore_nil (fails : Offer → Prop) (n : Nat) : ¬ FailsBefore fails n [] := by
  rintro ⟨before, offer, after, heq, -⟩
  exact forall_split_nil (p := fun _ _ _ => False) before offer after heq

theorem failsBefore_cons {fails : Offer → Prop} {n : Nat} {offer : Offer} {offers : List Offer} :
    FailsBefore fails n (offer :: offers) ↔
      fails offer ∧ 0 < n ∨ FailsBefore fails (n - offer.amount) offers := by
  have hoffered : ∀ before, offered (offer :: before) < n ↔ offered before < n - offer.amount := by
    intro before
    rw [offered, List.map_cons, List.sum_cons, ← offered]
    exact ⟨Nat.lt_sub_of_add_lt ∘ (Nat.add_comm _ _ ▸ ·), Nat.add_lt_of_lt_sub'⟩
  refine exists_split_cons.trans (or_congr Iff.rfl ?_)
  simp only [hoffered]
  rfl

instance (fails : Offer → Prop) [DecidablePred fails] : ∀ size offers, Decidable (FailsBefore fails size offers)
  | size, [] => isFalse (not_failsBefore_nil fails size)
  | size, offer :: offers =>
      have := instDecidableFailsBeforeOfDecidablePredOffer fails (size - offer.amount) offers
      decidable_of_iff (fails offer ∧ 0 < size ∨ FailsBefore fails (size - offer.amount) offers) failsBefore_cons.symm

/-- All bytes are moved if the call succeeds, and it does not succeed when the socket fails before. -/
structure FullOrFails (fails : Offer → Prop) (offers : List Offer) (all : σ) (result : Option (Transferred σ)) : Prop where
  full : ∀ t, result = some t → t.success = true → t.moved = all
  fails : FailsBefore fails size.toNat offers → ∃ t, result = some t ∧ t.success = false

end Sddr.Sockets.Main

import Sddr.Psi.Lemmas.Exchange
import Sddr.Psi.Session
import Sddr.Radio.Lemmas.BT2PSI

/-!
# The messages of a session and its clients
-/

namespace Sddr.Psi
open Sddr.Lib Sddr.Codec Sddr.Device Sddr.Radio Sddr.Radio.BT2PSI

variable {ec : Ec} {key : DSAKey} {sha : SHA1} {s peer : Side ec key}

/-- What the client of one side and the server of the other one rely on: items that are hashed to elements and not taken
for each other, and random numbers that are not zero. -/
structure Suitable (sha : SHA1) (s peer : Side ec key) : Prop where
  client : Hashed sha key (s.party sha).psiClientData
  server : Hashed sha key (peer.party sha).psiServerData
  free : CollisionFree sha key peer.draws.k (s.party sha).psiClientData (peer.party sha).psiServerData
  r : ∀ i < s.listenSet.length, s.draws.r i ≠ 0
  k : peer.draws.k ≠ 0

theorem publishData_eq (h : Suitable sha s peer) :
    (peer.party sha).publishData = serverTags sha key peer.draws.k (peer.party sha).psiServerData := by
  have hui := JL10Server.start_vecUi h.server true peer.draws.stale peer.draws.k
  rw [← hui]
  rfl

theorem request_eq (h : Suitable sha s peer) (published : List Str) :
    (s.party sha).request published = (blinded sha key s.draws.r (s.party sha).psiClientData).map toBigEndian := by
  have hloaded := JL10Client.start_loaded sha key true (s.party sha).psiClientData s.draws.r s.draws.rop
  have hrequest := (hloaded.storeData published).request1
    (JL10Client.start_storeData_set true (s.party sha).psiClientData published s.draws.r s.draws.rop) h.client []
  exact congrArg (fun o => (o.map Prod.snd).getD []) hrequest

theorem response_eq (h : Suitable sha s peer) (published : List Str) :
    (peer.party sha).response ((s.party sha).request published)
      = (blinded sha key s.draws.r (s.party sha).psiClientData).map fun y => toBigEndian (powm y peer.draws.k key.p) := by
  have hanswer := JL10Server.onRequest1_blinded h.server h.client true peer.draws.stale s.draws.r peer.draws.k
  rw [request_eq h published]
  refine (congrArg (fun o => o.getD []) hanswer).trans ?_
  simp

/-! ## The client of a session -/

/-- Numbers of `w` bytes at most, and sets that fit a message with them. -/
structure Small (w : Nat) (s : Side ec key) : Prop where
  p : key.p ≤ 256 ^ w
  digest : 20 ≤ w
  listenSet : 4 + s.listenSet.length * (w + 4) < 2 ^ 32
  advertisedSet : 4 + s.advertisedSet.length * (w + 4) < 2 ^ 32

theorem framedSize_le {w n : Nat} {l : List Str} (hl : ∀ e ∈ l, e.length ≤ w) (hn : l.length = n) :
    framedSize l ≤ 4 + n * (w + 4) := by
  have hsize : stringVectorSize l ≤ n * w := by
    rw [← hn, stringVectorSize, ← List.length_map (f := List.length)]
    exact List.sum_le_card_nsmul _ w fun k hk => by
      obtain ⟨e, he, rfl⟩ := List.mem_map.mp hk
      exact hl e he
  rw [framedSize, hn, Nat.mul_add]
  omega

theorem framedSize_toBigEndian {w : Nat} (hw : key.p ≤ 256 ^ w) {l : List Nat} (hl : ∀ n ∈ l, n < key.p) :
    framedSize (l.map toBigEndian) ≤ 4 + l.length * (w + 4) := by
  refine framedSize_le (fun e he => ?_) (List.length_map _)
  obtain ⟨n, hn, rfl⟩ := List.mem_map.mp he
  exact length_toBigEndian_le (Nat.lt_of_lt_of_le (hl n hn) hw)

theorem framed_publishData (h : Suitable sha s peer) {w : Nat} (hsmall : Small w peer) :
    framedSize (peer.party sha).publishData < 2 ^ 32 := by
  refine Nat.lt_of_le_of_lt (framedSize_le (w := w) (n := peer.advertisedSet.length) ?_ ?_) hsmall.advertisedSet
  · rw [publishData_eq h]
    intro e he
    obtain ⟨y, _, rfl⟩ := List.mem_map.mp he
    exact (sha.length_digest _).trans_le hsmall.digest
  · rw [publishData_eq h, serverTags, List.length_map]
    exact List.length_map _

theorem framed_request (h : Suitable sha s peer) {w : Nat} (hsmall : Small w s) (published : List Str) :
    framedSize ((s.party sha).request published) < 2 ^ 32 := by
  rw [request_eq h]
  refine Nat.lt_of_le_of_lt (framedSize_toBigEndian hsmall.p fun n hn => ?_) ?_
  · obtain ⟨i, hi, rfl⟩ := List.mem_mapIdx.mp hn
    exact powm_lt key.prime_p
  · simpa [blinded, Party.psiClientData, Side.party] using hsmall.listenSet

theorem framed_response (h : Suitable sha s peer) {w : Nat} (hsmall : Small w s) (published : List Str) :
    framedSize ((peer.party sha).response ((s.party sha).request published)) < 2 ^ 32 := by
  rw [response_eq h, ← Function.comp_def, ← List.map_map]
  refine Nat.lt_of_le_of_lt (framedSize_toBigEndian hsmall.p fun n hn => ?_) ?_
  · obtain ⟨y, _, rfl⟩ := List.mem_map.mp hn
    exact powm_lt key.prime_p
  · simpa [blinded, Party.psiClientData, Side.party] using hsmall.listenSet

theorem framed (h : Suitable sha s peer) (h' : Suitable sha peer s) {w : Nat} (hs : Small w s) (hpeer : Small w peer) :
    Framed (s.party sha) (peer.party sha) where
  published := framed_publishData h hpeer
  request := framed_request h hs _
  response := framed_response h hs _
  published' := framed_publishData h' hs
  request' := framed_request h' hpeer _
  response' := framed_response h' hpeer _

end Sddr.Psi

import Sddr.Psi.Lemmas.Exchange

/-!
# The private set intersection
-/

namespace Sddr.Psi
open Sddr.Lib Sddr.Codec

variable {sha : SHA1} {key : DSAKey}

/-! ## An instance -/

/-- The digests of `0a`, `0c`, `0d` and `0e` and of four numbers. -/
def someDigests (input : Str) : Nat :=
  if input = [48, 97] then 0x6779afbc3e993c547ca0800a9754f37a6e80e0ed else
  if input = [48, 99] then 0xa1a9efaa2556ab277853ece802340d35b4842305 else
  if input = [48, 100] then 0xdbf0a51f597e16ccbd5eab6fb89ec2cc156ad4e6 else
  if input = [48, 101] then 0xa9ab76df22b06440fbe285569b4a6e199f6b1311 else
  if input = [18] then 0xc4f87a6290aee1acfc1f26083974ce94621fca64 else
  if input = [4] then 0xa42c6cf1de3abfdea9b95f34687cbbe92b9a7383 else
  if input = [13] then 0x11f4de6b8b45cf8051b1d17fa4cde9ad935cea41 else
  if input = [16] then 0x6e14a407faae939957b80e641a836735bbdcad5a else
  0

def someSHA1 : SHA1 where
  digest input := (littleEndian 20 (someDigests input)).reverse
  length_digest input := by rw [List.length_reverse, length_littleEndian]

def someKey : DSAKey where
  p := 23
  q := 11
  prime_p := by decide
  prime_q := by decide
  dvd := by decide

def someDraws : Draws someKey where
  r i := i % 5 + 2
  k := 3
  r_lt i := Nat.lt_of_lt_of_le (Nat.add_lt_add_right (Nat.mod_lt i (by decide)) 2) (by decide)
  k_lt := by decide
  rop _ := 0
  stale := 0

/-! ## The result -/

theorem exchange_intersection (draws : Draws key) (adaptive : Bool) {clientData serverData : List Str}
    (hclient : Hashed sha key clientData) (hserver : Hashed sha key serverData)
    (hfree : CollisionFree sha key draws.k clientData serverData) (hr : ∀ i < clientData.length, draws.r i ≠ 0)
    (hk : draws.k ≠ 0) :
    ∃ pc, exchange sha draws adaptive clientData serverData = some pc
      ∧ pc.vecResult = serverData.filterMap (lastIdx? clientData)
      ∧ pc.verify = some (serverData.filter (· ∈ clientData)) := by
  obtain ⟨pc, hpc, hrawset, hresult⟩ := exchange_result draws adaptive hclient hserver
  rw [hfree.result hclient hserver hr hk draws.k_lt] at hresult
  exact ⟨pc, hpc, hresult, pc.verify_eq hrawset hresult⟩

/-- The items `a` and `c` against `c` and `d`. -/
theorem exchange_intersection_some :
    ∃ pc, exchange someSHA1 someDraws true [[97], [99]] [[99], [100]] = some pc
      ∧ pc.vecResult = [[99], [100]].filterMap (lastIdx? [[97], [99]])
      ∧ pc.verify = some ([[99], [100]].filter (· ∈ [[97], [99]])) :=
  exchange_intersection someDraws true (by unfold Hashed; decide +kernel) (by unfold Hashed; decide +kernel)
    ⟨by decide +kernel, by decide +kernel⟩ (by decide) (by decide)

/-- The number zero, which the server may draw, makes everything match. -/
theorem exchange_zero (draws : Draws key) (adaptive : Bool) {clientData serverData : List Str}
    (hclient : Hashed sha key clientData) (hserver : Hashed sha key serverData) (hk : draws.k = 0)
    (hdata : clientData ≠ []) :
    ∃ pc, exchange sha draws adaptive clientData serverData = some pc
      ∧ pc.vecResult = List.replicate serverData.length (clientData.length - 1) := by
  obtain ⟨pc, hpc, _, hresult⟩ := exchange_result draws adaptive hclient hserver
  obtain ⟨init, x, rfl⟩ := (List.eq_nil_or_concat' clientData).resolve_left hdata
  have htags : clientTags sha key draws.r draws.k (init ++ [x])
      = clientTags sha key draws.r draws.k init ++ [tag sha 1] := by
    rw [clientTags, List.mapIdx_concat, hk, powm_zero key.prime_p, ite_self, clientTags]
  have hserverTags : serverTags sha key draws.k serverData = List.replicate serverData.length (tag sha 1) := by
    rw [serverTags, hk, ← List.map_const']
    exact List.map_congr_left fun y _ => by rw [powm_zero key.prime_p]
  have hlength : (clientTags sha key draws.r draws.k init).length = init.length := List.length_mapIdx
  refine ⟨pc, hpc, ?_⟩
  rw [hresult, htags, hserverTags, List.filterMap_replicate_of_some (b := init.length)]
  · rw [List.length_append, List.length_singleton, Nat.add_sub_cancel]
  · rw [lastIdx?_concat, if_pos rfl, hlength]

theorem exchange_zero_some :
    ∃ pc, exchange someSHA1 { someDraws with k := 0, k_lt := by decide } false [[97], [99]] [[100], [101]] = some pc
      ∧ pc.vecResult = List.replicate 2 1 :=
  exchange_zero { someDraws with k := 0, k_lt := by decide } false (by unfold Hashed; decide +kernel)
    (by unfold Hashed; decide +kernel) rfl (by decide)

/-! ## Any peer -/

/-- Whatever is published and answered, a client in the adaptive mode only fails at an answer that is shorter than its
request, and it reports at most one of its own items for each published one. -/
theorem client_any_peer {data : List Str} (hdata : Hashed sha key data) (r rop : Nat → Nat) (stale : Byte)
    (published input : List Str) :
    ∃ pc output, ((JL10Client.start sha key true data r rop).storeData published).request1 [] = some (pc, output)
      ∧ output.length = data.length
      ∧ ((pc.onResponse1 sha stale input).isSome ↔ output.length ≤ input.length)
      ∧ ∀ pc', pc.onResponse1 sha stale input = some pc' →
          pc'.vecResult.length ≤ published.length ∧ ∃ items, pc'.verify = some items ∧ ∀ item ∈ items, item ∈ data := by
  have hloaded := (JL10Client.start_loaded sha key true data r rop).storeData published
  have hrequest := hloaded.request1 (JL10Client.start_storeData_set true data published r rop) hdata []
  have hlength : (blinded sha key r data).length = data.length := List.length_mapIdx
  refine ⟨_, _, hrequest, ?_, ?_, fun pc' hpc' => ?_⟩
  · rw [List.nil_append, List.length_map, hlength]
  · rw [List.nil_append, List.length_map, hlength]
    exact hloaded.asked.onResponse1_isSome stale input
  · obtain ⟨hrawset, hindexes⟩ := hloaded.asked.onResponse1_lt hpc'
    refine ⟨?_, ?_⟩
    · obtain ⟨mapTp, _, rfl⟩ := Option.map_eq_some_iff.mp hpc'
      exact List.length_filterMap_le mapTp published
    · have hitems : pc'.vecResult.mapM (data[·]?) = some (pc'.vecResult.map fun i => data.getD i []) :=
        mapM_eq_some fun i hi => by
          rw [List.getD_eq_getElem?_getD, List.getElem?_eq_getElem (hindexes i hi), Option.getD_some]
      refine ⟨_, by rw [JL10Client.verify, hrawset, hitems], fun item hitem => ?_⟩
      obtain ⟨i, hi, rfl⟩ := List.mem_map.mp hitem
      rw [List.getD_eq_getElem?_getD, List.getElem?_eq_getElem (hindexes i hi), Option.getD_some]
      exact List.getElem_mem _

theorem client_any_peer_some :
    ∃ pc output, ((JL10Client.start someSHA1 someKey true [[97], [99]] someDraws.r someDraws.rop).storeData
        [[7], [], [7]]).request1 [] = some (pc, output)
      ∧ output.length = 2
      ∧ ((pc.onResponse1 someSHA1 0 [[], [1, 2, 3]]).isSome ↔ output.length ≤ 2)
      ∧ ∀ pc', pc.onResponse1 someSHA1 0 [[], [1, 2, 3]] = some pc' →
          pc'.vecResult.length ≤ 3 ∧ ∃ items, pc'.verify = some items ∧ ∀ item ∈ items, item ∈ ([[97], [99]] : List Str) :=
  client_any_peer (by unfold Hashed; decide +kernel) someDraws.r someDraws.rop 0 [[7], [], [7]] [[], [1, 2, 3]]

/-- A server raises whatever is asked of it to its number, and the digests of its own elements follow if it has not
published them; only a zero ends it, and not if its number is zero, too. -/
theorem server_any_peer (adaptive : Bool) (data : List Str) (stale : Byte) (k : Nat) (input : List Str) :
    (((JL10Server.start sha key adaptive data stale k).onRequest1 input).isSome
        ↔ k = 0 ∨ ∀ yi ∈ input, MpzTool.fromString yi % key.p ≠ 0)
      ∧ ∀ ps, (JL10Server.start sha key adaptive data stale k).onRequest1 input = some ps →
          ∃ answer, answer.map MpzTool.fromString = input.map (fun yi => powm (MpzTool.fromString yi) k key.p)
            ∧ ps.response1
                = answer ++ if adaptive then [] else (JL10Server.start sha key adaptive data stale k).vecUi := by
  have hanswer : (JL10Server.start sha key adaptive data stale k).onRequest1 input
      = (input.mapM fun yi => MpzTool.toString (powm (MpzTool.fromString yi) k key.p)).map fun answer =>
          { JL10Server.start sha key adaptive data stale k with
            output := if adaptive then answer else
              answer ++ (JL10Server.start sha key adaptive data stale k).vecUi } := rfl
  constructor
  · rw [hanswer, Option.isSome_map, mapM_isSome_iff]
    simp only [toString_isSome_iff]
    rcases eq_or_ne k 0 with rfl | hk
    · simp [powm_zero key.prime_p]
    · simp only [hk, false_or, ne_eq, powm_eq_zero_iff key.prime_p hk]
  · intro ps hps
    rw [hanswer] at hps
    obtain ⟨answer, hloop, rfl⟩ := Option.map_eq_some_iff.mp hps
    refine ⟨answer, map_mapM hloop fun yi zi hzi => fromString_toString hzi, ?_⟩
    cases adaptive
    · rfl
    · exact (List.append_nil answer).symm

/-! ## What a request tells -/

/-- The output of a client that has stored what a server publishes. -/
def requestOf (sha : SHA1) (key : DSAKey) (adaptive : Bool) (data : List Str) (r rop : Nat → Nat) (published : List Str) :
    Option (List Str) :=
  (((JL10Client.start sha key adaptive data r rop).storeData published).request1 []).map Prod.snd

theorem requestOf_eq (adaptive : Bool) {data : List Str} (hdata : Hashed sha key data) (r rop : Nat → Nat)
    (published : List Str) :
    requestOf sha key adaptive data r rop published = some ((blinded sha key r data).map toBigEndian) := by
  rw [requestOf, ((JL10Client.start_loaded sha key adaptive data r rop).storeData published).request1
    (JL10Client.start_storeData_set adaptive data published r rop) hdata [], Option.map_some, List.nil_append]

/-- A request of one set is one of every other set with as many items, for one choice of the random numbers, whatever was
published to either. -/
theorem request_hides {data data' : List Str} (hlength : data.length = data'.length) (hdata : Hashed sha key data)
    (hdata' : Hashed sha key data') (hone : ∀ x ∈ data, element sha key x ≠ 1) (hone' : ∀ x ∈ data', element sha key x ≠ 1)
    {r : Nat → Nat} (hr : ∀ i < data.length, r i ≠ 0 ∧ r i < key.q) (adaptive : Bool) :
    ∃ r', (∀ i < data'.length, r' i ≠ 0 ∧ r' i < key.q)
      ∧ ∀ (rop rop' : Nat → Nat) (published published' : List Str),
          requestOf sha key adaptive data' r' rop' published' = requestOf sha key adaptive data r rop published
          ∧ ∀ s, (∀ i < data'.length, s i ≠ 0 ∧ s i < key.q) →
              requestOf sha key adaptive data' s rop' published' = requestOf sha key adaptive data r rop published →
                ∀ i < data'.length, s i = r' i := by
  have hcell : ∀ i, ∃ s, ∀ x y, data[i]? = some x → data'[i]? = some y →
      ((s ≠ 0 ∧ s < key.q) ∧ powm (element sha key y) s key.p = powm (element sha key x) (r i) key.p)
        ∧ ∀ s', (s' ≠ 0 ∧ s' < key.q) ∧ powm (element sha key y) s' key.p = powm (element sha key x) (r i) key.p → s' = s := by
    intro i
    cases hx : data[i]? with
    | none => exact ⟨0, fun x y hx' _ => by cases hx'⟩
    | some x =>
        cases hy : data'[i]? with
        | none => exact ⟨0, fun x y _ hy' => by cases hy'⟩
        | some y =>
            have hxmem := List.mem_of_getElem? hx
            have hymem := List.mem_of_getElem? hy
            have hri := hr i (List.getElem?_eq_some_iff.mp hx).1
            obtain ⟨s, hs, hunique⟩ := powm_hides (hdata x hxmem) (hdata' y hymem) (hone x hxmem) (hone' y hymem) hri.1 hri.2
            refine ⟨s, fun x' y' hx' hy' => ?_⟩
            cases hx'
            cases hy'
            exact ⟨hs, hunique⟩
  choose r' hr' using hcell
  refine ⟨r', fun i hi => ?_, fun rop rop' published published' => ⟨?_, fun s hs heq i hi => ?_⟩⟩
  · have hi' : i < data.length := hlength ▸ hi
    exact (hr' i _ _ (List.getElem?_eq_getElem hi') (List.getElem?_eq_getElem hi)).1.1
  · rw [requestOf_eq adaptive hdata' r' rop' published', requestOf_eq adaptive hdata r rop published]
    refine congrArg (fun l => some (List.map toBigEndian l)) (List.ext_getElem (by simp [blinded, hlength]) fun i hi hi' => ?_)
    rw [blinded, List.length_mapIdx] at hi hi'
    simp only [blinded, List.getElem_mapIdx]
    exact (hr' i _ _ (List.getElem?_eq_getElem hi') (List.getElem?_eq_getElem hi)).1.2
  · have hi' : i < data.length := hlength ▸ hi
    rw [requestOf_eq adaptive hdata' s rop' published', requestOf_eq adaptive hdata r rop published] at heq
    have hblinded := toBigEndian_injective.list_map (Option.some.inj heq)
    have hget := congrArg (·[i]?) hblinded
    simp only [blinded, List.getElem?_mapIdx, List.getElem?_eq_getElem hi, List.getElem?_eq_getElem hi', Option.map_some,
      Option.some_inj] at hget
    exact (hr' i _ _ (List.getElem?_eq_getElem hi') (List.getElem?_eq_getElem hi)).2 (s i) ⟨hs i hi, hget⟩

theorem request_hides_some :
    ∃ r', (∀ i < 2, r' i ≠ 0 ∧ r' i < 11)
      ∧ ∀ (rop rop' : Nat → Nat) (published published' : List Str),
          requestOf someSHA1 someKey true [[100], [101]] r' rop' published'
            = requestOf someSHA1 someKey true [[97], [99]] someDraws.r rop published
          ∧ ∀ s, (∀ i < 2, s i ≠ 0 ∧ s i < 11) →
              requestOf someSHA1 someKey true [[100], [101]] s rop' published'
                = requestOf someSHA1 someKey true [[97], [99]] someDraws.r rop published →
                  ∀ i < 2, s i = r' i :=
  @request_hides someSHA1 someKey [[97], [99]] [[100], [101]] rfl (by unfold Hashed; decide +kernel)
    (by unfold Hashed; decide +kernel) (by decide +kernel) (by decide +kernel) someDraws.r (by decide) true

end Sddr.Psi

import Sddr.Lib.Loops
import Sddr.Psi.Lemmas.JL10

/-!
# What each side makes of the other one's messages
-/

namespace Sddr.Psi
open Sddr.Lib Sddr.Codec

variable {sha : SHA1} {key : DSAKey}

/-- The elements of a request. -/
def blinded (sha : SHA1) (key : DSAKey) (r : Nat → Nat) (data : List Str) : List Nat :=
  data.mapIdx fun i item => powm (element sha key item) (r i) key.p

/-- The tags that a server publishes. -/
def serverTags (sha : SHA1) (key : DSAKey) (k : Nat) (data : List Str) : List Str :=
  data.map fun item => tag sha (powm (element sha key item) k key.p)

/-- The tags that a client finds in an answer. -/
def clientTags (sha : SHA1) (key : DSAKey) (r : Nat → Nat) (k : Nat) (data : List Str) : List Str :=
  data.mapIdx fun i item => tag sha (if r i = 0 then 1 else powm (element sha key item) k key.p)

/-! ## The client -/

namespace JL10Client

/-- The client after its request. -/
def asked (c : JL10Client) : JL10Client := { c with set := c.set.map (powm · c.t c.p) }

/-- The client as it is with its data loaded and random numbers drawn, before or after a request. -/
structure Loaded (c : JL10Client) (key : DSAKey) (data : List Str) (r rop : Nat → Nat) : Prop where
  p : c.p = key.p
  t : c.t = (key.p - 1) / key.q
  length_set : c.set.length = data.length
  rawset : c.rawset = data
  vecR : c.vecR = (List.range data.length).map r
  vecRinv : c.vecRinv = (List.range data.length).map fun i => invert (rop i) (r i) key.q
  mapTp : c.mapTp = fun _ => none

variable {c : JL10Client} {data : List Str} {r rop : Nat → Nat}

theorem start_loaded (sha : SHA1) (key : DSAKey) (adaptive : Bool) (data : List Str) (r rop : Nat → Nat) :
    (start sha key adaptive data r rop).Loaded key data r rop := by
  constructor <;> simp [start, new, setup, loadData, initializeDraws]

theorem Loaded.storeData (h : c.Loaded key data r rop) (published : List Str) :
    (c.storeData published).Loaded key data r rop := by
  unfold JL10Client.storeData
  split_ifs
  · exact ⟨h.p, h.t, h.length_set, h.rawset, h.vecR, h.vecRinv, h.mapTp⟩
  · exact h

theorem Loaded.asked (h : c.Loaded key data r rop) : c.asked.Loaded key data r rop :=
  ⟨h.p, h.t, (List.length_map _).trans h.length_set, h.rawset, h.vecR, h.vecRinv, h.mapTp⟩

theorem start_storeData_set (adaptive : Bool) (data published : List Str) (r rop : Nat → Nat) :
    ((start sha key adaptive data r rop).storeData published).set = data.map (CryptoTool.fdh sha · key.p) := by
  unfold JL10Client.storeData
  split_ifs <;> rfl

/-- The request, if nothing is hashed to zero. -/
theorem Loaded.request1 (h : c.Loaded key data r rop) (hset : c.set = data.map (CryptoTool.fdh sha · key.p))
    (hdata : Hashed sha key data) (output : List Str) :
    c.request1 output = some (c.asked, output ++ (blinded sha key r data).map toBigEndian) := by
  have helements : c.set.map (powm · c.t c.p) = data.map (element sha key) := by
    rw [hset, h.p, h.t, List.map_map]
    rfl
  have hloop : (List.range data.length).mapM (fun i => do
      let m ← (data.map (element sha key))[i]?
      let r ← c.vecR[i]?
      MpzTool.toString (powm m r c.p))
        = some (data.mapIdx fun i item => toBigEndian (powm (element sha key item) (r i) key.p)) := by
    refine mapM_range fun i item hitem => ?_
    have hne := powm_ne_zero (e := r i) key.prime_p (element_mod_ne_zero (hdata item (List.mem_of_getElem? hitem)))
    rw [List.getElem?_map, hitem, h.vecR, List.getElem?_map,
      List.getElem?_range (List.getElem?_eq_some_iff.mp hitem).1, h.p]
    exact toString_eq_some hne
  unfold JL10Client.request1
  simp only [helements, List.length_map, hloop, Option.map_some, JL10Client.asked, blinded, map_mapIdx]

/-- What is found in an answer of a server with the number `k`. -/
theorem Loaded.addTag (h : c.Loaded key data r rop) (hdata : Hashed sha key data) (hr : ∀ i, r i < key.q) (stale : Byte)
    (k : Nat) (rest : List Str) (m : Str → Option Nat) {i : Nat} {item : Str} (hitem : data[i]? = some item) :
    c.addTag sha stale ((blinded sha key r data).map (fun y => toBigEndian (powm y k key.p)) ++ rest) m i
      = some (Function.update m (tag sha (if r i = 0 then 1 else powm (element sha key item) k key.p)) (some i)) := by
  have hlt := (List.getElem?_eq_some_iff.mp hitem).1
  have hfdh := hdata item (List.mem_of_getElem? hitem)
  have hanswer : ((blinded sha key r data).map (fun y => toBigEndian (powm y k key.p)) ++ rest)[i]?
      = some (toBigEndian (powm (powm (element sha key item) (r i) key.p) k key.p)) := by
    rw [List.getElem?_append_left (by simpa [blinded] using hlt), List.getElem?_map, blinded, List.getElem?_mapIdx, hitem]
    rfl
  have hrinv : c.vecRinv[i]? = some (invert (rop i) (r i) key.q) := by
    rw [h.vecRinv, List.getElem?_map, List.getElem?_range hlt, Option.map_some]
  have hwi : powm (powm (powm (element sha key item) (r i) key.p) k key.p) (invert (rop i) (r i) key.q) key.p
      = if r i = 0 then 1 else powm (element sha key item) k key.p := by
    split_ifs with hzero
    · rw [hzero, powm_unblind_zero]
    · exact powm_unblind hfdh hzero (hr i)
  have hne : (if r i = 0 then 1 else powm (element sha key item) k key.p) ≠ 0 := by
    split_ifs
    · exact Nat.one_ne_zero
    · exact powm_ne_zero key.prime_p (element_mod_ne_zero hfdh)
  unfold JL10Client.addTag
  rw [hanswer, hrinv, h.p]
  simp only [Option.bind_eq_bind, Option.bind_some, fromString_toBigEndian, hwi, hash_eq sha stale hne, Option.pure_def, tag]

/-- The result for an honest answer: the last index of each tag that is published. -/
theorem Loaded.onResponse1 (h : c.Loaded key data r rop) (hdata : Hashed sha key data) (hr : ∀ i, r i < key.q)
    (stale : Byte) (k : Nat) (rest : List Str) :
    ∃ c', c.onResponse1 sha stale ((blinded sha key r data).map (fun y => toBigEndian (powm y k key.p)) ++ rest) = some c'
      ∧ c'.rawset = data
      ∧ c'.vecResult = (if c.adaptive then c.data else rest).filterMap (lastIdx? (clientTags sha key r k data)) := by
  have hloop := foldlM_range_update (fun m i item hitem => h.addTag hdata hr stale k rest m (i := i) hitem) c.mapTp
  have hdrop : ((blinded sha key r data).map (fun y => toBigEndian (powm y k key.p)) ++ rest).drop c.set.length = rest := by
    rw [h.length_set]
    exact List.drop_left' (by simp [blinded])
  unfold JL10Client.onResponse1
  rw [hdrop, h.length_set, hloop]
  refine ⟨_, rfl, h.rawset, ?_⟩
  simp only [h.mapTp, Option.or_none, clientTags]

theorem Loaded.addTag_isSome (h : c.Loaded key data r rop) (stale : Byte) (input : List Str) (m : Str → Option Nat)
    {i : Nat} (hi : i < data.length) : (c.addTag sha stale input m i).isSome ↔ i < input.length := by
  unfold JL10Client.addTag
  rw [h.vecRinv, List.getElem?_map, List.getElem?_range hi]
  cases hzi : input[i]? with
  | none => simpa using List.getElem?_eq_none_iff.mp hzi
  | some zi => simpa using (List.getElem?_eq_some_iff.mp hzi).1

/-- Any answer that is long enough is taken. -/
theorem Loaded.onResponse1_isSome (h : c.Loaded key data r rop) (stale : Byte) (input : List Str) :
    (c.onResponse1 sha stale input).isSome ↔ data.length ≤ input.length := by
  have hstep : ∀ m, ∀ i ∈ List.range data.length, (c.addTag sha stale input m i).isSome ↔ i < input.length :=
    fun m i hi => h.addTag_isSome stale input m (List.mem_range.mp hi)
  rw [JL10Client.onResponse1, Option.isSome_map, h.length_set, foldlM_isSome_iff hstep]
  simp only [List.mem_range]
  exact ⟨fun hall => Nat.le_of_not_lt fun hlt => Nat.lt_irrefl _ (hall _ hlt), fun hle i hi => Nat.lt_of_lt_of_le hi hle⟩

/-- No index is reported that the client has no item for. -/
theorem Loaded.onResponse1_lt (h : c.Loaded key data r rop) {stale : Byte} {input : List Str} {c' : JL10Client}
    (hc' : c.onResponse1 sha stale input = some c') : c'.rawset = data ∧ ∀ i ∈ c'.vecResult, i < data.length := by
  obtain ⟨mapTp, hloop, rfl⟩ := Option.map_eq_some_iff.mp hc'
  have hindexes : ∀ b i, mapTp b = some i → i < data.length := by
    refine foldlM_keeps (p := fun m => ∀ b i, m b = some i → i < data.length) (fun m j m' hj hm' hm b i hi => ?_) hloop ?_
    · simp only [JL10Client.addTag, Option.bind_eq_bind, Option.bind_eq_some_iff, Option.pure_def, Option.some_inj] at hm'
      obtain ⟨zi, _, rinv, _, rfl⟩ := hm'
      rcases eq_or_ne b (CryptoTool.hash sha stale (powm (MpzTool.fromString zi) rinv c.p)) with rfl | hne
      · rw [Function.update_self] at hi
        cases hi
        exact h.length_set ▸ List.mem_range.mp hj
      · rw [Function.update_of_ne hne] at hi
        exact hm b i hi
    · rw [h.mapTp]
      exact fun b i hi => by cases hi
  refine ⟨h.rawset, fun i hi => ?_⟩
  obtain ⟨b, _, hb⟩ := List.mem_filterMap.mp hi
  exact hindexes b i hb

end JL10Client

/-! ## The server -/

namespace JL10Server

variable {data : List Str}

theorem start_vecUi (hdata : Hashed sha key data) (adaptive : Bool) (stale : Byte) (k : Nat) :
    (start sha key adaptive data stale k).vecUi = serverTags sha key k data := by
  have hui : (start sha key adaptive data stale k).vecUi
      = data.map fun item => CryptoTool.hash sha stale (powm (element sha key item) k key.p) := by
    simp [start, new, setup, loadData, initializeDraws, element, Function.comp_def]
  rw [hui, serverTags]
  refine List.map_congr_left fun item hitem => ?_
  exact hash_eq sha stale (powm_ne_zero key.prime_p (element_mod_ne_zero (hdata item hitem)))

/-- The answer to an honest request. -/
theorem onRequest1_blinded {clientData : List Str} (hdata : Hashed sha key data) (hclient : Hashed sha key clientData)
    (adaptive : Bool) (stale : Byte) (r : Nat → Nat) (k : Nat) :
    ((start sha key adaptive data stale k).onRequest1 ((blinded sha key r clientData).map toBigEndian)).map response1
      = some ((blinded sha key r clientData).map (fun y => toBigEndian (powm y k key.p))
          ++ if adaptive then [] else serverTags sha key k data) := by
  have hloop : ((blinded sha key r clientData).map toBigEndian).mapM
      (fun yi => MpzTool.toString (powm (MpzTool.fromString yi) k key.p))
        = some ((blinded sha key r clientData).map fun y => toBigEndian (powm y k key.p)) := by
    rw [List.mapM_map]
    refine mapM_eq_some fun y hy => ?_
    obtain ⟨i, hi, rfl⟩ := List.mem_mapIdx.mp hy
    have hne := element_mod_ne_zero (hclient _ (List.getElem_mem hi))
    rw [Function.comp_apply, fromString_toBigEndian, powm_powm]
    exact toString_eq_some (powm_ne_zero key.prime_p hne)
  have hstart : (start sha key adaptive data stale k).onRequest1 ((blinded sha key r clientData).map toBigEndian)
      = (((blinded sha key r clientData).map toBigEndian).mapM
          (fun yi => MpzTool.toString (powm (MpzTool.fromString yi) k key.p))).map fun answer =>
        { start sha key adaptive data stale k with
          output := if adaptive then answer else answer ++ (start sha key adaptive data stale k).vecUi } := rfl
  rw [hstart, hloop, start_vecUi hdata]
  cases adaptive
  · rfl
  · simp [response1]

end JL10Server

/-! ## Both sides -/

/-- A client and the answers of a server with the number `k` to it. -/
theorem JL10Client.result {clientData : List Str} (hclient : Hashed sha key clientData) (serverData : List Str)
    {r : Nat → Nat} (hr : ∀ i, r i < key.q) (rop : Nat → Nat) (adaptive : Bool) (stale : Byte) (k : Nat) :
    ∃ pc pc', ((start sha key adaptive clientData r rop).storeData (serverTags sha key k serverData)).request1 []
        = some (pc, (blinded sha key r clientData).map toBigEndian)
      ∧ pc.onResponse1 sha stale ((blinded sha key r clientData).map (fun y => toBigEndian (powm y k key.p))
          ++ if adaptive then [] else serverTags sha key k serverData) = some pc'
      ∧ pc'.rawset = clientData
      ∧ pc'.vecResult = (serverTags sha key k serverData).filterMap (lastIdx? (clientTags sha key r k clientData)) := by
  have hloaded := (start_loaded sha key adaptive clientData r rop).storeData (serverTags sha key k serverData)
  have hrequest := hloaded.request1
    (start_storeData_set adaptive clientData (serverTags sha key k serverData) r rop) hclient []
  obtain ⟨pc', hpc', hrawset, hresult⟩ := hloaded.asked.onResponse1 hclient hr stale k
    (if adaptive then [] else serverTags sha key k serverData)
  refine ⟨_, pc', hrequest, hpc', hrawset, hresult.trans ?_⟩
  cases adaptive <;> rfl

theorem exchange_result (draws : Draws key) (adaptive : Bool) {clientData serverData : List Str}
    (hclient : Hashed sha key clientData) (hserver : Hashed sha key serverData) :
    ∃ pc, exchange sha draws adaptive clientData serverData = some pc ∧ pc.rawset = clientData
      ∧ pc.vecResult = (serverTags sha key draws.k serverData).filterMap
          (lastIdx? (clientTags sha key draws.r draws.k clientData)) := by
  obtain ⟨pc, pc', hrequest, hresponse, hresult⟩ := JL10Client.result hclient serverData draws.r_lt draws.rop adaptive
    draws.stale draws.k
  have hanswer := JL10Server.onRequest1_blinded hserver hclient adaptive draws.stale draws.r draws.k
  obtain ⟨ps, hps, houtput⟩ := Option.map_eq_some_iff.mp hanswer
  have hstore : (JL10Client.start sha key adaptive clientData draws.r draws.rop).storeData
      ((JL10Server.start sha key adaptive serverData draws.stale draws.k).publishData [])
        = (JL10Client.start sha key adaptive clientData draws.r draws.rop).storeData
            (serverTags sha key draws.k serverData) := by
    rw [← JL10Server.start_vecUi hserver adaptive draws.stale draws.k]
    cases adaptive <;> rfl
  refine ⟨pc', ?_, hresult⟩
  unfold exchange
  simp only [hstore, hrequest, Option.bind_eq_bind, Option.bind_some, hps, houtput, hresponse]

/-- No two of the items are taken for each other: neither by what hashes them to elements nor by the digests of what the
server makes of the elements. -/
structure CollisionFree (sha : SHA1) (key : DSAKey) (k : Nat) (clientData serverData : List Str) : Prop where
  element : ∀ x ∈ clientData, ∀ y ∈ serverData, element sha key x = element sha key y → x = y
  digest : ∀ x ∈ clientData, ∀ y ∈ serverData,
    tag sha (powm (Psi.element sha key x) k key.p) = tag sha (powm (Psi.element sha key y) k key.p) →
      powm (Psi.element sha key x) k key.p = powm (Psi.element sha key y) k key.p

/-- Tags that tell the items apart. -/
theorem CollisionFree.result {clientData serverData : List Str} {k : Nat} {r : Nat → Nat}
    (hfree : CollisionFree sha key k clientData serverData) (hclient : Hashed sha key clientData)
    (hserver : Hashed sha key serverData) (hr : ∀ i < clientData.length, r i ≠ 0) (hk : k ≠ 0) (hlt : k < key.q) :
    (serverTags sha key k serverData).filterMap (lastIdx? (clientTags sha key r k clientData))
      = serverData.filterMap (lastIdx? clientData) := by
  rw [serverTags, List.filterMap_map]
  refine List.filterMap_congr fun y hy => lastIdx?_mapIdx fun i x hx => ?_
  have hmem := List.mem_of_getElem? hx
  rw [if_neg (hr i (List.getElem?_eq_some_iff.mp hx).1)]
  refine ⟨fun htag => hfree.element x hmem y hy ?_, fun heq => by rw [heq]⟩
  exact element_eq_of_powm_eq (hclient x hmem) (hserver y hy) hk hlt (hfree.digest x hmem y hy htag)

/-- What `Verify` prints of an intersection. -/
theorem JL10Client.verify_eq (c : JL10Client) {clientData serverData : List Str} (hrawset : c.rawset = clientData)
    (hresult : c.vecResult = serverData.filterMap (lastIdx? clientData)) :
    c.verify = some (serverData.filter (· ∈ clientData)) := by
  rw [JL10Client.verify, hresult, hrawset, mapM_filterMap_lastIdx?]
  refine congrArg some (List.filter_congr fun y _ => ?_)
  rw [Bool.eq_iff_iff, lastIdx?_isSome_iff, decide_eq_true_iff]

end Sddr.Psi

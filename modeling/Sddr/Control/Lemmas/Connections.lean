import Mathlib.Data.List.GetD
import Sddr.Control.Connections
import Sddr.Radio.Lemmas.ECDH
import Sddr.Radio.Lemmas.EbNRadio

/-!
# Keys of connections

Every message carries the key it was generated from, up to where it is processed.
-/

namespace Sddr.Radio
open Sddr.Lib Sddr.Codec Sddr.Device Sddr.Erasure

variable {P : Type} [FloatOps P] {ec : Ec} {sha256 : List Byte → Digest}

/-! ## Messages -/

/-- The public key of `dhExchange`, and then a Bloom filter. -/
def CarriesKey (message : List Byte) (dhExchange : ECDH ec) : Prop :=
  (∃ key, dhExchange = ECDH.generateSecret key) ∧
    ∃ bloom : List Byte, message = dhExchange.getPublic.take dhExchange.getPublicSize ++ bloom ∧
      bloom.length = (BT4.ACTIVE_BF_M + 7) / 8

namespace EbNRadioBT4

variable {r : EbNRadioBT4 P ec} {message : List Byte} {dhExchange : ECDH ec}

theorem generateActiveHandshake_carriesKey (sha256 : List Byte → Digest) (rand : Nat → Nat) (r : EbNRadioBT4 P ec)
    (hkey : ∃ key, dhExchange = ECDH.generateSecret key) :
    CarriesKey (r.generateActiveHandshake sha256 rand dhExchange) dhExchange := by
  refine ⟨hkey, _, rfl, ?_⟩
  have hsize : (r.activeBloom sha256 rand dhExchange : BloomFilter P).bits.size = BT4.ACTIVE_BF_M :=
    (fillBloomFilter_grows sha256 rand r.toEbNRadio _ _ false).size
  rw [BitMap.toBytes, Mem.length_take, BitMap.sizeBytes, hsize]

omit [FloatOps P] in
/-- Of a message, the public key is read. -/
theorem computeSharedSecret_carriesKey (h : ec.Laws) (dh : ECDH ec) (dest : SharedSecret P)
    (hmessage : CarriesKey message dhExchange) :
    dh.computeSharedSecret dest (Mem.ofList message)
      = (ec.computeKey (ec.publicKey dhExchange.secret) dh.secret).map fun value => { dest with value := value } := by
  obtain ⟨⟨key, rfl⟩, bloom, rfl, -⟩ := hmessage
  refine Eq.trans ?_ (ECDH.computeSharedSecret_public h dh dest key)
  unfold ECDH.computeSharedSecret
  congr 2
  refine Mem.take_congr fun i hi => ?_
  have hlength : i < ((ECDH.generateSecret key).getPublic.take (ec.keySize / 8 + 1)).length := by
    rwa [Mem.length_take]
  unfold Mem.ofList
  rw [ECDH.getPublicSize, List.getD_append _ _ _ _ hlength]
  exact Mem.take_getD hi _

theorem addedSecret_eq (sha256 : List Byte → Digest) (r : EbNRadioBT4 P ec) (message : List Byte) :
    r.addedSecret sha256 message =
      if message.length = r.dhExchange.getPublicSize + (BT4.ACTIVE_BF_M + 7) / 8 then
        (r.dhExchange.computeSharedSecret (SharedSecret.ofScheme (P := P) .active) (Mem.ofList message)).map SharedSecret.value
      else none := by
  unfold addedSecret processActiveHandshake
  dsimp only
  by_cases hlength : message.length = r.dhExchange.getPublicSize + (BT4.ACTIVE_BF_M + 7) / 8
  · rw [if_neg (not_not.mpr hlength), if_pos hlength]
    cases hsecret : r.dhExchange.computeSharedSecret (SharedSecret.ofScheme (P := P) .active) (Mem.ofList message) with
    | none => rfl
    | some secret =>
        obtain ⟨_, -, hkey⟩ := Option.bind_eq_some_iff.mp hsecret
        obtain ⟨_, -, rfl⟩ := Option.map_eq_some_iff.mp hkey
        rfl
  · rw [if_pos hlength, if_neg hlength]
    rfl

/-- A message is processed with the key that the radio has then. -/
theorem addedSecret_carriesKey (h : ec.Laws) (sha256 : List Byte → Digest) (r : EbNRadioBT4 P ec)
    (hmessage : CarriesKey message dhExchange) :
    r.addedSecret sha256 message = ec.computeKey (ec.publicKey dhExchange.secret) r.dhExchange.secret := by
  have hlength : message.length = r.dhExchange.getPublicSize + (BT4.ACTIVE_BF_M + 7) / 8 := by
    obtain ⟨-, bloom, rfl, hbloom⟩ := hmessage
    rw [List.length_append, Mem.length_take, hbloom]
    rfl
  rw [addedSecret_eq, if_pos hlength, computeSharedSecret_carriesKey h _ _ hmessage, Option.map_map]
  exact Option.map_id' ..

end EbNRadioBT4

end Sddr.Radio

namespace Sddr.Control
open Sddr.Lib Sddr.Codec Sddr.Device Sddr.Radio Sddr.Erasure

variable {N P : Type} [FloatOps P] {ec : Ec} {sha256 : List Byte → Digest}

/-! ## Connections -/

namespace Connection

variable {radio radio' : N → EbNRadioBT4 P ec} {r' : EbNRadioBT4 P ec} {c c' : Connection N ec}

/-- What the listener thread, and then the queue, holds. -/
def Serves (radio : N → EbNRadioBT4 P ec) (c : Connection N ec) : Server → Prop
  | .waiting => c.dhExchangeCopy = none
  | .receiving localMessage => ∃ copy ∈ c.dhExchangeCopy, CarriesKey localMessage copy
  | .sending localMessage remoteMessage =>
      (∃ copy ∈ c.dhExchangeCopy, CarriesKey localMessage copy) ∧ CarriesKey remoteMessage c.dhExchange
  | .queueing remoteMessage => CarriesKey remoteMessage c.dhExchange
  | .queued index => ∃ queued, (radio c.responder).listenAdverts[index]? = some queued ∧ CarriesKey queued.2 c.dhExchange
  | .drained => c.responderSecret.isSome
  | .closed => True

structure Sound (radio : N → EbNRadioBT4 P ec) (c : Connection N ec) : Prop where
  key : c.client ≠ .closed → (radio c.initiator).dhExchange = c.dhExchange
  client : ∀ localMessage, c.client = .sending localMessage → CarriesKey localMessage c.dhExchange
  toServer : ∀ message ∈ c.toServer, CarriesKey message c.dhExchange
  toClient : ∀ message ∈ c.toClient, ∃ copy ∈ c.dhExchangeCopy, CarriesKey message copy
  server : c.Serves radio c.server
  initiatorSecret : ∀ v ∈ c.initiatorSecret, c.exchanged = some v
  responderSecret : ∀ v ∈ c.responderSecret, c.exchanged = some v

omit [FloatOps P] in
theorem Sound.agrees (h : c.Sound radio) : c.Agrees := by
  refine ⟨fun hdrained => ?_, fun v hv => ⟨h.responderSecret v hv, fun w hw => ?_⟩⟩
  · have hserver := h.server
    rw [hdrained] at hserver
    exact hserver
  · exact Option.some.inj ((h.initiatorSecret w hw).symm.trans (h.responderSecret v hv))

omit [FloatOps P] in
/-- Of the radios, a connection needs the key of the initiator while that is connected, and its message in the queue. -/
theorem Sound.frame (h : c.Sound radio)
    (hkey : c.client ≠ .closed → (radio' c.initiator).dhExchange = (radio c.initiator).dhExchange)
    (hqueue : ∀ index queued, c.server = .queued index → (radio c.responder).listenAdverts[index]? = some queued →
      (radio' c.responder).listenAdverts[index]? = some queued) : c.Sound radio' := by
  refine { h with key := fun hclient => (hkey hclient).trans (h.key hclient), server := ?_ }
  have hserver := h.server
  cases hs : c.server with
  | queued index =>
      rw [hs] at hserver
      obtain ⟨queued, hqueued, hcarries⟩ := hserver
      exact ⟨queued, hqueue index queued hs hqueued, hcarries⟩
  | _ =>
      rw [hs] at hserver
      exact hserver

/-- The key stays, and the messages stay in the queue. -/
structure Keeps (r r' : EbNRadioBT4 P ec) : Prop where
  key : r'.dhExchange = r.dhExchange
  queue : r.listenAdverts <+: r'.listenAdverts

variable [DecidableEq N] {party : N}

omit [FloatOps P] in
theorem Sound.keeps (h : c.Sound radio) (hr : Keeps (radio party) r') : c.Sound (Function.update radio party r') := by
  refine h.frame (fun _ => ?_) (fun index queued _ hqueued => ?_)
  · rw [Function.update_apply]
    split
    · next heq =>
        rw [heq]
        exact hr.key
    · rfl
  · rw [Function.update_apply]
    split
    · next heq =>
        rw [heq] at hqueued
        obtain ⟨hindex, hvalue⟩ := List.getElem?_eq_some_iff.mp hqueued
        rw [← hvalue]
        exact List.prefix_iff_getElem?.mp hr.queue index hindex
    · exact hqueued

/-! ### Steps of the two sides -/

omit [DecidableEq N] in
theorem Sound.close (hlaws : ec.Laws) (h : c.Sound radio) (hclient : c.client ≠ .closed) {answer : Option (List Byte)}
    (hanswer : ∀ message ∈ answer, ∃ copy ∈ c.dhExchangeCopy, CarriesKey message copy) :
    (c.close sha256 (radio c.initiator) answer).Sound radio := by
  refine { h with
    key := fun hopen => absurd rfl hopen
    client := nofun
    toClient := nofun
    initiatorSecret := fun v hv => ?_ }
  obtain ⟨message, hmessage, hadded⟩ := Option.bind_eq_some_iff.mp hv
  obtain ⟨copy, hcopy, hcarries⟩ := hanswer message (Option.filter_eq_some_iff.mp hmessage).1
  rw [EbNRadioBT4.addedSecret_carriesKey hlaws sha256 _ hcarries, h.key hclient, hlaws.computeKey_symm] at hadded
  show c.dhExchangeCopy.bind _ = some v
  rw [hcopy, Option.bind_some]
  exact hadded

omit [DecidableEq N] in
theorem Sound.clientStep (hlaws : ec.Laws) (h : c.Sound radio) {success : Bool}
    (hstep : c.clientStep sha256 (radio c.initiator) success = some (r', c')) :
    Keeps (radio c.initiator) r' ∧ c'.Sound radio := by
  unfold Connection.clientStep at hstep
  split at hstep
  · next localMessage hclient =>
      cases hstep
      have hopen : c.client ≠ .closed := by
        rw [hclient]
        exact Client.noConfusion
      refine ⟨⟨rfl, List.prefix_rfl⟩, { h with key := fun _ => h.key hopen, client := nofun, toServer := ?_ }⟩
      intro message hmessage
      cases hmessage
      exact h.client localMessage hclient
  · next hclient =>
      obtain ⟨remoteMessage, hmessage, hprocessed⟩ := Option.map_eq_some_iff.mp hstep
      cases hprocessed
      refine ⟨⟨rfl, List.prefix_rfl⟩, h.close hlaws (by rw [hclient]; exact Client.noConfusion) fun message hanswer => ?_⟩
      cases hanswer
      exact h.toClient remoteMessage hmessage
  · next hclient =>
      cases hstep
      exact ⟨⟨rfl, List.prefix_rfl⟩, h.close hlaws (by rw [hclient]; exact Client.noConfusion) nofun⟩
  · next hclient =>
      cases hstep
      exact ⟨⟨rfl, List.prefix_rfl⟩, h.close hlaws (by rw [hclient]; exact Client.noConfusion) nofun⟩
  · cases hstep

/-- The listener thread only copies a key that was generated. -/
theorem Sound.serverStep (h : c.Sound radio) (hkey : ∃ key, (radio c.responder).dhExchange = ECDH.generateSecret key)
    {rand : Nat → Nat} {success : Bool}
    (hstep : c.serverStep sha256 (radio c.responder) rand success = some (r', c')) :
    Keeps (radio c.responder) r' ∧ c'.Sound (Function.update radio c.responder r') := by
  have hstays : ∀ {c' : Connection N ec}, c'.Sound radio →
      Keeps (radio c.responder) (radio c.responder) ∧ c'.Sound (Function.update radio c.responder (radio c.responder)) := by
    intro c' hc'
    rw [Function.update_eq_self]
    exact ⟨⟨rfl, List.prefix_rfl⟩, hc'⟩
  have hclosed : Sound radio { c with server := .closed } := { h with server := trivial }
  have hserver := h.server
  unfold Connection.serverStep at hstep
  split at hstep
  · next hs =>
      rw [hs] at hserver
      split_ifs at hstep with _ haddress
      · cases hstep
        have hnone : c.exchanged = none := by
          show c.dhExchangeCopy.bind _ = none
          rw [show c.dhExchangeCopy = none from hserver]
          rfl
        refine hstays { h with
          toClient := fun message hmessage => ?_
          server := ⟨_, rfl, EbNRadioBT4.generateActiveHandshake_carriesKey sha256 rand _ hkey⟩
          initiatorSecret := fun v hv => ?_
          responderSecret := fun v hv => ?_ }
        · obtain ⟨copy, hcopy, -⟩ := h.toClient message hmessage
          cases hcopy.symm.trans hserver
        · cases (h.initiatorSecret v hv).symm.trans hnone
        · cases (h.responderSecret v hv).symm.trans hnone
      · cases hstep
        exact hstays hclosed
  · next localMessage hs =>
      rw [hs] at hserver
      obtain ⟨remoteMessage, hmessage, hreceived⟩ := Option.map_eq_some_iff.mp hstep
      cases hreceived
      refine hstays { h with
        toServer := nofun
        server := ?_ }
      dsimp only
      split
      · exact ⟨hserver, h.toServer remoteMessage hmessage⟩
      · trivial
  · next localMessage remoteMessage hs =>
      rw [hs] at hserver
      cases hstep
      refine hstays { h with toClient := fun message hmessage => ?_, server := hserver.2 }
      cases hmessage
      exact hserver.1
  · cases hstep
    exact hstays hclosed
  · cases hstep
    exact hstays hclosed
  · next remoteMessage hs =>
      rw [hs] at hserver
      cases hstep
      have hkeeps : Keeps (radio c.responder) { radio c.responder with
          listenAdverts := (radio c.responder).listenAdverts ++ [(c.clientAddress, remoteMessage)] } :=
        ⟨rfl, List.prefix_append _ _⟩
      refine ⟨hkeeps, { h.keeps hkeeps with server := ⟨(c.clientAddress, remoteMessage), ?_, hserver⟩ }⟩
      show (Function.update radio c.responder _ c.responder).listenAdverts[_]? = _
      rw [Function.update_self]
      exact List.getElem?_concat_length
  · cases hstep
  · cases hstep
  · cases hstep

/-- The queue of a party is emptied, with all that it held answered with the key the party has now. -/
theorem Sound.drain (hlaws : ec.Laws) (h : c.Sound radio) (hkey : r'.dhExchange = (radio party).dhExchange)
    (hcurrent : c.responder = party → c.server.isQueued = true → c.dhExchangeCopy = some (radio party).dhExchange) :
    (if c.responder = party then c.drain sha256 (radio party) else c).Sound (Function.update radio party r') := by
  have hsame : ∀ other, (Function.update radio party r' other).dhExchange = (radio other).dhExchange := by
    intro other
    rw [Function.update_apply]
    split
    · next heq =>
        rw [heq]
        exact hkey
    · rfl
  by_cases hparty : c.responder = party
  · subst hparty
    rw [if_pos rfl]
    unfold Connection.drain
    split
    · next index hs =>
        have hserver := h.server
        rw [hs] at hserver
        obtain ⟨queued, hqueued, hcarries⟩ := hserver
        have hcopy := hcurrent rfl (by rw [hs]; rfl)
        have hadded := EbNRadioBT4.addedSecret_carriesKey hlaws sha256 (radio c.responder) hcarries
        have hsecret : ((radio c.responder).listenAdverts[index]?.bind fun queued =>
            (radio c.responder).addedSecret sha256 queued.2)
              = ec.computeKey (ec.publicKey c.dhExchange.secret) (radio c.responder).dhExchange.secret := by
          rw [hqueued]
          exact hadded
        refine { h with
          key := fun hclient => (hsame _).trans (h.key hclient)
          server := ?_
          responderSecret := fun v hv => ?_ }
        · show ((radio c.responder).listenAdverts[index]?.bind _).isSome
          rw [hsecret]
          exact hlaws.computeKey_isSome _ _
        · show c.dhExchangeCopy.bind _ = some v
          rw [hcopy, Option.bind_some, ← hsecret]
          exact hv
    · next hs => exact h.frame (fun _ => hsame _) fun index _ hqueued => absurd hqueued (hs index)
  · rw [if_neg hparty]
    refine h.frame (fun _ => hsame _) fun index queued _ hqueued => ?_
    rw [Function.update_of_ne hparty]
    exact hqueued

end Connection

/-! ## Networks -/

namespace Network

open Connection (Keeps)

variable [DecidableEq N] {g : Galois} {digest : List Byte → Nat} {n n' : Network N P ec} {party : N} {r' : EbNRadioBT4 P ec}

structure Sound (n : Network N P ec) : Prop where
  keys : ∀ party, ∃ key, (n.radio party).dhExchange = ECDH.generateSecret key
  connections : ∀ c ∈ n.connections, c.Sound n.radio

omit [FloatOps P] in
theorem closed_of_handshaking {c : Connection N ec} (hfree : n.handshaking party = false)
    (hc : c ∈ n.connections) (hparty : c.initiator = party) : c.client = .closed := by
  unfold handshaking at hfree
  have hnone := List.any_eq_false.mp hfree c hc
  simpa [hparty] using hnone

omit [FloatOps P] in
theorem Sound.keys_setRadio (h : n.Sound) (hr : ∃ key, r'.dhExchange = ECDH.generateSecret key) (other : N) :
    ∃ key, ((n.setRadio party r').radio other).dhExchange = ECDH.generateSecret key := by
  show ∃ key, (Function.update n.radio party r' other).dhExchange = _
  rw [Function.update_apply]
  split
  · exact hr
  · exact h.keys other

omit [FloatOps P] in
theorem Sound.setRadio (h : n.Sound) (hr : Keeps (n.radio party) r') : (n.setRadio party r').Sound :=
  ⟨h.keys_setRadio (hr.key ▸ h.keys party), fun c hc => (h.connections c hc).keeps hr⟩

omit [FloatOps P] [DecidableEq N] in
theorem Sound.setConnection (h : n.Sound) {c : Connection N ec} (hc : c.Sound n.radio) (index : Nat) :
    (n.setConnection index c).Sound := by
  refine ⟨h.keys, fun c' hc' => ?_⟩
  rcases List.mem_or_eq_of_mem_set hc' with hold | rfl
  · exact h.connections c' hold
  · exact hc

/-- A connection starts with the key of its initiator. -/
theorem Sound.connect (h : n.Sound) {initiator responder : N} {id : DeviceID} {rand : Nat → Nat}
    (hact : n.act sha256 g digest (.connect initiator responder id rand) = some n') : n'.Sound := by
  unfold Network.act at hact
  dsimp only at hact
  split_ifs at hact
  obtain ⟨device, -, rfl⟩ := Option.map_eq_some_iff.mp hact
  refine ⟨h.keys, fun c hc => ?_⟩
  rcases List.mem_append.mp hc with hold | hnew
  · exact h.connections c hold
  · cases List.mem_singleton.mp hnew
    refine ⟨fun _ => rfl, fun _ hsending => ?_, nofun, nofun, rfl, nofun, nofun⟩
    cases hsending
    exact EbNRadioBT4.generateActiveHandshake_carriesKey sha256 rand _ (h.keys initiator)

/-- No epoch changes while its party is the initiator of a connection. -/
theorem Sound.changeEpoch (h : n.Sound) {key : ec.Key} {randomAddress : Address}
    (hact : n.act sha256 g digest (.changeEpoch party key randomAddress) = some n') : n'.Sound := by
  unfold Network.act at hact
  dsimp only at hact
  split_ifs at hact with hfree
  cases hact
  rw [Bool.not_eq_true] at hfree
  refine ⟨h.keys_setRadio ⟨key, rfl⟩, fun c hc => ?_⟩
  refine (h.connections c hc).frame (fun hclient => ?_) fun index queued _ hqueued => ?_
  · show (Function.update n.radio party _ c.initiator).dhExchange = _
    rw [Function.update_of_ne fun hparty => hclient (closed_of_handshaking hfree hc hparty)]
  · show (Function.update n.radio party _ c.responder).listenAdverts[index]? = some queued
    rw [Function.update_apply]
    split
    · next hparty =>
        rw [hparty] at hqueued
        exact hqueued
    · exact hqueued

theorem Sound.drain (hlaws : ec.Laws) (h : n.Sound) {buckets : Nat → Buckets}
    (hcurrent : n.Current (.drain party buckets))
    (hact : n.act sha256 g digest (.drain party buckets) = some n') : n'.Sound := by
  unfold Network.act at hact
  dsimp only at hact
  split_ifs at hact
  obtain ⟨base, -, rfl⟩ := Option.map_eq_some_iff.mp hact
  refine ⟨h.keys_setRadio (h.keys party), fun c' hc' => ?_⟩
  obtain ⟨c, hc, rfl⟩ := List.mem_map.mp hc'
  exact (h.connections c hc).drain hlaws rfl (hcurrent c hc)

theorem Sound.act (hlaws : ec.Laws) (h : n.Sound) {event : NetworkEvent N P ec} (hcurrent : n.Current event)
    (hact : n.act sha256 g digest event = some n') : n'.Sound := by
  cases event with
  | connect initiator responder id rand => exact h.connect hact
  | client index success =>
      obtain ⟨c, hc, hact⟩ := Option.bind_eq_some_iff.mp hact
      obtain ⟨⟨r', c'⟩, hstep, rfl⟩ := Option.map_eq_some_iff.mp hact
      obtain ⟨hkeeps, hsound⟩ := (h.connections c (List.mem_of_getElem? hc)).clientStep hlaws hstep
      exact (h.setRadio hkeeps).setConnection (hsound.keeps hkeeps) index
  | server index rand success =>
      obtain ⟨c, hc, hact⟩ := Option.bind_eq_some_iff.mp hact
      split_ifs at hact
      obtain ⟨⟨r', c'⟩, hstep, rfl⟩ := Option.map_eq_some_iff.mp hact
      obtain ⟨hkeeps, hsound⟩ := (h.connections c (List.mem_of_getElem? hc)).serverStep (h.keys c.responder) hstep
      exact (h.setRadio hkeeps).setConnection hsound index
  | drain party buckets => exact h.drain hlaws hcurrent hact
  | changeEpoch party key randomAddress => exact h.changeEpoch hact
  | other party change =>
      cases hact
      exact h.setRadio ⟨rfl, List.prefix_rfl⟩

end Network

end Sddr.Control

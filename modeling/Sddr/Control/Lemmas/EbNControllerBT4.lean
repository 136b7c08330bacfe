import Sddr.Control.Lemmas.Deliveries
import Sddr.Radio.Lemmas.Filters

/-!
# Queued messages

What the messages in the queue do to the secrets of a device, and from that when confirmed secrets are lost and when a
device is left in the map.
-/

namespace Sddr.Control.EbNControllerBT4
open Sddr.Lib Sddr.Codec Sddr.Device Sddr.Radio Sddr.Radio.EbNRadio Sddr.Erasure EbNController

variable {P : Type} [FloatOps P] {ec : Ec} {sha256 : List Byte → Digest} {g : Galois} {digest : List Byte → Nat}
  {c : EbNControllerBT4 P ec} {m : MeetingBT4} {r r' : EbNRadio P (EbNDeviceBT4 P ec)} {id : DeviceID}

/-! ## One message -/

theorem secretOf_confirmed {message : List Byte} {secret : SharedSecret P} (hsecret : secret ∈ c.secretOf message) :
    secret.confirmed = true := by
  unfold secretOf at hsecret
  split at hsecret
  · obtain ⟨point, -, hvalue⟩ := Option.bind_eq_some_iff.mp hsecret
    obtain ⟨value, -, rfl⟩ := Option.map_eq_some_iff.mp hvalue
    rfl
  · cases hsecret

/-- Besides its secret, a message changes what matches. -/
theorem processActiveHandshake_readdressed (sha256 : List Byte → Digest) (c : EbNControllerBT4 P ec) (m : MeetingBT4)
    (message : List Byte) (device : EbNDevice P) :
    Readdressed ((c.secretOf message).elim device device.addSharedSecret)
      ((c.scanner sha256 m).processActiveHandshake sha256 message device) := by
  have hkey : (c.scanner sha256 m).dhExchange = c.radio.dhExchange := EbNRadioBT4.discover_dhExchange sha256 _ _ _
  unfold secretOf EbNRadioBT4.processActiveHandshake
  dsimp only
  rw [hkey]
  by_cases hlength : message.length = c.radio.dhExchange.getPublicSize + (BT4.ACTIVE_BF_M + 7) / 8
  · rw [if_pos hlength, if_neg (not_not.mpr hlength)]
    cases c.radio.dhExchange.computeSharedSecret (SharedSecret.ofScheme (P := P) .active) (Mem.ofList message) with
    | some secret => exact ⟨_, _, _, _, rfl⟩
    | none => exact ⟨_, _, _, _, rfl⟩
  · rw [if_neg hlength, if_pos hlength]
    exact .refl _

/-! ## The messages of a device -/

theorem mem_zip_mapIdx {α β γ : Type} {l : List α} {l' : List β} {f : Nat → β → γ} {a : α} {x : γ} :
    (a, x) ∈ l.zip (l'.mapIdx f) ↔ ∃ i b, l[i]? = some a ∧ l'[i]? = some b ∧ f i b = x := by
  simp only [List.mem_iff_getElem?, List.getElem?_zip_eq_some, List.getElem?_mapIdx, Option.map_eq_some_iff]
  exact exists_congr fun i => ⟨fun ⟨ha, b, hb⟩ => ⟨b, ha, hb⟩, fun ⟨b, ha, hb⟩ => ⟨ha, b, hb⟩⟩

theorem mem_messagesOf {message : List Byte} :
    message ∈ c.messagesOf sha256 g digest m r id ↔ ∃ (i : Nat) (address : Address),
      (r.recipients digest (c.meeting sha256 g m).incoming)[i]? = some id ∧
        c.radio.listenAdverts[i]? = some (address, message) := by
  rw [messagesOf, List.mem_filterMap]
  constructor
  · rintro ⟨⟨device, address, other⟩, hentry, hsome⟩
    obtain ⟨i, hi⟩ := List.mem_iff_getElem?.mp hentry
    obtain ⟨hid, hmessage⟩ := List.getElem?_zip_eq_some.mp hi
    split at hsome
    · next heq =>
        cases hsome
        exact ⟨i, address, heq ▸ hid, hmessage⟩
    · cases hsome
  · rintro ⟨i, address, hid, hmessage⟩
    refine ⟨(id, address, message), List.mem_iff_getElem?.mpr ⟨i, ?_⟩, if_pos rfl⟩
    exact List.getElem?_zip_eq_some.mpr ⟨hid, hmessage⟩

/-- What the drain does with the messages of a device. -/
theorem mem_handled {incoming : Incoming sha256 (EbNDeviceBT4 P ec)} :
    (id, incoming) ∈ (r.recipients digest (c.meeting sha256 g m).incoming).zip (c.meeting sha256 g m).incoming ↔
      ∃ (i : Nat) (address : Address) (message : List Byte),
        (r.recipients digest (c.meeting sha256 g m).incoming)[i]? = some id ∧
          c.radio.listenAdverts[i]? = some (address, message) ∧
          ⟨address, m.buckets i, EbNRadioBT4.messageEffect (c.scanner sha256 m) message⟩ = incoming := by
  refine mem_zip_mapIdx.trans (exists_congr fun i => ?_)
  simp only [Prod.exists]

theorem messagesOf_ne_nil :
    c.messagesOf sha256 g digest m r id ≠ [] ↔
      id ∈ ((r.recipients digest (c.meeting sha256 g m).incoming).zip (c.meeting sha256 g m).incoming).map Prod.fst := by
  constructor
  · intro hne
    obtain ⟨message, hmessage⟩ := List.exists_mem_of_ne_nil _ hne
    obtain ⟨i, address, hid, hqueued⟩ := mem_messagesOf.mp hmessage
    exact List.mem_map.mpr ⟨(id, _), mem_handled.mpr ⟨i, address, message, hid, hqueued, rfl⟩, rfl⟩
  · intro hin
    obtain ⟨⟨_, incoming⟩, hentry, rfl⟩ := List.mem_map.mp hin
    obtain ⟨i, address, message, hid, hqueued, -⟩ := mem_handled.mp hentry
    exact List.ne_nil_of_mem (mem_messagesOf.mpr ⟨i, address, hid, hqueued⟩)

section
variable (hdrained : r.Drained r'
  ((r.recipients digest (c.meeting sha256 g m).incoming).zip (c.meeting sha256 g m).incoming))
include hdrained

/-- What is preserved by adding the secrets of a device's messages. -/
theorem drained_keeps (I : EbNDevice P → Prop) (hreaddressed : ∀ d d', Readdressed d d' → I d → I d')
    (hshaken : ∀ d, I d → I (d.setShakenHands true))
    (hmessages : ∀ message ∈ c.messagesOf sha256 g digest m r id, ∀ secret ∈ c.secretOf message, ∀ d,
      I d → I (d.addSharedSecret secret)) :
    I (r.baseAt id) → I (r'.baseAt id) := by
  refine hdrained.keeps id I hreaddressed fun incoming hin d hd => hshaken _ ?_
  obtain ⟨i, address, message, hid, hqueued, rfl⟩ := mem_handled.mp hin
  refine hreaddressed _ _ (processActiveHandshake_readdressed sha256 c m message (IsDevice.base d)) ?_
  cases hsecret : c.secretOf message with
  | none => exact hd
  | some secret => exact hmessages message (mem_messagesOf.mpr ⟨i, address, hid, hqueued⟩) secret hsecret _ hd

theorem drained_confirms {message : List Byte} (hmessage : message ∈ c.messagesOf sha256 g digest m r id)
    {secret : SharedSecret P} (hsecret : secret ∈ c.secretOf message) :
    secret.value ∈ confirmedValues (r'.baseAt id).sharedSecrets := by
  obtain ⟨i, address, hid, hqueued⟩ := mem_messagesOf.mp hmessage
  refine hdrained.confirms id _ secret.value (mem_handled.mpr ⟨i, address, message, hid, hqueued, rfl⟩) fun d => ?_
  obtain ⟨_, _, _, _, hsame⟩ := processActiveHandshake_readdressed sha256 c m message (IsDevice.base d)
  have hvalue := mem_confirmedValues_addSharedSecret (IsDevice.base d) (secretOf_confirmed hsecret)
  rw [hsecret] at hsame
  show secret.value ∈ confirmedValues
    ((c.scanner sha256 m).processActiveHandshake sha256 message (IsDevice.base d)).sharedSecrets
  rw [hsame]
  exact hvalue

/-- Nothing is left to be reported if that was so before and the messages bring no new secret. -/
theorem drained_pending (hnodup : (values (r.baseAt id).sharedSecrets).Nodup) :
    (r'.baseAt id).secretsToReport = [] ↔ (r.baseAt id).secretsToReport = [] ∧
      ∀ message ∈ c.messagesOf sha256 g digest m r id, ∀ secret ∈ c.secretOf message,
        secret.value ∈ confirmedValues (r.baseAt id).sharedSecrets := by
  constructor
  · intro hnone
    obtain ⟨new, hnew⟩ := hdrained.ripens id
    have hempty := hnew.toReport
    rw [hnone, values, List.map_nil, eq_comm, List.append_eq_nil_iff] at hempty
    obtain ⟨hbefore, rfl⟩ := hempty
    refine ⟨List.map_eq_nil_iff.mp hbefore, fun message hmessage secret hsecret => ?_⟩
    have hconfirmed := hnew.confirmedValues
    rw [List.append_nil] at hconfirmed
    exact hconfirmed.mem_iff.mp (drained_confirms hdrained hmessage hsecret)
  · rintro ⟨hnone, hold⟩
    let I : EbNDevice P → Prop := fun d => d.sharedSecrets = (r.baseAt id).sharedSecrets ∧ d.secretsToReport = []
    have hkept : I (r'.baseAt id) := by
      refine drained_keeps hdrained I ?_ (fun d hd => hd) (fun message hmessage secret hsecret d hd => ?_) ⟨rfl, hnone⟩
      · rintro d _ ⟨_, _, _, _, rfl⟩ hd
        exact hd
      · rw [addSharedSecret_confirmed]
        · exact hd
        · rw [hd.1]
          exact hnodup
        · rw [hd.1]
          exact hold message hmessage secret hsecret
    exact hkept.2

/-- Messages of which none has a valid key confirm nothing. -/
theorem drained_unconfirmed (hinvalid : ∀ message ∈ c.messagesOf sha256 g digest m r id, c.secretOf message = none)
    (hunconfirmed : (r.baseAt id).confirmed = false) : (r'.baseAt id).confirmed = false := by
  refine drained_keeps hdrained (fun d => d.confirmed = false) ?_ (fun d hd => hd)
    (fun message hmessage secret hsecret => ?_) hunconfirmed
  · rintro d _ ⟨_, _, _, _, rfl⟩ hd
    exact hd
  · rw [hinvalid message hmessage] at hsecret
    cases hsecret

end

/-! ## One discovery -/

section
variable {events : List (EncounterEvent P)} {discovered : List DiscoverEvent}
  {r₁ r₂ r₃ r₄ r₅ : EbNRadio P (EbNDeviceBT4 P ec)} {reports ended : List (EncounterEvent P)}
  (hd : Discovers .Bluetooth4 digest c.base (c.meeting sha256 g m) discovered r₁ r₂ r₃ r₄ r₅ reports ended)
include hd

theorem drained_queue :
    r₁.Drained r₂ ((r₁.recipients digest (c.meeting sha256 g m).incoming).zip (c.meeting sha256 g m).incoming) := by
  have hdrained := hd.drained
  rw [if_pos rfl] at hdrained
  exact hdrained

theorem scan_eq : c.scan sha256 g digest m = some (discovered, r₁) := hd.discover

/-- The queue is all that changes the secrets of a device that is not discovered. -/
theorem unheard_readdressed (h : c.base.Audited events) (hheard : id ∉ discovered.map DiscoverEvent.id) :
    Readdressed (c.radio.baseAt id) (r₁.baseAt id) := (h.heard hd).others id hheard

/-- The accounts of a device with a handshake behind it or in the queue. -/
theorem accounts_drained (h : c.base.Audited events) (hin : id ∈ r₂.deviceMap.idToDevice) :
    Accounts (r₂.baseAt id) (deliveredTo events id) :=
  h.accounted.quiet ((h.heard hd).toQuiet.trans (drained_queue hd).toQuiet) id (Or.inl hin)

/-- Only its messages give a silent device something to report. -/
theorem pending_iff (h : c.base.Audited events) (hheard : id ∉ discovered.map DiscoverEvent.id)
    (hin : id ∈ r₂.deviceMap.idToDevice) :
    (r₂.baseAt id).secretsToReport = [] ↔ (c.radio.baseAt id).secretsToReport = [] ∧
      ∀ message ∈ c.messagesOf sha256 g digest m r₁ id, ∀ secret ∈ c.secretOf message,
        secret.value ∈ confirmedValues (c.radio.baseAt id).sharedSecrets := by
  have hdrained := drained_queue hd
  have hnodup : (values (r₁.baseAt id).sharedSecrets).Nodup := by
    refine (h.accounted.quiet (h.heard hd).toQuiet id ?_).nodup
    rcases (hdrained.keys id).mp hin with hfound | hin
    · exact hdrained.new id hfound
    · exact Or.inl hin
  have hiff := drained_pending hdrained hnodup
  obtain ⟨_, _, _, _, hsame⟩ := unheard_readdressed hd h hheard
  rw [hsame] at hiff
  exact hiff

/-- Only its messages shake the hand of a silent device. -/
theorem shaken_iff (h : c.base.Audited events) (hheard : id ∉ discovered.map DiscoverEvent.id) :
    id ∈ r₂.deviceMap.idToDevice ∧ (r₂.baseAt id).shakenHands = true ↔
      id ∈ c.radio.deviceMap.idToDevice ∧ (c.radio.baseAt id).shakenHands = true ∨
        c.messagesOf sha256 g digest m r₁ id ≠ [] := by
  have hdrained := drained_queue hd
  obtain ⟨_, _, _, _, hsame⟩ := unheard_readdressed hd h hheard
  rw [messagesOf_ne_nil]
  by_cases hqueued : id ∈ ((r₁.recipients digest (c.meeting sha256 g m).incoming).zip
      (c.meeting sha256 g m).incoming).map Prod.fst
  · exact iff_of_true ⟨(hdrained.keys id).mpr (Or.inl hqueued), hdrained.shaken id (Or.inr hqueued)⟩ (Or.inr hqueued)
  · obtain ⟨_, _, _, _, hsame'⟩ := hdrained.others id hqueued
    rw [hsame', hsame, hdrained.keys, (h.heard hd).keys, or_iff_left hqueued, or_iff_right hqueued, or_iff_right hheard]
    rfl

theorem delivers_iff_settled (h : c.base.Audited events) :
    c.base.Delivers .Bluetooth4 digest events (c.meeting sha256 g m) ↔ c.Settled sha256 g digest m := by
  rw [h.delivers_iff hd]
  constructor
  · intro hdelivers discovered' r' hscan id hheard hsilent device messages hshook
    cases (scan_eq hd).symm.trans hscan
    obtain ⟨hin, hshaken⟩ := (shaken_iff hd h hheard).mpr hshook
    rw [← pending_iff hd h hheard hin]
    by_contra hleft
    have hconfirmed := (accounts_drained hd h hin).confirmed_of_pending hleft
    exact hleft (hdelivers id ((hd.expired_iff hheard hin hshaken hconfirmed).mpr hsilent) hheard hshaken)
  · intro hsettled id hexpired hheard hshaken
    have hin : id ∈ r₂.deviceMap.idToDevice := by
      have hin₃ := hd.tracked id ((EbNHystPolicy.mem_checkExpired _ _ id).1 hexpired)
      exact (or_iff_right List.not_mem_nil).mp ((hd.shaken.keys id).mp hin₃)
    by_contra hleft
    have hconfirmed := (accounts_drained hd h hin).confirmed_of_pending hleft
    have hsilent := (hd.expired_iff hheard hin hshaken hconfirmed).mp hexpired
    have hshook := (shaken_iff hd h hheard).mp ⟨hin, hshaken⟩
    exact hleft ((pending_iff hd h hheard hin).mpr (hsettled discovered r₁ (scan_eq hd) id hheard hsilent hshook))

theorem tracks_iff_reached (h : c.base.Audited events) (htracks : c.base.Tracks) :
    EbNController.Tracks { c.base with
      radio := r₅
      hystPolicy := ((c.base.judge (c.meeting sha256 g m) discovered r₃.encountered).checkExpired m.checkExpired).2 } ↔
      c.Reached sha256 g digest m := by
  have hdrained := drained_queue hd
  have hiff := h.tracks_iff htracks hd
  rw [if_pos rfl] at hiff
  refine hiff.trans ?_
  constructor
  · intro hall discovered' r' hscan id hmessages
    cases (scan_eq hd).symm.trans hscan
    have hqueued := messagesOf_ne_nil.mp hmessages
    rcases hall id hqueued with hold | hnew | hconfirmed
    · exact Or.inl hold
    · exact Or.inr (Or.inl hnew)
    · by_contra hnot
      rw [not_or, not_or] at hnot
      obtain ⟨hold, hnew, hvalid⟩ := hnot
      -- the queue created the device, and nothing confirmed it
      have hfresh : r₁.nextDeviceID ≤ id := by
        refine (hdrained.new id hqueued).resolve_left fun hin => ?_
        rcases ((h.heard hd).keys id).mp hin with hin | hin
        · exact hnew hin
        · exact hold ((htracks id).mp hin)
      have hunconfirmed : (r₂.baseAt id).confirmed = false := by
        refine drained_unconfirmed hdrained (fun message hmessage => ?_) ?_
        · by_contra hsome
          exact hvalid ⟨message, hmessage, Option.isSome_iff_ne_none.mpr hsome⟩
        · rw [(h.heard hd).tidy.baseAt_fresh hfresh]
          rfl
      rw [hunconfirmed] at hconfirmed
      cases hconfirmed
  · intro hreached id hqueued
    rcases hreached discovered r₁ (scan_eq hd) id (messagesOf_ne_nil.mpr hqueued) with
      hold | hnew | ⟨message, hmessage, hvalid⟩
    · exact Or.inl hold
    · exact Or.inr (Or.inl hnew)
    · obtain ⟨secret, hsecret⟩ := Option.isSome_iff_exists.mp hvalid
      have haccounts := accounts_drained hd h ((hdrained.keys id).mpr (Or.inl hqueued))
      exact Or.inr (Or.inr (haccounts.confirmed.mpr (List.ne_nil_of_mem (drained_confirms hdrained hmessage hsecret))))

end

/-! ## Runs -/

variable {events more : List (EncounterEvent P)} {c' : EbNControllerBT4 P ec}

/-- A discovery is one of the controller as all radios have it. -/
theorem discover_base (sha256 : List Byte → Digest) (g : Galois) (digest : List Byte → Nat) (c : EbNControllerBT4 P ec)
    (m : MeetingBT4) :
    (c.discover sha256 g digest m).map (fun after => (after.1, after.2.base))
      = c.base.discover .Bluetooth4 digest (c.meeting sha256 g m) := by
  rw [discover, Option.map_map]
  exact Option.map_id'

variable (sha256 g digest) in
theorem discover_spec (h : c.base.Audited events) (m : MeetingBT4) :
    ∃ discovered r₁ r₂ r₃ r₄ r₅ reports ended,
      Discovers .Bluetooth4 digest c.base (c.meeting sha256 g m) discovered r₁ r₂ r₃ r₄ r₅ reports ended ∧
      ∃ more c', c.discover sha256 g digest m = some (more, c') ∧ c'.base.Audited (events ++ more) ∧
        c'.base = { c.base with
          radio := r₅
          hystPolicy := ((c.base.judge (c.meeting sha256 g m) discovered r₃.encountered).checkExpired m.checkExpired).2 } := by
  obtain ⟨discovered, r₁, r₂, r₃, r₄, r₅, reports, ended, hd⟩ := h.discovers .Bluetooth4 digest (c.meeting sha256 g m)
  obtain ⟨⟨more, c'⟩, hdiscover, heq⟩ := Option.map_eq_some_iff.mp ((discover_base sha256 g digest c m).trans hd.eq)
  obtain ⟨rfl, hbase⟩ := Prod.mk.inj heq
  refine ⟨discovered, r₁, r₂, r₃, r₄, r₅, reports, ended, hd, _, c', hdiscover, ?_, hbase⟩
  change c'.base = _ at hbase
  rw [hbase]
  exact h.discover hd

/-- Everything else leaves the devices where they are. -/
theorem act_quiet (h : c.base.Audited events) {action : ActionBT4 ec} (hother : ∀ m, action ≠ .discover m) :
    ∃ c', c.act sha256 g digest action = some ([], c') ∧ c.radio.toEbNRadio.Quiet c'.radio.toEbNRadio [] ∧
      c'.base = { c.base with radio := c'.radio.toEbNRadio } := by
  have htidy : c.radio.toEbNRadio.Tidy := h.sound.toTidy
  cases action with
  | listen address message =>
      refine ⟨_, rfl, ?_, rfl⟩
      dsimp only [EbNRadioBT4.listen]
      split
      · exact .refl htidy
      · exact .refl htidy
  | discover m => exact absurd rfl (hother m)
  | changeEpoch key randomAddress =>
      refine ⟨_, rfl, ?_, rfl⟩
      have hepoch : (c.radio.changeEpoch g key randomAddress).toEbNRadio = c.radio.toEbNRadio.changeEpoch
          (EbNRadioBT4.epochEffect _ : Effect sha256 (EbNDeviceBT4 P ec)) :=
        EbNRadioBT4.changeEpoch_base c.radio key randomAddress
      rw [hepoch]
      exact htidy.changeEpoch _
  | setAdvertisedSet advertisedSet => exact ⟨_, rfl, .of_same htidy rfl rfl rfl rfl rfl, rfl⟩
  | setListenSet listenSet => exact ⟨_, rfl, .of_same htidy rfl rfl rfl rfl rfl, rfl⟩

theorem audited_act (h : c.base.Audited events) (action : ActionBT4 ec) :
    ∃ more c', c.act sha256 g digest action = some (more, c') ∧ c'.base.Audited (events ++ more) := by
  by_cases hdiscover : ∃ m, action = .discover m
  · obtain ⟨m, rfl⟩ := hdiscover
    obtain ⟨_, _, _, _, _, _, _, _, -, more, c', hact, haudited, -⟩ := discover_spec sha256 g digest h m
    exact ⟨more, c', hact, haudited⟩
  · obtain ⟨c', hact, hquiet, hbase⟩ := act_quiet h fun m heq => hdiscover ⟨m, heq⟩
    refine ⟨[], c', hact, ?_⟩
    rw [hbase, List.append_nil]
    exact h.quiet hquiet

theorem audited_run (h : c.base.Audited events) (actions : List (ActionBT4 ec)) :
    ∃ more c', run sha256 g digest actions c = some (more, c') ∧ c'.base.Audited (events ++ more) := by
  induction actions generalizing c events with
  | nil => exact ⟨[], c, rfl, by rw [List.append_nil]; exact h⟩
  | cons action actions ih =>
      obtain ⟨first, c₁, hact, h₁⟩ := audited_act h action
      obtain ⟨rest, c₂, hrun, h₂⟩ := ih h₁
      rw [List.append_assoc] at h₂
      refine ⟨first ++ rest, c₂, ?_, h₂⟩
      rw [run, hact, Option.bind_some]
      exact congrArg (Option.map _) hrun

theorem everyDiscovery_delivers_iff (h : c.base.Audited events) (actions : List (ActionBT4 ec)) :
    EveryDiscovery sha256 g digest (fun events c m => c.base.Delivers .Bluetooth4 digest events (c.meeting sha256 g m))
        actions events c ↔
      EveryDiscovery sha256 g digest (fun _ c m => c.Settled sha256 g digest m) actions events c := by
  induction actions generalizing c events with
  | nil => exact Iff.rfl
  | cons action actions ih =>
      refine and_congr (forall₂_congr fun m _ => ?_) (forall₃_congr fun more c' hact => ?_)
      · obtain ⟨_, _, _, _, _, _, _, _, hd, -⟩ := discover_spec sha256 g digest h m
        exact delivers_iff_settled hd h
      · obtain ⟨_, _, hact', haudited⟩ := audited_act h action
        cases hact.symm.trans hact'
        exact ih haudited

/-- The devices of the map are tracked after each discovery. -/
theorem everyDiscovery_tracks_iff (h : c.base.Audited events) (htracks : c.base.Tracks) (actions : List (ActionBT4 ec)) :
    EveryDiscovery sha256 g digest (fun _ c m => ∀ more c', c.discover sha256 g digest m = some (more, c') → c'.base.Tracks)
        actions events c ↔
      EveryDiscovery sha256 g digest (fun _ c m => c.Reached sha256 g digest m) actions events c := by
  induction actions generalizing c events with
  | nil => exact Iff.rfl
  | cons action actions ih =>
      have hnext : (∀ m, action = .discover m → c.Reached sha256 g digest m) → ∀ more c',
          c.act sha256 g digest action = some (more, c') → c'.base.Audited (events ++ more) ∧ c'.base.Tracks := by
        intro hreached more c' hact
        obtain ⟨_, _, hact', haudited⟩ := audited_act h action
        cases hact.symm.trans hact'
        refine ⟨haudited, ?_⟩
        by_cases hdiscover : ∃ m, action = .discover m
        · obtain ⟨m, rfl⟩ := hdiscover
          obtain ⟨_, _, _, _, _, _, _, _, hd, _, _, hact', -, hbase⟩ := discover_spec sha256 g digest h m
          cases hact.symm.trans hact'
          rw [hbase]
          exact (tracks_iff_reached hd h htracks).mpr (hreached m rfl)
        · obtain ⟨c'', hact', hquiet, hbase⟩ := act_quiet h fun m heq => hdiscover ⟨m, heq⟩
          cases hact.symm.trans hact'
          rw [hbase]
          exact fun id => ((hquiet.keys id).trans (or_iff_right List.not_mem_nil)).trans (htracks id)
      have hfirst : (∀ m, action = .discover m →
          ∀ more c', c.discover sha256 g digest m = some (more, c') → c'.base.Tracks) ↔
            ∀ m, action = .discover m → c.Reached sha256 g digest m := by
        refine forall₂_congr fun m _ => ?_
        obtain ⟨_, _, _, _, _, _, _, _, hd, _, c', hact, -, hbase⟩ := discover_spec sha256 g digest h m
        rw [← tracks_iff_reached hd h htracks, ← hbase]
        refine ⟨fun hall => hall _ _ hact, fun htracks' more c'' hact' => ?_⟩
        cases hact.symm.trans hact'
        exact htracks'
      refine (and_congr_left' hfirst).trans (and_congr_right fun hreached => ?_)
      refine forall₃_congr fun more c' hact => ?_
      obtain ⟨haudited, htracks'⟩ := hnext hreached more c' hact
      exact ih haudited htracks'

/-! ## The start of a run -/

omit [FloatOps P] in
theorem listen_accepted {radio : EbNRadioBT4 P ec} {address : Address} {message : List Byte}
    (hactive : radio.confirmScheme.type.hasActive = true) (haddress : address.verifyChecksum = true)
    (hlength : message.length = ec.keySize / 8 + 1 + (BT4.ACTIVE_BF_M + 7) / 8) (hnonzero : ∃ b ∈ message, b ≠ 0) :
    radio.listen address message = { radio with listenAdverts := radio.listenAdverts ++ [(address, message)] } := by
  have hany : message.any (· ≠ 0) = true := by simpa using hnonzero
  have hsize : decide (message.length = radio.dhExchange.getPublicSize + (BT4.ACTIVE_BF_M + 7) / 8) = true :=
    decide_eq_true hlength
  unfold EbNRadioBT4.listen
  dsimp only
  rw [hactive, haddress, hsize, hany]
  rfl

/-- Of the radio, a message uses the key only. -/
theorem messageEffect_congr {radio radio' : EbNRadioBT4 P ec} (hkey : radio.dhExchange = radio'.dhExchange)
    (message : List Byte) :
    (EbNRadioBT4.messageEffect radio message : Effect sha256 (EbNDeviceBT4 P ec))
      = EbNRadioBT4.messageEffect radio' message := by
  unfold EbNRadioBT4.messageEffect EbNRadioBT4.processActiveHandshake
  simp only [hkey]

theorem base_initializeRadio (sha256 : List Byte → Digest) (rand scanRand : Nat → Nat) (random : Nat → Byte)
    (radio : EbNRadioBT4 P ec) :
    (radio.initializeRadio sha256 rand scanRand random).toEbNRadio = radio.toEbNRadio ∧
      (radio.initializeRadio sha256 rand scanRand random).dhExchange = radio.dhExchange ∧
      (radio.initializeRadio sha256 rand scanRand random).listenAdverts = radio.listenAdverts := by
  refine ⟨?_, (EbNRadioBT4.changeAdvert_fields sha256 rand scanRand _).2, ?_⟩ <;>
  · unfold EbNRadioBT4.initializeRadio EbNRadioBT4.changeAdvert
    dsimp only [EbNRadioBT4.setScanResponseData, EbNRadioBT4.setAdvertData, EbNRadioBT4.generateAdvert,
      EbNRadioBT4.updateBloom]
    split_ifs <;> rfl

theorem audited_start {confirmScheme : ConfirmScheme P} {now : Time} {key : ec.Key} {randomAddress : Address}
    {radio : EbNRadioBT4 P ec} (hnew : EbNRadioBT4.new g confirmScheme .Standard now key randomAddress = some radio)
    (rand scanRand : Nat → Nat) (random : Nat → Byte) (minStartTime maxStartTime : Time) (startSeen : Nat) (endTime : Time)
    (rssiThreshold : BitVec 8) (rssiReportInterval : Time) :
    let c₀ : EbNControllerBT4 P ec :=
      ⟨radio.initializeRadio sha256 rand scanRand random,
        EbNHystPolicy.new .Standard minStartTime maxStartTime startSeen endTime rssiThreshold, rssiReportInterval⟩
    c₀.base.Audited [] ∧ c₀.base.Tracks := by
  intro c₀
  have hbase : c₀.base = ⟨EbNRadio.new confirmScheme .Standard now,
      EbNHystPolicy.new .Standard minStartTime maxStartTime startSeen endTime rssiThreshold, rssiReportInterval⟩ := by
    show (⟨(radio.initializeRadio sha256 rand scanRand random).toEbNRadio, _, _⟩ : EbNController P _) = _
    rw [(base_initializeRadio sha256 rand scanRand random radio).1, (EbNRadioBT4.new_fields g hnew).2.2]
  rw [hbase]
  exact ⟨.new confirmScheme now minStartTime maxStartTime startSeen endTime rssiThreshold rssiReportInterval, fun _ => Iff.rfl⟩

end Sddr.Control.EbNControllerBT4

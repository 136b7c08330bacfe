import Sddr.Radio.Lemmas.Steps

/-!
# What the actions of a radio do

One lemma for each part of an action, in the terms of `Finds` and `Quiet`.
-/

namespace Sddr.Radio
open Sddr.Lib Sddr.Codec Sddr.Device

namespace EbNRadio

variable {P D : Type} [FloatOps P] [IsDevice D P] [Addressed D] [RadioDevice D] {r r' : EbNRadio P D}
  {id device : DeviceID} {sha256 : List Byte → Digest} (version : Version) (digest : List Byte → Nat)

/-! ## Discovery -/

/-- Other devices than `ids` got new addresses at most. -/
structure Confined (r r' : EbNRadio P D) (ids : List DeviceID) : Prop extends Quiet r r' ids where
  others : ∀ id, id ∉ ids → Readdressed (r.baseAt id) (r'.baseAt id)

omit [RadioDevice D] in
theorem Confined.refl (h : Tidy r) : Confined r r [] := ⟨.refl h, fun _ _ => .refl _⟩

omit [RadioDevice D] in
theorem Confined.trans {r'' : EbNRadio P D} {ids ids' : List DeviceID} (h : Confined r r' ids) (h' : Confined r' r'' ids') :
    Confined r r'' (ids ++ ids') := by
  refine ⟨h.toQuiet.trans h'.toQuiet, fun id hid => ?_⟩
  rw [List.mem_append, not_or] at hid
  exact (h.others id hid.1).trans (h'.others id hid.2)

theorem Tidy.respond (h : Tidy r) (response : Response sha256 D) :
    ∃ event r', r.respond version digest response = some (event, r') ∧ Confined r r' [event.id] := by
  obtain ⟨device, r₁, hat, hlocated⟩ := h.deviceAt digest response.buckets response.address
  obtain ⟨-, d, hd, hid⟩ := hlocated.tidy.lookup hlocated.mem
  have hmeasured : ∃ r₂, r₂ = (if version.measures then
      r₁.update device (IsDevice.update fun d => d.addRSSIMeasurement response.time response.rssi) else r₁) ∧
      Quiet r₁ r₂ [] ∧ ∀ id, id ≠ device → r₂.baseAt id = r₁.baseAt id := by
    refine ⟨_, rfl, ?_⟩
    split
    · obtain ⟨hquiet, d, -, hbase⟩ := hlocated.tidy.update_quiet sha256
        (f := IsDevice.update fun d => d.addRSSIMeasurement response.time response.rssi) hlocated.mem fun d => by
          rw [RadioDevice.base_update]
          exact .op (.addRSSIMeasurement response.time response.rssi) _
      exact ⟨hquiet, fun id hid => by rw [hbase, Function.update_of_ne hid]⟩
    · exact ⟨.refl hlocated.tidy, fun _ _ => rfl⟩
  obtain ⟨r₂, hr₂, hquiet₂, hothers₂⟩ := hmeasured
  have hin₂ : device ∈ r₂.deviceMap.idToDevice := (hquiet₂.keys device).mpr (Or.inr hlocated.mem)
  obtain ⟨r₃, hadd, hquiet₃, hheap₃⟩ := hquiet₂.tidy.addRecentDevice hin₂
  obtain ⟨hquiet₄, _, -, hbase₄⟩ := hquiet₃.tidy.update_quiet sha256 ((hquiet₃.keys device).mpr (Or.inr hin₂))
    response.effect.changed
  refine ⟨⟨response.time, device, response.rssi⟩, _, ?_, hlocated.quiet ((hquiet₂.trans hquiet₃).trans hquiet₄),
    fun id hid => ?_⟩
  · rw [EbNRadio.respond, hat, Option.bind_some]
    dsimp only
    rw [hd, Option.bind_some, ← hr₂, hadd, hid]
    rfl
  · have hne : id ≠ device := fun heq => hid (List.mem_singleton.mpr heq)
    rw [hbase₄, Function.update_of_ne hne, baseAt_congr hheap₃, hothers₂ id hne]
    exact hlocated.readdressed id

theorem Tidy.respondAll (h : Tidy r) (responses : List (Response sha256 D)) :
    ∃ events r', respondAll version digest responses r = some (events, r') ∧
      Confined r r' (events.map DiscoverEvent.id) := by
  induction responses generalizing r with
  | nil => exact ⟨[], r, rfl, .refl h⟩
  | cons response responses ih =>
      obtain ⟨event, r₁, hrespond, hfirst⟩ := h.respond version digest response
      obtain ⟨events, r₂, hrest, hothers⟩ := ih hfirst.tidy
      refine ⟨event :: events, r₂, ?_, hfirst.trans hothers⟩
      rw [EbNRadio.respondAll, hrespond, Option.bind_some]
      exact congrArg (Option.map _) hrest

/-! ## Handshakes -/

/-- A message of a device was handled. -/
structure Received (r r' : EbNRadio P D) (device : DeviceID) (effect : Effect sha256 D) : Prop
    extends Confined r r' [device] where
  handled : ∃ d, Readdressed (r.baseAt device) (IsDevice.base d) ∧
    r'.baseAt device = (IsDevice.base (effect.run d)).setShakenHands true

theorem Tidy.receive (h : Tidy r) (incoming : Incoming sha256 D) :
    ∃ device r₁ r', r.deviceAt digest incoming.buckets incoming.address = some (device, r₁) ∧
      r.receive digest incoming = some r' ∧ Received r r' device incoming.effect := by
  obtain ⟨device, r₁, hat, hlocated⟩ := h.deviceAt digest incoming.buckets incoming.address
  obtain ⟨r₂, hadd, hquiet₂, hheap⟩ := hlocated.tidy.addRecentDevice hlocated.mem
  have hin₂ : device ∈ r₂.deviceMap.idToDevice := (hquiet₂.keys device).mpr (Or.inr hlocated.mem)
  let f : D → D := fun d => IsDevice.update (·.setShakenHands true) (incoming.effect.run d)
  have hf : ∀ d, IsDevice.base (f d) = (IsDevice.base (incoming.effect.run d)).setShakenHands true := fun d =>
    RadioDevice.base_update _ _
  obtain ⟨hquiet₃, d, hd, hbase⟩ := hquiet₂.tidy.update_quiet sha256 (f := f) hin₂ fun d => by
    rw [hf]
    exact (incoming.effect.changed d).trans (.op (.setShakenHands true) _)
  refine ⟨device, r₁, r₂.update device f, hat, ?_, ⟨hlocated.quiet (hquiet₂.trans hquiet₃), fun id hid => ?_⟩, d, ?_, ?_⟩
  · rw [EbNRadio.receive, hat, Option.bind_some]
    exact congrArg (Option.map _) hadd
  · rw [hbase, Function.update_of_ne fun heq => hid (List.mem_singleton.mpr heq), baseAt_congr hheap]
    exact hlocated.readdressed id
  · rw [← baseAt_eq hd, baseAt_congr hheap]
    exact hlocated.readdressed device
  · rw [hbase, Function.update_self, hf]

/-- Messages were handled, with the devices that they are from. -/
structure Drained (r r' : EbNRadio P D) (handled : List (DeviceID × Incoming sha256 D)) : Prop
    extends Confined r r' (handled.map Prod.fst) where
  shaken : ∀ id, (r.baseAt id).shakenHands = true ∨ id ∈ handled.map Prod.fst → (r'.baseAt id).shakenHands = true
  /-- What the messages of a device preserve. -/
  keeps : ∀ (id : DeviceID) (I : EbNDevice P → Prop), (∀ d d', Readdressed d d' → I d → I d') →
    (∀ incoming, (id, incoming) ∈ handled → ∀ d, I (IsDevice.base d) →
      I ((IsDevice.base (incoming.effect.run d)).setShakenHands true)) → I (r.baseAt id) → I (r'.baseAt id)
  /-- What a message confirms stays confirmed. -/
  confirms : ∀ id incoming v, (id, incoming) ∈ handled →
    (∀ d, v ∈ confirmedValues (IsDevice.base (incoming.effect.run d)).sharedSecrets) →
      v ∈ confirmedValues (r'.baseAt id).sharedSecrets

theorem Tidy.receiveAll (h : Tidy r) (incoming : List (Incoming sha256 D)) :
    ∃ r', receiveAll digest incoming r = some r' ∧ Drained r r' ((recipients digest incoming r).zip incoming) := by
  induction incoming generalizing r with
  | nil => exact ⟨r, rfl, .refl h, by simp [recipients], fun _ _ _ _ hbase => hbase, by simp [recipients]⟩
  | cons message rest ih =>
      obtain ⟨device, r₀, r₁, hat, hreceive, hreceived⟩ := h.receive digest message
      obtain ⟨r₂, hrest, hdrained⟩ := ih hreceived.tidy
      obtain ⟨d, hreaddressed, hbase⟩ := hreceived.handled
      have hrecipients : recipients digest (message :: rest) r = device :: recipients digest rest r₁ := by
        rw [recipients, hat, hreceive]
      refine ⟨r₂, ?_, ?_⟩
      · rw [EbNRadio.receiveAll, hreceive]
        exact hrest
      rw [hrecipients, List.zip_cons_cons]
      refine ⟨hreceived.toConfined.trans hdrained.toConfined, fun id hid => ?_, fun id I hI hmessages hid => ?_,
        fun id other v hmem hv => ?_⟩
      · refine hdrained.shaken id ?_
        rw [List.map_cons, List.mem_cons] at hid
        by_cases heq : id = device
        · subst heq
          rw [hbase]
          exact Or.inl rfl
        · obtain ⟨_, _, _, _, hsame⟩ := hreceived.others id fun hin => heq (List.mem_singleton.mp hin)
          rw [hsame]
          exact hid.imp_right fun hor => hor.resolve_left heq
      · refine hdrained.keeps id I hI (fun other hmem => hmessages other (List.mem_cons_of_mem _ hmem)) ?_
        by_cases heq : id = device
        · subst heq
          rw [hbase]
          exact hmessages message List.mem_cons_self d (hI _ _ hreaddressed hid)
        · exact hI _ _ (hreceived.others id fun hin => heq (List.mem_singleton.mp hin)) hid
      · rcases List.mem_cons.mp hmem with heq | hmem
        · cases heq
          obtain ⟨new, hnew⟩ := hdrained.ripens device
          refine hnew.confirmedValues.mem_iff.mpr (List.mem_append_left _ ?_)
          rw [hbase]
          exact hv d
        · exact hdrained.confirms id other v hmem hv

/-- Hands stay shaken, and other devices are left alone. -/
structure Shaken (r r' : EbNRadio P D) (ids : List DeviceID) : Prop extends Quiet r r' [] where
  shaken : ∀ id, (r.baseAt id).shakenHands = true → (r'.baseAt id).shakenHands = true
  others : ∀ id, id ∉ ids → r'.baseAt id = r.baseAt id

theorem Tidy.shakeHands (h : Tidy r) (connect : DeviceID → Option (Effect sha256 D)) (ids : List DeviceID)
    (hids : ∀ id ∈ ids, id ∈ r.deviceMap.idToDevice) :
    ∃ r', shakeHands version connect ids r = some r' ∧ Shaken r r' ids := by
  induction ids generalizing r with
  | nil => exact ⟨r, rfl, .refl h, fun _ hid => hid, fun _ _ => rfl⟩
  | cons id ids ih =>
      have hin := hids id List.mem_cons_self
      obtain ⟨hget, d, hd, -⟩ := h.lookup hin
      have hgo : ∀ f : D → D, (∀ d, Changed sha256 (IsDevice.base d) (IsDevice.base (f d))) →
          (∀ d, (IsDevice.base (f d)).shakenHands = true) →
          ∃ r', EbNRadio.shakeHands version connect ids (r.update id f) = some r' ∧ Shaken r r' (id :: ids) := by
        intro f hf hset
        obtain ⟨hquiet, d, -, hbase⟩ := h.update_quiet sha256 hin hf
        obtain ⟨r', hrest, hshaken⟩ := ih hquiet.tidy fun j hj =>
          (hquiet.keys j).mpr (Or.inr (hids j (List.mem_cons_of_mem _ hj)))
        refine ⟨r', hrest, hquiet.trans hshaken.toQuiet, fun j hj => hshaken.shaken j ?_, fun j hj => ?_⟩
        · rw [hbase, Function.update_apply]
          split
          · exact hset d
          · exact hj
        · rw [List.mem_cons, not_or] at hj
          rw [hshaken.others j hj.2, hbase, Function.update_of_ne hj.1]
      rw [EbNRadio.shakeHands, hget, Option.bind_some, hd, Option.bind_some]
      split
      · cases connect id with
        | none => exact ⟨r, rfl, .refl h, fun _ hid => hid, fun _ _ => rfl⟩
        | some effect =>
            refine hgo _ (fun d => ?_) fun d => ?_
            · rw [RadioDevice.base_update]
              exact (effect.changed d).trans (.op (.setShakenHands true) _)
            · rw [RadioDevice.base_update]
              rfl
      · refine hgo _ (fun d => ?_) fun d => ?_
        · rw [RadioDevice.base_update]
          exact .op (.setShakenHands true) _
        · rw [RadioDevice.base_update]
          rfl

omit [RadioDevice D] in
theorem Tidy.mem_encountered (h : Tidy r) (id : DeviceID) :
    id ∈ r.encountered ↔
      id ∈ r.deviceMap.idToDevice ∧ (r.baseAt id).shakenHands = true ∧ (r.baseAt id).confirmed = true := by
  unfold encountered
  rw [List.mem_toFinset, List.mem_filterMap]
  constructor
  · rintro ⟨⟨i, p⟩, hentry, hsome⟩
    have hi : r.deviceMap.idToDevice.lookup i = some p := AList.mem_lookup_iff.mpr hentry
    have hin : i ∈ r.deviceMap.idToDevice := AList.lookup_isSome.mp (Option.isSome_iff_exists.mpr ⟨p, hi⟩)
    obtain ⟨hget, d, hd, hid⟩ := h.lookup hin
    have hp : p = i := Option.some.inj (hi.symm.trans hget)
    subst hp
    rw [show r.heap p = some d from hd, Option.bind_some] at hsome
    split at hsome
    · next hboth =>
        cases hsome
        rw [hid, baseAt_eq hd]
        exact ⟨hin, hboth⟩
    · cases hsome
  · rintro ⟨hin, hshaken, hconfirmed⟩
    obtain ⟨hget, d, hd, hid⟩ := h.lookup hin
    rw [baseAt_eq hd] at hshaken hconfirmed
    refine ⟨⟨id, id⟩, AList.mem_lookup_iff.mp hget, ?_⟩
    rw [show r.heap id = some d from hd, Option.bind_some, if_pos ⟨hshaken, hconfirmed⟩, hid]

theorem Tidy.handshake (h : Tidy r) (incoming : List (Incoming sha256 D)) (connect : DeviceID → Option (Effect sha256 D))
    {ids : Finset DeviceID} (hids : ∀ id ∈ ids, id ∈ r.deviceMap.idToDevice) :
    let queue := if version = .Bluetooth4 then incoming else []
    ∃ r₁ r', EbNRadio.receiveAll digest queue r = some r₁ ∧ Drained r r₁ ((recipients digest queue r).zip queue) ∧
      Shaken r₁ r' (ids.sort (· ≤ ·)) ∧ r.handshake version digest incoming connect ids = some (r'.encountered, r') := by
  intro queue
  obtain ⟨r₁, hreceive, hdrained⟩ := h.receiveAll digest queue
  have hselected : ∀ id ∈ (if version = .Bluetooth4AR then [] else ids.sort (· ≤ ·)), id ∈ ids.sort (· ≤ ·) := by
    intro id hid
    split at hid
    · cases hid
    · exact hid
  obtain ⟨r₂, hshake, hshaken⟩ := hdrained.tidy.shakeHands version connect
    (if version = .Bluetooth4AR then [] else ids.sort (· ≤ ·)) fun id hid =>
      (hdrained.keys id).mpr (Or.inr (hids id ((Finset.mem_sort _).mp (hselected id hid))))
  refine ⟨r₁, r₂, hreceive, hdrained, ⟨hshaken.toQuiet, hshaken.shaken, fun id hid => ?_⟩, ?_⟩
  · exact hshaken.others id fun hin => hid (hselected id hin)
  · rw [EbNRadio.handshake, hreceive, Option.bind_some, hshake]
    rfl

/-! ## The other actions -/

omit [FloatOps P] [IsDevice D P] [Addressed D] [RadioDevice D] in
theorem forget_standard (hmemory : r.memoryScheme = .Standard) : r.forget = r := by
  rw [forget, hmemory, if_neg]
  simp

omit [FloatOps P] [IsDevice D P] [RadioDevice D] in
theorem Tidy.forget (h : Tidy r) : Tidy r.forget := by
  unfold EbNRadio.forget
  split
  · exact ⟨Devices.new_consistent r.heap, h.pointer, h.fresh, h.recent⟩
  · exact h

omit [FloatOps P] [IsDevice D P] [RadioDevice D] in
/-- A radio without recent devices has nothing to forget. -/
theorem Sound.forget (h : Sound r) (hempty : r.memoryScheme = .NoMemory → r.recent.nodes = []) : Sound r.forget := by
  refine ⟨h.toTidy.forget, ?_⟩
  unfold EbNRadio.forget
  split
  · next hmemory =>
      intro id
      refine ⟨fun hid => ?_, fun hid => absurd hid (AList.notMem_empty id)⟩
      obtain ⟨node, hnode⟩ := Option.isSome_iff_exists.mp (AList.lookup_isSome.mpr hid)
      have hentry := (h.recent.index id node).mp hnode
      rw [hempty hmemory] at hentry
      cases hentry
  · exact h.same

theorem Tidy.discover (h : Tidy r.forget) (responses : List (Response sha256 D)) (interval : Nat) :
    ∃ events r', r.discover version digest responses interval = some (events, r') ∧
      Confined r.forget r' (events.map DiscoverEvent.id) := by
  obtain ⟨events, r', hrespond, hconfined⟩ := h.respondAll version digest responses
  have hsame : Quiet r' { r' with nextDiscover := Time.addMS r'.nextDiscover interval } [] :=
    .of_same hconfined.tidy rfl rfl rfl rfl rfl
  refine ⟨events, { r' with nextDiscover := Time.addMS r'.nextDiscover interval }, ?_, ?_⟩
  · rw [EbNRadio.discover, hrespond]
    rfl
  · have hboth := hconfined.trans (⟨hsame, fun _ _ => .refl _⟩ : Confined r' _ [])
    rw [List.append_nil] at hboth
    exact hboth

theorem Tidy.changeEpoch (h : Tidy r) (effect : Effect sha256 D) : Quiet r (r.changeEpoch effect) [] := by
  let f : DeviceID → D → D := fun p => if p ∈ r.deviceMap.idToDevice then effect.run else fun d => d
  have hchanged : ∀ p d, Changed sha256 (IsDevice.base d) (IsDevice.base (f p d)) := by
    intro p d
    dsimp only [f]
    split
    · exact effect.changed d
    · exact .refl _
  have hheap : (r.changeEpoch effect).heap = fun p => (r.heap p).map (f p) := by
    funext p
    dsimp only [f, EbNRadio.changeEpoch]
    split
    · rfl
    · exact Option.map_id'.symm
  have htidy := h.map_heap f fun p d _ => by
    obtain ⟨-, hid, haddress, -⟩ := (hchanged p d).keeps
    rw [RadioDevice.getID, RadioDevice.getID, RadioDevice.getAddress, RadioDevice.getAddress]
    exact ⟨hid, haddress⟩
  refine ⟨.of_eq ⟨?_, fun p d hd => ?_, fun p hp => ?_, h.recent⟩ rfl rfl rfl rfl, fun id => ?_⟩
  · show Devices.Consistent ⟨r.deviceMap, (r.changeEpoch effect).heap⟩
    rw [hheap]
    exact htidy.consistent
  · rw [hheap] at hd
    exact htidy.pointer p d hd
  · rw [hheap]
    exact htidy.fresh p hp
  · unfold baseAt
    rw [hheap]
    dsimp only
    cases r.heap id with
    | none => exact .refl _
    | some d => exact .of_changed (hchanged id d)

/-- What is known of a device that is asked for is reported. -/
theorem Sound.getDeviceEvent (h : Sound r) (event : EncounterEvent P) (id : DeviceID)
    (rssiReportInterval now later : Time) :
    ∃ success event' r', r.getDeviceEvent event id rssiReportInterval now later = some (success, event', r') ∧
      Finds r r' [] ∧ (success = false ∧ r'.baseAt = r.baseAt ∧
          (id ∈ r.deviceMap.idToDevice → (r.baseAt id).isUpdated rssiReportInterval now = false) ∨
        success = true ∧ id ∈ r.deviceMap.idToDevice ∧
          let report := (r.baseAt id).getEncounterInfo event rssiReportInterval false now later
          report.1 = true ∧ event' = report.2.1 ∧ r'.baseAt = Function.update r.baseAt id report.2.2) := by
  unfold EbNRadio.getDeviceEvent
  cases hnode : r.recent.index.lookup id with
  | none =>
      refine ⟨false, event, r, rfl, .of_eq h.toTidy rfl rfl rfl rfl, Or.inl ⟨rfl, rfl, fun hin => ?_⟩⟩
      exact absurd ((h.same id).mpr hin) (AList.lookup_eq_none.mp hnode)
  | some node =>
      have hentry := (h.recent.index id node).mp hnode
      have hin : id ∈ r.deviceMap.idToDevice :=
        (h.same id).mp (AList.lookup_isSome.mp (Option.isSome_iff_exists.mpr ⟨node, hnode⟩))
      obtain ⟨-, d, hd, hid⟩ := h.lookup hin
      have hfind : (r.recent.nodes.find? fun entry => entry.1 = node) = some (node, id) := by
        cases hfound : r.recent.nodes.find? fun entry => entry.1 = node with
        | none => simpa using List.find?_eq_none.mp hfound (node, id) hentry
        | some entry =>
            have hsame : entry.1 = node := by simpa using List.find?_some hfound
            rw [List.inj_on_of_nodup_map h.recent.nodup (List.mem_of_find?_eq_some hfound) hentry hsame]
      dsimp only
      rw [hfind, Option.bind_some]
      dsimp only
      rw [hd]
      refine ⟨_, _, _, rfl, ?_⟩
      have hupdate := h.toTidy.update (f := IsDevice.update fun _ =>
        ((IsDevice.base d).getEncounterInfo event rssiReportInterval false now later).2.2) hd
      rw [RadioDevice.base_update] at hupdate
      rw [baseAt_eq hd]
      cases hupdated : (IsDevice.base d).isUpdated rssiReportInterval now with
      | false =>
          have hreport : (IsDevice.base d).getEncounterInfo event rssiReportInterval false now later
              = (false, event, IsDevice.base d) := by simp [EbNDevice.getEncounterInfo, hupdated]
          rw [hreport] at hupdate ⊢
          obtain ⟨hfinds, hbase⟩ := hupdate rfl rfl
          exact ⟨hfinds, Or.inl ⟨rfl, hbase.trans (Function.update_eq_self_iff.mpr (baseAt_eq hd).symm), fun _ => rfl⟩⟩
      | true =>
          have hreport : ((IsDevice.base d).getEncounterInfo event rssiReportInterval false now later).1 = true := by
            simp [EbNDevice.getEncounterInfo, hupdated]
          obtain ⟨hfinds, hbase⟩ := hupdate (by simp [EbNDevice.getEncounterInfo, hupdated])
            (by simp [EbNDevice.getEncounterInfo, hupdated])
          exact ⟨hfinds, Or.inr ⟨hreport, hin, hreport, rfl, hbase⟩⟩

/-- The devices `ids` were asked for events. -/
structure Polled (r r' : EbNRadio P D) (ids : List DeviceID) : Prop extends Finds r r' [] where
  others : ∀ id, id ∉ ids → r'.baseAt id = r.baseAt id
  keeps : ∀ id, (r'.baseAt id).shakenHands = (r.baseAt id).shakenHands ∧
    (r'.baseAt id).confirmed = (r.baseAt id).confirmed ∧ (r'.baseAt id).sharedSecrets = (r.baseAt id).sharedSecrets
  told : ∀ id, (r.baseAt id).secretsToReport = [] ∨ id ∈ ids ∧ id ∈ r.deviceMap.idToDevice ∧
    (r.baseAt id).shakenHands = true ∧ (r.baseAt id).confirmed = true → (r'.baseAt id).secretsToReport = []

omit [RadioDevice D] in
theorem Polled.refl (h : Tidy r) : Polled r r [] :=
  ⟨.of_eq h rfl rfl rfl rfl, fun _ _ => rfl, fun _ => ⟨rfl, rfl, rfl⟩, fun _ hor => hor.resolve_right fun hin =>
    List.not_mem_nil hin.1⟩

omit [RadioDevice D] in
theorem Polled.trans {r'' : EbNRadio P D} {ids ids' : List DeviceID} (h : Polled r r' ids) (h' : Polled r' r'' ids') :
    Polled r r'' (ids ++ ids') := by
  refine ⟨h.toFinds.trans h'.toFinds, fun id hid => ?_, fun id => ?_, fun id hor => h'.told id ?_⟩
  · rw [List.mem_append, not_or] at hid
    rw [h'.others id hid.2, h.others id hid.1]
  · obtain ⟨hshaken, hconfirmed, hsecrets⟩ := h.keeps id
    obtain ⟨hshaken', hconfirmed', hsecrets'⟩ := h'.keeps id
    exact ⟨hshaken'.trans hshaken, hconfirmed'.trans hconfirmed, hsecrets'.trans hsecrets⟩
  · obtain ⟨hshaken, hconfirmed, -⟩ := h.keeps id
    rcases hor with hnone | ⟨hin, hmem, hboth⟩
    · exact Or.inl (h.told id (Or.inl hnone))
    · rcases List.mem_append.mp hin with hin | hin
      · exact Or.inl (h.told id (Or.inr ⟨hin, hmem, hboth⟩))
      · rw [hshaken, hconfirmed]
        exact Or.inr ⟨hin, (h.keys id).mpr (Or.inr hmem), hboth⟩

theorem Sound.polled (h : Sound r) {time rssiReportInterval now later : Time} {success : Bool} {event : EncounterEvent P}
    (hget : r.getDeviceEvent (EncounterEvent.ofTime time) id rssiReportInterval now later = some (success, event, r')) :
    Polled r r' [id] := by
  obtain ⟨success', event', r'', hget', hfinds, hcases⟩ :=
    h.getDeviceEvent (EncounterEvent.ofTime time) id rssiReportInterval now later
  rw [hget] at hget'
  cases hget'
  rcases hcases with ⟨-, hbase, hquiet⟩ | ⟨-, -, hreport, -, hbase⟩
  · refine ⟨hfinds, fun j _ => by rw [hbase], fun j => by rw [hbase]; exact ⟨rfl, rfl, rfl⟩, fun j hor => ?_⟩
    rw [hbase]
    rcases hor with hnone | ⟨hj, hin, hshaken, hconfirmed⟩
    · exact hnone
    · obtain rfl := List.mem_singleton.mp hj
      have hupdated := hquiet hin
      simp only [EbNDevice.isUpdated, hshaken, hconfirmed, Bool.and_self, Bool.true_and, Bool.or_eq_false_iff,
        Bool.not_eq_false', List.isEmpty_iff] at hupdated
      exact hupdated.1.1
  · have hkeeps := getEncounterInfo_keeps (r.baseAt id) (EncounterEvent.ofTime time) rssiReportInterval false now later
    obtain ⟨-, -, -, -, -, -, hnone⟩ := getEncounterInfo_success hreport
    refine ⟨hfinds, fun j hj => ?_, fun j => ?_, fun j hor => ?_⟩
    · rw [hbase, Function.update_of_ne fun heq => hj (List.mem_singleton.mpr heq)]
    · rw [hbase, Function.update_apply]
      split
      · next heq =>
          rw [heq]
          exact hkeeps
      · exact ⟨rfl, rfl, rfl⟩
    · rw [hbase, Function.update_apply]
      split
      · exact hnone
      · next hne => exact hor.resolve_right fun hin => hne (List.mem_singleton.mp hin.1)

omit [RadioDevice D] in
theorem Tidy.baseAt_id [RadioDevice D] (h : Tidy r) (hin : id ∈ r.deviceMap.idToDevice) : (r.baseAt id).id = id := by
  obtain ⟨-, d, hd, hid⟩ := h.lookup hin
  rw [baseAt_eq hd, ← RadioDevice.getID, hid]

/-- A device can be removed once, with its last event. -/
theorem Sound.doneWithDevice (h : Sound r) (hin : id ∈ r.deviceMap.idToDevice) (time now later : Time) :
    ∃ r', r.doneWithDevice id time now later
        = some (((r.baseAt id).getEncounterInfoDefault (EncounterEvent.ofTime time) true now later).2.1, r') ∧
      Sound r' ∧ (∀ j, j ∈ r'.deviceMap.idToDevice ↔ j ≠ id ∧ j ∈ r.deviceMap.idToDevice) ∧
      r'.nextDeviceID = r.nextDeviceID ∧ r'.memoryScheme = r.memoryScheme ∧
      ∀ j, j ≠ id → r'.baseAt j = r.baseAt j := by
  obtain ⟨hget, d, hd, hid⟩ := h.lookup hin
  rw [baseAt_eq hd]
  let report := (IsDevice.base d).getEncounterInfoDefault (EncounterEvent.ofTime time) true now later
  obtain ⟨hfinds, hbase⟩ := h.toTidy.update (f := IsDevice.update fun _ => report.2.2) hd
    (by rw [RadioDevice.base_update]; rfl) (by rw [RadioDevice.base_update]; rfl)
  have hsound := h.finds hfinds
  set r₁ := r.update id (IsDevice.update fun _ => report.2.2) with hr₁
  have hin₁ : id ∈ r₁.deviceMap.idToDevice := (hfinds.keys id).mpr (Or.inr hin)
  obtain ⟨hget₁, d₁, hd₁, hid₁⟩ := hsound.lookup hin₁
  have hremove := Devices.removeID_eq hsound.consistent hget₁ hd₁
  have hconsistent := hsound.consistent.delete hd₁ (by rw [hid₁]; exact hget₁)
  rw [hid₁] at hconsistent
  set s := r₁.devices.delete (Addressed.getAddress d₁) id id with hs
  have hheap : ∀ q, s.heap q = if q = id then none else r₁.heap q := Function.update_apply _ _ _
  have hkeys : ∀ j, j ∈ s.map.idToDevice ↔ j ≠ id ∧ j ∈ r.deviceMap.idToDevice := fun j => AList.mem_erase
  obtain ⟨recent, hrecent, hrecentSound, hindex⟩ := removeRecentDevice_spec (r := r₁.setDevices s) hsound.recent id
  refine ⟨{ r₁.setDevices s with recent }, ?_, ⟨⟨hconsistent, fun q e he => ?_, fun q hq => ?_, hrecentSound⟩,
    fun j => ?_⟩, hkeys, rfl, rfl, fun j hj => ?_⟩
  · rw [EbNRadio.doneWithDevice, hget, Option.bind_some, hd, Option.bind_some]
    dsimp only
    rw [← hr₁, hremove, Option.map_some, hrecent]
  · change s.heap q = some e at he
    rw [hheap] at he
    split at he
    · cases he
    · exact hsound.pointer q e he
  · show s.heap q = none
    rw [hheap]
    split
    · rfl
    · exact hsound.fresh q hq
  · show j ∈ recent.index ↔ j ∈ s.map.idToDevice
    rw [hkeys, ← AList.lookup_isSome, hindex]
    by_cases hj : j = id
    · simp [hj]
    · rw [if_neg hj, AList.lookup_isSome, ← h.same j]
      exact ⟨fun hin => ⟨hj, hin⟩, And.right⟩
  · have hsame : r₁.baseAt j = r.baseAt j := by rw [hbase, Function.update_of_ne hj]
    rw [← hsame]
    unfold baseAt
    rw [show ({ r₁.setDevices s with recent } : EbNRadio P D).heap j = s.heap j from rfl, hheap, if_neg hj]

end EbNRadio

end Sddr.Radio

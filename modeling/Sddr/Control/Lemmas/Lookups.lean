import Sddr.Control.Lemmas.EbNController

/-!
# Lookups of devices

In a run in which nothing is forgotten, what the policy tracks is in the map of the radio.
-/

namespace Sddr.Control
open Sddr.Lib Sddr.Codec Sddr.Device Sddr.Radio

variable {P D : Type} [Addressed D] {r : EbNRadio P D}

theorem recentKnown_iff (h : r.Tidy) : r.RecentKnown ↔ ∀ id, id ∈ r.recent.index → id ∈ r.deviceMap.idToDevice := by
  constructor
  · intro hknown id hid
    obtain ⟨node, hnode⟩ := Option.isSome_iff_exists.mp (AList.lookup_isSome.mpr hid)
    obtain ⟨j, hj⟩ := hknown _ ((h.recent.index id node).mp hnode)
    have hin : j ∈ r.deviceMap.idToDevice := AList.lookup_isSome.mp (Option.isSome_iff_exists.mpr ⟨id, hj⟩)
    rw [show id = j from Option.some.inj (hj.symm.trans (h.lookup hin).1)]
    exact hin
  · intro hin entry hentry
    have hnode := (h.recent.index entry.2 entry.1).mpr hentry
    exact ⟨entry.2, (h.lookup (hin _ (AList.lookup_isSome.mp (Option.isSome_iff_exists.mpr ⟨_, hnode⟩)))).1⟩

theorem Sound.recentKnown (h : r.Sound) : r.RecentKnown := (recentKnown_iff h.toTidy).mpr fun id => (h.same id).mp

namespace EbNController

/-! ## Loops -/

variable [FloatOps P] [IsDevice D P] [RadioDevice D] {sha256 : List Byte → Digest}
  (version : Version) (digest : List Byte → Nat)

theorem sound_reportAll (rssiReportInterval : Time) (clock : Nat → Time × Time × Time) (discovered : List DiscoverEvent)
    (h : r.Sound) :
    ∃ reports r', reportAll rssiReportInterval clock discovered r = some (reports, r') ∧
      r.Polled r' (discovered.map DiscoverEvent.id) := by
  induction discovered generalizing r with
  | nil => exact ⟨[], r, rfl, .refl h.toTidy⟩
  | cons discovery discovered ih =>
      obtain ⟨success, event, r₁, hget, -⟩ := h.getDeviceEvent (EncounterEvent.ofTime (clock discovered.length).1)
        discovery.id rssiReportInterval (clock discovered.length).2.1 (clock discovered.length).2.2
      have hpolled := h.polled hget
      obtain ⟨reports, r₂, hrest, hpolled'⟩ := ih (h.finds hpolled.toFinds)
      refine ⟨if success then event :: reports else reports, r₂, ?_, hpolled.trans hpolled'⟩
      rw [reportAll]
      dsimp only
      rw [hget, Option.bind_some]
      exact congrArg (Option.map _) hrest

theorem sound_expireAll (clock : Nat → Time × Time × Time) (expired : List (DeviceID × Time)) (h : r.Sound)
    (hnodup : (expired.map Prod.fst).Nodup) (hids : ∀ id ∈ expired.map Prod.fst, id ∈ r.deviceMap.idToDevice) :
    ExpiresKnown clock expired r ∧ ∃ ended r', expireAll clock expired r = some (ended, r') ∧ r'.Sound ∧
      ∀ j, j ∈ r'.deviceMap.idToDevice ↔ j ∉ expired.map Prod.fst ∧ j ∈ r.deviceMap.idToDevice := by
  induction expired generalizing r with
  | nil => exact ⟨trivial, [], r, rfl, h, fun j => by simp⟩
  | cons entry expired ih =>
      obtain ⟨id, lastTime⟩ := entry
      obtain ⟨hnot, hrest⟩ := List.nodup_cons.mp hnodup
      have hin := hids id List.mem_cons_self
      obtain ⟨r₁, hdone, hsound, hkeys, -⟩ := h.doneWithDevice hin (clock expired.length).1
        (clock expired.length).2.1 (clock expired.length).2.2
      generalize ((r.baseAt id).getEncounterInfoDefault _ true _ _).2.1 = event at hdone
      obtain ⟨hknown, ended, r₂, hexpire, hsound', hkeys'⟩ := ih hsound hrest fun j hj =>
        (hkeys j).mpr ⟨fun heq => hnot (heq ▸ hj), hids j (List.mem_cons_of_mem _ hj)⟩
      refine ⟨⟨hin, event, r₁, hdone, Sound.recentKnown hsound, hknown⟩, { event with time := lastTime } :: ended, r₂, ?_,
        hsound', fun j => ?_⟩
      · rw [expireAll]
        dsimp only
        rw [hdone, Option.bind_some]
        exact congrArg (Option.map _) hexpire
      · rw [hkeys', hkeys, List.map_cons, List.mem_cons, not_or]
        tauto

/-! ## Actions -/

variable {c : EbNController P D}

/-- What the policy tracks is in the map of the radio, and so are the recent devices. -/
structure Knows (c : EbNController P D) : Prop where
  sound : c.radio.Sound
  tracked : ∀ id, id ∈ c.hystPolicy.deviceInfo → id ∈ c.radio.deviceMap.idToDevice

omit [FloatOps P] [IsDevice D P] [RadioDevice D] in
theorem Knows.new (confirmScheme : ConfirmScheme P) (memoryScheme : MemoryScheme) (now : Time) (scheme : Scheme)
    (minStartTime maxStartTime : Time) (startSeen : Nat) (endTime : Time) (rssiThreshold : BitVec 8)
    (rssiReportInterval : Time) :
    Knows (⟨EbNRadio.new confirmScheme memoryScheme now,
      EbNHystPolicy.new scheme minStartTime maxStartTime startSeen endTime rssiThreshold, rssiReportInterval⟩ :
      EbNController P D) :=
  ⟨EbNRadio.new_sound confirmScheme memoryScheme now, fun id hid => absurd hid (AList.notMem_empty id)⟩

omit [FloatOps P] [IsDevice D P] [RadioDevice D] in
/-- What is forgotten was not tracked. -/
theorem Knows.forget (h : c.Knows) (hempty : c.radio.memoryScheme = .NoMemory → c.radio.recent.nodes = []) :
    c.radio.forget.Sound ∧ ∀ id, id ∈ c.hystPolicy.deviceInfo → id ∈ c.radio.forget.deviceMap.idToDevice := by
  refine ⟨h.sound.forget hempty, fun id hid => ?_⟩
  have hin := h.tracked id hid
  unfold EbNRadio.forget
  split
  · next hmemory =>
      obtain ⟨node, hnode⟩ := Option.isSome_iff_exists.mp (AList.lookup_isSome.mpr ((h.sound.same id).mpr hin))
      have hentry := (h.sound.recent.index id node).mp hnode
      rw [hempty hmemory] at hentry
      cases hentry
  · exact hin

/-- A discovery, with the radio after each of its parts. -/
structure Discovers (c : EbNController P D) (m : Meeting sha256 D) (discovered : List DiscoverEvent)
    (r₁ r₂ r₃ r₄ r₅ : EbNRadio P D) (reports ended : List (EncounterEvent P)) : Prop
    extends Met version digest c m discovered r₁ r₂ r₃ where
  report : reportAll c.rssiReportInterval m.report discovered r₃ = some (reports, r₄)
  polled : r₃.Polled r₄ (discovered.map DiscoverEvent.id)
  expire : expireAll m.done ((c.judge m discovered r₃.encountered).checkExpired m.checkExpired).1 r₄ = some (ended, r₅)
  expires : ExpiresKnown m.done ((c.judge m discovered r₃.encountered).checkExpired m.checkExpired).1 r₄
  sound₁ : r₁.Sound
  sound₃ : r₃.Sound
  sound₅ : r₅.Sound
  tracked : ∀ id, id ∈ (c.judge m discovered r₃.encountered).deviceInfo → id ∈ r₃.deviceMap.idToDevice
  keys : ∀ id, id ∈ r₅.deviceMap.idToDevice ↔
    id ∉ ((c.judge m discovered r₃.encountered).checkExpired m.checkExpired).1.map Prod.fst ∧
      id ∈ r₃.deviceMap.idToDevice

theorem discovers (hsound : c.radio.forget.Sound)
    (htracked : ∀ id, id ∈ c.hystPolicy.deviceInfo → id ∈ c.radio.forget.deviceMap.idToDevice) (m : Meeting sha256 D) :
    ∃ discovered r₁ r₂ r₃ r₄ r₅ reports ended, Discovers version digest c m discovered r₁ r₂ r₃ r₄ r₅ reports ended := by
  obtain ⟨discovered, r₁, r₂, r₃, hmet⟩ := meets version digest hsound.toTidy m
  have hsound₁ := hsound.finds hmet.heard.toFinds
  obtain ⟨-, hselected, hinfo⟩ := c.hystPolicy.discovered_subset discovered m.discovered
  have hquiet := hmet.drained.toQuiet.trans hmet.shaken.toQuiet
  have hsound₃ := hsound₁.finds hquiet.toFinds
  let p := c.judge m discovered r₃.encountered
  have htracked₃ : ∀ id, id ∈ p.deviceInfo → id ∈ r₃.deviceMap.idToDevice := by
    intro id hid
    rcases (EbNHystPolicy.mem_encountered _ r₃.encountered m.encountered id).mp hid with hid | hid
    · exact ((hquiet.tidy.mem_encountered id).mp hid).1
    · refine (hquiet.keys id).mpr (Or.inr ((hmet.heard.keys id).mpr ?_))
      exact (hinfo id hid).symm.imp_right (htracked id)
  obtain ⟨reports, r₄, hreport, hpolled⟩ := sound_reportAll c.rssiReportInterval m.report discovered hsound₃
  have hsame : ∀ id, id ∈ r₄.deviceMap.idToDevice ↔ id ∈ r₃.deviceMap.idToDevice := fun id => by simp [hpolled.keys]
  obtain ⟨hexpires, ended, r₅, hexpire, hsound₅, hkeys⟩ := sound_expireAll m.done (p.checkExpired m.checkExpired).1
    (hsound₃.finds hpolled.toFinds) (nodup_checkExpired p m.checkExpired) fun id hid =>
      (hsame id).mpr (htracked₃ id ((p.mem_checkExpired m.checkExpired id).1 hid))
  exact ⟨discovered, r₁, r₂, r₃, r₄, r₅, reports, ended, hmet, hreport, hpolled, hexpire, hexpires, hsound₁, hsound₃,
    hsound₅, htracked₃, fun id => by rw [hkeys, hsame]⟩

variable {version digest}

/-- What the discovery as a whole does. -/
theorem Discovers.eq {m : Meeting sha256 D} {discovered : List DiscoverEvent} {r₁ r₂ r₃ r₄ r₅ : EbNRadio P D}
    {reports ended : List (EncounterEvent P)}
    (h : Discovers version digest c m discovered r₁ r₂ r₃ r₄ r₅ reports ended) :
    c.discover version digest m = some
      ((c.hystPolicy.discovered discovered [] m.discovered).newlyDiscovered.map
          (fun nd => EncounterEvent.new .UnconfirmedStarted nd.2 nd.1) ++ reports ++ ended,
        { c with
          radio := r₅
          hystPolicy := ((c.judge m discovered r₃.encountered).checkExpired m.checkExpired).2 }) :=
  discover_eq version digest h.discover h.handshake h.report h.expire

variable (version digest)

theorem Knows.discover (h : c.Knows) (m : Meeting sha256 D) (hremembered : c.Remembered (.discover m)) :
    c.LooksUp version digest (.discover m) ∧ ∃ events c', c.discover version digest m = some (events, c') ∧ c'.Knows := by
  obtain ⟨hsound, htracked⟩ := h.forget hremembered
  obtain ⟨discovered, r₁, _, r₃, r₄, r₅, reports, ended, hd⟩ := discovers version digest hsound htracked m
  obtain ⟨-, hselected, -⟩ := c.hystPolicy.discovered_subset discovered m.discovered
  refine ⟨⟨discovered, r₁, hd.discover, Sound.recentKnown hd.sound₁, fun id hid => ?_, r₃.encountered, r₃, hd.handshake,
    Sound.recentKnown hd.sound₃, reports, r₄, hd.report, ?_, hd.expires⟩, _, _, hd.eq, hd.sound₅, fun id hid => ?_⟩
  · exact (hd.heard.keys id).mpr (Or.inl (hselected id hid))
  · exact Sound.recentKnown (hd.sound₃.finds hd.polled.toFinds)
  · obtain ⟨hid, hnot⟩ := ((c.judge m discovered r₃.encountered).mem_checkExpired m.checkExpired id).2.mp hid
    exact (hd.keys id).mpr ⟨hnot, hd.tracked id hid⟩

theorem Knows.act (h : c.Knows) {action : Action sha256 D} (hremembered : c.Remembered action) :
    c.LooksUp version digest action ∧ ∃ events c', c.act version digest action = some (events, c') ∧ c'.Knows := by
  have hquiet : ∀ {r : EbNRadio P D}, c.radio.Quiet r [] → r.RecentKnown ∧ EbNController.Knows { c with radio := r } := by
    intro r hquiet
    have hsound := h.sound.finds hquiet.toFinds
    exact ⟨Sound.recentKnown hsound, hsound, fun id hid => (hquiet.keys id).mpr (Or.inr (h.tracked id hid))⟩
  cases action with
  | discover m => exact h.discover version digest m hremembered
  | changeEpoch effect =>
      obtain ⟨hrecent, hknows⟩ := hquiet (h.sound.toTidy.changeEpoch effect)
      exact ⟨hrecent, [], _, rfl, hknows⟩
  | setAdvertisedSet advertisedSet =>
      obtain ⟨-, hknows⟩ := hquiet (r := c.radio.setAdvertisedSet advertisedSet)
        (.of_same h.sound.toTidy rfl rfl rfl rfl rfl)
      exact ⟨Sound.recentKnown h.sound, [], _, rfl, hknows⟩
  | setListenSet listenSet =>
      obtain ⟨-, hknows⟩ := hquiet (r := c.radio.setListenSet listenSet) (.of_same h.sound.toTidy rfl rfl rfl rfl rfl)
      exact ⟨Sound.recentKnown h.sound, [], _, rfl, hknows⟩

/-- A recent device from before stays in `recentDevices_`, but it is found under a new id only. -/
theorem Knows.remembered (h : c.Knows) {action : Action sha256 D} (hlooks : c.LooksUp version digest action) :
    c.Remembered action := by
  cases action with
  | discover m =>
      intro hmemory
      obtain ⟨discovered, r, hdiscover, hknown, -⟩ := hlooks
      obtain ⟨discovered', r', hdiscover', hquiet⟩ := EbNRadio.Tidy.discover version digest
        h.sound.toTidy.forget m.responses m.interval
      cases hdiscover.symm.trans hdiscover'
      have hforget : c.radio.forget = { c.radio with deviceMap := ⟨∅, ∅⟩ } := by rw [EbNRadio.forget, if_pos hmemory]
      rw [hforget] at hquiet
      refine List.eq_nil_iff_forall_not_mem.mpr fun entry hentry => ?_
      have hrecent : entry.2 ∈ c.radio.recent.index := AList.lookup_isSome.mp
        (Option.isSome_iff_exists.mpr ⟨entry.1, (h.sound.recent.index entry.2 entry.1).mpr hentry⟩)
      have hin := (recentKnown_iff hquiet.tidy).mp hknown entry.2 ((hquiet.recent entry.2).mpr (Or.inr hrecent))
      rcases (hquiet.keys entry.2).mp hin with hfound | hgone
      · rcases hquiet.new entry.2 hfound with hgone | hle
        · exact absurd hgone (AList.notMem_empty _)
        · exact absurd (h.sound.below ((h.sound.same entry.2).mp hrecent)) (Nat.not_lt.mpr hle)
      · exact absurd hgone (AList.notMem_empty _)
  | changeEpoch effect => trivial
  | setAdvertisedSet advertisedSet => trivial
  | setListenSet listenSet => trivial

/-- The radio is asked about devices it has in just those runs in which it forgets nothing recent. -/
theorem everyAction_iff (h : c.Knows) (actions : List (Action sha256 D)) :
    EveryAction version digest (LooksUp version digest) actions c ↔ EveryAction version digest Remembered actions c := by
  induction actions generalizing c with
  | nil => exact Iff.rfl
  | cons action actions ih =>
      constructor
      · rintro ⟨hlooks, hrest⟩
        have hremembered := h.remembered version digest hlooks
        refine ⟨hremembered, fun events c' hact => ?_⟩
        obtain ⟨-, events', c₁, hact', hknows⟩ := h.act version digest hremembered
        cases hact.symm.trans hact'
        exact (ih hknows).mp (hrest _ _ hact)
      · rintro ⟨hremembered, hrest⟩
        obtain ⟨hlooks, events', c₁, hact', hknows⟩ := h.act version digest hremembered
        refine ⟨hlooks, fun events c' hact => ?_⟩
        cases hact.symm.trans hact'
        exact (ih hknows).mpr (hrest _ _ hact)

end EbNController

end Sddr.Control

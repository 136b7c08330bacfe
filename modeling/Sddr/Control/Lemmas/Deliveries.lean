import Sddr.Control.Deliveries
import Sddr.Control.Lemmas.Lookups
import Sddr.Device.Lemmas.Accounts

/-!
# What was delivered of each device

In every run, what was delivered of a device and what is still to be reported are its confirmed secrets.
-/

namespace Sddr.Control
open Sddr.Lib Sddr.Codec Sddr.Device Sddr.Radio

variable {P D : Type} {events : List (EncounterEvent P)} {id : DeviceID}

/-! ## Events -/

/-- The values of the secrets in the `Started` and `Updated` events of a device. -/
def deliveredTo (events : List (EncounterEvent P)) (id : DeviceID) : List LinkValue :=
  (events.filter fun e => e.id = id ∧ (e.type = .Started ∨ e.type = .Updated)).flatMap fun e => values e.sharedSecrets

theorem deliveredTo_append (events events' : List (EncounterEvent P)) (id : DeviceID) :
    deliveredTo (events ++ events') id = deliveredTo events id ++ deliveredTo events' id := by
  simp [deliveredTo]

theorem deliveredTo_single (event : EncounterEvent P) (id : DeviceID) :
    deliveredTo [event] id
      = if event.id = id ∧ (event.type = .Started ∨ event.type = .Updated) then values event.sharedSecrets else [] := by
  unfold deliveredTo
  split_ifs with hdelivers <;> simp [hdelivers]

/-- Events of other types deliver nothing. -/
theorem deliveredTo_eq_nil (hother : ∀ e ∈ events, e.type = .UnconfirmedStarted ∨ e.type = .Ended) (id : DeviceID) :
    deliveredTo events id = [] := by
  rw [deliveredTo, List.filter_eq_nil_iff.mpr, List.flatMap_nil]
  intro e he
  rcases hother e he with htype | htype <;> simp [htype]

/-- Each event delivers a value once, so events are counted like values. -/
theorem length_deliveries {v : LinkValue} (hnodup : (deliveredTo events id).Nodup) :
    (deliveries events id v).length = (deliveredTo events id).count v := by
  induction events with
  | nil => rfl
  | cons e events ih =>
      rw [← List.singleton_append, deliveredTo_append] at hnodup ⊢
      obtain ⟨hfirst, hrest, -⟩ := List.nodup_append.mp hnodup
      rw [deliveries, List.filter_append, List.length_append, ← deliveries, ← deliveries, ih hrest, List.count_append,
        Nat.add_right_cancel_iff]
      rw [deliveredTo_single] at hfirst ⊢
      by_cases hdelivers : e.id = id ∧ (e.type = .Started ∨ e.type = .Updated)
      · rw [if_pos hdelivers] at hfirst ⊢
        by_cases hv : v ∈ values e.sharedSecrets
        · rw [List.count_eq_one_of_mem hfirst hv, deliveries, List.filter_cons_of_pos]
          · rfl
          · exact decide_eq_true ⟨hdelivers.1, hdelivers.2, hv⟩
        · rw [List.count_eq_zero_of_not_mem hv, deliveries, List.filter_cons_of_neg]
          · rfl
          · exact fun hall => hv (of_decide_eq_true hall).2.2
      · rw [if_neg hdelivers, deliveries, List.filter_cons_of_neg]
        · rfl
        · exact fun hall => hdelivers ⟨(of_decide_eq_true hall).1, (of_decide_eq_true hall).2.1⟩

/-! ## The accounts of a radio -/

variable [FloatOps P] [IsDevice D P] [Addressed D] {r r' : EbNRadio P D}

/-- The accounts of the devices that are in the map or yet to come. -/
def Accounted (r : EbNRadio P D) (events : List (EncounterEvent P)) : Prop :=
  ∀ id, id ∈ r.deviceMap.idToDevice ∨ r.nextDeviceID ≤ id → Accounts (r.baseAt id) (deliveredTo events id)

omit [Addressed D] in
theorem Accounted.new (confirmScheme : ConfirmScheme P) (memoryScheme : MemoryScheme) (now : Time) :
    Accounted (EbNRadio.new confirmScheme memoryScheme now : EbNRadio P D) [] := fun id _ => Accounts.new id [] []

theorem Accounted.quiet {found : List DeviceID} (h : Accounted r events) (hquiet : r.Quiet r' found) :
    Accounted r' events := by
  intro id hid
  refine (h id ?_).ripens (hquiet.ripens id)
  rcases hid with hin | hle
  · rcases (hquiet.keys id).mp hin with hfound | hin
    · exact hquiet.new id hfound
    · exact Or.inl hin
  · exact Or.inr (Nat.le_trans hquiet.next hle)

omit [Addressed D] in
/-- Events that deliver nothing. -/
theorem Accounted.silent {more : List (EncounterEvent P)} (h : Accounted r events)
    (hother : ∀ e ∈ more, e.type = .UnconfirmedStarted ∨ e.type = .Ended) : Accounted r (events ++ more) := by
  intro id hid
  rw [deliveredTo_append, deliveredTo_eq_nil hother, List.append_nil]
  exact h id hid

variable [RadioDevice D]

theorem Accounted.getDeviceEvent (h : Accounted r events) (hsound : r.Sound) {time rssiReportInterval now later : Time}
    {success : Bool} {event : EncounterEvent P}
    (hget : r.getDeviceEvent (EncounterEvent.ofTime time) id rssiReportInterval now later = some (success, event, r')) :
    Accounted r' (events ++ if success then [event] else []) := by
  obtain ⟨success', event', r'', hget', hfinds, hcases⟩ :=
    hsound.getDeviceEvent (EncounterEvent.ofTime time) id rssiReportInterval now later
  rw [hget] at hget'
  cases hget'
  have hbefore : ∀ j, j ∈ r'.deviceMap.idToDevice ∨ r'.nextDeviceID ≤ j →
      Accounts (r.baseAt j) (deliveredTo events j) := fun j hj =>
    h j (hj.imp (fun hin => by simpa using (hfinds.keys j).mp hin) (Nat.le_trans hfinds.next))
  rcases hcases with ⟨rfl, hbase, -⟩ | ⟨rfl, hin, hreport, hevent, hbase⟩
  · intro j hj
    rw [if_neg Bool.false_ne_true, List.append_nil, hbase]
    exact hbefore j hj
  · obtain ⟨heventID, htype, -⟩ := getEncounterInfo_success hreport
    rw [← hevent, hsound.toTidy.baseAt_id hin] at heventID
    rw [← hevent] at htype
    have hdelivers : event.type = .Started ∨ event.type = .Updated := by
      rw [htype]
      split
      · exact Or.inr rfl
      · exact Or.inl rfl
    intro j hj
    rw [if_pos rfl, deliveredTo_append, deliveredTo_single, heventID, hbase, Function.update_apply]
    by_cases heq : j = id
    · subst heq
      rw [if_pos rfl, if_pos ⟨rfl, hdelivers⟩, hevent]
      exact (hbefore j hj).report hreport
    · rw [if_neg heq, if_neg fun hboth => heq hboth.1.symm, List.append_nil]
      exact hbefore j hj

namespace EbNController

theorem accounted_reportAll (rssiReportInterval : Time) (clock : Nat → Time × Time × Time)
    (discovered : List DiscoverEvent) {reports : List (EncounterEvent P)} (h : Accounted r events) (hsound : r.Sound)
    (hreport : reportAll rssiReportInterval clock discovered r = some (reports, r')) : Accounted r' (events ++ reports) := by
  induction discovered generalizing r events reports with
  | nil =>
      cases hreport
      rw [List.append_nil]
      exact h
  | cons discovery discovered ih =>
      rw [reportAll] at hreport
      dsimp only at hreport
      obtain ⟨⟨success, event, r₁⟩, hget, hmap⟩ := Option.bind_eq_some_iff.mp hreport
      obtain ⟨⟨rest, r₂⟩, hrest, heq⟩ := Option.map_eq_some_iff.mp hmap
      cases heq
      have hnext := ih (h.getDeviceEvent hsound hget) (hsound.finds (hsound.polled hget).toFinds) hrest
      rw [List.append_assoc] at hnext
      cases success with
      | false => exact hnext
      | true => exact hnext

theorem accounted_expireAll (clock : Nat → Time × Time × Time) (expired : List (DeviceID × Time))
    {ended : List (EncounterEvent P)} (h : Accounted r events) (hsound : r.Sound) (hnodup : (expired.map Prod.fst).Nodup)
    (hids : ∀ id ∈ expired.map Prod.fst, id ∈ r.deviceMap.idToDevice)
    (hexpire : expireAll clock expired r = some (ended, r')) :
    Accounted r' events ∧ r'.memoryScheme = r.memoryScheme ∧ ∀ e ∈ ended, e.type = .Ended := by
  induction expired generalizing r ended with
  | nil =>
      cases hexpire
      exact ⟨h, rfl, fun e he => by cases he⟩
  | cons entry expired ih =>
      obtain ⟨id, lastTime⟩ := entry
      obtain ⟨hnot, hrest⟩ := List.nodup_cons.mp hnodup
      obtain ⟨r₁, hdone, hsound₁, hkeys, hnext, hmemory, hbase⟩ := hsound.doneWithDevice (hids id List.mem_cons_self)
        (clock expired.length).1 (clock expired.length).2.1 (clock expired.length).2.2
      rw [expireAll] at hexpire
      dsimp only at hexpire
      rw [hdone, Option.bind_some] at hexpire
      obtain ⟨⟨rest, r₂⟩, hlater, heq⟩ := Option.map_eq_some_iff.mp hexpire
      cases heq
      have haccounted : Accounted r₁ events := by
        intro j hj
        have hne : j ≠ id := by
          rintro rfl
          rcases hj with hin | hle
          · exact ((hkeys j).mp hin).1 rfl
          · rw [hnext] at hle
            exact absurd (hsound.below (hids j List.mem_cons_self)) (Nat.not_lt.mpr hle)
        rw [hbase j hne]
        rw [hnext] at hj
        exact h j (hj.imp_left fun hin => ((hkeys j).mp hin).2)
      obtain ⟨hlast, hmemory', hended⟩ := ih haccounted hsound₁ hrest
        (fun j hj => (hkeys j).mpr ⟨fun heq => hnot (heq ▸ hj), hids j (List.mem_cons_of_mem _ hj)⟩) hlater
      refine ⟨hlast, hmemory'.trans hmemory, fun e he => ?_⟩
      rcases List.mem_cons.mp he with rfl | he
      · rfl
      · exact hended e he

/-! ## The accounts of a controller -/

variable {sha256 : List Byte → Digest} {version : Version} {digest : List Byte → Nat} {c : EbNController P D}
  {m : Meeting sha256 D} {discovered : List DiscoverEvent} {r₁ r₂ r₃ r₄ r₅ : EbNRadio P D}
  {reports ended : List (EncounterEvent P)}

/-- The invariant of a controller with a memory. -/
structure Audited (c : EbNController P D) (events : List (EncounterEvent P)) : Prop extends Knows c where
  memory : c.radio.memoryScheme = .Standard
  scheme : c.hystPolicy.scheme = .Standard
  accounted : Accounted c.radio events

omit [RadioDevice D] in
theorem Audited.new (confirmScheme : ConfirmScheme P) (now minStartTime maxStartTime : Time) (startSeen : Nat)
    (endTime : Time) (rssiThreshold : BitVec 8) (rssiReportInterval : Time) :
    Audited (⟨EbNRadio.new confirmScheme .Standard now,
      EbNHystPolicy.new .Standard minStartTime maxStartTime startSeen endTime rssiThreshold, rssiReportInterval⟩ :
      EbNController P D) [] :=
  ⟨.new confirmScheme .Standard now .Standard minStartTime maxStartTime startSeen endTime rssiThreshold rssiReportInterval,
    rfl, rfl, .new confirmScheme .Standard now⟩

omit [RadioDevice D] in
theorem Audited.quiet (h : c.Audited events) {r : EbNRadio P D} (hquiet : c.radio.Quiet r []) :
    Audited { c with radio := r } events :=
  ⟨⟨h.sound.finds hquiet.toFinds, fun id hid => (hquiet.keys id).mpr (Or.inr (h.tracked id hid))⟩,
    hquiet.memoryScheme.trans h.memory, h.scheme, h.accounted.quiet hquiet⟩

variable (version digest) in
theorem Audited.discovers (h : c.Audited events) (m : Meeting sha256 D) :
    ∃ discovered r₁ r₂ r₃ r₄ r₅ reports ended,
      Discovers version digest c m discovered r₁ r₂ r₃ r₄ r₅ reports ended := by
  refine EbNController.discovers version digest ?_ ?_ m
  · rw [EbNRadio.forget_standard h.memory]
    exact h.sound
  · rw [EbNRadio.forget_standard h.memory]
    exact h.tracked

theorem Audited.heard (h : c.Audited events) (hd : Discovers version digest c m discovered r₁ r₂ r₃ r₄ r₅ reports ended) :
    c.radio.Confined r₁ (discovered.map DiscoverEvent.id) := by
  rw [← EbNRadio.forget_standard h.memory]
  exact hd.heard

/-- The accounts when the radio has told of all discovered devices. -/
theorem Audited.reported (h : c.Audited events)
    (hd : Discovers version digest c m discovered r₁ r₂ r₃ r₄ r₅ reports ended) :
    Accounted r₄ (events ++ (c.hystPolicy.discovered discovered [] m.discovered).newlyDiscovered.map
      (fun nd => EncounterEvent.new .UnconfirmedStarted nd.2 nd.1) ++ reports) := by
  refine accounted_reportAll c.rssiReportInterval m.report discovered (Accounted.silent ?_ ?_) hd.sound₃ hd.report
  · exact ((h.accounted.quiet (h.heard hd).toQuiet).quiet hd.drained.toQuiet).quiet hd.shaken.toQuiet
  · intro e he
    obtain ⟨nd, -, rfl⟩ := List.mem_map.mp he
    exact Or.inl rfl

theorem Audited.discover (h : c.Audited events)
    (hd : Discovers version digest c m discovered r₁ r₂ r₃ r₄ r₅ reports ended) :
    Audited { c with
      radio := r₅
      hystPolicy := ((c.judge m discovered r₃.encountered).checkExpired m.checkExpired).2 }
      (events ++ ((c.hystPolicy.discovered discovered [] m.discovered).newlyDiscovered.map
        (fun nd => EncounterEvent.new .UnconfirmedStarted nd.2 nd.1) ++ reports ++ ended)) := by
  let p := c.judge m discovered r₃.encountered
  have hsame : ∀ id, id ∈ r₄.deviceMap.idToDevice ↔ id ∈ r₃.deviceMap.idToDevice := fun id => by simp [hd.polled.keys]
  obtain ⟨haccounted, hmemory, hended⟩ := accounted_expireAll m.done (p.checkExpired m.checkExpired).1 (h.reported hd)
    (hd.sound₃.finds hd.polled.toFinds) (nodup_checkExpired p m.checkExpired)
    (fun id hid => (hsame id).mpr (hd.tracked id ((p.mem_checkExpired m.checkExpired id).1 hid))) hd.expire
  refine ⟨⟨hd.sound₅, fun id hid => ?_⟩, ?_, ?_, ?_⟩
  · obtain ⟨hid, hnot⟩ := (p.mem_checkExpired m.checkExpired id).2.mp hid
    exact (hd.keys id).mpr ⟨hnot, hd.tracked id hid⟩
  · exact hmemory.trans (hd.polled.memoryScheme.trans (hd.shaken.memoryScheme.trans (hd.drained.memoryScheme.trans
      ((h.heard hd).memoryScheme.trans h.memory))))
  · have hkept := (foldl_encounter m.encountered (r₃.encountered.sort (· ≤ ·)) (r₃.encountered.sort_nodup (· ≤ ·))
      (c.hystPolicy.discovered discovered [] m.discovered).policy).1
    exact hkept.trans ((c.hystPolicy.discovered_subset discovered m.discovered).1.trans h.scheme)
  · have hlast := haccounted.silent fun e he => Or.inr (hended e he)
    rwa [List.append_assoc, List.append_assoc, ← List.append_assoc _ reports] at hlast

/-! ## What a discovery delivers -/

theorem Discovers.unheard (hd : Discovers version digest c m discovered r₁ r₂ r₃ r₄ r₅ reports ended)
    (hid : id ∉ discovered.map DiscoverEvent.id) : r₃.baseAt id = r₂.baseAt id ∧ r₄.baseAt id = r₂.baseAt id := by
  have hsame : r₃.baseAt id = r₂.baseAt id := hd.shaken.others id fun hin =>
    hid ((c.hystPolicy.discovered_subset discovered m.discovered).2.1 id ((Finset.mem_sort _).mp hin))
  exact ⟨hsame, (hd.polled.others id hid).trans hsame⟩

/-- What is lost is left to be reported of a device that expires without being discovered. -/
theorem Audited.delivers_iff (h : c.Audited events)
    (hd : Discovers version digest c m discovered r₁ r₂ r₃ r₄ r₅ reports ended) :
    c.Delivers version digest events m ↔
      ∀ id ∈ ((c.judge m discovered r₃.encountered).checkExpired m.checkExpired).1.map Prod.fst,
        id ∉ discovered.map DiscoverEvent.id → (r₂.baseAt id).shakenHands = true →
          (r₂.baseAt id).secretsToReport = [] := by
  let p := c.judge m discovered r₃.encountered
  have hthere : ∀ id ∈ (p.checkExpired m.checkExpired).1.map Prod.fst, id ∈ r₃.deviceMap.idToDevice := fun id hid =>
    hd.tracked id ((p.mem_checkExpired m.checkExpired id).1 hid)
  have haccounts : ∀ id ∈ (p.checkExpired m.checkExpired).1.map Prod.fst, Accounts (r₄.baseAt id) (deliveredTo _ id) :=
    fun id hid => h.reported hd id (Or.inl ((hd.polled.keys id).mpr (Or.inr (hthere id hid))))
  have hlost : c.Delivers version digest events m ↔ ∀ id ∈ (p.checkExpired m.checkExpired).1.map Prod.fst,
      (r₄.baseAt id).shakenHands = true → (r₄.baseAt id).secretsToReport = [] := by
    constructor
    · rintro ⟨_, _, _, _, _, _, hdiscover, hhandshake, hreport, hdelivers⟩ id hid hshaken
      cases hd.discover.symm.trans hdiscover
      cases hd.handshake.symm.trans hhandshake
      cases hd.report.symm.trans hreport
      obtain ⟨entry, hentry, rfl⟩ := List.mem_map.mp hid
      refine (haccounts _ hid).delivered_iff.mp fun v hv => ?_
      rw [← length_deliveries (haccounts _ hid).nodup_delivered]
      exact hdelivers entry hentry hshaken v hv
    · intro hnone
      refine ⟨_, _, _, _, _, _, hd.discover, hd.handshake, hd.report, fun entry hentry hshaken v hv => ?_⟩
      have hid := List.mem_map_of_mem (f := Prod.fst) hentry
      rw [length_deliveries (haccounts _ hid).nodup_delivered]
      exact (haccounts _ hid).delivered_iff.mpr (hnone _ hid hshaken) v hv
  rw [hlost]
  refine forall₂_congr fun id hid => ?_
  by_cases hheard : id ∈ discovered.map DiscoverEvent.id
  · refine iff_of_true (fun hshaken => ?_) fun hnot => absurd hheard hnot
    -- it was asked for after its handshake, so a confirmed secret would have been reported
    by_contra hpending
    obtain ⟨hshaken₄, hconfirmed₄, -⟩ := hd.polled.keeps id
    exact hpending (hd.polled.told id (Or.inr ⟨hheard, hthere id hid, hshaken₄.symm.trans hshaken,
      hconfirmed₄.symm.trans ((haccounts id hid).confirmed_of_pending hpending)⟩))
  · rw [(hd.unheard hheard).2]
    exact ⟨fun hlost _ => hlost, fun hlost => hlost hheard⟩

/-- A device with a confirmed secret and a handshake expires when it is silent for longer than `endTime`. -/
theorem Discovers.expired_iff (hd : Discovers version digest c m discovered r₁ r₂ r₃ r₄ r₅ reports ended)
    (hheard : id ∉ discovered.map DiscoverEvent.id) (hin : id ∈ r₂.deviceMap.idToDevice)
    (hshaken : (r₂.baseAt id).shakenHands = true)
    (hconfirmed : (r₂.baseAt id).confirmed = true) :
    id ∈ ((c.judge m discovered r₃.encountered).checkExpired m.checkExpired).1.map Prod.fst ↔
      c.hystPolicy.endTime < m.checkExpired - c.hystPolicy.lastTime m.encountered id := by
  obtain ⟨hlimits, hlookup⟩ := c.hystPolicy.discovered_others discovered m.discovered
  obtain ⟨-, hlimits', hlookup'⟩ := foldl_encounter m.encountered (r₃.encountered.sort (· ≤ ·))
    (r₃.encountered.sort_nodup (· ≤ ·)) (c.hystPolicy.discovered discovered [] m.discovered).policy
  have hencountered : id ∈ r₃.encountered := by
    rw [hd.shaken.tidy.mem_encountered, (hd.unheard hheard).1]
    exact ⟨(hd.shaken.keys id).mpr (Or.inr hin), hshaken, hconfirmed⟩
  have hend : (c.judge m discovered r₃.encountered).endTime = c.hystPolicy.endTime :=
    BitVec.eq_of_toNat_eq (congrArg Limits.endTime (hlimits'.trans hlimits))
  have hinfo : (c.judge m discovered r₃.encountered).deviceInfo.lookup id
      = some (EbNHystPolicy.encounterInfo m.encountered (c.hystPolicy.deviceInfo.lookup id)) := by
    rw [← hlookup id hheard]
    exact (hlookup' id).trans (if_pos ((Finset.mem_sort _).mpr hencountered))
  have hlast : (EbNHystPolicy.encounterInfo m.encountered (c.hystPolicy.deviceInfo.lookup id)).lastTime
      = c.hystPolicy.lastTime m.encountered id := by
    unfold EbNHystPolicy.lastTime
    cases c.hystPolicy.deviceInfo.lookup id <;> rfl
  have hstate : (EbNHystPolicy.encounterInfo m.encountered (c.hystPolicy.deviceInfo.lookup id)).state = .Encountered := by
    cases c.hystPolicy.deviceInfo.lookup id <;> rfl
  rw [mem_expired, hinfo]
  simp only [Option.some.injEq, exists_eq_left', EbNHystPolicy.isExpired, hstate, hlast, hend, decide_eq_true_eq, gt_iff_lt]

/-- The policy stops tracking what expires and the map loses it, so it is what stays that counts. -/
theorem Discovers.tracks_iff (hd : Discovers version digest c m discovered r₁ r₂ r₃ r₄ r₅ reports ended) :
    Tracks { c with
        radio := r₅
        hystPolicy := ((c.judge m discovered r₃.encountered).checkExpired m.checkExpired).2 } ↔
      ∀ id, id ∈ r₃.deviceMap.idToDevice → id ∈ (c.judge m discovered r₃.encountered).deviceInfo := by
  let p := c.judge m discovered r₃.encountered
  constructor
  · intro hall id hid
    by_cases hexpired : id ∈ (p.checkExpired m.checkExpired).1.map Prod.fst
    · exact (p.mem_checkExpired m.checkExpired id).1 hexpired
    · exact ((p.mem_checkExpired m.checkExpired id).2.mp ((hall id).mp ((hd.keys id).mpr ⟨hexpired, hid⟩))).1
  · intro hall id
    rw [(p.mem_checkExpired m.checkExpired id).2]
    refine (hd.keys id).trans ⟨?_, ?_⟩
    · rintro ⟨hkept, hin⟩
      exact ⟨hall id hin, hkept⟩
    · rintro ⟨hin, hkept⟩
      exact ⟨hkept, hd.tracked id hin⟩

omit [RadioDevice D] in
theorem Audited.mem_judge (h : c.Audited events) :
    id ∈ (c.judge m discovered r₃.encountered).deviceInfo ↔
      id ∈ r₃.encountered ∨ id ∈ c.hystPolicy.deviceInfo ∨ id ∈ discovered.map DiscoverEvent.id := by
  rw [← (EbNHystPolicy.discovered_standard h.scheme discovered m.discovered).1]
  exact EbNHystPolicy.mem_encountered _ r₃.encountered m.encountered id

section
variable {queue : List (Incoming sha256 D)}

/-- The devices in the map when the policy judges them. -/
theorem Audited.mem_map (h : c.Audited events) (htracks : c.Tracks)
    (hd : Discovers version digest c m discovered r₁ r₂ r₃ r₄ r₅ reports ended)
    (hqueue : queue = if version = .Bluetooth4 then m.incoming else []) :
    id ∈ r₃.deviceMap.idToDevice ↔ id ∈ ((r₁.recipients digest queue).zip queue).map Prod.fst ∨
      id ∈ discovered.map DiscoverEvent.id ∨ id ∈ c.hystPolicy.deviceInfo := by
  subst hqueue
  rw [hd.shaken.keys, hd.drained.keys, (h.heard hd).keys, htracks id]
  exact or_iff_right List.not_mem_nil

/-- A message shakes the hand of its device, which is then an encounter with a confirmed secret. -/
theorem Audited.encountered_iff (h : c.Audited events) (htracks : c.Tracks)
    (hd : Discovers version digest c m discovered r₁ r₂ r₃ r₄ r₅ reports ended)
    (hqueue : queue = if version = .Bluetooth4 then m.incoming else [])
    (hid : id ∈ ((r₁.recipients digest queue).zip queue).map Prod.fst) (hheard : id ∉ discovered.map DiscoverEvent.id) :
    id ∈ r₃.encountered ↔ (r₂.baseAt id).confirmed = true := by
  have hin := (h.mem_map htracks hd hqueue).mpr (Or.inl hid)
  subst hqueue
  rw [hd.shaken.tidy.mem_encountered, (hd.unheard hheard).1]
  simp [hin, hd.drained.shaken id (Or.inr hid)]

end

/-- The map keeps what the policy tracks, but for devices with messages of which none confirms a secret. -/
theorem Audited.tracks_iff (h : c.Audited events) (htracks : c.Tracks)
    (hd : Discovers version digest c m discovered r₁ r₂ r₃ r₄ r₅ reports ended) :
    let queue := if version = .Bluetooth4 then m.incoming else []
    Tracks { c with
        radio := r₅
        hystPolicy := ((c.judge m discovered r₃.encountered).checkExpired m.checkExpired).2 } ↔
      ∀ id ∈ ((r₁.recipients digest queue).zip queue).map Prod.fst,
        id ∈ c.hystPolicy.deviceInfo ∨ id ∈ discovered.map DiscoverEvent.id ∨ (r₂.baseAt id).confirmed = true := by
  intro queue
  rw [hd.tracks_iff]
  constructor
  · intro hall id hid
    by_cases hheard : id ∈ discovered.map DiscoverEvent.id
    · exact Or.inr (Or.inl hheard)
    · rcases h.mem_judge.mp (hall id ((h.mem_map htracks hd rfl).mpr (Or.inl hid))) with hin | hin | hin
      · exact Or.inr (Or.inr ((h.encountered_iff htracks hd rfl hid hheard).mp hin))
      · exact Or.inl hin
      · exact absurd hin hheard
  · intro hall id hid
    rw [h.mem_judge]
    by_cases hheard : id ∈ discovered.map DiscoverEvent.id
    · exact Or.inr (Or.inr hheard)
    · rcases (h.mem_map htracks hd rfl).mp hid with hin | hin | hin
      · rcases hall id hin with hold | hnew | hconfirmed
        · exact Or.inr (Or.inl hold)
        · exact absurd hnew hheard
        · exact Or.inl ((h.encountered_iff htracks hd rfl hin hheard).mpr hconfirmed)
      · exact absurd hin hheard
      · exact Or.inr (Or.inl hin)

end EbNController

end Sddr.Control

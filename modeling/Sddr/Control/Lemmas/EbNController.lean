import Mathlib.Data.Set.Basic
import Sddr.Control.Encounters
import Sddr.Control.Lemmas.History
import Sddr.Radio.Lemmas.Actions

/-!
# What the policy and the radio know

The policy keeps ids of devices in the map only, and every event of a device moves it on in the order of events.
-/

namespace Sddr.Control
open Sddr.Lib Sddr.Codec Sddr.Device Sddr.Radio

/-! ## The ids of the policy -/

namespace EbNHystPolicy

theorem discover_subset (time : Time) (s : Discovery) (e : DiscoverEvent) :
    (discover time s e).policy.scheme = s.policy.scheme ∧
      (∀ id ∈ (discover time s e).toHandshake, id ∈ s.toHandshake ∨ id = e.id) ∧
      ∀ id, id ∈ (discover time s e).policy.deviceInfo → id ∈ s.policy.deviceInfo ∨ id = e.id := by
  unfold discover
  dsimp only
  split
  · refine ⟨rfl, fun id hid => ?_, fun id hid => (AList.mem_insert _).mp hid |>.symm⟩
    dsimp only at hid
    split at hid
    · exact (Finset.mem_insert.mp hid).symm
    · exact Or.inl hid
  · exact ⟨rfl, fun id hid => (Finset.mem_insert.mp hid).symm, fun id hid => Or.inl hid⟩

/-- Only discovered ids are to shake hands or are tracked anew. -/
theorem discovered_subset (p : EbNHystPolicy) (events : List DiscoverEvent) (time : Time) :
    let found := p.discovered events [] time
    found.policy.scheme = p.scheme ∧ (∀ id ∈ found.toHandshake, id ∈ events.map DiscoverEvent.id) ∧
      ∀ id, id ∈ found.policy.deviceInfo → id ∈ p.deviceInfo ∨ id ∈ events.map DiscoverEvent.id := by
  unfold discovered
  induction events using List.reverseRecOn with
  | nil => exact ⟨rfl, fun id hid => absurd hid (Finset.notMem_empty id), fun id hid => Or.inl hid⟩
  | append_singleton events e ih =>
      obtain ⟨hscheme, hhandshake, hinfo⟩ := ih
      rw [List.foldl_append, List.foldl_cons, List.foldl_nil]
      obtain ⟨hscheme', hhandshake', hinfo'⟩ := discover_subset time (events.foldl (discover time) ⟨p, ∅, []⟩) e
      refine ⟨hscheme'.trans hscheme, fun id hid => ?_, fun id hid => ?_⟩
      · rw [List.map_append, List.mem_append]
        rcases hhandshake' id hid with hid | rfl
        · exact Or.inl (hhandshake id hid)
        · exact Or.inr List.mem_cons_self
      · rw [List.map_append, List.mem_append]
        rcases hinfo' id hid with hid | rfl
        · exact (hinfo id hid).imp_right Or.inl
        · exact Or.inr (Or.inr List.mem_cons_self)

/-- With a memory, all discovered ids are tracked, and those that were not are new, once each. -/
theorem discovered_standard {p : EbNHystPolicy} (hscheme : p.scheme = .Standard) (events : List DiscoverEvent)
    (time : Time) :
    let found := p.discovered events [] time
    (∀ id, id ∈ found.policy.deviceInfo ↔ id ∈ p.deviceInfo ∨ id ∈ events.map DiscoverEvent.id) ∧
      (found.newlyDiscovered.map Prod.fst).Nodup ∧
      ∀ id, id ∈ found.newlyDiscovered.map Prod.fst ↔ id ∈ events.map DiscoverEvent.id ∧ id ∉ p.deviceInfo := by
  unfold discovered
  induction events using List.reverseRecOn with
  | nil => simp
  | append_singleton events e ih =>
      set s := events.foldl (discover time) ⟨p, ∅, []⟩ with hs
      have hkept : s.policy.scheme = .Standard := (p.discovered_subset events time).1.trans hscheme
      obtain ⟨hinfo, hnodup, hnew⟩ := ih
      rw [List.foldl_append, List.foldl_cons, List.foldl_nil, ← hs, discover_memory hkept]
      have hids : ∀ id, id ∈ (events ++ [e]).map DiscoverEvent.id ↔ id ∈ events.map DiscoverEvent.id ∨ id = e.id := by
        simp
      have hseen : (s.policy.deviceInfo.lookup e.id).isSome ↔ e.id ∈ p.deviceInfo ∨ e.id ∈ events.map DiscoverEvent.id :=
        AList.lookup_isSome.trans (hinfo e.id)
      dsimp only
      refine ⟨fun id => ?_, ?_⟩
      · rw [AList.mem_insert, hinfo, hids, or_comm, or_assoc]
      · split
        · next hthere =>
            refine ⟨hnodup, fun id => ?_⟩
            rw [hnew, hids]
            refine ⟨fun h => ⟨Or.inl h.1, h.2⟩, ?_⟩
            rintro ⟨hid | rfl, hnot⟩
            · exact ⟨hid, hnot⟩
            · exact ⟨(hseen.mp hthere).resolve_left hnot, hnot⟩
        · next hmissing =>
            have hnot := not_or.mp fun hor => hmissing (hseen.mpr hor)
            rw [List.map_append]
            refine ⟨?_, fun id => ?_⟩
            · exact List.nodup_append.mpr ⟨hnodup, List.nodup_singleton _, fun id hid id' hid' => by
                rw [List.mem_singleton.mp hid']
                rintro rfl
                exact hnot.2 ((hnew _).mp hid).1⟩
            · rw [List.mem_append, hnew, hids]
              constructor
              · rintro (⟨hid, hfree⟩ | hid)
                · exact ⟨Or.inl hid, hfree⟩
                · rw [List.mem_singleton.mp hid]
                  exact ⟨Or.inr rfl, hnot.1⟩
              · rintro ⟨hid | rfl, hfree⟩
                · exact Or.inl ⟨hid, hfree⟩
                · exact Or.inr List.mem_cons_self

/-- Other ids than the discovered ones are left alone, and so are the limits. -/
theorem discovered_others (p : EbNHystPolicy) (events : List DiscoverEvent) (time : Time) :
    let found := p.discovered events [] time
    found.policy.limits = p.limits ∧ ∀ id, id ∉ events.map DiscoverEvent.id →
      found.policy.deviceInfo.lookup id = p.deviceInfo.lookup id := by
  unfold discovered
  induction events using List.reverseRecOn with
  | nil => exact ⟨rfl, fun _ _ => rfl⟩
  | append_singleton events e ih =>
      obtain ⟨hlimits, hlookup⟩ := ih
      rw [List.foldl_append, List.foldl_cons, List.foldl_nil]
      generalize events.foldl (discover time) ⟨p, ∅, []⟩ = s at hlimits hlookup
      have hstep : (discover time s e).policy.limits = s.policy.limits ∧ ∀ id, id ≠ e.id →
          (discover time s e).policy.deviceInfo.lookup id = s.policy.deviceInfo.lookup id := by
        unfold discover
        dsimp only
        split
        · exact ⟨rfl, fun id hid => AList.lookup_insert_ne hid⟩
        · exact ⟨rfl, fun _ _ => rfl⟩
      refine ⟨hstep.1.trans hlimits, fun id hid => ?_⟩
      rw [List.map_append, List.mem_append, not_or] at hid
      rw [hstep.2 id fun heq => hid.2 (List.mem_singleton.mpr heq), hlookup id hid.1]

theorem mem_encountered (p : EbNHystPolicy) (devices : Finset DeviceID) (time : Time) (id : DeviceID) :
    id ∈ (p.encountered devices time).deviceInfo ↔ id ∈ devices ∨ id ∈ p.deviceInfo := by
  obtain ⟨-, -, hlookup⟩ := foldl_encounter time (devices.sort (· ≤ ·)) (devices.sort_nodup (· ≤ ·)) p
  rw [encountered, ← AList.lookup_isSome, hlookup, ← AList.lookup_isSome]
  simp only [Finset.mem_sort]
  by_cases hid : id ∈ devices
  · simp [hid]
  · simp [hid]

theorem mem_checkExpired (p : EbNHystPolicy) (time : Time) (id : DeviceID) :
    (id ∈ (p.checkExpired time).1.map Prod.fst → id ∈ p.deviceInfo) ∧
      (id ∈ (p.checkExpired time).2.deviceInfo ↔ id ∈ p.deviceInfo ∧ id ∉ (p.checkExpired time).1.map Prod.fst) := by
  constructor
  · intro hid
    obtain ⟨info, hinfo, -⟩ := (mem_expired p time id).mp hid
    exact AList.lookup_isSome.mp (Option.isSome_iff_exists.mpr ⟨info, hinfo⟩)
  · rw [← AList.lookup_isSome, lookup_checkExpired, ← AList.lookup_isSome]
    split
    · next hid => simp [hid]
    · next hid => simp [hid]

end EbNHystPolicy

/-! ## The order of events -/

variable {P D : Type} {types : List EventType} {reported : Bool} {id : DeviceID}

/-- The events so far of a device that has not ended. -/
def Begun (reported : Bool) (types : List EventType) : Prop :=
  ∃ (unconfirmed : Bool) (updates : Nat),
    types = (if unconfirmed then [.UnconfirmedStarted] else [])
      ++ (if reported then .Started :: List.replicate updates .Updated else [])

theorem Begun.ended (h : Begun reported types) : InOrder (types ++ [.Ended]) := by
  obtain ⟨unconfirmed, updates, rfl⟩ := h
  exact ⟨unconfirmed, reported, updates, List.prefix_rfl⟩

theorem InOrder.of_append {more : List EventType} (h : InOrder (types ++ more)) : InOrder types := by
  obtain ⟨unconfirmed, started, updates, hprefix⟩ := h
  exact ⟨unconfirmed, started, updates, (List.prefix_append types more).trans hprefix⟩

theorem Begun.inOrder (h : Begun reported types) : InOrder types := h.ended.of_append

theorem Begun.report (h : Begun reported types) :
    Begun true (types ++ [if reported then .Updated else .Started]) := by
  obtain ⟨unconfirmed, updates, rfl⟩ := h
  cases reported with
  | false => exact ⟨unconfirmed, 0, by simp⟩
  | true =>
      refine ⟨unconfirmed, updates + 1, ?_⟩
      simp [List.replicate_succ', List.append_assoc]

theorem typesOf_append (events events' : List (EncounterEvent P)) (id : DeviceID) :
    typesOf (events ++ events') id = typesOf events id ++ typesOf events' id := by
  rw [typesOf, List.filter_append, List.map_append]
  rfl

theorem typesOf_single (event : EncounterEvent P) (id : DeviceID) :
    typesOf [event] id = if event.id = id then [event.type] else [] := by
  by_cases hid : event.id = id
  · simp [typesOf, hid]
  · simp [typesOf, hid]

theorem typesOf_concat (events : List (EncounterEvent P)) (event : EncounterEvent P) (id : DeviceID) :
    typesOf (events ++ [event]) id = if event.id = id then typesOf events id ++ [event.type] else typesOf events id := by
  rw [typesOf_append, typesOf_single]
  split
  · rfl
  · exact List.append_nil _

/-- The events for new devices. -/
theorem typesOf_started {newlyDiscovered : List (DeviceID × Time)} (hnodup : (newlyDiscovered.map Prod.fst).Nodup)
    (id : DeviceID) :
    typesOf (newlyDiscovered.map fun nd => EncounterEvent.new (P := P) .UnconfirmedStarted nd.2 nd.1) id
      = if id ∈ newlyDiscovered.map Prod.fst then [.UnconfirmedStarted] else [] := by
  induction newlyDiscovered with
  | nil => rfl
  | cons nd rest ih =>
      obtain ⟨hnot, hrest⟩ := List.nodup_cons.mp hnodup
      rw [List.map_cons, ← List.singleton_append, typesOf_append, typesOf_single, ih hrest]
      dsimp only [EncounterEvent.new]
      by_cases hid : nd.1 = id
      · subst hid
        simp [hnot]
      · simp [hid, Ne.symm hid]

/-! ## What was told of the devices -/

variable [FloatOps P] [IsDevice D P] [Addressed D] {r r' : EbNRadio P D} {tracked : Set DeviceID}
  {events : List (EncounterEvent P)} {found : List DeviceID}

/-- The tracked devices are in the map and have begun, and nothing was told of others that are there or yet to come. -/
structure Told (r : EbNRadio P D) (tracked : Set DeviceID) (events : List (EncounterEvent P)) : Prop where
  memory : r.memoryScheme = .Standard
  sound : r.Sound
  known : ∀ id ∈ tracked, id ∈ r.deviceMap.idToDevice
  begun : ∀ id ∈ tracked, Begun (r.baseAt id).reported (typesOf events id)
  silent : ∀ id, id ∉ tracked → id ∈ r.deviceMap.idToDevice ∨ r.nextDeviceID ≤ id →
    typesOf events id = [] ∧ (r.baseAt id).reported = false
  order : ∀ id, InOrder (typesOf events id)

theorem Told.finds (h : Told r tracked events) (hfinds : r.Finds r' found)
    (hreported : ∀ id, (r'.baseAt id).reported = (r.baseAt id).reported) : Told r' tracked events where
  memory := hfinds.memoryScheme.trans h.memory
  sound := h.sound.finds hfinds
  known id hid := (hfinds.keys id).mpr (Or.inr (h.known id hid))
  begun id hid := by
    rw [hreported]
    exact h.begun id hid
  silent id hid hor := by
    rw [hreported]
    refine h.silent id hid ?_
    rcases hor with hin | hle
    · rcases (hfinds.keys id).mp hin with hfound | hin
      · exact hfinds.new id hfound
      · exact Or.inl hin
    · exact Or.inr (Nat.le_trans hfinds.next hle)
  order := h.order

theorem Told.quiet (h : Told r tracked events) (hquiet : r.Quiet r' found) : Told r' tracked events := by
  refine h.finds hquiet.toFinds fun id => ?_
  obtain ⟨new, hconfirms⟩ := hquiet.ripens id
  exact hconfirms.reported

/-- Devices of the map are tracked from now on. -/
theorem Told.track (h : Told r tracked events) (tracked' : Set DeviceID) (hsubset : tracked ⊆ tracked')
    (hknown : ∀ id ∈ tracked', id ∈ r.deviceMap.idToDevice) : Told r tracked' events where
  memory := h.memory
  sound := h.sound
  known := hknown
  begun id hid := by
    by_cases hthere : id ∈ tracked
    · exact h.begun id hthere
    · obtain ⟨htypes, hreported⟩ := h.silent id hthere (Or.inl (hknown id hid))
      rw [htypes, hreported]
      exact ⟨false, 0, rfl⟩
  silent id hid := h.silent id fun hthere => hid (hsubset hthere)
  order := h.order

/-- New devices are tracked, and told of. -/
theorem Told.started (h : Told r tracked events) (tracked' : Set DeviceID) {newlyDiscovered : List (DeviceID × Time)}
    (hnodup : (newlyDiscovered.map Prod.fst).Nodup)
    (hnew : ∀ id ∈ newlyDiscovered.map Prod.fst, id ∉ tracked ∧ id ∈ r.deviceMap.idToDevice)
    (htracked : ∀ id, id ∈ tracked' ↔ id ∈ tracked ∨ id ∈ newlyDiscovered.map Prod.fst) :
    Told r tracked' (events ++ newlyDiscovered.map fun nd => EncounterEvent.new .UnconfirmedStarted nd.2 nd.1) := by
  have hbegun : ∀ id ∈ tracked', Begun (r.baseAt id).reported
      (typesOf (events ++ newlyDiscovered.map fun nd => EncounterEvent.new .UnconfirmedStarted nd.2 nd.1) id) := by
    intro id hid
    rw [typesOf_append, typesOf_started hnodup]
    split
    · next hin =>
        obtain ⟨hnot, hmap⟩ := hnew id hin
        obtain ⟨htypes, hreported⟩ := h.silent id hnot (Or.inl hmap)
        rw [htypes, hreported]
        exact ⟨true, 0, rfl⟩
    · next hnot =>
        rw [List.append_nil]
        exact h.begun id (((htracked id).mp hid).resolve_right hnot)
  have hsame : ∀ id, id ∉ tracked' →
      typesOf (events ++ newlyDiscovered.map fun nd => EncounterEvent.new .UnconfirmedStarted nd.2 nd.1) id
        = typesOf events id := by
    intro id hid
    rw [typesOf_append, typesOf_started hnodup, if_neg fun hin => hid ((htracked id).mpr (Or.inr hin)), List.append_nil]
  refine ⟨h.memory, h.sound, fun id hid => ?_, hbegun, fun id hid hor => ?_, fun id => ?_⟩
  · rcases (htracked id).mp hid with hid | hid
    · exact h.known id hid
    · exact (hnew id hid).2
  · rw [hsame id hid]
    exact h.silent id (fun hin => hid ((htracked id).mpr (Or.inl hin))) hor
  · by_cases hid : id ∈ tracked'
    · exact (hbegun id hid).inOrder
    · rw [hsame id hid]
      exact h.order id

variable [RadioDevice D] {sha256 : List Byte → Digest}
  (version : Version) (digest : List Byte → Nat)

theorem Told.getDeviceEvent (h : Told r tracked events) (hid : id ∈ tracked) (time rssiReportInterval now later : Time) :
    ∃ success event' r', r.getDeviceEvent (EncounterEvent.ofTime time) id rssiReportInterval now later
        = some (success, event', r') ∧
      Told r' tracked (events ++ if success then [event'] else []) := by
  obtain ⟨success, event', r', hget, hfinds, hcases⟩ :=
    h.sound.getDeviceEvent (EncounterEvent.ofTime time) id rssiReportInterval now later
  refine ⟨success, event', r', hget, ?_⟩
  rcases hcases with ⟨rfl, hbase, -⟩ | ⟨rfl, hin, hreport, hevent, hbase⟩
  · rw [if_neg Bool.false_ne_true, List.append_nil]
    exact h.finds hfinds fun j => by rw [hbase]
  · rw [if_pos rfl]
    obtain ⟨heventID, htype, -, -, hreported, -⟩ := getEncounterInfo_success hreport
    rw [← hevent, h.sound.toTidy.baseAt_id hin] at heventID
    rw [← hevent] at htype
    have hbegun : ∀ j ∈ tracked, Begun (r'.baseAt j).reported (typesOf (events ++ [event']) j) := by
      intro j hj
      rw [hbase, typesOf_concat, heventID, Function.update_apply]
      by_cases heq : j = id
      · subst heq
        rw [if_pos rfl, if_pos rfl, htype, hreported]
        exact (h.begun j hj).report
      · rw [if_neg heq, if_neg (Ne.symm heq)]
        exact h.begun j hj
    have hsame : ∀ j, j ∉ tracked → typesOf (events ++ [event']) j = typesOf events j ∧ r'.baseAt j = r.baseAt j := by
      intro j hj
      have hne : j ≠ id := fun heq => hj (heq ▸ hid)
      rw [typesOf_concat, heventID, if_neg hne.symm, hbase, Function.update_of_ne hne]
      exact ⟨rfl, rfl⟩
    refine ⟨hfinds.memoryScheme.trans h.memory, h.sound.finds hfinds,
      fun j hj => (hfinds.keys j).mpr (Or.inr (h.known j hj)), hbegun, fun j hj hor => ?_, fun j => ?_⟩
    · rw [(hsame j hj).1, (hsame j hj).2]
      refine h.silent j hj (hor.imp (fun hin => ?_) (Nat.le_trans hfinds.next))
      simpa using (hfinds.keys j).mp hin
    · by_cases hj : j ∈ tracked
      · exact (hbegun j hj).inOrder
      · rw [(hsame j hj).1]
        exact h.order j

theorem Told.reportAll (rssiReportInterval : Time) (clock : Nat → Time × Time × Time) (discovered : List DiscoverEvent)
    (h : Told r tracked events) (hids : ∀ id ∈ discovered.map DiscoverEvent.id, id ∈ tracked) :
    ∃ reports r', EbNController.reportAll rssiReportInterval clock discovered r = some (reports, r') ∧
      Told r' tracked (events ++ reports) := by
  induction discovered generalizing r events with
  | nil => exact ⟨[], r, rfl, by rw [List.append_nil]; exact h⟩
  | cons discovery discovered ih =>
      obtain ⟨success, event, r₁, hget, htold⟩ := h.getDeviceEvent (hids discovery.id List.mem_cons_self)
        (clock discovered.length).1 rssiReportInterval (clock discovered.length).2.1 (clock discovered.length).2.2
      obtain ⟨reports, r₂, hrest, htold'⟩ := ih htold fun id hid => hids id (List.mem_cons_of_mem _ hid)
      refine ⟨if success then event :: reports else reports, r₂, ?_, ?_⟩
      · rw [EbNController.reportAll]
        dsimp only
        rw [hget, Option.bind_some]
        exact congrArg (Option.map _) hrest
      · rw [List.append_assoc] at htold'
        cases success with
        | false => exact htold'
        | true => exact htold'

theorem Told.doneWithDevice (h : Told r tracked events) (hid : id ∈ tracked) (time now later lastTime : Time) :
    ∃ event r', r.doneWithDevice id time now later = some (event, r') ∧
      Told r' (tracked \ {id}) (events ++ [{ event with time := lastTime }]) := by
  obtain ⟨r', hdone, hsound, hkeys, hnext, hmemory, hbase⟩ := h.sound.doneWithDevice (h.known id hid) time now later
  have heventID : ((r.baseAt id).getEncounterInfoDefault (EncounterEvent.ofTime time) true now later).2.1.id = id :=
    h.sound.toTidy.baseAt_id (h.known id hid)
  refine ⟨_, r', hdone, ?_⟩
  have htypes : ∀ j, typesOf (events ++ [{ ((r.baseAt id).getEncounterInfoDefault (EncounterEvent.ofTime time) true
      now later).2.1 with time := lastTime }]) j = if id = j then typesOf events j ++ [.Ended] else typesOf events j := by
    intro j
    rw [typesOf_concat, heventID]
    rfl
  refine ⟨hmemory.trans h.memory, hsound, fun j hj => (hkeys j).mpr ⟨hj.2, h.known j hj.1⟩, fun j hj => ?_,
    fun j hj hor => ?_, fun j => ?_⟩
  · rw [htypes, if_neg (Ne.symm hj.2), hbase j hj.2]
    exact h.begun j hj.1
  · have hne : j ≠ id := by
      rintro rfl
      rcases hor with hin | hle
      · exact ((hkeys j).mp hin).1 rfl
      · rw [hnext] at hle
        exact absurd (h.sound.below (h.known j hid)) (Nat.not_lt.mpr hle)
    rw [htypes, if_neg hne.symm, hbase j hne]
    rw [hnext] at hor
    exact h.silent j (fun hin => hj ⟨hin, hne⟩) (hor.imp_left fun hin => ((hkeys j).mp hin).2)
  · rw [htypes]
    split
    · next heq =>
        subst heq
        exact (h.begun id hid).ended
    · exact h.order j

theorem Told.expireAll (clock : Nat → Time × Time × Time) (expired : List (DeviceID × Time))
    (h : Told r tracked events) (hnodup : (expired.map Prod.fst).Nodup) (hids : ∀ id ∈ expired.map Prod.fst, id ∈ tracked) :
    ∃ ended r', EbNController.expireAll clock expired r = some (ended, r') ∧
      Told r' { id | id ∈ tracked ∧ id ∉ expired.map Prod.fst } (events ++ ended) := by
  induction expired generalizing r tracked events with
  | nil =>
      refine ⟨[], r, rfl, ?_⟩
      simpa using h
  | cons entry expired ih =>
      obtain ⟨id, lastTime⟩ := entry
      obtain ⟨hnot, hrest⟩ := List.nodup_cons.mp hnodup
      obtain ⟨event, r₁, hdone, htold⟩ := h.doneWithDevice (hids id List.mem_cons_self) (clock expired.length).1
        (clock expired.length).2.1 (clock expired.length).2.2 lastTime
      obtain ⟨ended, r₂, hexpire, htold'⟩ := ih htold hrest fun j hj =>
        ⟨hids j (List.mem_cons_of_mem _ hj), fun heq => hnot (heq ▸ hj)⟩
      have htracked : { j | j ∈ tracked \ {id} ∧ j ∉ expired.map Prod.fst }
          = { j | j ∈ tracked ∧ j ∉ ((id, lastTime) :: expired).map Prod.fst } := by
        ext j
        simp [and_assoc]
      rw [htracked, List.append_assoc] at htold'
      refine ⟨{ event with time := lastTime } :: ended, r₂, ?_, htold'⟩
      rw [EbNController.expireAll]
      dsimp only
      rw [hdone, Option.bind_some]
      exact congrArg (Option.map _) hexpire

/-! ## Runs -/

namespace EbNController

variable {c : EbNController P D}

/-- The parts of a discovery. -/
theorem discover_eq {m : Meeting sha256 D} {discovered : List DiscoverEvent} {r₁ r₂ r₃ r₄ : EbNRadio P D}
    {encountered : Finset DeviceID} {reports ended : List (EncounterEvent P)}
    (hdiscover : c.radio.discover version digest m.responses m.interval = some (discovered, r₁)) :
    let found := c.hystPolicy.discovered discovered [] m.discovered
    let checked := (found.policy.encountered encountered m.encountered).checkExpired m.checkExpired
    r₁.handshake version digest m.incoming m.connect found.toHandshake = some (encountered, r₂) →
    reportAll c.rssiReportInterval m.report discovered r₂ = some (reports, r₃) →
    expireAll m.done checked.1 r₃ = some (ended, r₄) →
    c.discover version digest m = some
      (found.newlyDiscovered.map (fun nd => EncounterEvent.new .UnconfirmedStarted nd.2 nd.1) ++ reports ++ ended,
        { c with radio := r₄, hystPolicy := checked.2 }) := by
  intro found checked hhandshake hreport hexpire
  rw [EbNController.discover, hdiscover, Option.bind_some]
  dsimp only
  rw [hhandshake, Option.bind_some]
  dsimp only
  rw [hreport, Option.bind_some]
  dsimp only
  rw [hexpire]
  rfl

/-- What the radio does in a discovery before it is asked for events. -/
structure Met (c : EbNController P D) (m : Meeting sha256 D) (discovered : List DiscoverEvent)
    (r₁ r₂ r₃ : EbNRadio P D) : Prop where
  discover : c.radio.discover version digest m.responses m.interval = some (discovered, r₁)
  heard : c.radio.forget.Confined r₁ (discovered.map DiscoverEvent.id)
  drained :
    let queue := if version = .Bluetooth4 then m.incoming else []
    r₁.Drained r₂ ((r₁.recipients digest queue).zip queue)
  shaken : r₂.Shaken r₃ ((c.hystPolicy.discovered discovered [] m.discovered).toHandshake.sort (· ≤ ·))
  handshake : r₁.handshake version digest m.incoming m.connect
      (c.hystPolicy.discovered discovered [] m.discovered).toHandshake = some (r₃.encountered, r₃)

theorem meets (h : c.radio.forget.Tidy) (m : Meeting sha256 D) :
    ∃ discovered r₁ r₂ r₃, Met version digest c m discovered r₁ r₂ r₃ := by
  obtain ⟨discovered, r₁, hdiscover, hheard⟩ := h.discover version digest m.responses m.interval
  obtain ⟨-, hselected, -⟩ := c.hystPolicy.discovered_subset discovered m.discovered
  obtain ⟨r₂, r₃, -, hdrained, hshaken, hhandshake⟩ := hheard.tidy.handshake version digest m.incoming m.connect
    fun id hid => (hheard.keys id).mpr (Or.inl (hselected id hid))
  exact ⟨discovered, r₁, r₂, r₃, hdiscover, hheard, hdrained, hshaken, hhandshake⟩

/-- The invariant of a controller with a memory. -/
structure Follows (c : EbNController P D) (events : List (EncounterEvent P)) : Prop where
  scheme : c.hystPolicy.scheme = .Standard
  told : Told c.radio { id | id ∈ c.hystPolicy.deviceInfo } events

omit [RadioDevice D] in
theorem Follows.new (confirmScheme : ConfirmScheme P) (now minStartTime maxStartTime : Time) (startSeen : Nat)
    (endTime : Time) (rssiThreshold : BitVec 8) (rssiReportInterval : Time) :
    Follows (⟨EbNRadio.new confirmScheme .Standard now,
      EbNHystPolicy.new .Standard minStartTime maxStartTime startSeen endTime rssiThreshold, rssiReportInterval⟩ :
      EbNController P D) [] where
  scheme := rfl
  told := by
    refine ⟨rfl, EbNRadio.new_sound confirmScheme .Standard now, fun id hid => absurd hid (AList.notMem_empty id),
      fun id hid => absurd hid (AList.notMem_empty id), fun id _ _ => ⟨rfl, rfl⟩, fun id => ?_⟩
    exact ⟨false, false, 0, List.nil_prefix⟩

theorem Follows.discover (h : c.Follows events) (m : Meeting sha256 D) :
    ∃ more c', c.discover version digest m = some (more, c') ∧ c'.Follows (events ++ more) := by
  have hforget := EbNRadio.forget_standard h.told.memory
  obtain ⟨discovered, r₁, _, r₂, hmet⟩ := meets version digest (hforget.symm ▸ h.told.sound.toTidy) m
  have hquiet₁ := hmet.heard.toQuiet
  rw [hforget] at hquiet₁
  let found := c.hystPolicy.discovered discovered [] m.discovered
  obtain ⟨hscheme, -, -⟩ := c.hystPolicy.discovered_subset discovered m.discovered
  obtain ⟨hinfo, hnodup, hnew⟩ := EbNHystPolicy.discovered_standard h.scheme discovered m.discovered
  have hstarted := (h.told.quiet hquiet₁).started { id | id ∈ found.policy.deviceInfo } hnodup
    (fun id hid => ⟨((hnew id).mp hid).2, (hquiet₁.keys id).mpr (Or.inl ((hnew id).mp hid).1)⟩) fun id => by
      show id ∈ found.policy.deviceInfo ↔ id ∈ c.hystPolicy.deviceInfo ∨ _
      rw [hinfo, hnew]
      tauto
  have hquiet₂ := hmet.drained.toQuiet.trans hmet.shaken.toQuiet
  let encountered := r₂.encountered
  have hencountered : ∀ id ∈ encountered, id ∈ r₂.deviceMap.idToDevice := fun id hid =>
    ((hquiet₂.tidy.mem_encountered id).mp hid).1
  let p := found.policy.encountered encountered m.encountered
  have htracked : ∀ id, id ∈ p.deviceInfo ↔ id ∈ encountered ∨ id ∈ found.policy.deviceInfo :=
    found.policy.mem_encountered encountered m.encountered
  have hquieted := hstarted.quiet hquiet₂
  have hshaken := hquieted.track { id | id ∈ p.deviceInfo } (fun id hid => (htracked id).mpr (Or.inr hid))
    fun id hid => ((htracked id).mp hid).elim (hencountered id) (hquieted.known id)
  obtain ⟨reports, r₃, hreport, hreported⟩ := hshaken.reportAll c.rssiReportInterval m.report discovered
    fun id hid => (htracked id).mpr (Or.inr ((hinfo id).mpr (Or.inr hid)))
  obtain ⟨ended, r₄, hexpire, hended⟩ := hreported.expireAll m.done (p.checkExpired m.checkExpired).1
    (nodup_checkExpired p m.checkExpired) fun id => (p.mem_checkExpired m.checkExpired id).1
  have hleft : { id | id ∈ { id | id ∈ p.deviceInfo } ∧ id ∉ (p.checkExpired m.checkExpired).1.map Prod.fst }
      = { id | id ∈ (p.checkExpired m.checkExpired).2.deviceInfo } :=
    Set.ext fun id => (p.mem_checkExpired m.checkExpired id).2.symm
  rw [hleft, List.append_assoc, List.append_assoc, ← List.append_assoc _ reports] at hended
  refine ⟨_, _, discover_eq version digest hmet.discover hmet.handshake hreport hexpire, ?_, hended⟩
  have hkept := (foldl_encounter m.encountered (encountered.sort (· ≤ ·)) (encountered.sort_nodup (· ≤ ·))
    found.policy).1
  exact hkept.trans (hscheme.trans h.scheme)

theorem Follows.act (h : c.Follows events) (action : Action sha256 D) :
    ∃ more c', c.act version digest action = some (more, c') ∧ c'.Follows (events ++ more) := by
  cases action with
  | discover m => exact h.discover version digest m
  | changeEpoch effect =>
      refine ⟨[], _, rfl, h.scheme, ?_⟩
      rw [List.append_nil]
      exact h.told.quiet (h.told.sound.toTidy.changeEpoch effect)
  | setAdvertisedSet advertisedSet =>
      refine ⟨[], _, rfl, h.scheme, ?_⟩
      rw [List.append_nil]
      exact h.told.quiet (.of_same h.told.sound.toTidy rfl rfl rfl rfl rfl)
  | setListenSet listenSet =>
      refine ⟨[], _, rfl, h.scheme, ?_⟩
      rw [List.append_nil]
      exact h.told.quiet (.of_same h.told.sound.toTidy rfl rfl rfl rfl rfl)

theorem Follows.run (h : c.Follows events) (actions : List (Action sha256 D)) :
    ∃ more c', run version digest actions c = some (more, c') ∧ c'.Follows (events ++ more) := by
  induction actions generalizing c events with
  | nil => exact ⟨[], c, rfl, by rw [List.append_nil]; exact h⟩
  | cons action actions ih =>
      obtain ⟨first, c₁, hact, h₁⟩ := h.act version digest action
      obtain ⟨rest, c₂, hrun, h₂⟩ := ih h₁
      rw [List.append_assoc] at h₂
      refine ⟨first ++ rest, c₂, ?_, h₂⟩
      rw [EbNController.run, hact, Option.bind_some]
      exact congrArg (Option.map _) hrun

end EbNController

end Sddr.Control

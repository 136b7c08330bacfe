import Sddr.Control.History

/-!
# The policy follows the history

`Encodes` says how the entry of an id stands for what was observed of it.
-/

namespace Sddr.Control
open Sddr.Lib Sddr.Device

variable {limits : Limits} {obs : List Observation} {time : Nat} {strong : Bool}

/-! ## Histories that grow -/

theorem firstTime_append (hne : obs ≠ []) (obs' : List Observation) : firstTime (obs ++ obs') = firstTime obs := by
  cases obs with
  | nil => exact absurd rfl hne
  | cons o obs => rfl

theorem lastSighting_sighted (obs : List Observation) (time : Nat) (strong : Bool) :
    lastSighting (obs ++ [.sighted time strong]) = time := by
  unfold lastSighting
  rw [List.filterMap_append]
  simp [Observation.sightingTime]

theorem lastSighting_encountered (hne : obs ≠ []) (time : Nat) :
    lastSighting (obs ++ [.encountered time]) = lastSighting obs := by
  unfold lastSighting
  rw [List.filterMap_append, firstTime_append hne]
  simp [Observation.sightingTime]

theorem strongSightings_append (obs obs' : List Observation) :
    strongSightings (obs ++ obs') = strongSightings obs + strongSightings obs' := by
  simp [strongSightings]

/-- A sighting can only make an id qualify by what is known at that moment. -/
theorem qualifies_sighted (obs : List Observation) (time : Nat) (strong : Bool) :
    Qualifies limits (obs ++ [.sighted time strong]) ↔ Qualifies limits obs ∨
      limits.startSeen ≤ strongSightings (obs ++ [.sighted time strong]) ∧
        limits.minStartTime ≤ time - firstTime (obs ++ [.sighted time strong]) := by
  have hfirst : ∀ pre time' strong', pre ++ [.sighted time' strong'] <+: obs →
      firstTime (obs ++ [.sighted time strong]) = firstTime obs := by
    intro pre time' strong' hpre
    refine firstTime_append (fun hnil => ?_) _
    rw [hnil] at hpre
    simp at hpre
  constructor
  · rintro (⟨t, ht⟩ | ⟨pre, t, s, hpre, hseen, hlong⟩)
    · refine Or.inl (Or.inl ⟨t, ?_⟩)
      simpa using ht
    · rcases List.prefix_concat_iff.mp hpre with heq | hpre
      · obtain ⟨rfl, hlast⟩ := List.append_inj' heq rfl
        cases hlast
        exact Or.inr ⟨hseen, hlong⟩
      · rw [hfirst _ _ _ hpre] at hlong
        exact Or.inl (Or.inr ⟨pre, t, s, hpre, hseen, hlong⟩)
  · rintro ((⟨t, ht⟩ | ⟨pre, t, s, hpre, hseen, hlong⟩) | ⟨hseen, hlong⟩)
    · exact Or.inl ⟨t, List.mem_append_left _ ht⟩
    · rw [← hfirst _ _ _ hpre] at hlong
      exact Or.inr ⟨pre, t, s, hpre.trans (List.prefix_append _ _), hseen, hlong⟩
    · exact Or.inr ⟨obs, time, strong, List.prefix_rfl, hseen, hlong⟩

theorem qualifies_encountered (obs : List Observation) (time : Nat) :
    Qualifies limits (obs ++ [.encountered time]) :=
  Or.inl ⟨time, List.mem_append_right _ (List.mem_singleton_self _)⟩

theorem not_qualifies_nil : ¬ Qualifies limits [] := by
  rintro (⟨t, ht⟩ | ⟨pre, t, s, hpre, _⟩)
  · cases ht
  · simp at hpre

/-! ## Entries -/

/-- The entry `info` says what matters of the observations `obs`. -/
structure Encodes (limits : Limits) (obs : List Observation) (info : DeviceInfo) : Prop where
  firstTime : info.firstTime.toNat = firstTime obs
  lastTime : info.lastTime.toNat = lastSighting obs
  seen : info.seen = strongSightings obs
  state : info.state = .Encountered ↔ Qualifies limits obs

/-- The entry of an id, with `none` for an id that is not tracked. -/
inductive EncodesEntry (limits : Limits) : List Observation → Option DeviceInfo → Prop where
  | untracked : EncodesEntry limits [] none
  | tracked {obs : List Observation} {info : DeviceInfo} (hne : obs ≠ []) (h : Encodes limits obs info) :
      EncodesEntry limits obs (some info)

/-- State and history agree, and nothing lies after `now`. -/
structure Refines (limits : Limits) (p : EbNHystPolicy) (h : History) (now : Time) : Prop where
  scheme : p.scheme = .Standard
  config : p.limits = limits
  entry : ∀ id, EncodesEntry limits (h id) (p.deviceInfo.lookup id)
  past : ∀ id, ∀ o ∈ h id, o.time ≤ now.toNat

variable {p : EbNHystPolicy} {h : History} {now clock : Time} {id : DeviceID}

theorem EncodesEntry.eq_nil {entry : Option DeviceInfo} (he : EncodesEntry limits obs entry) :
    obs = [] ↔ entry = none := by
  cases he with
  | untracked => simp
  | tracked hne _ => simp [hne]

theorem EncodesEntry.encodes {info : DeviceInfo} (he : EncodesEntry limits obs (some info)) :
    obs ≠ [] ∧ Encodes limits obs info := by
  cases he with
  | tracked hne h => exact ⟨hne, h⟩

theorem firstTime_le (hpast : ∀ o ∈ obs, o.time ≤ now.toNat) : firstTime obs ≤ now.toNat := by
  cases obs with
  | nil => exact Nat.zero_le _
  | cons o obs => exact hpast o List.mem_cons_self

theorem lastSighting_le (hpast : ∀ o ∈ obs, o.time ≤ now.toNat) : lastSighting obs ≤ now.toNat := by
  unfold lastSighting
  cases hsightings : (obs.filterMap Observation.sightingTime).getLast? with
  | none =>
      rw [List.getLastD_eq_getLast?, hsightings]
      exact firstTime_le hpast
  | some t =>
      rw [List.getLastD_eq_getLast?, hsightings]
      obtain ⟨o, ho, heq⟩ := List.mem_filterMap.mp (List.mem_of_getLast? hsightings)
      cases o with
      | sighted time strong =>
          cases heq
          exact hpast _ ho
      | encountered time => cases heq

/-! ## Sightings -/

theorem checkState_spec (p : EbNHystPolicy) (info : DeviceInfo) :
    ((p.checkState info).1.state = .Encountered ↔ info.state = .Encountered ∨ p.starts info = true) ∧
      ((p.checkState info).2 = true ↔ (p.checkState info).1.state = .Encountered) ∧
      (p.checkState info).1.firstTime = info.firstTime ∧ (p.checkState info).1.lastTime = info.lastTime ∧
      (p.checkState info).1.seen = info.seen := by
  unfold EbNHystPolicy.checkState
  cases hstate : info.state with
  | Discovered => cases hstarts : p.starts info <;> simp [hstate]
  | Encountered => simp [hstate]

/-- The entry after a sighting, with its state. -/
theorem encodes_sighted (hscheme : p.scheme = .Standard) (hlimits : p.limits = limits) (obs : List Observation)
    (entry : Option DeviceInfo) (he : EncodesEntry limits obs entry) (hpast : ∀ o ∈ obs, o.time ≤ now.toNat)
    (hclock : now ≤ clock) (rssi : BitVec 8) :
    Encodes limits (obs ++ [.sighted clock.toNat (decide (limits.rssiThreshold < rssi.toInt))])
      (p.checkState (p.sight (entry.getD (.new clock .Discovered)) rssi clock)).1 := by
  set info := p.sight (entry.getD (.new clock .Discovered)) rssi clock with hinfo
  set obs' := obs ++ [Observation.sighted clock.toNat (decide (limits.rssiThreshold < rssi.toInt))] with hobs'
  have hle : now.toNat ≤ clock.toNat := hclock
  have hfirst : info.firstTime.toNat = firstTime obs' ∧ info.firstTime ≤ clock := by
    cases he with
    | untracked => exact ⟨rfl, BitVec.le_refl clock⟩
    | tracked hne h =>
        refine ⟨h.firstTime.trans (firstTime_append hne _).symm, ?_⟩
        change _ ≤ clock.toNat
        exact (h.firstTime.trans_le (firstTime_le hpast)).trans hle
  have hseen : info.seen = strongSightings obs' := by
    have hstrong : p.rssiThreshold.slt rssi = decide (limits.rssiThreshold < rssi.toInt) := by
      rw [← hlimits]
      rfl
    have hbefore : (entry.getD (.new clock .Discovered)).seen = strongSightings obs := by
      cases he with
      | untracked => rfl
      | tracked _ h => exact h.seen
    simp only [hinfo, hobs', EbNHystPolicy.sight, strongSightings_append, hstrong, hbefore]
    cases decide (limits.rssiThreshold < rssi.toInt) <;> rfl
  have hstate : info.state = .Encountered ↔ Qualifies limits obs := by
    cases he with
    | untracked => exact ⟨fun h => (by cases h), fun h => absurd h not_qualifies_nil⟩
    | tracked _ h => exact h.state
  have hstarts : p.starts info = true ↔ limits.startSeen ≤ strongSightings obs' ∧
      limits.minStartTime ≤ clock.toNat - firstTime obs' := by
    have helapsed : (info.lastTime - info.firstTime).toNat = clock.toNat - firstTime obs' := by
      rw [← hfirst.1]
      exact BitVec.toNat_sub_of_le hfirst.2
    have hnone : p.scheme.toNat &&& Scheme.Immediate.toNat = 0 := by
      rw [hscheme]
      rfl
    have hlong : p.minStartTime ≤ info.lastTime - info.firstTime
        ↔ limits.minStartTime ≤ clock.toNat - firstTime obs' := by
      rw [← helapsed, ← hlimits]
      exact Iff.rfl
    simp only [EbNHystPolicy.starts, hnone, bne_self_eq_false, Bool.or_false, Bool.and_eq_true, decide_eq_true_eq, ge_iff_le,
      hseen, hlong, ← hlimits]
    exact Iff.rfl
  obtain ⟨hchecked, _, hcheckedFirst, hcheckedLast, hcheckedSeen⟩ := checkState_spec p info
  refine ⟨?_, ?_, ?_, ?_⟩
  · rw [hcheckedFirst]
    exact hfirst.1
  · rw [hcheckedLast]
    exact (lastSighting_sighted obs _ _).symm
  · rw [hcheckedSeen]
    exact hseen
  · rw [hchecked, hstate, hstarts]
    exact (qualifies_sighted obs _ _).symm

/-- What holds after the part `events` of a batch. -/
structure InBatch (limits : Limits) (h : History) (newlyDiscovered : List (DeviceID × Time)) (clock : Time)
    (events : List DiscoverEvent) (s : EbNHystPolicy.Discovery) : Prop where
  refines : Refines limits s.policy (events.foldl (History.sight limits clock) h) clock
  toHandshake : ∀ id, id ∈ s.toHandshake ↔
    id ∈ events.map DiscoverEvent.id ∧ Qualifies limits (events.foldl (History.sight limits clock) h id)
  newlyDiscovered : ∃ added, s.newlyDiscovered = newlyDiscovered ++ added ∧ (added.map Prod.fst).Nodup ∧
    ∀ id time, (id, time) ∈ added ↔ id ∈ events.map DiscoverEvent.id ∧ h id = [] ∧ time = clock

theorem foldl_sight_eq_nil (limits : Limits) (clock : Time) (h : History) (events : List DiscoverEvent) (id : DeviceID) :
    events.foldl (History.sight limits clock) h id = [] ↔ h id = [] ∧ id ∉ events.map DiscoverEvent.id := by
  induction events generalizing h with
  | nil => simp
  | cons e events ih =>
      rw [List.foldl_cons, ih, List.map_cons, List.mem_cons, History.sight]
      by_cases heq : id = e.id
      · subst heq
        simp
      · simp [heq]

section
variable {newlyDiscovered : List (DeviceID × Time)} {events : List DiscoverEvent} {s : EbNHystPolicy.Discovery}

theorem foldl_sight_append (h : History) (events : List DiscoverEvent) (e : DiscoverEvent) :
    (events ++ [e]).foldl (History.sight limits clock) h
      = History.sight limits clock (events.foldl (History.sight limits clock) h) e := by
  rw [List.foldl_append]
  rfl

/-- The new entry of the id that is seen. -/
theorem Refines.encodes_sighted (hrefines : Refines limits p h clock) (e : DiscoverEvent) :
    Encodes limits (h.sight limits clock e e.id)
      (p.checkState (p.sight ((p.deviceInfo.lookup e.id).getD (.new clock .Discovered)) e.rssi clock)).1 := by
  rw [History.sight, Function.update_self]
  exact Control.encodes_sighted hrefines.scheme hrefines.config (h e.id) _ (hrefines.entry e.id) (hrefines.past e.id)
    (BitVec.le_refl clock) e.rssi

theorem discover_memory (hscheme : s.policy.scheme = .Standard) (e : DiscoverEvent) :
    EbNHystPolicy.discover clock s e
      = let found := s.policy.deviceInfo.lookup e.id
        let checked := s.policy.checkState (s.policy.sight (found.getD (.new clock .Discovered)) e.rssi clock)
        { policy := { s.policy with deviceInfo := s.policy.deviceInfo.insert e.id checked.1 }
          toHandshake := if checked.2 then insert e.id s.toHandshake else s.toHandshake
          newlyDiscovered :=
            if found.isSome then s.newlyDiscovered else s.newlyDiscovered ++ [(e.id, clock)] } := by
  have hmask : s.policy.scheme.toNat &&& Scheme.ImmediateNoMem.toNat = 0 := by
    rw [hscheme]
    rfl
  unfold EbNHystPolicy.discover
  rw [if_pos hmask]

theorem discover_refines (hrefines : Refines limits s.policy h clock) (e : DiscoverEvent) :
    Refines limits (EbNHystPolicy.discover clock s e).policy (h.sight limits clock e) clock := by
  have hencodes := hrefines.encodes_sighted e
  rw [discover_memory hrefines.scheme]
  refine ⟨hrefines.scheme, hrefines.config, fun id => ?_, fun id o ho => ?_⟩
  · by_cases heq : id = e.id
    · subst heq
      rw [AList.lookup_insert]
      exact .tracked (by simp [History.sight]) hencodes
    · simp only [History.sight, Function.update_of_ne heq, AList.lookup_insert_ne heq]
      exact hrefines.entry id
  · by_cases heq : id = e.id
    · subst heq
      simp only [History.sight, Function.update_self] at ho
      rcases List.mem_append.mp ho with ho | ho
      · exact hrefines.past _ o ho
      · rw [List.mem_singleton.mp ho]
        exact le_refl _
    · simp only [History.sight, Function.update_of_ne heq] at ho
      exact hrefines.past id o ho

/-- The id that is seen is to shake hands if it qualifies by now. -/
theorem mem_toHandshake_discover (hrefines : Refines limits s.policy h clock) (e : DiscoverEvent)
    (hbefore : ∀ id ∈ s.toHandshake, Qualifies limits (h id)) (id : DeviceID) :
    id ∈ (EbNHystPolicy.discover clock s e).toHandshake
      ↔ (id = e.id ∨ id ∈ s.toHandshake) ∧ Qualifies limits (h.sight limits clock e id) := by
  have hencodes := hrefines.encodes_sighted e
  obtain ⟨_, hshake, _⟩ := checkState_spec s.policy
    (s.policy.sight ((s.policy.deviceInfo.lookup e.id).getD (.new clock .Discovered)) e.rssi clock)
  rw [discover_memory hrefines.scheme]
  by_cases heq : id = e.id
  · subst heq
    rw [← hencodes.state, ← hshake]
    dsimp only
    split_ifs with hclose
    · simp [hclose]
    · refine iff_of_false (fun hin => hclose ?_) fun hboth => hclose hboth.2
      -- an id that qualified earlier in the batch still does
      rw [hshake, hencodes.state, History.sight, Function.update_self]
      exact (qualifies_sighted _ _ _).mpr (Or.inl (hbefore e.id hin))
  · have hsame : h.sight limits clock e id = h id := Function.update_of_ne heq _ _
    rw [hsame, or_iff_right heq]
    have hold : id ∈ s.toHandshake ↔ id ∈ s.toHandshake ∧ Qualifies limits (h id) :=
      ⟨fun hin => ⟨hin, hbefore id hin⟩, And.left⟩
    dsimp only
    split_ifs
    · rw [Finset.mem_insert, or_iff_right heq]
      exact hold
    · exact hold

theorem InBatch.discover (hs : InBatch limits h newlyDiscovered clock events s) (e : DiscoverEvent) :
    InBatch limits h newlyDiscovered clock (events ++ [e]) (EbNHystPolicy.discover clock s e) := by
  obtain ⟨hrefines, hhandshake, added, hadded, hnodup, hmem⟩ := hs
  have hids : ∀ id, id ∈ (events ++ [e]).map DiscoverEvent.id ↔ id ∈ events.map DiscoverEvent.id ∨ id = e.id := by
    intro id
    rw [List.map_append, List.mem_append, List.map_singleton, List.mem_singleton]
  constructor
  · rw [foldl_sight_append]
    exact discover_refines hrefines e
  · intro id
    rw [foldl_sight_append, mem_toHandshake_discover hrefines e fun id hin => ((hhandshake id).mp hin).2, hids]
    refine and_congr_left fun hqualifies => ?_
    by_cases heq : id = e.id
    · simp [heq]
    · rw [or_iff_right heq, or_iff_left heq, hhandshake]
      rw [History.sight, Function.update_of_ne heq] at hqualifies
      exact and_iff_left hqualifies
  · have htracked : (s.policy.deviceInfo.lookup e.id).isSome = true
        ↔ ¬ (h e.id = [] ∧ e.id ∉ events.map DiscoverEvent.id) := by
      rw [← foldl_sight_eq_nil limits clock, (hrefines.entry e.id).eq_nil, Option.isSome_iff_ne_none]
    rw [discover_memory hrefines.scheme]
    dsimp only
    split_ifs with hsome
    · refine ⟨added, hadded, hnodup, fun id time => (hmem id time).trans ?_⟩
      rw [hids]
      constructor
      · exact fun hin => ⟨Or.inl hin.1, hin.2⟩
      · rintro ⟨hin | rfl, hnew, htime⟩
        · exact ⟨hin, hnew, htime⟩
        · exact ⟨not_not.mp fun hnot => htracked.mp hsome ⟨hnew, hnot⟩, hnew, htime⟩
    · obtain ⟨hnew, hnot⟩ := not_not.mp (htracked.not.mp hsome)
      refine ⟨added ++ [(e.id, clock)], by rw [hadded, List.append_assoc], ?_, fun id time => ?_⟩
      · rw [List.map_append, List.nodup_append]
        refine ⟨hnodup, List.nodup_singleton _, ?_⟩
        rintro id hin _ hid rfl
        obtain ⟨⟨id', time⟩, hpair, rfl⟩ := List.mem_map.mp hin
        have heq : id' = e.id := List.mem_singleton.mp hid
        exact hnot (heq ▸ ((hmem id' time).mp hpair).1)
      · rw [List.mem_append, hmem, List.mem_singleton, hids, Prod.mk.injEq]
        constructor
        · rintro (⟨hin, hrest⟩ | ⟨rfl, rfl⟩)
          · exact ⟨Or.inl hin, hrest⟩
          · exact ⟨Or.inr rfl, hnew, rfl⟩
        · rintro ⟨hin | rfl, hrest⟩
          · exact Or.inl ⟨hin, hrest⟩
          · exact Or.inr ⟨rfl, hrest.2⟩

end

theorem discovered_inBatch (hrefines : Refines limits p h now) (hclock : now ≤ clock) (events : List DiscoverEvent)
    (newlyDiscovered : List (DeviceID × Time)) :
    InBatch limits h newlyDiscovered clock events (p.discovered events newlyDiscovered clock) := by
  unfold EbNHystPolicy.discovered
  induction events using List.reverseRecOn with
  | nil =>
      refine ⟨⟨hrefines.scheme, hrefines.config, hrefines.entry, fun id o ho => ?_⟩, by simp, [], by simp⟩
      have hle : now.toNat ≤ clock.toNat := hclock
      exact (hrefines.past id o ho).trans hle
  | append_singleton events e ih =>
      rw [List.foldl_append]
      exact ih.discover e

/-! ## Encounters -/

theorem foldl_encounter (time : Time) (ids : List DeviceID) (hnodup : ids.Nodup) (p : EbNHystPolicy) :
    let p' := ids.foldl (EbNHystPolicy.encounter time) p
    p'.scheme = p.scheme ∧ p'.limits = p.limits ∧ ∀ id, p'.deviceInfo.lookup id
      = if id ∈ ids then some (EbNHystPolicy.encounterInfo time (p.deviceInfo.lookup id)) else p.deviceInfo.lookup id := by
  induction ids generalizing p with
  | nil => simp
  | cons key ids ih =>
      obtain ⟨hnotin, hrest⟩ := List.nodup_cons.mp hnodup
      obtain ⟨hscheme, hlimits, hlookup⟩ := ih hrest (p.encounter time key)
      refine ⟨hscheme, hlimits, fun id => (hlookup id).trans ?_⟩
      by_cases heq : id = key
      · subst heq
        simp [hnotin, EbNHystPolicy.encounter]
      · simp [heq, EbNHystPolicy.encounter, AList.lookup_insert_ne heq]

theorem encountered_refines (hrefines : Refines limits p h now) (hclock : now ≤ clock) (devices : Finset DeviceID) :
    Refines limits (p.encountered devices clock) (h.step limits (.encountered devices, clock)) clock := by
  have hle : now.toNat ≤ clock.toNat := hclock
  obtain ⟨hscheme, hlimits, hlookup⟩ := foldl_encounter clock (devices.sort (· ≤ ·)) (devices.sort_nodup (· ≤ ·)) p
  unfold EbNHystPolicy.encountered
  refine ⟨hscheme.trans hrefines.scheme, hlimits.trans hrefines.config, fun id => ?_, fun id o ho => ?_⟩
  · rw [hlookup]
    simp only [Finset.mem_sort, History.step]
    split_ifs with hin
    · refine .tracked (by simp) ?_
      have hentry := hrefines.entry id
      cases hentry' : p.deviceInfo.lookup id with
      | none =>
          rw [hentry.eq_nil.mpr hentry']
          exact ⟨rfl, rfl, rfl, iff_of_true rfl (qualifies_encountered [] _)⟩
      | some info =>
          rw [hentry'] at hentry
          obtain ⟨hne, hinfo⟩ := hentry.encodes
          refine ⟨?_, ?_, ?_, iff_of_true rfl (qualifies_encountered _ _)⟩
          · exact hinfo.firstTime.trans (firstTime_append hne _).symm
          · exact hinfo.lastTime.trans (lastSighting_encountered hne _).symm
          · exact hinfo.seen.trans (by simp [strongSightings, Observation.isStrong])
    · exact hrefines.entry id
  · simp only [History.step] at ho
    split_ifs at ho
    · rcases List.mem_append.mp ho with ho | ho
      · exact (hrefines.past id o ho).trans hle
      · rw [List.mem_singleton.mp ho]
        exact le_refl _
    · exact (hrefines.past id o ho).trans hle

/-! ## Expiry -/

theorem isExpired_iff {info : DeviceInfo} (hlimits : p.limits = limits) (hne : obs ≠ []) (hinfo : Encodes limits obs info)
    (hpast : ∀ o ∈ obs, o.time ≤ now.toNat) (hclock : now ≤ clock) :
    p.isExpired clock info = true ↔ Overdue limits clock.toNat obs := by
  have hle : now.toNat ≤ clock.toNat := hclock
  have hlast : info.lastTime ≤ clock := by
    change info.lastTime.toNat ≤ clock.toNat
    rw [hinfo.lastTime]
    exact (lastSighting_le hpast).trans hle
  have helapsed : (clock - info.lastTime).toNat = clock.toNat - lastSighting obs := by
    rw [← hinfo.lastTime]
    exact BitVec.toNat_sub_of_le hlast
  have hlimit : ∀ limit : Time, clock - info.lastTime > limit ↔ limit.toNat < clock.toNat - lastSighting obs := by
    intro limit
    rw [← helapsed]
    exact Iff.rfl
  have hstate := hinfo.state
  unfold EbNHystPolicy.isExpired Overdue
  subst hlimits
  cases hcase : info.state with
  | Discovered =>
      have hnot : ¬ Qualifies p.limits obs := fun hq => by
        have := hstate.mpr hq
        rw [hcase] at this
        cases this
      simp only [decide_eq_true_eq, hlimit, hnot, hne, ne_eq, not_false_eq_true, false_implies, true_and, true_implies]
      exact Iff.rfl
  | Encountered =>
      have hq : Qualifies p.limits obs := hstate.mp hcase
      simp only [decide_eq_true_eq, hlimit, hq, hne, ne_eq, not_false_eq_true, true_and, true_implies, not_true_eq_false,
        false_implies, and_true]
      exact Iff.rfl

theorem Refines.overdue (hrefines : Refines limits p h now) (hclock : now ≤ clock) {info : DeviceInfo}
    (hinfo : p.deviceInfo.lookup id = some info) :
    (p.isExpired clock info = true ↔ Overdue limits clock.toNat (h id)) ∧
      info.lastTime.toNat = lastSighting (h id) := by
  have hentry := hrefines.entry id
  rw [hinfo] at hentry
  obtain ⟨hne, hencodes⟩ := hentry.encodes
  exact ⟨isExpired_iff hrefines.config hne hencodes (hrefines.past id) hclock, hencodes.lastTime⟩

theorem mem_checkExpired (hrefines : Refines limits p h now) (hclock : now ≤ clock) (id : DeviceID) (time : Time) :
    (id, time) ∈ (p.checkExpired clock).1
      ↔ Overdue limits clock.toNat (h id) ∧ time.toNat = lastSighting (h id) := by
  obtain ⟨_, hmem, _⟩ := UMap.eraseWhere_spec (p.isExpired clock) p.deviceInfo
  simp only [EbNHystPolicy.checkExpired, List.mem_map, Prod.mk.injEq, Prod.exists]
  constructor
  · rintro ⟨id', info, hin, rfl, rfl⟩
    obtain ⟨hinfo, hexpired⟩ := (hmem _ _).mp hin
    obtain ⟨hoverdue, hlast⟩ := hrefines.overdue hclock hinfo
    exact ⟨hoverdue.mp hexpired, hlast⟩
  · rintro ⟨hoverdue, htime⟩
    cases hinfo : p.deviceInfo.lookup id with
    | none => exact absurd ((hrefines.entry id).eq_nil.mpr hinfo) hoverdue.1
    | some info =>
        obtain ⟨hexpired, hlast⟩ := hrefines.overdue hclock hinfo
        exact ⟨id, info, (hmem id info).mpr ⟨hinfo, hexpired.mpr hoverdue⟩, rfl,
          BitVec.eq_of_toNat_eq (hlast.trans htime.symm)⟩

theorem mem_checkExpired_ids (hrefines : Refines limits p h now) (hclock : now ≤ clock) (id : DeviceID) :
    id ∈ (p.checkExpired clock).1.map Prod.fst ↔ Overdue limits clock.toNat (h id) := by
  constructor
  · intro hin
    obtain ⟨⟨id', time⟩, hpair, rfl⟩ := List.mem_map.mp hin
    exact ((mem_checkExpired hrefines hclock id' time).mp hpair).1
  · intro hoverdue
    cases hinfo : p.deviceInfo.lookup id with
    | none => exact absurd ((hrefines.entry id).eq_nil.mpr hinfo) hoverdue.1
    | some info =>
        refine List.mem_map.mpr ⟨(id, info.lastTime), (mem_checkExpired hrefines hclock _ _).mpr ⟨hoverdue, ?_⟩, rfl⟩
        exact (hrefines.overdue hclock hinfo).2

theorem mem_expired (p : EbNHystPolicy) (clock : Time) (id : DeviceID) :
    id ∈ (p.checkExpired clock).1.map Prod.fst
      ↔ ∃ info, p.deviceInfo.lookup id = some info ∧ p.isExpired clock info = true := by
  obtain ⟨_, hmem, _⟩ := UMap.eraseWhere_spec (p.isExpired clock) p.deviceInfo
  simp [EbNHystPolicy.checkExpired, hmem]

/-- What is listed is untracked, and everything else stays. -/
theorem lookup_checkExpired (p : EbNHystPolicy) (clock : Time) (id : DeviceID) :
    (p.checkExpired clock).2.deviceInfo.lookup id
      = if id ∈ (p.checkExpired clock).1.map Prod.fst then none else p.deviceInfo.lookup id := by
  obtain ⟨_, _, hlookup⟩ := UMap.eraseWhere_spec (p.isExpired clock) p.deviceInfo
  have hids := mem_expired p clock id
  refine (hlookup id).trans ?_
  cases hinfo : p.deviceInfo.lookup id with
  | none => simp
  | some info =>
      cases hexpired : p.isExpired clock info with
      | true => rw [if_pos (hids.mpr ⟨info, hinfo, hexpired⟩), Option.filter_some, hexpired]; rfl
      | false =>
          rw [if_neg fun hin => ?_, Option.filter_some, hexpired]
          · rfl
          · obtain ⟨info', hinfo', hexpired'⟩ := hids.mp hin
            rw [hinfo] at hinfo'
            cases hinfo'
            exact Bool.false_ne_true (hexpired.symm.trans hexpired')

theorem nodup_checkExpired (p : EbNHystPolicy) (clock : Time) : ((p.checkExpired clock).1.map Prod.fst).Nodup := by
  rw [EbNHystPolicy.checkExpired, List.map_map]
  exact (UMap.eraseWhere_spec (p.isExpired clock) p.deviceInfo).1

theorem checkExpired_refines (hrefines : Refines limits p h now) (hclock : now ≤ clock) :
    Refines limits (p.checkExpired clock).2 (h.step limits (.checkExpired, clock)) clock := by
  have hle : now.toNat ≤ clock.toNat := hclock
  refine ⟨hrefines.scheme, hrefines.config, fun id => ?_, fun id o ho => ?_⟩
  · rw [lookup_checkExpired]
    by_cases hoverdue : Overdue limits clock.toNat (h id)
    · rw [if_pos ((mem_checkExpired_ids hrefines hclock id).mpr hoverdue)]
      simp only [History.step, if_pos hoverdue]
      exact .untracked
    · rw [if_neg fun hin => hoverdue ((mem_checkExpired_ids hrefines hclock id).mp hin)]
      simp only [History.step, if_neg hoverdue]
      exact hrefines.entry id
  · simp only [History.step] at ho
    split_ifs at ho
    · cases ho
    · exact (hrefines.past id o ho).trans hle

/-! ## Runs -/

/-- Whatever the calls, the entries stand for the history. -/
theorem step_refines (hrefines : Refines limits p h now) {call : TimedCall} (hclock : now ≤ call.2) :
    Refines limits (p.step call) (h.step limits call) call.2 := by
  obtain ⟨call, clock⟩ := call
  cases call with
  | discovered events newlyDiscovered => exact (discovered_inBatch hrefines hclock events newlyDiscovered).refines
  | encountered devices => exact encountered_refines hrefines hclock devices
  | checkExpired => exact checkExpired_refines hrefines hclock

theorem run_refines (calls : List TimedCall) (hrefines : Refines limits p h now)
    (hclock : (now :: calls.map Prod.snd).Pairwise (· ≤ ·))
    {time : Time} (hlater : ∀ t ∈ now :: calls.map Prod.snd, t ≤ time) :
    ∃ now' ≤ time, Refines limits (calls.foldl EbNHystPolicy.step p) (calls.foldl (History.step limits) h) now' := by
  induction calls generalizing p h now with
  | nil => exact ⟨now, hlater now List.mem_cons_self, hrefines⟩
  | cons call calls ih =>
      obtain ⟨hfirst, hrest⟩ := List.pairwise_cons.mp hclock
      exact ih (step_refines hrefines (hfirst call.2 List.mem_cons_self)) hrest
        fun t ht => hlater t (List.mem_cons_of_mem _ ht)

end Sddr.Control

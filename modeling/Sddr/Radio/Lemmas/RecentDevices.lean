import Sddr.Radio.Actions
import Sddr.Radio.Lemmas.EbNDeviceMap

/-!
# Recent devices

`recentDevices_` and its index agree, and devices that change keep their place in the map.
-/

namespace Sddr.Radio
open Sddr.Lib Sddr.Codec Sddr.Device

namespace Devices

variable {D : Type} [Addressed D] {s : Devices D}

/-- Changes to devices that leave their ids and addresses. -/
theorem Consistent.map_heap (h : s.Consistent) (f : DeviceID → D → D)
    (hf : ∀ p d, s.heap p = some d → Addressed.getID (f p d) = Addressed.getID d ∧
      Addressed.getAddress (f p d) = Addressed.getAddress d) :
    Consistent ⟨s.map, fun p => (s.heap p).map (f p)⟩ := by
  constructor
  · intro a p
    refine (h.address a p).trans ⟨?_, ?_⟩
    · rintro ⟨d, hd, haddr, hid⟩
      obtain ⟨hsame, haddr'⟩ := hf p d hd
      exact ⟨f p d, Option.map_eq_some_iff.mpr ⟨d, hd, rfl⟩, haddr'.trans haddr, hsame ▸ hid⟩
    · rintro ⟨d', hd', haddr, hid⟩
      obtain ⟨d, hd, rfl⟩ := Option.map_eq_some_iff.mp hd'
      obtain ⟨hsame, haddr'⟩ := hf p d hd
      exact ⟨d, hd, haddr'.symm.trans haddr, hsame ▸ hid⟩
  · intro i p hi
    obtain ⟨d, hd, hid⟩ := h.id i p hi
    exact ⟨f p d, Option.map_eq_some_iff.mpr ⟨d, hd, rfl⟩, (hf p d hd).1.trans hid⟩

theorem removeID_eq (h : s.Consistent) {i p : DeviceID} {d : D} (hi : s.map.idToDevice.lookup i = some p)
    (hd : s.heap p = some d) :
    s.removeID i = some (true, s.delete (Addressed.getAddress d) i p) := by
  have hin : Addressed.getAddress d ∈ s.map.addressToDevice :=
    AList.lookup_isSome.mp (by rw [h.lookup_getAddress hi hd]; rfl)
  simp [removeID, hi, hd, hin]

end Devices

instance {P D : Type} [FloatOps P] [IsDevice D P] [Addressed D] [RadioDevice D] : LawfulAddressed D where
  getAddress_setAddress d a := by
    obtain ⟨matching, updatedMatching, matchingPFalse, hbase⟩ := RadioDevice.base_setAddress d a
    rw [RadioDevice.getAddress, hbase]
  getID_setAddress d a := by
    obtain ⟨matching, updatedMatching, matchingPFalse, hbase⟩ := RadioDevice.base_setAddress d a
    rw [RadioDevice.getID, RadioDevice.getID, hbase]

/-! ## Recent devices -/

/-- Every node has a handle of its own, and the index holds the handle of each device, under the device's id. -/
structure RecentDevices.Indexed (idOf : DeviceID → DeviceID) (l : RecentDevices) : Prop where
  index : ∀ id node, l.index.lookup id = some node ↔ ∃ p, (node, p) ∈ l.nodes ∧ idOf p = id
  nodup : (l.nodes.map Prod.fst).Nodup
  below : ∀ entry ∈ l.nodes, entry.1 < l.nextNode

/-- The same for devices that are at the places of their ids. -/
structure RecentDevices.Sound (l : RecentDevices) : Prop where
  index : ∀ id node, l.index.lookup id = some node ↔ (node, id) ∈ l.nodes
  nodup : (l.nodes.map Prod.fst).Nodup
  below : ∀ entry ∈ l.nodes, entry.1 < l.nextNode

theorem RecentDevices.indexed_id {l : RecentDevices} : l.Indexed id ↔ l.Sound := by
  have hnode : ∀ (j : DeviceID) (node : Nat), (∃ p, (node, p) ∈ l.nodes ∧ id p = j) ↔ (node, j) ∈ l.nodes := fun j node =>
    ⟨fun ⟨p, hin, heq⟩ => heq ▸ hin, fun hin => ⟨j, hin, rfl⟩⟩
  constructor
  · rintro ⟨hindex, hnodup, hbelow⟩
    exact ⟨fun j node => (hindex j node).trans (hnode j node), hnodup, hbelow⟩
  · rintro ⟨hindex, hnodup, hbelow⟩
    exact ⟨fun j node => (hindex j node).trans (hnode j node).symm, hnodup, hbelow⟩

/-- A device that is not in the list gets a node of its own at the front. -/
theorem RecentDevices.Indexed.cons {idOf : DeviceID → DeviceID} {l : RecentDevices} (h : l.Indexed idOf)
    {device : DeviceID} (hfree : l.index.lookup (idOf device) = none) :
    Indexed idOf
      ⟨(l.nextNode, device) :: l.nodes, UMap.insertNew l.index (idOf device) l.nextNode, l.nextNode + 1⟩ := by
  refine ⟨fun j n => ?_, ?_, fun entry hentry => ?_⟩
  · dsimp only
    rw [UMap.lookup_insertNew, hfree]
    by_cases hj : j = idOf device
    · subst hj
      rw [if_pos ⟨rfl, rfl⟩]
      constructor
      · intro heq
        cases heq
        exact ⟨device, List.mem_cons_self, rfl⟩
      · rintro ⟨q, hin, heq⟩
        rcases List.mem_cons.mp hin with hfirst | hin
        · cases hfirst
          rfl
        · rw [(h.index _ n).mpr ⟨q, hin, heq⟩] at hfree
          cases hfree
    · rw [if_neg fun hand => hj hand.1, h.index]
      refine exists_congr fun q => ⟨fun ⟨hin, heq⟩ => ⟨List.mem_cons_of_mem _ hin, heq⟩, fun ⟨hin, heq⟩ => ⟨?_, heq⟩⟩
      refine (List.mem_cons.mp hin).resolve_left fun hfirst => hj ?_
      cases hfirst
      exact heq.symm
  · refine List.nodup_cons.mpr ⟨fun hin => ?_, h.nodup⟩
    obtain ⟨entry, hentry, heq⟩ := List.mem_map.mp hin
    exact absurd (h.below entry hentry) (heq ▸ Nat.lt_irrefl _)
  · rcases List.mem_cons.mp hentry with rfl | hentry
    · exact Nat.lt_succ_self _
    · exact Nat.lt_succ_of_lt (h.below entry hentry)

namespace EbNRadio

variable {P D : Type} [FloatOps P] [IsDevice D P] [Addressed D] {r r' r'' : EbNRadio P D} {id device : DeviceID} {d : D}
  {idOf : DeviceID → DeviceID}

omit [FloatOps P] [IsDevice D P] [Addressed D] in
theorem removeRecentDevice_indexed (h : r.recent.Indexed idOf) (id : DeviceID) :
    ∃ recent, r.removeRecentDevice id = { r with recent } ∧ recent.Indexed idOf ∧
      recent.nodes = r.recent.nodes.filter (fun entry => idOf entry.2 ≠ id) ∧
      ∀ j, recent.index.lookup j = if j = id then none else r.recent.index.lookup j := by
  unfold removeRecentDevice
  cases hnode : r.recent.index.lookup id with
  | none =>
      refine ⟨r.recent, rfl, h, (List.filter_eq_self.mpr fun entry hentry => ?_).symm, fun j => ?_⟩
      · refine decide_eq_true fun heq => ?_
        rw [(h.index id entry.1).mpr ⟨entry.2, hentry, heq⟩] at hnode
        cases hnode
      · split
        next heq => rw [heq, hnode]
        next => rfl
  | some node =>
      obtain ⟨p, hp, hid⟩ := (h.index id node).mp hnode
      have hsame : r.recent.nodes.filter (fun entry => entry.1 ≠ node)
          = r.recent.nodes.filter fun entry => idOf entry.2 ≠ id := by
        refine List.filter_congr fun entry hentry => decide_eq_decide.mpr (not_congr ⟨fun heq => ?_, fun heq => ?_⟩)
        · have hentryEq := List.inj_on_of_nodup_map h.nodup hentry hp heq
          rw [hentryEq, hid]
        · have hthere := (h.index id entry.1).mpr ⟨entry.2, hentry, heq⟩
          rw [hnode] at hthere
          exact (Option.some.inj hthere).symm
      refine ⟨_, rfl, ⟨fun j n => ?_, ?_, fun entry hentry => ?_⟩, hsame, fun j => UMap.lookup_erase _ _ _⟩
      · dsimp only
        rw [hsame, UMap.lookup_erase]
        simp only [List.mem_filter, decide_eq_true_iff]
        by_cases hj : j = id
        · rw [if_pos hj]
          refine ⟨fun hnone => (by cases hnone), ?_⟩
          rintro ⟨q, ⟨-, hne⟩, heq⟩
          exact absurd (heq.trans hj) hne
        · rw [if_neg hj, h.index]
          refine exists_congr fun q => ⟨fun ⟨hin, heq⟩ => ⟨⟨hin, heq ▸ hj⟩, heq⟩, fun ⟨⟨hin, _⟩, heq⟩ => ⟨hin, heq⟩⟩
      · exact (List.filter_sublist.map Prod.fst).nodup h.nodup
      · exact h.below entry (List.mem_filter.mp hentry).1

omit [FloatOps P] [IsDevice D P] in
theorem addRecentDevice_indexed (h : r.recent.Indexed idOf) (hd : r.heap device = some d)
    (hid : Addressed.getID d = idOf device) :
    ∃ recent node, r.addRecentDevice device = some { r with recent } ∧ recent.Indexed idOf ∧
      recent.nodes = (node, device) :: r.recent.nodes.filter (fun entry => idOf entry.2 ≠ idOf device) ∧
      ∀ j, j ∈ recent.index ↔ j = idOf device ∨ j ∈ r.recent.index := by
  obtain ⟨removed, hremoved, hindexed, hnodes, hlookup⟩ := removeRecentDevice_indexed h (idOf device)
  have hfree : removed.index.lookup (idOf device) = none := by rw [hlookup, if_pos rfl]
  refine ⟨_, removed.nextNode, ?_, hindexed.cons hfree, by rw [hnodes], fun j => ?_⟩
  · rw [addRecentDevice, hd, Option.map_some, hid, hremoved]
  · rw [← AList.lookup_isSome, UMap.lookup_insertNew, hfree, hlookup, ← AList.lookup_isSome]
    by_cases hj : j = idOf device
    · simp [hj]
    · simp [hj]

omit [FloatOps P] [IsDevice D P] [Addressed D] in
theorem removeRecentDevice_spec (h : r.recent.Sound) (id : DeviceID) :
    ∃ recent, r.removeRecentDevice id = { r with recent } ∧ recent.Sound ∧
      ∀ j, recent.index.lookup j = if j = id then none else r.recent.index.lookup j := by
  obtain ⟨recent, hremove, hindexed, -, hlookup⟩ := removeRecentDevice_indexed (RecentDevices.indexed_id.mpr h) id
  exact ⟨recent, hremove, RecentDevices.indexed_id.mp hindexed, hlookup⟩

omit [FloatOps P] [IsDevice D P] in
theorem addRecentDevice_spec (h : r.recent.Sound) (hd : r.heap device = some d) (hid : Addressed.getID d = device) :
    ∃ recent, r.addRecentDevice device = some { r with recent } ∧ recent.Sound ∧
      ∀ j, j ∈ recent.index ↔ j = device ∨ j ∈ r.recent.index := by
  obtain ⟨recent, -, hadd, hindexed, -, hindex⟩ :=
    addRecentDevice_indexed (RecentDevices.indexed_id.mpr h) hd hid
  exact ⟨recent, hadd, RecentDevices.indexed_id.mp hindexed, hindex⟩

end EbNRadio

end Sddr.Radio

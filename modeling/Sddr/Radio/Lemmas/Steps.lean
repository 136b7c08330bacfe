import Sddr.Device.Lemmas.Reports
import Sddr.Radio.Lemmas.RecentDevices

/-!
# Steps of a radio

In a radio that remembers its devices, the map and the recent devices hold the same ones, each under the id it was
created with. `Finds` and `Quiet` say what a step may add to them.
-/

namespace Sddr.Radio
open Sddr.Lib Sddr.Codec Sddr.Device

namespace EbNRadio

variable {P D : Type} [FloatOps P] [IsDevice D P] [Addressed D] {r r' r'' : EbNRadio P D} {id device : DeviceID} {d : D}
  {found found' : List DeviceID}

/-- What is known of a device; of one that does not exist, as much as of a new one. -/
def baseAt (r : EbNRadio P D) (id : DeviceID) : EbNDevice P :=
  match r.heap id with
  | some d => IsDevice.base d
  | none => EbNDevice.new id [] []

omit [Addressed D] in
theorem baseAt_eq (hd : r.heap id = some d) : r.baseAt id = IsDevice.base d := by
  unfold baseAt
  rw [hd]

omit [Addressed D] in
theorem baseAt_congr (hheap : r'.heap = r.heap) : r'.baseAt id = r.baseAt id := by
  unfold baseAt
  rw [hheap]

/-- The devices are under the ids they were created with, and no id is handed out twice. -/
structure Tidy (r : EbNRadio P D) : Prop where
  consistent : r.devices.Consistent
  pointer : ∀ p d, r.heap p = some d → Addressed.getID d = p
  fresh : ∀ p, r.nextDeviceID ≤ p → r.heap p = none
  recent : r.recent.Sound

/-- The map and the recent devices are the same devices. -/
structure Sound (r : EbNRadio P D) : Prop extends Tidy r where
  same : ∀ id, id ∈ r.recent.index ↔ id ∈ r.deviceMap.idToDevice

omit [FloatOps P] [IsDevice D P] in
theorem Tidy.lookup (h : Tidy r) (hid : id ∈ r.deviceMap.idToDevice) :
    r.devices.getID id = some id ∧ ∃ d, r.heap id = some d ∧ Addressed.getID d = id := by
  obtain ⟨p, hp⟩ := Option.isSome_iff_exists.mp (AList.lookup_isSome.mpr hid)
  obtain ⟨d, hd, hgetID⟩ := h.consistent.id id p hp
  have hsame : p = id := (h.pointer p d hd).symm.trans hgetID
  subst hsame
  exact ⟨hp, d, hd, hgetID⟩

omit [FloatOps P] [IsDevice D P] in
theorem Tidy.below (h : Tidy r) (hid : id ∈ r.deviceMap.idToDevice) : id < r.nextDeviceID := by
  obtain ⟨-, d, hd, -⟩ := h.lookup hid
  by_contra hnot
  rw [h.fresh id (Nat.not_lt.mp hnot)] at hd
  cases hd

omit [FloatOps P] [IsDevice D P] in
theorem new_sound (confirmScheme : ConfirmScheme P) (memoryScheme : MemoryScheme) (now : Time) :
    Sound (new confirmScheme memoryScheme now : EbNRadio P D) where
  consistent := Devices.new_consistent _
  pointer _ _ hd := by cases hd
  fresh _ _ := rfl
  recent := ⟨fun _ _ => by simp [new], List.nodup_nil, fun _ hentry => by cases hentry⟩
  same _ := Iff.rfl

theorem Tidy.baseAt_fresh (h : Tidy r) (hid : r.nextDeviceID ≤ id) : r.baseAt id = EbNDevice.new id [] [] := by
  unfold baseAt
  rw [h.fresh id hid]

/-! ## Steps -/

/-- From `r` to `r'`, the devices `found` were added to the map and the recent devices, where they were missing. -/
structure Finds (r r' : EbNRadio P D) (found : List DeviceID) : Prop where
  tidy : Tidy r'
  keys : ∀ id, id ∈ r'.deviceMap.idToDevice ↔ id ∈ found ∨ id ∈ r.deviceMap.idToDevice
  recent : ∀ id, id ∈ r'.recent.index ↔ id ∈ found ∨ id ∈ r.recent.index
  new : ∀ id ∈ found, id ∈ r.deviceMap.idToDevice ∨ r.nextDeviceID ≤ id
  next : r.nextDeviceID ≤ r'.nextDeviceID
  memoryScheme : r'.memoryScheme = r.memoryScheme

/-- And nothing was reported. -/
structure Quiet (r r' : EbNRadio P D) (found : List DeviceID) : Prop extends Finds r r' found where
  ripens : ∀ id, Ripens (r.baseAt id) (r'.baseAt id)

omit [FloatOps P] [IsDevice D P] in
theorem Finds.of_eq (h : Tidy r') (hmap : r'.deviceMap = r.deviceMap) (hrecent : r'.recent = r.recent)
    (hnext : r'.nextDeviceID = r.nextDeviceID) (hmemory : r'.memoryScheme = r.memoryScheme) : Finds r r' [] := by
  refine ⟨h, fun id => ?_, fun id => ?_, fun id hid => absurd hid List.not_mem_nil, hnext.ge, hmemory⟩
  · simp [hmap]
  · simp [hrecent]

omit [FloatOps P] [IsDevice D P] in
theorem Finds.trans (h : Finds r r' found) (h' : Finds r' r'' found') : Finds r r'' (found ++ found') where
  tidy := h'.tidy
  keys id := by rw [h'.keys, h.keys, List.mem_append, or_left_comm, or_assoc]
  recent id := by rw [h'.recent, h.recent, List.mem_append, or_left_comm, or_assoc]
  new id hid := by
    rcases List.mem_append.mp hid with hid | hid
    · exact h.new id hid
    · rcases h'.new id hid with hid | hle
      · rcases (h.keys id).mp hid with hid | hid
        · exact h.new id hid
        · exact Or.inl hid
      · exact Or.inr (Nat.le_trans h.next hle)
  next := Nat.le_trans h.next h'.next
  memoryScheme := h'.memoryScheme.trans h.memoryScheme

omit [FloatOps P] [IsDevice D P] in
theorem Sound.finds (h : Sound r) (hfinds : Finds r r' found) : Sound r' :=
  ⟨hfinds.tidy, fun id => by rw [hfinds.recent, hfinds.keys, h.same]⟩

theorem Quiet.refl (h : Tidy r) : Quiet r r [] := ⟨.of_eq h rfl rfl rfl rfl, fun _ => .refl _⟩

theorem Quiet.trans (h : Quiet r r' found) (h' : Quiet r' r'' found') : Quiet r r'' (found ++ found') :=
  ⟨h.toFinds.trans h'.toFinds, fun id => (h.ripens id).trans (h'.ripens id)⟩

/-- The devices stay where they are. -/
theorem Quiet.of_same (h : Tidy r) (hheap : r'.heap = r.heap) (hmap : r'.deviceMap = r.deviceMap)
    (hrecent : r'.recent = r.recent) (hnext : r'.nextDeviceID = r.nextDeviceID)
    (hmemory : r'.memoryScheme = r.memoryScheme) : Quiet r r' [] := by
  refine ⟨.of_eq ⟨?_, ?_, ?_, ?_⟩ hmap hrecent hnext hmemory, fun id => ?_⟩
  · unfold devices
    rw [hmap, hheap]
    exact h.consistent
  · rw [hheap]
    exact h.pointer
  · rw [hheap, hnext]
    exact h.fresh
  · rw [hrecent]
    exact h.recent
  · unfold baseAt
    rw [hheap]
    exact .refl _

/-! ## Changes of devices -/

omit [FloatOps P] [IsDevice D P] in
/-- Changes of the devices in the heap, to ones with the same ids and addresses. -/
theorem Tidy.map_heap (h : Tidy r) (f : DeviceID → D → D)
    (hf : ∀ p d, r.heap p = some d → Addressed.getID (f p d) = Addressed.getID d ∧
      Addressed.getAddress (f p d) = Addressed.getAddress d) :
    Tidy { r with heap := fun p => (r.heap p).map (f p) } where
  consistent := h.consistent.map_heap f hf
  pointer p d' hd' := by
    obtain ⟨d, hd, rfl⟩ := Option.map_eq_some_iff.mp hd'
    exact (hf p d hd).1.trans (h.pointer p d hd)
  fresh p hp := by
    show (r.heap p).map (f p) = none
    rw [h.fresh p hp]
    rfl
  recent := h.recent

omit [FloatOps P] [IsDevice D P] [Addressed D] in
theorem update_eq (r : EbNRadio P D) (device : DeviceID) (f : D → D) :
    r.update device f = { r with heap := fun p => (r.heap p).map (if p = device then f else fun d => d) } := by
  unfold update
  congr 1
  funext p
  rw [Function.update_apply]
  split
  · next heq => rw [heq]
  · exact Option.map_id'.symm

variable [RadioDevice D]

/-- A device is changed, and stays the same device. -/
theorem Tidy.update (h : Tidy r) {f : D → D} (hd : r.heap device = some d)
    (hid : (IsDevice.base (f d)).id = (IsDevice.base d).id)
    (haddress : (IsDevice.base (f d)).address = (IsDevice.base d).address) :
    Finds r (r.update device f) [] ∧
      (r.update device f).baseAt = Function.update r.baseAt device (IsDevice.base (f d)) := by
  rw [update_eq]
  refine ⟨.of_eq (h.map_heap _ fun p d' hd' => ?_) rfl rfl rfl rfl, funext fun id => ?_⟩
  · split
    · next heq =>
        subst heq
        rw [hd] at hd'
        cases hd'
        rw [RadioDevice.getID, RadioDevice.getID, RadioDevice.getAddress, RadioDevice.getAddress]
        exact ⟨hid, haddress⟩
    · exact ⟨rfl, rfl⟩
  · rw [Function.update_apply]
    unfold baseAt
    dsimp only
    split_ifs with heq
    · rw [heq, hd]
      rfl
    · rw [Option.map_id']

/-- The operations of a device leave it the same device. -/
theorem Tidy.update_quiet (sha256 : List Byte → Digest) (h : Tidy r) {f : D → D}
    (hin : device ∈ r.deviceMap.idToDevice) (hf : ∀ d, Changed sha256 (IsDevice.base d) (IsDevice.base (f d))) :
    Quiet r (r.update device f) [] ∧ ∃ d, r.heap device = some d ∧
      (r.update device f).baseAt = Function.update r.baseAt device (IsDevice.base (f d)) := by
  obtain ⟨-, d, hd, -⟩ := h.lookup hin
  obtain ⟨-, hid, haddress, -⟩ := (hf d).keeps
  obtain ⟨hfinds, hupdated⟩ := h.update hd hid haddress
  refine ⟨⟨hfinds, fun id => ?_⟩, d, hd, hupdated⟩
  rw [hupdated, Function.update_apply]
  split
  · next heq =>
      rw [heq, baseAt_eq hd]
      exact .of_changed (hf d)
  · exact .refl _

/-! ## Finding devices -/

/-- A device gets an address, which may change what matches. -/
def Readdressed (d d' : EbNDevice P) : Prop :=
  ∃ address matching updatedMatching matchingPFalse, d' = { d with address, matching, updatedMatching, matchingPFalse }

omit [FloatOps P] in
theorem Readdressed.refl (d : EbNDevice P) : Readdressed d d :=
  ⟨d.address, d.matching, d.updatedMatching, d.matchingPFalse, rfl⟩

omit [FloatOps P] in
theorem Readdressed.trans {d d' d'' : EbNDevice P} (h : Readdressed d d') (h' : Readdressed d' d'') : Readdressed d d'' := by
  obtain ⟨_, _, _, _, rfl⟩ := h
  obtain ⟨address, matching, updatedMatching, matchingPFalse, rfl⟩ := h'
  exact ⟨address, matching, updatedMatching, matchingPFalse, rfl⟩

omit [FloatOps P] in
theorem Readdressed.ripens {d d' : EbNDevice P} (h : Readdressed d d') : Ripens d d' := by
  obtain ⟨address, matching, updatedMatching, matchingPFalse, rfl⟩ := h
  exact ⟨[], .of_eq rfl rfl rfl rfl⟩

/-- The device at an address was found, or was created. -/
structure Located (r r' : EbNRadio P D) (device : DeviceID) : Prop where
  tidy : Tidy r'
  recent : r'.recent = r.recent
  keys : ∀ id, id ∈ r'.deviceMap.idToDevice ↔ id = device ∨ id ∈ r.deviceMap.idToDevice
  new : device ∈ r.deviceMap.idToDevice ∨ r.nextDeviceID ≤ device
  next : r.nextDeviceID ≤ r'.nextDeviceID
  memoryScheme : r'.memoryScheme = r.memoryScheme
  readdressed : ∀ id, Readdressed (r.baseAt id) (r'.baseAt id)

omit [RadioDevice D] in
theorem Located.mem (h : Located r r' device) : device ∈ r'.deviceMap.idToDevice := (h.keys device).mpr (Or.inl rfl)

variable {address old : Address}

omit [FloatOps P] [IsDevice D P] [RadioDevice D] in
theorem Tidy.mem_of_address (h : Tidy r) (hold : r.devices.map.addressToDevice.lookup old = some device) :
    device ∈ r.deviceMap.idToDevice ∧ ∃ d, r.heap device = some d := by
  obtain ⟨d, hd, -, hid⟩ := (h.consistent.address old device).mp hold
  rw [h.pointer device d hd] at hid
  exact ⟨AList.lookup_isSome.mp (Option.isSome_iff_exists.mpr ⟨device, hid⟩), d, hd⟩

omit [RadioDevice D] in
/-- The device is in the map, and nothing but its address may change. -/
theorem Tidy.located (h : Tidy r) (hin : device ∈ r.deviceMap.idToDevice) {s : Devices D} (hs : s.Consistent)
    (hids : s.map.idToDevice = r.deviceMap.idToDevice)
    (hheap : ∀ q, ∃ f : D → D, s.heap q = (r.heap q).map f ∧
      ∀ d, Addressed.getID (f d) = Addressed.getID d ∧ Readdressed (IsDevice.base d) (IsDevice.base (f d))) :
    Located r (r.setDevices s) device := by
  refine ⟨⟨hs, fun q e he => ?_, fun q hq => ?_, h.recent⟩, rfl, fun j => ?_, Or.inl hin, Nat.le_refl _, rfl,
    fun j => ?_⟩
  · obtain ⟨f, hq, hf⟩ := hheap q
    obtain ⟨d, hd, rfl⟩ := Option.map_eq_some_iff.mp (hq.symm.trans he)
    exact (hf d).1.trans (h.pointer q d hd)
  · obtain ⟨f, hsame, -⟩ := hheap q
    show s.heap q = none
    rw [hsame, h.fresh q hq]
    rfl
  · show j ∈ s.map.idToDevice ↔ _
    rw [hids]
    refine ⟨Or.inr, fun hor => ?_⟩
    rcases hor with rfl | hj
    · exact hin
    · exact hj
  · obtain ⟨f, hj, hf⟩ := hheap j
    unfold baseAt
    rw [show (r.setDevices s).heap j = (r.heap j).map f from hj]
    cases r.heap j with
    | none => exact .refl _
    | some d => exact (hf d).2

/-- The device is put under its new address. -/
theorem Tidy.located_rekey (h : Tidy r) (hold : r.devices.map.addressToDevice.lookup old = some device)
    (hs : (r.devices.rekey old address device).Consistent) :
    Located r (r.setDevices (r.devices.rekey old address device)) device := by
  obtain ⟨hin, d, hd⟩ := h.mem_of_address hold
  refine h.located hin hs rfl fun q => ?_
  have hheap : (r.devices.rekey old address device).heap q
      = if q = device then some (Addressed.setAddress d address) else r.heap q := Devices.heap_rekey hd q
  by_cases heq : q = device
  · refine ⟨fun d => Addressed.setAddress d address, ?_, fun d => ⟨LawfulAddressed.getID_setAddress d address, ?_⟩⟩
    · rw [hheap, if_pos heq, heq, hd, Option.map_some]
    · obtain ⟨matching, updatedMatching, matchingPFalse, hbase⟩ := RadioDevice.base_setAddress d address
      exact ⟨address, matching, updatedMatching, matchingPFalse, hbase⟩
  · refine ⟨fun d => d, ?_, fun d => ⟨rfl, .refl _⟩⟩
    rw [hheap, if_neg heq, Option.map_id']

/-- A device is created for an address without one. -/
theorem Tidy.located_new (h : Tidy r) (hnone : r.devices.map.addressToDevice.lookup address = none) :
    ∃ s, (r.devices.allocate r.nextDeviceID (RadioDevice.create r.nextDeviceID address r.listenSet)).add address
        r.nextDeviceID = some s ∧
      Located r { r.setDevices s with nextDeviceID := r.nextDeviceID + 1 } r.nextDeviceID := by
  let d : D := RadioDevice.create r.nextDeviceID address r.listenSet
  obtain ⟨matching, updatedMatching, matchingPFalse, hbase⟩ :=
    RadioDevice.base_create (D := D) r.nextDeviceID address r.listenSet
  have hid : Addressed.getID d = r.nextDeviceID := by rw [RadioDevice.getID, hbase]; rfl
  have haddress : Addressed.getAddress d = address := by rw [RadioDevice.getAddress, hbase]; rfl
  have hnew : r.nextDeviceID ∉ r.deviceMap.idToDevice := fun hin => (h.below hin).false
  obtain ⟨s, hadd, hs⟩ := h.consistent.add (d := d) (p := r.nextDeviceID) (by rw [haddress]; exact hnone)
    (h.fresh _ (Nat.le_refl _)) (by rw [hid]; exact hnew)
  have heq := Option.some.inj (hadd.symm.trans Devices.add_allocate)
  have hids : s.map.idToDevice = UMap.insertNew r.deviceMap.idToDevice (Addressed.getID d) r.nextDeviceID := by
    rw [heq]
    rfl
  have hheap : ∀ q, s.heap q = if q = r.nextDeviceID then some d else r.heap q := by
    rw [heq]
    exact Function.update_apply _ _ _
  rw [haddress] at hadd
  refine ⟨s, hadd, ⟨hs, fun q e he => ?_, fun q hq => ?_, h.recent⟩, rfl, fun j => ?_, Or.inr (Nat.le_refl _),
    Nat.le_succ _, rfl, fun j => ?_⟩
  · change s.heap q = some e at he
    rw [hheap] at he
    split at he
    · next hq =>
        cases he
        exact hid.trans hq.symm
    · exact h.pointer q e he
  · show s.heap q = none
    have hlt : r.nextDeviceID < q := hq
    rw [hheap, if_neg (Nat.ne_of_gt hlt)]
    exact h.fresh q (Nat.le_of_lt hlt)
  · show j ∈ s.map.idToDevice ↔ _
    rw [hids, hid, UMap.insertNew, if_neg hnew, AList.mem_insert]
  · by_cases hj : j = r.nextDeviceID
    · rw [hj, h.baseAt_fresh (Nat.le_refl _), baseAt_eq (d := d) ((hheap _).trans (if_pos rfl)), hbase]
      exact ⟨address, matching, updatedMatching, matchingPFalse, rfl⟩
    · unfold baseAt
      rw [show ({ r.setDevices s with nextDeviceID := r.nextDeviceID + 1 } : EbNRadio P D).heap j = s.heap j from rfl,
        hheap, if_neg hj]
      exact .refl _

theorem Tidy.deviceAt (h : Tidy r) (digest : List Byte → Nat) (buckets : Buckets) (address : Address) :
    ∃ device r', r.deviceAt digest buckets address = some (device, r') ∧ Located r r' device := by
  have hconsistent := h.consistent.getAddress digest buckets address
  obtain ⟨p, hlookup, hget⟩ | ⟨hnone, hget⟩ := Devices.getAddress_cases r.devices digest buckets address
  · obtain ⟨hin, -⟩ := h.mem_of_address hlookup
    refine ⟨p, r, ?_, h.located hin h.consistent rfl fun q => ⟨fun d => d, ?_, fun d => ⟨rfl, .refl _⟩⟩⟩
    · rw [EbNRadio.deviceAt, hget]
      rfl
    · exact Option.map_id'.symm
  · obtain ⟨hfind, -⟩ | ⟨old, p, hold, -, hfind⟩ := Devices.findShiftedMatch_cases r.devices digest buckets address
    · obtain ⟨s, hadd, hlocated⟩ := h.located_new hnone
      refine ⟨r.nextDeviceID, _, ?_, hlocated⟩
      rw [EbNRadio.deviceAt, hget, hfind]
      exact congrArg (Option.map _) hadd
    · rw [hget, hfind] at hconsistent
      refine ⟨p, _, ?_, h.located_rekey hold hconsistent⟩
      rw [EbNRadio.deviceAt, hget, hfind]

omit [RadioDevice D] in
/-- A device of the map becomes the most recent one. -/
theorem Tidy.addRecentDevice (h : Tidy r) (hin : device ∈ r.deviceMap.idToDevice) :
    ∃ r', r.addRecentDevice device = some r' ∧ Quiet r r' [device] ∧ r'.heap = r.heap := by
  obtain ⟨-, d, hd, hid⟩ := h.lookup hin
  obtain ⟨recent, hadd, hsound, hindex⟩ := addRecentDevice_spec h.recent hd hid
  refine ⟨_, hadd, ⟨⟨⟨h.consistent, h.pointer, h.fresh, hsound⟩, fun j => ?_, fun j => ?_, fun j hj => ?_, Nat.le_refl _,
    rfl⟩, fun id => .refl _⟩, rfl⟩
  · rw [List.mem_singleton]
    refine ⟨Or.inr, fun hor => ?_⟩
    rcases hor with rfl | hj
    · exact hin
    · exact hj
  · rw [List.mem_singleton]
    exact hindex j
  · rw [List.mem_singleton] at hj
    exact Or.inl (hj ▸ hin)

omit [RadioDevice D] in
/-- A device is located, and becomes the most recent one. -/
theorem Located.quiet (h : Located r r' device) (hquiet : Quiet r' r'' [device]) : Quiet r r'' [device] where
  tidy := hquiet.tidy
  keys id := by rw [hquiet.keys, h.keys, List.mem_singleton, or_self_left]
  recent id := by rw [hquiet.recent, h.recent]
  new id hid := by
    rw [List.mem_singleton.mp hid]
    exact h.new
  next := Nat.le_trans h.next hquiet.next
  memoryScheme := hquiet.memoryScheme.trans h.memoryScheme
  ripens id := (h.readdressed id).ripens.trans (hquiet.ripens id)

end EbNRadio

end Sddr.Radio

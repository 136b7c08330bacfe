import Sddr.Radio.Devices
import Sddr.Radio.Lemmas.Contacts

/-!
# Theorems on devices that were already contacted
-/

namespace Sddr.Radio
open Sddr.Lib Sddr.Codec Sddr.Device EbNRadio

variable {P D : Type} [FloatOps P] [IsDevice D P] [Addressed D] [RadioDevice D]

/-- A handshake serves the requested devices if and only if a device that was contacted before its turn leaves out no
device that still needed it. -/
theorem EbNRadioBT2PSI.handshake_served_iff (around : Surroundings) (r : EbNRadioBT2PSI P D) (h : Tidy r.toEbNRadio)
    (deviceIDs : Finset DeviceID) (hids : ∀ id ∈ deviceIDs, id ∈ r.deviceMap.idToDevice) :
    let ids := deviceIDs.sort (· ≤ ·)
    ∃ attempted r', handshake around deviceIDs r = some (r'.encountered, attempted, r') ∧
      (Served r.baseAt r'.baseAt ids attempted r'.discDevices ↔ Skippable r.baseAt around r.discDevices ids) := by
  intro ids
  obtain ⟨attempted, r', hloop, hloops⟩ := shakeHands_loops around ids (deviceIDs.sort_nodup (· ≤ ·)) h
    (fun id hid => hids id ((Finset.mem_sort _).mp hid)) fun _ _ => rfl
  exact ⟨attempted, r', by rw [handshake, hloop]; rfl, hloops.served_iff⟩

/-- A radio that has discovered a device. -/
theorem EbNRadioBT2PSI.handshake_served_iff_single :
    let new : EbNRadio LogRate (EbNDevice LogRate) := .new ⟨.Active, none⟩ .Standard 0
    let radio : EbNRadio LogRate (EbNDevice LogRate) :=
      { new with
        heap := Function.update (fun _ => none) 0 (some (.new 0 [1] []))
        deviceMap := ⟨UMap.insertNew ∅ [1] 0, UMap.insertNew ∅ 0 0⟩
        nextDeviceID := 1 }
    let r : EbNRadioBT2PSI LogRate (EbNDevice LogRate) := { radio with discDevices := ∅, active := rfl }
    let around : Surroundings := ⟨fun _ => {[2]}, fun _ => none⟩
    ∃ attempted r', handshake around {0} r = some (r'.encountered, attempted, r') ∧
      (Served r.baseAt r'.baseAt (({0} : Finset DeviceID).sort (· ≤ ·)) attempted r'.discDevices ↔
        Skippable r.baseAt around r.discDevices (({0} : Finset DeviceID).sort (· ≤ ·))) := by
  intro new radio r around
  have hnew : Tidy new := (new_sound _ _ _).toTidy
  obtain ⟨device, found, hfound, hlocated⟩ := hnew.deviceAt (fun _ => 0) ⟨1, id, fun _ => .refl _⟩ [1]
  have hradio : (0, radio) = (device, found) := Option.some.inj hfound
  obtain ⟨rfl, rfl⟩ := Prod.mk.inj hradio
  exact handshake_served_iff around r hlocated.tidy {0} fun id hid => Finset.mem_singleton.mp hid ▸ hlocated.mem

/-- The first of two devices was contacted already, and the second one is not contacted and does not shake hands. -/
theorem EbNRadioBT2PSI.handshake_skips :
    let new : EbNRadio LogRate (EbNDevice LogRate) := .new ⟨.Active, none⟩ .Standard 0
    let radio : EbNRadio LogRate (EbNDevice LogRate) :=
      { new with
        heap := fun p => if p = 0 then some (.new 0 [1] []) else if p = 1 then some (.new 1 [2] []) else none
        deviceMap := ⟨UMap.insertNew (UMap.insertNew ∅ [1] 0) [2] 1, UMap.insertNew (UMap.insertNew ∅ 0 0) 1 1⟩
        nextDeviceID := 2 }
    let r : EbNRadioBT2PSI LogRate (EbNDevice LogRate) := { radio with discDevices := {[1]}, active := rfl }
    ∃ r', handshake ⟨fun _ => ∅, fun _ => none⟩ {0, 1} r = some (r'.encountered, [], r') ∧
      (r.heap 1).map (·.confirmed) = some false ∧ (r'.heap 1).map (·.shakenHands) = some false ∧
      [2] ∉ r'.discDevices := by
  intro new radio r
  have hsort : ({0, 1} : Finset DeviceID).sort (· ≤ ·) = [0, 1] := by
    rw [Finset.sort_insert _ (by decide) (by decide), Finset.sort_singleton]
  refine ⟨r, ?_, rfl, rfl, by decide⟩
  rw [handshake, hsort]
  rfl

/-- The loop is the one that the radios have in common, for some outcomes of the connections. -/
theorem EbNRadioBT2PSI.shakeHands_refines (sha256 : List Byte → Digest) {r r' : EbNRadioBT2PSI P D} (around : Surroundings) 
    (ids : List DeviceID) (hnodup : ids.Nodup) {attempted : List DeviceID} (h : shakeHands around ids r = some (attempted, r')) :
    ∃ connect : DeviceID → Option (Effect sha256 D),
      EbNRadio.shakeHands .Bluetooth2PSI connect ids r.toEbNRadio = some r'.toEbNRadio := by
  induction ids generalizing r attempted with
  | nil =>
      cases h
      exact ⟨fun _ => none, rfl⟩
  | cons id ids ih =>
      obtain ⟨hfresh, hrest⟩ := List.nodup_cons.mp hnodup
      rw [shakeHands] at h
      obtain ⟨device, hget, h⟩ := Option.bind_eq_some_iff.mp h
      obtain ⟨d, hd, h⟩ := Option.bind_eq_some_iff.mp h
      dsimp only at h
      split_ifs at h with hconnects hknown
      · cases h
        refine ⟨fun _ => none, ?_⟩
        rw [EbNRadio.shakeHands, hget, Option.bind_some, hd, Option.bind_some]
        exact if_pos hconnects
      · obtain ⟨⟨attempted', r''⟩, hloop, heq⟩ := Option.map_eq_some_iff.mp h
        cases heq
        obtain ⟨connect, hconnect⟩ := ih hrest hloop
        refine ⟨Function.update connect id (some (contactEffect D sha256 (around.connect id))), ?_⟩
        rw [EbNRadio.shakeHands, hget, Option.bind_some, hd, Option.bind_some]
        refine (if_pos hconnects).trans ?_
        rw [Function.update_self]
        dsimp only
        rw [contact_change sha256] at hconnect
        refine (shakeHands_congr ids (fun j hj => ?_) _).trans hconnect
        exact Function.update_of_ne (ne_of_mem_of_not_mem hj hfresh) _ _
      · obtain ⟨connect, hconnect⟩ := ih hrest h
        refine ⟨connect, ?_⟩
        rw [EbNRadio.shakeHands, hget, Option.bind_some, hd, Option.bind_some]
        exact (if_neg hconnects).trans hconnect

end Sddr.Radio

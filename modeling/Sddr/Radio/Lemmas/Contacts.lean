import Sddr.Lib.Splits
import Sddr.Radio.Contacts
import Sddr.Radio.Lemmas.Actions

/-!
# The loop of a handshake that may be left

The devices before the one that leaves the loop are served; the others stay as they were.
-/

namespace Sddr.Radio
open Sddr.Lib Sddr.Codec Sddr.Device EbNRadio

variable {P : Type} {base : DeviceID → EbNDevice P} {around : Surroundings}
  {known : Finset Address} {id : DeviceID} {ids front : List DeviceID}

/-! ## knownAt -/

theorem subset_contacted (known : Finset Address) (id : DeviceID) :
    known ∪ around.inserted id ⊆ contacted base around known id := by
  unfold contacted
  split_ifs
  · exact Finset.Subset.refl _
  · exact Finset.subset_insert _ _

theorem subset_foldl_contacted (known : Finset Address) (front : List DeviceID) :
    known ⊆ front.foldl (contacted base around) known := by
  induction front generalizing known with
  | nil => exact Finset.Subset.refl _
  | cons id front ih => exact (Finset.subset_union_left.trans (subset_contacted known id)).trans (ih _)

theorem subset_knownAt (known : Finset Address) (first : DeviceID) (front : List DeviceID) (id : DeviceID) :
    known ∪ around.inserted first ⊆ knownAt base around known (first :: front) id :=
  ((subset_contacted known first).trans (subset_foldl_contacted _ front)).trans Finset.subset_union_left

/-! ## Skippable -/

theorem skippable_nil : Skippable base around known [] := forall_split_nil

theorem skippable_cons :
    Skippable base around known (id :: ids) ↔
      ((base id).confirmed = false → (base id).address ∈ known ∪ around.inserted id →
        ∀ j ∈ id :: ids, (base j).shakenHands = true ∧
          ((base j).confirmed = false → (base j).address ∈ known ∪ around.inserted id)) ∧
      Skippable base around (contacted base around known id) ids :=
  forall_split_cons

/-- The loop goes on behind a device that is confirmed or is contacted now. -/
theorem skippable_cons_go (h : (base id).confirmed = true ∨ (base id).address ∉ known ∪ around.inserted id) :
    Skippable base around known (id :: ids) ↔ Skippable base around (contacted base around known id) ids := by
  refine skippable_cons.trans (and_iff_right fun hconfirmed haddress => ?_)
  rcases h with hc | hnew
  · exact absurd hc (by rw [hconfirmed]; exact Bool.false_ne_true)
  · exact absurd haddress hnew

/-- The loop is left at a device that was contacted already. -/
theorem skippable_cons_leave (hconfirmed : (base id).confirmed = false)
    (haddress : (base id).address ∈ known ∪ around.inserted id) :
    Skippable base around known (id :: ids) ↔ ∀ j ∈ id :: ids, (base j).shakenHands = true ∧
      ((base j).confirmed = false → (base j).address ∈ known ∪ around.inserted id) := by
  rw [skippable_cons]
  constructor
  · intro hall
    exact hall.1 hconfirmed haddress
  · intro hall
    refine ⟨fun _ _ => hall, fun front c back heq _ _ j hj => ?_⟩
    have hmem : j ∈ id :: ids := List.mem_cons_of_mem _ (heq ▸ List.mem_append_right front hj)
    exact ⟨(hall j hmem).1, fun hunconfirmed => subset_knownAt known id front c ((hall j hmem).2 hunconfirmed)⟩

/-! ## The loop -/

namespace EbNRadioBT2PSI

theorem getHandshakeScheme_eq {D : Type} (r : EbNRadioBT2PSI P D) : r.getHandshakeScheme = .Active := by
  unfold EbNRadio.getHandshakeScheme
  rw [if_neg (by rw [r.active]; decide), r.active]

variable {D : Type} [FloatOps P] [IsDevice D P] [Addressed D] [RadioDevice D] {r r' : EbNRadioBT2PSI P D}

/-- From `r` to `r'`, the device `id` is changed at most. -/
structure Touches (r r' : EbNRadioBT2PSI P D) (id : DeviceID) : Prop where
  tidy : Tidy r'.toEbNRadio
  map : r'.deviceMap = r.deviceMap
  others : ∀ j, j ≠ id → r'.baseAt j = r.baseAt j
  discDevices : r'.discDevices = r.discDevices

omit [RadioDevice D] in
theorem Touches.trans {r'' : EbNRadioBT2PSI P D} (h : Touches r r' id) (h' : Touches r' r'' id) : Touches r r'' id where
  tidy := h'.tidy
  map := h'.map.trans h.map
  others j hj := (h'.others j hj).trans (h.others j hj)
  discDevices := h'.discDevices.trans h.discDevices

theorem change_touches (h : Tidy r.toEbNRadio) (hin : id ∈ r.deviceMap.idToDevice) (op : DeviceOp P) :
    Touches r (r.change id (op.apply fun _ => 0)) id ∧
      ∃ d, (r.change id (op.apply fun _ => 0)).baseAt id = op.apply (fun _ => 0) d := by
  have hop : ∀ d : D, Changed (fun _ => 0) (IsDevice.base d)
      (IsDevice.base (IsDevice.update (op.apply fun _ => 0) d)) := fun d => by
    rw [RadioDevice.base_update]
    exact .op op _
  obtain ⟨hquiet, d, -, hbase⟩ := h.update_quiet (fun _ => 0) hin hop
  refine ⟨⟨hquiet.tidy, rfl, fun j hj => ?_, rfl⟩, IsDevice.base d, ?_⟩
  · exact (congrFun hbase j).trans (Function.update_of_ne hj _ _)
  · exact (congrFun hbase id).trans ((Function.update_self ..).trans (RadioDevice.base_update _ d))

theorem contact_touches (h : Tidy r.toEbNRadio) (hin : id ∈ r.deviceMap.idToDevice) (value : Option LinkValue) :
    Touches r (r.contact id value) id := by
  cases value with
  | none => exact ⟨h, rfl, fun _ _ => rfl, rfl⟩
  | some value => exact (change_touches h hin (.addSharedSecret { SharedSecret.ofScheme .active with value })).1

/-- A device that is not left out has shaken hands. -/
theorem setShakenHands_touches (h : Tidy r.toEbNRadio) (hin : id ∈ r.deviceMap.idToDevice) :
    Touches r (r.change id (·.setShakenHands true)) id ∧
      ((r.change id (·.setShakenHands true)).baseAt id).shakenHands = true := by
  obtain ⟨htouches, d, hbase⟩ := change_touches h hin (.setShakenHands true)
  exact ⟨htouches, congrArg EbNDevice.shakenHands hbase⟩

/-- What the loop leads to from a radio `r` with the devices `base`. -/
structure Loops (base : DeviceID → EbNDevice P) (around : Surroundings) (ids : List DeviceID) (r : EbNRadioBT2PSI P D)
    (attempted : List DeviceID) (r' : EbNRadioBT2PSI P D) : Prop where
  others : ∀ j, j ∉ ids → r'.baseAt j = r.baseAt j
  served_iff : Served base r'.baseAt ids attempted r'.discDevices ↔ Skippable base around r.discDevices ids

omit [Addressed D] [RadioDevice D] in
/-- The turn of a device that does not leave the loop. -/
theorem Loops.cons {r₁ : EbNRadioBT2PSI P D} {attempted attempted' : List DeviceID} (hid : id ∉ ids)
    (hloops : Loops base around ids r₁ attempted r') (hshaken : (r₁.baseAt id).shakenHands = true)
    (hothers : ∀ j, j ≠ id → r₁.baseAt j = r.baseAt j)
    (hknown : r₁.discDevices = contacted base around r.discDevices id)
    (hgo : (base id).confirmed = true ∨ (base id).address ∉ r.discDevices ∪ around.inserted id)
    (hattempted : ∀ j ∈ ids, j ∈ attempted' ↔ j ∈ attempted) (hself : (base id).confirmed = false → id ∈ attempted') :
    Loops base around (id :: ids) r attempted' r' where
  others j hj := by
    rw [List.mem_cons, not_or] at hj
    rw [hloops.others j hj.2, hothers j hj.1]
  served_iff := by
    rw [skippable_cons_go hgo, ← hknown, ← hloops.served_iff]
    constructor
    · intro h
      refine ⟨fun j hj => h.shaken j (List.mem_cons_of_mem _ hj), fun j hj hconfirmed => ?_⟩
      rw [← hattempted j hj]
      exact h.attempted j (List.mem_cons_of_mem _ hj) hconfirmed
    · intro h
      constructor
      · intro j hj
        rcases List.mem_cons.mp hj with rfl | hj
        · rw [hloops.others j hid]
          exact hshaken
        · exact h.shaken j hj
      · intro j hj hconfirmed
        rcases List.mem_cons.mp hj with rfl | hj
        · exact Or.inl (hself hconfirmed)
        · rw [hattempted j hj]
          exact h.attempted j hj hconfirmed

omit [Addressed D] [RadioDevice D] in
/-- The turn of a device that leaves the loop. -/
theorem Loops.leave (hbase : ∀ j ∈ id :: ids, r.baseAt j = base j) (hsame : r'.baseAt = r.baseAt)
    (hknown : r'.discDevices = r.discDevices ∪ around.inserted id) (hconfirmed : (base id).confirmed = false)
    (haddress : (base id).address ∈ r.discDevices ∪ around.inserted id) : Loops base around (id :: ids) r [] r' where
  others j _ := by rw [hsame]
  served_iff := by
    rw [skippable_cons_leave hconfirmed haddress, hsame, hknown]
    constructor
    · intro h j hj
      refine ⟨hbase j hj ▸ h.shaken j hj, fun hj' => ?_⟩
      exact (h.attempted j hj hj').resolve_left List.not_mem_nil
    · intro h
      refine ⟨fun j hj => ?_, fun j hj hj' => Or.inr ((h j hj).2 hj')⟩
      rw [hbase j hj]
      exact (h j hj).1

/-- The turn of a device of the map. -/
theorem shakeHands_cons (h : Tidy r.toEbNRadio) (hin : id ∈ r.deviceMap.idToDevice) (ids : List DeviceID) :
    let r₀ : EbNRadioBT2PSI P D := { r with discDevices := r.discDevices ∪ around.inserted id }
    let r₁ : EbNRadioBT2PSI P D := { r with discDevices := insert (r.baseAt id).address r₀.discDevices }
    shakeHands around (id :: ids) r =
      if (r.baseAt id).confirmed then shakeHands around ids (r₀.change id (·.setShakenHands true))
      else if (r.baseAt id).address ∈ r₀.discDevices then some ([], r₀)
      else
        (shakeHands around ids ((r₁.contact id (around.connect id)).change id (·.setShakenHands true))).map
          fun (attempted, r) => (id :: attempted, r) := by
  obtain ⟨hget, d, hd, -⟩ := h.lookup hin
  rw [shakeHands, hget, Option.bind_some, hd, Option.bind_some, baseAt_eq hd]
  dsimp only
  rw [getHandshakeScheme_eq, RadioDevice.getAddress]
  cases (IsDevice.base d).confirmed with
  | true => rfl
  | false => rfl

/-- The devices are served if and only if those that the loop leaves out are skippable. -/
theorem shakeHands_loops (around : Surroundings) (ids : List DeviceID) (hnodup : ids.Nodup) (h : Tidy r.toEbNRadio)
    (hids : ∀ id ∈ ids, id ∈ r.deviceMap.idToDevice) (hbase : ∀ id ∈ ids, r.baseAt id = base id) :
    ∃ attempted r', shakeHands around ids r = some (attempted, r') ∧ Loops base around ids r attempted r' := by
  induction ids generalizing r with
  | nil =>
      refine ⟨[], r, rfl, fun _ _ => rfl, iff_of_true ⟨?_, ?_⟩ skippable_nil⟩
      · exact fun _ hid => absurd hid List.not_mem_nil
      · exact fun _ hid => absurd hid List.not_mem_nil
  | cons id ids ih =>
      have hin := hids id List.mem_cons_self
      obtain ⟨hfresh, hrest⟩ := List.nodup_cons.mp hnodup
      let r₀ : EbNRadioBT2PSI P D := { r with discDevices := r.discDevices ∪ around.inserted id }
      let r₁ : EbNRadioBT2PSI P D := { r with discDevices := insert (base id).address r₀.discDevices }
      have htidy₀ : Tidy r₀.toEbNRadio := h
      have htidy₁ : Tidy r₁.toEbNRadio := h
      -- the rest of the loop, after the turn of `id`
      have hgo : ∀ {r₂ r₃ : EbNRadioBT2PSI P D}, Touches r₂ r₃ id → r₂.deviceMap = r.deviceMap →
          r₂.baseAt = r.baseAt →
          ∃ attempted r', shakeHands around ids r₃ = some (attempted, r') ∧ Loops base around ids r₃ attempted r' := by
        intro r₂ r₃ htouches hmap hsame
        refine ih hrest htouches.tidy (fun j hj => ?_) fun j hj => ?_
        · rw [htouches.map, hmap]
          exact hids j (List.mem_cons_of_mem _ hj)
        · rw [htouches.others j (ne_of_mem_of_not_mem hj hfresh), hsame, hbase j (List.mem_cons_of_mem _ hj)]
      rw [shakeHands_cons h hin, hbase id List.mem_cons_self]
      dsimp only
      split_ifs with hconfirmed hknown
      · obtain ⟨htouches, hshaken⟩ := setShakenHands_touches htidy₀ hin
        obtain ⟨attempted, r', hloop, hloops⟩ := hgo htouches rfl rfl
        refine ⟨attempted, r', hloop, .cons hfresh hloops hshaken htouches.others ?_ (Or.inl hconfirmed)
          (fun _ _ => Iff.rfl) fun hnot => absurd hconfirmed (by rw [hnot]; exact Bool.false_ne_true)⟩
        rw [htouches.discDevices, contacted, if_pos hconfirmed]
      · exact ⟨[], r₀, rfl, .leave hbase rfl rfl (Bool.eq_false_iff.mpr hconfirmed) hknown⟩
      · have hcontact := contact_touches htidy₁ hin (around.connect id)
        obtain ⟨hshake, hshaken⟩ := setShakenHands_touches hcontact.tidy (hcontact.map ▸ hin)
        have htouches := hcontact.trans hshake
        obtain ⟨attempted, r', hloop, hloops⟩ := hgo htouches rfl rfl
        refine ⟨id :: attempted, r', ?_, .cons hfresh hloops hshaken htouches.others ?_ (Or.inr hknown)
          (fun j hj => ?_) fun _ => List.mem_cons_self⟩
        · rw [hloop]
          rfl
        · rw [htouches.discDevices, contacted, if_neg hconfirmed]
        · exact List.mem_cons.trans (or_iff_right (ne_of_mem_of_not_mem hj hfresh))

/-! ## As a loop over connections -/

/-- What a connection does to a device. -/
def contactEffect (D : Type) [IsDevice D P] [Addressed D] [RadioDevice D] (sha256 : List Byte → Digest) :
    Option LinkValue → Effect sha256 D
  | some value =>
      { run := IsDevice.update fun d => d.addSharedSecret { SharedSecret.ofScheme .active with value }
        changed := fun d => by
          rw [RadioDevice.base_update]
          exact .op (.addSharedSecret _) _ }
  | none => ⟨fun d => d, fun _ => .refl _⟩

omit [FloatOps P] [IsDevice D P] [Addressed D] [RadioDevice D] in
theorem update_update (r : EbNRadio P D) (device : DeviceID) (f g : D → D) :
    (r.update device f).update device g = r.update device fun d => g (f d) := by
  simp only [EbNRadio.update, Function.update_self, Function.update_idem, Option.map_map]
  rfl

theorem contact_change (sha256 : List Byte → Digest) (r : EbNRadioBT2PSI P D) (device : DeviceID) (value : Option LinkValue) :
    ((r.contact device value).change device (·.setShakenHands true)).toEbNRadio
      = r.toEbNRadio.update device fun d =>
          IsDevice.update (·.setShakenHands true) ((contactEffect D sha256 value).run d) := by
  cases value with
  | none => rfl
  | some value => exact update_update _ _ _ _

omit [Addressed D] [RadioDevice D] in
theorem shakeHands_congr {sha256 : List Byte → Digest} {version : Version}
    {connect connect' : DeviceID → Option (Effect sha256 D)}
    (ids : List DeviceID) (h : ∀ id ∈ ids, connect id = connect' id) (r : EbNRadio P D) :
    EbNRadio.shakeHands version connect ids r = EbNRadio.shakeHands version connect' ids r := by
  induction ids generalizing r with
  | nil => rfl
  | cons id ids ih =>
      have hrest := ih fun j hj => h j (List.mem_cons_of_mem _ hj)
      rw [EbNRadio.shakeHands, EbNRadio.shakeHands, h id List.mem_cons_self]
      simp only [hrest]

end EbNRadioBT2PSI

end Sddr.Radio

import Sddr.Radio.EbNDeviceMap

/-!
# The two indexes stay mutually inverse
-/

namespace Sddr.Radio
open Sddr.Lib Sddr.Codec Sddr.Device

namespace Devices

variable {D : Type} [Addressed D] {digest : List Byte → Nat}

variable {s : Devices D} {a old address : Address} {i : DeviceID} {p q : DeviceID} {d e : D} {buckets : Buckets}

/-! ## What the operations leave -/

theorem heap_rekey (hd : s.heap p = some d) (q : DeviceID) :
    (s.rekey old address p).heap q = if q = p then some (Addressed.setAddress d address) else s.heap q := by
  show Function.update s.heap p _ q = _
  rw [Function.update_apply, hd]
  rfl

@[simp] theorem idToDevice_rekey : (s.rekey old address p).map.idToDevice = s.map.idToDevice := rfl

theorem lookup_rekey (hnew : s.map.addressToDevice.lookup address = none) (a : Address) :
    (s.rekey old address p).map.addressToDevice.lookup a
      = if a = address then some p else if a = old then none else s.map.addressToDevice.lookup a := by
  have hfree : (s.map.addressToDevice.erase old).lookup address = none := by
    rw [UMap.lookup_erase, hnew, ite_self]
  show (UMap.insertNew (s.map.addressToDevice.erase old) address p).lookup a = _
  rw [UMap.lookup_insertNew, hfree, UMap.lookup_erase]
  simp only [and_true]

theorem add_allocate : (s.allocate p d).add a p = some
    { heap := Function.update s.heap p (some d)
      map :=
        ⟨UMap.insertNew s.map.addressToDevice a p, UMap.insertNew s.map.idToDevice (Addressed.getID d) p⟩ } := by
  simp [add, allocate]

/-- A shifted match is an entry of the map whose address this one is a shift of. There is none only if the bucket has no
such entry. -/
theorem findShiftedMatch_cases (s : Devices D) (digest : List Byte → Nat) (buckets : Buckets) (address : Address) :
    (s.findShiftedMatch digest buckets address = (none, s) ∧
      ∀ old p, s.map.addressToDevice.lookup old = some p →
        buckets.bucket digest old = buckets.bucket digest address.unshift → ¬ address.isShift old = true) ∨
      ∃ old p, s.map.addressToDevice.lookup old = some p ∧ address.isShift old = true ∧
        s.findShiftedMatch digest buckets address = (some p, s.rekey old address p) := by
  unfold findShiftedMatch
  dsimp only
  split
  next entry hfind =>
    obtain ⟨old, p⟩ := entry
    have hin := (buckets.perm _).mem_iff.mp (List.mem_of_find?_eq_some hfind)
    have hshift := List.find?_some hfind
    exact Or.inr ⟨old, p, AList.mem_lookup_iff.mpr (List.mem_filter.mp hin).1, hshift, rfl⟩
  next hfind =>
    refine Or.inl ⟨rfl, fun old p hlookup hbucket => ?_⟩
    refine List.find?_eq_none.mp hfind ⟨old, p⟩ ((buckets.perm _).mem_iff.mpr (List.mem_filter.mpr ⟨?_, ?_⟩))
    · exact AList.mem_lookup_iff.mp hlookup
    · exact decide_eq_true hbucket

theorem getAddress_cases (s : Devices D) (digest : List Byte → Nat) (buckets : Buckets) (address : Address) :
    (∃ p, s.map.addressToDevice.lookup address = some p ∧ s.getAddress digest buckets address = (some p, s)) ∨
      s.map.addressToDevice.lookup address = none ∧
        s.getAddress digest buckets address = s.findShiftedMatch digest buckets address := by
  unfold getAddress findExactMatch
  cases h : s.map.addressToDevice.lookup address with
  | some p => exact Or.inl ⟨p, rfl, rfl⟩
  | none => exact Or.inr ⟨rfl, rfl⟩

/-- `get(address)` returns `NULL` only for an address that is not in the map. -/
theorem lookup_of_getAddress (h : (s.getAddress digest buckets address).1 = none) :
    s.map.addressToDevice.lookup address = none := by
  obtain ⟨p, -, heq⟩ | ⟨hnone, -⟩ := getAddress_cases s digest buckets address
  · rw [heq] at h
    cases h
  · exact hnone

/-! ## The indexes of a consistent map -/

theorem new_consistent (heap : DeviceID → Option D) : (new heap).Consistent := by
  constructor
  · intro a p
    constructor
    · intro h
      cases (AList.lookup_empty a).symm.trans h
    · rintro ⟨d, -, -, h⟩
      cases (AList.lookup_empty (Addressed.getID d)).symm.trans h
  · intro i p h
    cases (AList.lookup_empty i).symm.trans h

namespace Consistent

/-- A device stands under one address. -/
theorem address_eq (h : s.Consistent) (ha : s.map.addressToDevice.lookup a = some p) (hd : s.heap p = some d) :
    Addressed.getAddress d = a := by
  obtain ⟨d', hd', haddr, -⟩ := (h.address a p).mp ha
  rw [hd] at hd'
  cases hd'
  exact haddr

theorem id_eq (h : s.Consistent) (hi : s.map.idToDevice.lookup i = some p) (hd : s.heap p = some d) :
    Addressed.getID d = i := by
  obtain ⟨d', hd', hid⟩ := h.id i p hi
  rw [hd] at hd'
  cases hd'
  exact hid

theorem lookup_getAddress (h : s.Consistent) (hi : s.map.idToDevice.lookup i = some p) (hd : s.heap p = some d) :
    s.map.addressToDevice.lookup (Addressed.getAddress d) = some p := by
  rw [← h.id_eq hi hd] at hi
  exact (h.address _ p).mpr ⟨d, hd, rfl, hi⟩

/-- Different devices have different addresses and ids. -/
theorem distinct (h : s.Consistent) : s.Distinct := by
  intro i j p q d e hi hj hpq hd he
  constructor
  · intro heq
    have hp := h.lookup_getAddress hi hd
    rw [heq, h.lookup_getAddress hj he] at hp
    exact hpq (Option.some.inj hp).symm
  · intro heq
    rw [← h.id_eq hi hd, heq, h.id_eq hj he, hj] at hi
    exact hpq (Option.some.inj hi).symm

/-! ## The operations -/

/-- The device that moved stands under its new address, and the others under theirs. -/
theorem rekey [LawfulAddressed D] (h : s.Consistent) (hold : s.map.addressToDevice.lookup old = some p)
    (hnew : s.map.addressToDevice.lookup address = none) : (s.rekey old address p).Consistent := by
  obtain ⟨d, hd, haddr, hid⟩ := (h.address old p).mp hold
  constructor
  · intro a q
    rw [lookup_rekey hnew, heap_rekey hd, idToDevice_rekey]
    by_cases hq : q = p
    · subst hq
      rw [if_pos rfl]
      constructor
      · intro ha
        refine ⟨_, rfl, ?_, (LawfulAddressed.getID_setAddress d address).symm ▸ hid⟩
        rw [LawfulAddressed.getAddress_setAddress]
        split at ha
        next heq => exact heq.symm
        next =>
          split at ha
          next => cases ha
          next hne => exact absurd ((h.address_eq ha hd).symm.trans haddr) hne
      · rintro ⟨d', hd', rfl, -⟩
        cases hd'
        rw [LawfulAddressed.getAddress_setAddress, if_pos rfl]
    · rw [if_neg hq, ← h.address a q]
      split
      next heq =>
        subst heq
        simp [hnew, Ne.symm hq]
      next =>
        split
        next heq =>
          subst heq
          simp [hold, Ne.symm hq]
        next => rfl
  · intro i q hi
    rw [heap_rekey hd]
    split
    next heq =>
      subst heq
      exact ⟨_, rfl, (LawfulAddressed.getID_setAddress d address).trans (h.id_eq hi hd)⟩
    next => exact h.id i q hi

theorem getAddress [LawfulAddressed D] (h : s.Consistent) (digest : List Byte → Nat) (buckets : Buckets)
    (address : Address) : (s.getAddress digest buckets address).2.Consistent := by
  obtain ⟨p, -, heq⟩ | ⟨hnone, heq⟩ := getAddress_cases s digest buckets address
  · rw [heq]
    exact h
  · rw [heq]
    obtain ⟨hmiss, -⟩ | ⟨old, p, hold, -, hmatch⟩ := findShiftedMatch_cases s digest buckets address
    · rw [hmiss]
      exact h
    · rw [hmatch]
      exact h.rekey hold hnone

/-- A device is added under its own address and an id of its own. -/
theorem add (h : s.Consistent) (hnone : s.map.addressToDevice.lookup (Addressed.getAddress d) = none)
    (hfresh : s.heap p = none) (hid : Addressed.getID d ∉ s.map.idToDevice) :
    ∃ s', (s.allocate p d).add (Addressed.getAddress d) p = some s' ∧ s'.Consistent := by
  have hnotin : s.map.idToDevice.lookup (Addressed.getID d) = none := AList.lookup_eq_none.mpr hid
  have hdead : ∀ {i}, s.map.idToDevice.lookup i ≠ some p := by
    intro i hi
    obtain ⟨e, he, -⟩ := h.id i p hi
    cases hfresh.symm.trans he
  have hunheld : ∀ {a}, s.map.addressToDevice.lookup a ≠ some p := by
    intro a ha
    obtain ⟨e, he, -⟩ := (h.address a p).mp ha
    cases hfresh.symm.trans he
  refine ⟨_, add_allocate, ?_, ?_⟩
  · intro a q
    dsimp only
    rw [UMap.lookup_insertNew, Function.update_apply]
    simp only [UMap.lookup_insertNew, hnone, hnotin, and_true]
    by_cases hq : q = p
    · subst hq
      rw [if_pos rfl]
      simp only [Option.some.injEq, exists_eq_left', if_true, and_true]
      split
      next heq => simp [heq]
      next hne => simp only [hunheld, Ne.symm hne]
    · rw [if_neg hq]
      split
      next heq =>
        subst heq
        constructor
        · intro heq
          exact absurd (Option.some.inj heq).symm hq
        · rintro ⟨e, he, haddr, hide⟩
          split at hide
          next => exact absurd (Option.some.inj hide).symm hq
          next =>
            rw [← haddr, h.lookup_getAddress hide he] at hnone
            cases hnone
      next =>
        rw [h.address a q]
        refine exists_congr fun e => and_congr_right fun he => and_congr_right fun _ => ?_
        split
        next heq =>
          rw [heq, hnotin]
          simp [Ne.symm hq]
        next => rfl
  · intro i q hi
    dsimp only at hi ⊢
    rw [UMap.lookup_insertNew] at hi
    rw [Function.update_apply]
    split at hi
    next heq =>
      cases hi
      exact ⟨d, if_pos rfl, heq.1.symm⟩
    next =>
      rw [if_neg fun heq => hdead (heq ▸ hi)]
      exact h.id i q hi

/-- Both entries of a device go at once. -/
theorem delete (h : s.Consistent) (hd : s.heap p = some d)
    (hi : s.map.idToDevice.lookup (Addressed.getID d) = some p) :
    (s.delete (Addressed.getAddress d) (Addressed.getID d) p).Consistent := by
  constructor
  · intro a q
    show (s.map.addressToDevice.erase _).lookup a = _ ↔ ∃ e, Function.update s.heap p none q = _ ∧ _ ∧
      (s.map.idToDevice.erase _).lookup _ = _
    rw [UMap.lookup_erase, Function.update_apply]
    simp only [UMap.lookup_erase]
    by_cases hq : q = p
    · subst hq
      rw [if_pos rfl]
      constructor
      · intro ha
        split at ha
        next => cases ha
        next hne => exact absurd (h.address_eq ha hd).symm hne
      · rintro ⟨e, he, -⟩
        cases he
    · rw [if_neg hq]
      split
      next heq =>
        subst heq
        constructor
        · intro heq
          cases heq
        · rintro ⟨e, he, haddr, hide⟩
          split at hide
          next => cases hide
          next =>
            have hthere := h.lookup_getAddress hide he
            rw [haddr, h.lookup_getAddress hi hd] at hthere
            exact absurd (Option.some.inj hthere).symm hq
      next =>
        rw [h.address a q]
        refine exists_congr fun e => and_congr_right fun he => and_congr_right fun _ => ?_
        split
        next heq =>
          rw [heq, hi]
          simp [Ne.symm hq]
        next => rfl
  · intro i q hi'
    replace hi' : (s.map.idToDevice.erase (Addressed.getID d)).lookup i = some q := hi'
    rw [UMap.lookup_erase] at hi'
    show ∃ e, Function.update s.heap p none q = _ ∧ _
    rw [Function.update_apply]
    split at hi'
    next => cases hi'
    next hne =>
      have hq : q ≠ p := by
        rintro rfl
        exact hne (h.id_eq hi' hd).symm
      rw [if_neg hq]
      exact h.id i q hi'

/-- An address that is in the map can be removed. -/
theorem removeAddress (h : s.Consistent) (a : Address) :
    ∃ result, s.removeAddress a = some result ∧ result.2.Consistent := by
  unfold Devices.removeAddress
  cases ha : s.map.addressToDevice.lookup a with
  | none => exact ⟨_, rfl, h⟩
  | some p =>
      obtain ⟨d, hd, rfl, hid⟩ := (h.address a p).mp ha
      have hin : Addressed.getID d ∈ s.map.idToDevice := AList.lookup_isSome.mp (by rw [hid]; rfl)
      refine ⟨(true, s.delete (Addressed.getAddress d) (Addressed.getID d) p), ?_, h.delete hd hid⟩
      simp [hd, hin]

theorem removeID (h : s.Consistent) (i : DeviceID) : ∃ result, s.removeID i = some result ∧ result.2.Consistent := by
  unfold Devices.removeID
  cases hi : s.map.idToDevice.lookup i with
  | none => exact ⟨_, rfl, h⟩
  | some p =>
      obtain ⟨d, hd, rfl⟩ := h.id i p hi
      have hin : Addressed.getAddress d ∈ s.map.addressToDevice :=
        AList.lookup_isSome.mp (by rw [h.lookup_getAddress hi hd]; rfl)
      refine ⟨(true, s.delete (Addressed.getAddress d) (Addressed.getID d) p), ?_, h.delete hd hi⟩
      simp [hd, hin]

end Consistent

end Devices

namespace MapOp
open Devices

variable {D : Type} [Addressed D] [LawfulAddressed D] {digest : List Byte → Nat} {s : Devices D}

theorem step_consistent {op : MapOp D} (h : s.Consistent) (hop : op.Legal digest s) :
    ∃ s', op.step digest s = some s' ∧ s'.Consistent := by
  cases op with
  | getAddress address buckets => exact ⟨_, rfl, h.getAddress digest buckets address⟩
  | getID id => exact ⟨s, rfl, h⟩
  | add address device d =>
      obtain ⟨⟨buckets, hnone⟩, hfresh, hid, rfl⟩ := hop
      exact h.add (lookup_of_getAddress hnone) hfresh hid
  | removeAddress address =>
      obtain ⟨result, heq, hresult⟩ := h.removeAddress address
      exact ⟨result.2, congrArg (Option.map Prod.snd) heq, hresult⟩
  | removeID id =>
      obtain ⟨result, heq, hresult⟩ := h.removeID id
      exact ⟨result.2, congrArg (Option.map Prod.snd) heq, hresult⟩
  | clear => exact ⟨s.clear, rfl, new_consistent s.heap⟩

theorem run_consistent {ops : List (MapOp D)} (h : s.Consistent) (hops : AllLegal digest s ops) :
    ∃ s', run digest s ops = some s' ∧ s'.Consistent := by
  induction ops generalizing s with
  | nil => exact ⟨s, rfl, h⟩
  | cons op ops ih =>
      obtain ⟨hop, hrest⟩ := hops
      obtain ⟨s', hstep, hs'⟩ := step_consistent h hop
      obtain ⟨s'', hrun, hs''⟩ := ih hs' (hrest s' hstep)
      refine ⟨s'', ?_, hs''⟩
      rw [← hrun]
      exact congrArg (· >>= fun s' => ops.foldlM (step digest) s') hstep

end MapOp

end Sddr.Radio

import Sddr.Radio.Identity
import Sddr.Radio.Lemmas.EbNDeviceMap

/-!
# A device keeps its identity

`Follows` says which device and which address stand for a sender.
-/

namespace Sddr.Radio
open Sddr.Lib Sddr.Codec Sddr.Device

/-! ## Halves of addresses -/

section
variable {h : Nat} {a b : Address}

theorem half_eq (ha : a.length = 2 * h) : a.length / 2 = h := by
  rw [ha, Nat.mul_div_cancel_left h Nat.two_pos]

theorem isShift_iff (ha : a.length = 2 * h) (hb : b.length = 2 * h) :
    a.isShift b = true ↔ a.drop h = b.take h := by
  unfold Address.isShift
  rw [half_eq ha, List.all_eq_true]
  constructor
  · intro hall
    refine List.ext_getElem (by simp [ha, hb]; omega) fun i hi _ => ?_
    have hih : i < h := by simp [ha] at hi; omega
    have heq := beq_iff_eq.mp (hall i (List.mem_range.mpr hih))
    simpa [List.getD_eq_getElem?_getD, show h + i < a.length by omega, show i < b.length by omega,
      Nat.add_comm i h] using heq
  · intro heq i hi
    have hih := List.mem_range.mp hi
    have hat := congrArg (fun l : List Byte => l.getD i 0) heq
    simpa [List.getD_eq_getElem?_getD, List.getElem?_drop, hih, Nat.add_comm] using hat

theorem hashed_unshift (ha : a.length = 2 * h) : a.unshift.hashed = a.drop h := by
  have hdrop : (a.drop h).length = h := by simp [ha, Nat.two_mul]
  have hlength : a.unshift.length = 2 * h := by simp [Address.unshift, ha]; omega
  unfold Address.hashed
  rw [half_eq hlength]
  unfold Address.unshift
  rw [half_eq ha, List.take_append_of_le_length (by simp [hdrop]), List.take_take, Nat.min_self,
    List.take_of_length_le (Nat.le_of_eq hdrop)]

theorem length_withPartial (value mask : Byte) (part : List Byte) :
    (Address.withPartial value mask part).length = part.length := by
  cases part with
  | nil => rfl
  | cons b rest => simp [Address.withPartial]

theorem length_shiftWithPartial (ha : a.length = 2 * h) (value mask : Byte) (rand : Nat → Byte) :
    (a.shiftWithPartial value mask rand).length = 2 * h := by
  simp [Address.shiftWithPartial, length_withPartial, ha]
  omega

theorem drop_shiftWithPartial (ha : a.length = 2 * h) (value mask : Byte) (rand : Nat → Byte) :
    (a.shiftWithPartial value mask rand).drop h = a.take h := by
  unfold Address.shiftWithPartial
  rw [half_eq ha]
  exact List.drop_left' (by simp [length_withPartial])

end

/-- All addresses of a sequence have one size, and each one's second half is the first half of the one before. -/
theorem ShiftSequence.halves {h : Nat} {a : Nat → Address} (ha : ShiftSequence (2 * h) a) (n : Nat) :
    (a n).length = 2 * h ∧ (a (n + 1)).drop h = (a n).take h := by
  have hlength : ∀ n, (a n).length = 2 * h := by
    intro n
    induction n with
    | zero => exact ha.1
    | succ n ih =>
        obtain ⟨value, mask, rand, heq⟩ := ha.2 n
        rw [heq]
        exact length_shiftWithPartial ih value mask rand
  obtain ⟨value, mask, rand, heq⟩ := ha.2 n
  rw [heq]
  exact ⟨hlength n, drop_shiftWithPartial (hlength n) value mask rand⟩

/-! ## Matches -/

namespace Devices

variable {D : Type} [Addressed D] {digest : List Byte → Nat} {s : Devices D} {buckets : Buckets} {address old : Address}
  {p : DeviceID}

/-- An address whose predecessor is in the map is found. -/
theorem getAddress_of_shift {h : Nat} (haddress : address.length = 2 * h) (hold : old.length = 2 * h)
    (hlookup : s.map.addressToDevice.lookup old = some p) (hshift : address.drop h = old.take h) :
    (s.getAddress digest buckets address).1 ≠ none := by
  obtain ⟨q, -, heq⟩ | ⟨-, heq⟩ := getAddress_cases s digest buckets address
  · rw [heq]
    exact Option.some_ne_none q
  · have hbucket : buckets.bucket digest old = buckets.bucket digest address.unshift := by
      unfold Buckets.bucket
      rw [hashed_unshift haddress, hshift, Address.hashed, half_eq hold]
    obtain ⟨-, hmiss⟩ | ⟨old', p', -, -, hmatch⟩ := findShiftedMatch_cases s digest buckets address
    · exact absurd ((isShift_iff haddress hold).mpr hshift) (hmiss old p hlookup hbucket)
    · rw [heq, hmatch]
      exact Option.some_ne_none p'

end Devices

/-! ## Which device stands for a sender -/

namespace Sighted

variable {S D : Type} [DecidableEq S] [Addressed D] {digest : List Byte → Nat} {a : S → Nat → Address}
  {t t' : Sighted S D} {e : AddressSighting S D} {h : Nat}

/-- Each sighted sender has one device, stored under the sender's last address, and the map holds nothing else. -/
structure Follows (a : S → Nat → Address) (t : Sighted S D) : Prop where
  same : ∀ sender n p, (sender, n, p) ∈ t.seen → ∃ m, t.seen.lookup sender = some (m, p)
  stored : ∀ address p, t.devices.map.addressToDevice.lookup address = some p ↔
    ∃ sender n, t.seen.lookup sender = some (n, p) ∧ a sender n = address
  injective : ∀ sender sender' n n' p, t.seen.lookup sender = some (n, p) → t.seen.lookup sender' = some (n', p) →
    sender = sender'
  live : ∀ sender n p, t.seen.lookup sender = some (n, p) → t.devices.heap p ≠ none

omit [Addressed D] in
theorem follows_start (heap : DeviceID → Option D) : (start heap : Sighted S D).Follows a where
  same _ _ _ hin := by cases hin
  stored address p := by
    constructor
    · intro hlookup
      cases (AList.lookup_empty address).symm.trans hlookup
    · rintro ⟨_, _, hseen, _⟩
      cases hseen
  injective _ _ _ _ _ hseen := by cases hseen
  live _ _ _ hseen := by cases hseen

theorem lookup_see (seen : List (S × Nat × DeviceID)) (sender sender' : S) (entry : Nat × DeviceID) :
    ((sender, entry) :: seen).lookup sender' = if sender' = sender then some entry else seen.lookup sender' := by
  by_cases heq : sender' = sender
  · subst heq
    rw [List.lookup_cons_self, if_pos rfl]
  · rw [List.lookup_cons, beq_eq_false_iff_ne.mpr heq, if_neg heq]

namespace Follows

omit [Addressed D]

/-- A device is stored under one address. -/
theorem stored_eq (hf : t.Follows a) {b b' : Address} {p : DeviceID}
    (hb : t.devices.map.addressToDevice.lookup b = some p) (hb' : t.devices.map.addressToDevice.lookup b' = some p) :
    b = b' := by
  obtain ⟨sender, n, hseen, rfl⟩ := (hf.stored b p).mp hb
  obtain ⟨sender', n', hseen', rfl⟩ := (hf.stored b' p).mp hb'
  obtain rfl := hf.injective _ _ _ _ _ hseen hseen'
  rw [hseen] at hseen'
  cases hseen'
  rfl

/-- The sender gets the device `p`, which no other sender has, and only `p` is stored otherwise than before. -/
theorem see (hf : t.Follows a) {sender : S} {index : Nat} {p : DeviceID} {devices : Devices D}
    (hown : ∀ n q, t.seen.lookup sender = some (n, q) → q = p)
    (hfree : ∀ sender' n, t.seen.lookup sender' = some (n, p) → sender' = sender)
    (hlive : devices.heap p ≠ none) (hkept : ∀ q, t.devices.heap q ≠ none → devices.heap q ≠ none)
    (hlookup : ∀ b q, devices.map.addressToDevice.lookup b = some q ↔
      q = p ∧ a sender index = b ∨ q ≠ p ∧ t.devices.map.addressToDevice.lookup b = some q) :
    (⟨devices, (sender, index, p) :: t.seen⟩ : Sighted S D).Follows a where
  same s n q hin := by
    rw [lookup_see]
    rcases List.mem_cons.mp hin with heq | hin
    · cases heq
      exact ⟨index, if_pos rfl⟩
    · obtain ⟨m, hm⟩ := hf.same s n q hin
      split
      next heq =>
        subst heq
        exact ⟨index, by rw [hown m q hm]⟩
      next => exact ⟨m, hm⟩
  stored b q := by
    rw [hlookup, hf.stored]
    constructor
    · rintro (⟨rfl, rfl⟩ | ⟨hq, s, n, hseen, hb⟩)
      · exact ⟨sender, index, by rw [lookup_see, if_pos rfl], rfl⟩
      · refine ⟨s, n, ?_, hb⟩
        rw [lookup_see, if_neg]
        · exact hseen
        · rintro rfl
          exact hq (hown n q hseen)
    · rintro ⟨s, n, hseen, hb⟩
      rw [lookup_see] at hseen
      split at hseen
      next heq =>
        cases hseen
        exact Or.inl ⟨rfl, heq ▸ hb⟩
      next hne =>
        refine Or.inr ⟨?_, s, n, hseen, hb⟩
        rintro rfl
        exact hne (hfree s n hseen)
  injective s s' n n' q hs hs' := by
    rw [lookup_see] at hs hs'
    split at hs <;> split at hs'
    next h h' => exact h.trans h'.symm
    next h h' =>
      cases hs
      exact absurd (hfree s' n' hs') h'
    next h h' =>
      cases hs'
      exact absurd (hfree s n hs) h
    next => exact hf.injective s s' n n' q hs hs'
  live s n q hs := by
    rw [lookup_see] at hs
    split at hs
    next =>
      cases hs
      exact hlive
    next => exact hkept q (hf.live s n q hs)

/-- What is stored under an address that matches in one of its halves belongs to the sender. -/
theorem owner (hf : t.Follows a) (hseq : ∀ sender, ShiftSequence (2 * h) (a sender)) (hapart : t.Apart a e)
    {stored : Address} {p : DeviceID} (hlookup : t.devices.map.addressToDevice.lookup stored = some p)
    (hhalf : (a e.sender e.index).take h = stored.take h ∨ (a e.sender e.index).drop h = stored.take h) :
    ∃ n, t.seen.lookup e.sender = some (n, p) ∧ a e.sender n = stored := by
  obtain ⟨sender, n, hseen, rfl⟩ := (hf.stored stored p).mp hlookup
  by_cases hsender : sender = e.sender
  · subst hsender
    exact ⟨n, hseen, rfl⟩
  · obtain ⟨l, l', heq, -⟩ := List.lookup_eq_some_iff.mp hseen
    have hin : (sender, n, p) ∈ t.seen := by simp [heq]
    have hboth := hapart sender n p _ hin hsender hlookup
    simp only [half_eq ((hseq e.sender).halves e.index).1] at hboth
    exact absurd hhalf (not_or.mpr hboth)

/-- What is stored once the device under `old` got an address that is not in the map. -/
theorem lookup_rekey (hf : t.Follows a) {old address : Address} {p : DeviceID}
    (hold : t.devices.map.addressToDevice.lookup old = some p)
    (hnone : t.devices.map.addressToDevice.lookup address = none) (b : Address) (q : DeviceID) :
    (if b = address then some p else if b = old then none else t.devices.map.addressToDevice.lookup b) = some q ↔
      q = p ∧ address = b ∨ q ≠ p ∧ t.devices.map.addressToDevice.lookup b = some q := by
  by_cases hqp : q = p
  · subst hqp
    simp only [true_and, ne_eq, not_true_eq_false, false_and, or_false]
    split
    next hb => simp [hb]
    next hb =>
      refine ⟨fun hthere => ?_, fun h => absurd h.symm hb⟩
      split at hthere
      next => cases hthere
      next hne => exact absurd (hf.stored_eq hthere hold) hne
  · simp only [hqp, false_and, ne_eq, not_false_eq_true, true_and, false_or]
    split
    next hb =>
      subst hb
      simp [hnone, Ne.symm hqp]
    next =>
      split
      next hb =>
        subst hb
        simp [hold, Ne.symm hqp]
      next => rfl

section
variable {n : Nat} {p : DeviceID} (hseen : t.seen.lookup e.sender = some (n, p))
include hseen

/-- A known sender is seen again: its device stays, and only that one is stored otherwise than before. -/
theorem see_again (hf : t.Follows a) {devices : Devices D} (hlive : devices.heap p ≠ none)
    (hkept : ∀ q, t.devices.heap q ≠ none → devices.heap q ≠ none)
    (hlookup : ∀ b q, devices.map.addressToDevice.lookup b = some q ↔
      q = p ∧ a e.sender e.index = b ∨ q ≠ p ∧ t.devices.map.addressToDevice.lookup b = some q) :
    (⟨devices, (e.sender, e.index, p) :: t.seen⟩ : Sighted S D).Follows a := by
  refine hf.see (fun m q hm => ?_) (fun sender m hm => hf.injective _ _ _ _ _ hm hseen) hlive hkept hlookup
  rw [hseen] at hm
  cases hm
  rfl

theorem owner_eq (hf : t.Follows a) (hseq : ∀ sender, ShiftSequence (2 * h) (a sender)) (hapart : t.Apart a e)
    {stored : Address} {q : DeviceID} (hlookup : t.devices.map.addressToDevice.lookup stored = some q)
    (hhalf : (a e.sender e.index).take h = stored.take h ∨ (a e.sender e.index).drop h = stored.take h) : q = p := by
  obtain ⟨m, hm, -⟩ := hf.owner hseq hapart hlookup hhalf
  rw [hseen] at hm
  cases hm
  rfl

end

end Follows

/-! ## A sighting -/

section
variable {n : Nat} {p : DeviceID} (hf : t.Follows a) (hseq : ∀ sender, ShiftSequence (2 * h) (a sender))
  (hapart : t.Apart a e) (hseen : t.seen.lookup e.sender = some (n, p))
include hf hseq hapart hseen

omit [Addressed D] in
/-- The address is in the map. -/
theorem sight_stored {q : DeviceID} (hq : t.devices.map.addressToDevice.lookup (a e.sender e.index) = some q) :
    q = p ∧ (⟨t.devices, (e.sender, e.index, p) :: t.seen⟩ : Sighted S D).Follows a := by
  obtain rfl := hf.owner_eq hseen hseq hapart hq (Or.inl rfl)
  refine ⟨rfl, hf.see_again hseen (hf.live _ _ _ hseen) (fun _ => id) fun b q' => ?_⟩
  by_cases hqq : q' = q
  · subst hqq
    simp only [true_and, ne_eq, not_true_eq_false, false_and, or_false]
    exact ⟨fun hb => hf.stored_eq hq hb, fun hb => hb ▸ hq⟩
  · simp [hqq]

/-- The address is a shift of one that is in the map. -/
theorem sight_shifted {old : Address} {q : DeviceID}
    (hnone : t.devices.map.addressToDevice.lookup (a e.sender e.index) = none)
    (hold : t.devices.map.addressToDevice.lookup old = some q) (hshift : (a e.sender e.index).isShift old = true) :
    q = p ∧ (⟨t.devices.rekey old (a e.sender e.index) q, (e.sender, e.index, p) :: t.seen⟩ : Sighted S D).Follows a := by
  have hlength : old.length = 2 * h := by
    obtain ⟨sender, m, -, rfl⟩ := (hf.stored old q).mp hold
    exact ((hseq sender).halves m).1
  obtain rfl := hf.owner_eq hseen hseq hapart hold (Or.inr ((isShift_iff ((hseq _).halves _).1 hlength).mp hshift))
  obtain ⟨d, hd⟩ := Option.ne_none_iff_exists'.mp (hf.live _ _ _ hseen)
  refine ⟨rfl, hf.see_again hseen ?_ (fun q' hq' => ?_) fun b q' => ?_⟩
  · rw [Devices.heap_rekey hd, if_pos rfl]
    exact Option.some_ne_none _
  · rw [Devices.heap_rekey hd]
    split
    next => exact Option.some_ne_none _
    next => exact hq'
  · rw [Devices.lookup_rekey hnone]
    exact hf.lookup_rekey hold hnone b q'

/-- A sighting of a sender that is known returns its device. -/
theorem sight_known (hindex : e.index = n ∨ e.index = n + 1) :
    ∃ devices, t.devices.sight digest e.buckets (a e.sender e.index) e.fresh e.device = some (p, devices) ∧
      (⟨devices, (e.sender, e.index, p) :: t.seen⟩ : Sighted S D).Follows a := by
  unfold Devices.sight
  obtain ⟨q, hq, heq⟩ | ⟨hnone, heq⟩ := Devices.getAddress_cases t.devices digest e.buckets (a e.sender e.index)
  · obtain ⟨rfl, hfollows⟩ := sight_stored hf hseq hapart hseen hq
    rw [heq]
    exact ⟨t.devices, rfl, hfollows⟩
  · have hstored : t.devices.map.addressToDevice.lookup (a e.sender n) = some p := (hf.stored _ p).mpr ⟨_, n, hseen, rfl⟩
    have hfound : (t.devices.getAddress digest e.buckets (a e.sender e.index)).1 ≠ none := by
      rcases hindex with hn | hn
      · rw [hn, hstored] at hnone
        cases hnone
      · refine Devices.getAddress_of_shift ((hseq _).halves _).1 ((hseq _).halves n).1 hstored ?_
        rw [hn]
        exact ((hseq e.sender).halves n).2
    obtain ⟨hmiss, -⟩ | ⟨old, q, hold, hshift, hmatch⟩ :=
      Devices.findShiftedMatch_cases t.devices digest e.buckets (a e.sender e.index)
    · rw [heq, hmiss] at hfound
      exact absurd rfl hfound
    · obtain ⟨rfl, hfollows⟩ := sight_shifted hf hseq hapart hseen hnone hold hshift
      rw [heq, hmatch]
      exact ⟨_, rfl, hfollows⟩

end

/-- A sender that is not known gets a device of its own. -/
theorem sight_unknown (hf : t.Follows a) (hseq : ∀ sender, ShiftSequence (2 * h) (a sender)) (hapart : t.Apart a e)
    (hfresh : t.Fresh digest a e) (hseen : t.seen.lookup e.sender = none) :
    ∃ p devices, t.devices.sight digest e.buckets (a e.sender e.index) e.fresh e.device = some (p, devices) ∧
      (⟨devices, (e.sender, e.index, p) :: t.seen⟩ : Sighted S D).Follows a := by
  have hmiss : t.devices.getAddress digest e.buckets (a e.sender e.index) = (none, t.devices) := by
    have hunowned : ∀ {stored p}, t.devices.map.addressToDevice.lookup stored = some p →
        ¬ ((a e.sender e.index).take h = stored.take h ∨ (a e.sender e.index).drop h = stored.take h) := by
      intro stored p hstored hhalf
      obtain ⟨n, hn, -⟩ := hf.owner hseq hapart hstored hhalf
      cases hseen.symm.trans hn
    obtain ⟨p, hp, -⟩ | ⟨-, heq⟩ := Devices.getAddress_cases t.devices digest e.buckets (a e.sender e.index)
    · exact absurd (Or.inl rfl) (hunowned hp)
    · obtain ⟨hmiss, -⟩ | ⟨old, p, hold, hshift, -⟩ :=
        Devices.findShiftedMatch_cases t.devices digest e.buckets (a e.sender e.index)
      · exact heq.trans hmiss
      · obtain ⟨sender, n, -, rfl⟩ := (hf.stored old p).mp hold
        have hhalf := (isShift_iff ((hseq _).halves _).1 ((hseq sender).halves n).1).mp hshift
        exact absurd (Or.inr hhalf) (hunowned hold)
  have hnull : (t.devices.getAddress digest e.buckets (a e.sender e.index)).1 = none := by rw [hmiss]
  obtain ⟨hdead, -, -⟩ := hfresh hnull
  have hnone := Devices.lookup_of_getAddress hnull
  have hunheld : ∀ s n, t.seen.lookup s ≠ some (n, e.fresh) := fun s n hn => hf.live s n _ hn hdead
  unfold Devices.sight
  rw [hmiss]
  dsimp only
  rw [Devices.add_allocate]
  refine ⟨e.fresh, _, rfl, hf.see ?_ (fun s n hn => absurd hn (hunheld s n)) ?_ (fun q hq => ?_) fun b q => ?_⟩
  · intro n q hn
    cases hseen.symm.trans hn
  · simp
  · dsimp only
    rw [Function.update_apply]
    split
    next => exact Option.some_ne_none _
    next => exact hq
  · dsimp only
    rw [UMap.lookup_insertNew, hnone]
    simp only [and_true]
    split
    next hb =>
      subst hb
      simp [hnone, eq_comm]
    next hb =>
      constructor
      · intro hthere
        refine Or.inr ⟨?_, hthere⟩
        rintro rfl
        obtain ⟨s, n, hn, -⟩ := (hf.stored b _).mp hthere
        exact hunheld s n hn
      · rintro (⟨-, heq⟩ | ⟨-, hthere⟩)
        · exact absurd heq.symm hb
        · exact hthere

/-! ## Runs -/

theorem step_follows (hf : t.Follows a) (hseq : ∀ sender, ShiftSequence (2 * h) (a sender)) (horder : t.InOrder e)
    (hapart : t.Apart a e) (hfresh : t.Fresh digest a e) : ∃ t', t.step digest a e = some t' ∧ t'.Follows a := by
  have hstep : ∃ p devices, t.devices.sight digest e.buckets (a e.sender e.index) e.fresh e.device = some (p, devices) ∧
      (⟨devices, (e.sender, e.index, p) :: t.seen⟩ : Sighted S D).Follows a := by
    unfold InOrder at horder
    split at horder
    next hseen => exact sight_unknown hf hseq hapart hfresh hseen
    next n p hseen => exact ⟨p, sight_known hf hseq hapart hseen horder⟩
  obtain ⟨p, devices, hsight, hfollows⟩ := hstep
  exact ⟨_, by rw [step, hsight]; rfl, hfollows⟩

theorem run_follows {events : List (AddressSighting S D)} (hf : t.Follows a)
    (hseq : ∀ sender, ShiftSequence (2 * h) (a sender)) (hevents : t.AllInOrder digest a events) :
    ∃ t', t.run digest a events = some t' ∧ t'.Follows a := by
  induction events generalizing t with
  | nil => exact ⟨t, rfl, hf⟩
  | cons e events ih =>
      obtain ⟨⟨horder, hapart, hfresh⟩, hrest⟩ := hevents
      obtain ⟨t', hstep, hf'⟩ := step_follows hf hseq horder hapart hfresh
      obtain ⟨t'', hrun, hf''⟩ := ih hf' (hrest t' hstep)
      refine ⟨t'', ?_, hf''⟩
      rw [← hrun]
      exact congrArg (· >>= fun t' => events.foldlM (step digest a) t') hstep

omit [DecidableEq S] in
/-- Every sighting is recorded. -/
theorem run_seen {events : List (AddressSighting S D)} (hrun : t.run digest a events = some t') :
    t'.seen.map (fun x => (x.1, x.2.1))
      = (events.map fun e => (e.sender, e.index)).reverse ++ t.seen.map fun x => (x.1, x.2.1) := by
  induction events generalizing t with
  | nil =>
      cases hrun
      rfl
  | cons e events ih =>
      obtain ⟨u, hstep, hrest⟩ := Option.bind_eq_some_iff.mp hrun
      obtain ⟨result, -, rfl⟩ := Option.map_eq_some_iff.mp hstep
      rw [ih hrest]
      simp

omit [Addressed D] in
/-- The devices tell the senders apart. -/
theorem Follows.device_eq_iff (hf : t.Follows a) {x y : S × Nat × DeviceID} (hx : x ∈ t.seen) (hy : y ∈ t.seen) :
    x.2.2 = y.2.2 ↔ x.1 = y.1 := by
  obtain ⟨sender, n, p⟩ := x
  obtain ⟨sender', n', p'⟩ := y
  obtain ⟨m, hm⟩ := hf.same sender n p hx
  obtain ⟨m', hm'⟩ := hf.same sender' n' p' hy
  constructor
  · rintro rfl
    exact hf.injective _ _ _ _ _ hm hm'
  · rintro rfl
    rw [hm] at hm'
    cases hm'
    rfl

end Sighted

end Sddr.Radio

import Sddr.Lib.Loops
import Sddr.Radio.Lemmas.BT2NR

/-!
# Two radios that request each other's name

What a device says about the other radio stays true with every event, and a name request adds the secret of the two
present keys.
-/

namespace Sddr.Radio.EbNRadioBT2NR
open Sddr.Lib Sddr.Codec Sddr.Device
open BinaryToUTF8 (NAME_DECODED_SIZE)

variable {P : Type} [FloatOps P] {ec : Ec} {sha256 : List Byte → Digest} {slack : List Byte}
  {carry : List Byte → List Byte} {keys keys' : List ec.Key} {sets sets' : List (List LinkValue)}
  {listenSet listenSet' : List LinkValue}

/-! ## Devices -/

omit [FloatOps P] in
/-- What holds of the value of the added secret and of all others holds of all. -/
theorem forall_insertSecret {q : LinkValue → Prop} {secret : SharedSecret P}
    (hsecret : secret.confirmed = true ∧ q secret.value) {l : List (SharedSecret P)}
    (h : ∀ s ∈ l, s.confirmed = true ∧ q s.value) :
    ∀ s ∈ (EbNDevice.insertSecret secret l).1, s.confirmed = true ∧ q s.value := by
  induction l with
  | nil =>
      intro s hs
      rw [List.mem_singleton.mp hs]
      exact hsecret
  | cons it rest ih =>
      obtain ⟨hit, hrest⟩ := List.forall_mem_cons.mp h
      rw [EbNDevice.insertSecret]
      split_ifs
      · exact List.forall_mem_cons.mpr ⟨⟨rfl, hit.2⟩, hrest⟩
      · exact h
      · exact List.forall_mem_cons.mpr ⟨hit, ih hrest⟩

theorem Knows.new (id : DeviceID) (address : Address) :
    Knows listenSet keys keys' sets' (EbNDevice.new id address listenSet : EbNDevice P) :=
  ⟨.refl _, fun _ hv _ => hv, fun _ hs => absurd hs List.not_mem_nil⟩

variable {device device' : EbNDevice P}

omit [FloatOps P] in
theorem Knows.of_eq (h : Knows listenSet keys keys' sets' device) (hmatching : device'.matching = device.matching)
    (hsecrets : device'.sharedSecrets = device.sharedSecrets) : Knows listenSet keys keys' sets' device' :=
  ⟨hmatching ▸ h.listened, hmatching ▸ h.matching, hsecrets ▸ h.secrets⟩

omit [FloatOps P] in
theorem Knows.addSharedSecret (h : Knows listenSet keys keys' sets' device) (secret : SharedSecret P)
    (hconfirmed : secret.confirmed = true) {key key' : ec.Key} (hkey : key ∈ keys) (hkey' : key' ∈ keys')
    (hvalue : ec.computeKey (ec.publicKey key') key = some secret.value) :
    Knows listenSet keys keys' sets' (device.addSharedSecret secret) := by
  obtain ⟨hmatching, -⟩ := addSharedSecret_matching device secret
  refine ⟨hmatching ▸ h.listened, hmatching ▸ h.matching, ?_⟩
  rw [sharedSecrets_addSharedSecret]
  exact forall_insertSecret
    (q := fun value => ∃ key ∈ keys, ∃ key' ∈ keys', ec.computeKey (ec.publicKey key') key = some value)
    ⟨hconfirmed, key, hkey, key', hkey', hvalue⟩ h.secrets

theorem Knows.updateMatching (h : Knows listenSet keys keys' sets' device) {bloom : BloomFilter P} {pre : List Byte}
    (hbloom : ∃ advertised ∈ sets', ∀ v ∈ advertised.take BF_N, bloom.query sha256 pre v = true) :
    Knows listenSet keys keys' sets' (device.updateMatching sha256 bloom pre) := by
  obtain ⟨advertised, hadvertised, hquery⟩ := hbloom
  refine ⟨List.filter_sublist.trans h.listened, fun v hv hall => ?_, h.secrets⟩
  exact List.mem_filter.mpr ⟨h.matching v hv hall, hquery v (hall advertised hadvertised)⟩

/-! ## One end -/

/-- An end with its keys and advertised sets among `keys` and `sets`, to the other end with `keys'` and `sets'`. -/
structure End (sha256 : List Byte → Digest) (listenSet : List LinkValue) (keys keys' : List ec.Key)
    (sets sets' : List (List LinkValue)) (c : Contact P ec) : Prop where
  named : Named sha256 (· ∈ sets) c.radio
  key : c.radio.dhExchange.secret ∈ keys
  knows : Knows listenSet keys keys' sets' c.device

variable {c c' d : Contact P ec} {s s' : Contact P ec × Contact P ec}

theorem secret_apply (r : EbNRadioBT2NR P ec) (action : Action P ec) :
    (action.apply sha256 r).dhExchange.secret = action.newKey?.getD r.dhExchange.secret := by
  cases action <;> rfl

/-- What an event of the radio does. -/
theorem apply_act {action : Action P ec} (h : ContactEvent.apply sha256 slack carry c c' (.act action) = some d) :
    d = { c with radio := action.apply sha256 c.radio } := (Option.some.inj h).symm

theorem apply_report {time rssiReportInterval now later : Time}
    (h : ContactEvent.apply sha256 slack carry c c' (.report time rssiReportInterval now later) = some d) :
    d = { c with device := (c.device.getEncounterInfo (EncounterEvent.ofTime time) rssiReportInterval false now later).2.2 } :=
  (Option.some.inj h).symm

theorem apply_setAddress {address : Address}
    (h : ContactEvent.apply sha256 slack carry c c' (.setAddress address) = some d) :
    d = { c with device := c.device.setAddress address } := (Option.some.inj h).symm

theorem apply_request {answered : Bool}
    (h : ContactEvent.apply sha256 slack carry c c' (.request answered) = some d) :
    ∃ advert, readName slack (if answered then some (carry c'.radio.localName) else none) = some advert ∧
      d = { c with device := ((c.radio.requestEffect sha256 advert).run c.device).setShakenHands true } := by
  obtain ⟨advert, hread, rfl⟩ := Option.map_eq_some_iff.mp h
  exact ⟨advert, hread, rfl⟩

/-- A request that is not answered. -/
theorem apply_unanswered (h : ContactEvent.apply sha256 slack carry c c' (.request false) = some d) :
    d = { c with device := c.device.setShakenHands true } := by
  obtain ⟨advert, hread, rfl⟩ := apply_request h
  obtain rfl : none = advert := Option.some.inj hread
  rfl

/-- A request that is answered. -/
theorem apply_answered (hlaws : ec.Laws) (hcarry : Carries carry) {p : List LinkValue → Prop}
    (hnamed : Named sha256 p c'.radio) (h : ContactEvent.apply sha256 slack carry c c' (.request true) = some d) :
    ∃ value bloom pre advertised, p advertised ∧
      ec.computeKey (ec.publicKey c'.radio.dhExchange.secret) c.radio.dhExchange.secret = some value ∧
      d = { c with
        device := ((c.device.addSharedSecret { SharedSecret.ofConfirmed true with value }).updateMatching sha256 bloom
          pre).setShakenHands true } ∧
      ∀ v ∈ advertised.take BF_N, bloom.query sha256 pre v = true := by
  obtain ⟨rand, r₀, hexchange, hadvertised, hname⟩ := hnamed.name
  have hkey : r₀.dhExchange = ECDH.generateSecret c'.radio.dhExchange.secret := hexchange.trans hnamed.key
  obtain ⟨advert, hread, rfl⟩ := apply_request h
  rw [if_pos rfl, hname, hcarry.localName] at hread
  obtain ⟨received, rfl, hreceived⟩ := readName_localName hread
  obtain ⟨value, bloom, hvalue, hdevice, hquery⟩ := processAdvert_received hreceived c.radio hlaws hkey c.device
  refine ⟨value, bloom, _, r₀.advertisedSet, hadvertised, hvalue, ?_, hquery⟩
  rw [← hdevice]
  rfl

/-- Only an answer needs room, a byte behind the advert. -/
theorem apply_isSome_iff (hcarry : Carries carry) {p : List LinkValue → Prop} (hnamed : Named sha256 p c'.radio)
    (c : Contact P ec) (event : ContactEvent P ec) :
    (event.apply sha256 slack carry c c').isSome ↔ slack ≠ [] ∨ event ≠ .request true := by
  cases event with
  | request answered =>
      cases answered with
      | false => exact iff_of_true rfl (Or.inr (by simp))
      | true =>
          obtain ⟨rand, r₀, -, -, hname⟩ := hnamed.name
          have hcarried : carry c'.radio.localName = (changeAdvert sha256 rand r₀).localName := by
            rw [hname, hcarry.localName]
          rw [ContactEvent.apply, Option.isSome_map, if_pos rfl, hcarried, readName_isSome_iff]
          exact or_congr_right
            (iff_of_false (fun hlength => hlength numEncodedBits_localName) fun hrequest => hrequest rfl)
  | act _ => exact iff_of_true rfl (Or.inr (by simp))
  | report _ _ _ _ => exact iff_of_true rfl (Or.inr (by simp))
  | setAddress _ => exact iff_of_true rfl (Or.inr (by simp))

omit [FloatOps P] in
/-- A report that fails changes nothing. -/
theorem getEncounterInfo_failure {d : EbNDevice P} {dest : EncounterEvent P} {rssiReportingInterval now later : Time}
    (h : (d.getEncounterInfo dest rssiReportingInterval false now later).1 = false) :
    (d.getEncounterInfo dest rssiReportingInterval false now later).2.2 = d := by
  unfold EbNDevice.getEncounterInfo at h ⊢
  rw [if_neg Bool.false_ne_true] at h ⊢
  split_ifs at h ⊢
  rfl

omit [FloatOps P] in
theorem getEncounterInfo_matching (d : EbNDevice P) (dest : EncounterEvent P) (rssiReportingInterval now later : Time) :
    (d.getEncounterInfo dest rssiReportingInterval false now later).2.2.matching = d.matching := by
  unfold EbNDevice.getEncounterInfo
  split_ifs <;> rfl

theorem End.apply (hlaws : ec.Laws) (hcarry : Carries carry) (h : End sha256 listenSet keys keys' sets sets' c)
    (h' : End sha256 listenSet' keys' keys sets' sets c') {event : ContactEvent P ec}
    (hkeys : ∀ key ∈ event.newKey?, key ∈ keys) (hsets : ∀ advertised ∈ event.newSet?, advertised ∈ sets)
    (hd : event.apply sha256 slack carry c c' = some d) : End sha256 listenSet keys keys' sets sets' d := by
  cases event with
  | act action =>
      obtain rfl := apply_act hd
      refine ⟨h.named.apply action hsets, ?_, h.knows⟩
      show (action.apply sha256 c.radio).dhExchange.secret ∈ keys
      rw [secret_apply]
      cases hnew : action.newKey? with
      | none => exact h.key
      | some key => exact hkeys key hnew
  | request answered =>
      cases answered with
      | false =>
          obtain rfl := apply_unanswered hd
          exact ⟨h.named, h.key, h.knows.of_eq rfl rfl⟩
      | true =>
          obtain ⟨value, bloom, pre, advertised, hadvertised, hvalue, rfl, hquery⟩ :=
            apply_answered hlaws hcarry h'.named hd
          have hadded := h.knows.addSharedSecret { SharedSecret.ofConfirmed true with value } rfl h.key h'.key hvalue
          exact ⟨h.named, h.key, (hadded.updateMatching ⟨advertised, hadvertised, hquery⟩).of_eq rfl rfl⟩
  | report time rssiReportInterval now later =>
      obtain rfl := apply_report hd
      obtain ⟨-, -, hsecrets⟩ :=
        getEncounterInfo_keeps c.device (EncounterEvent.ofTime time) rssiReportInterval false now later
      exact ⟨h.named, h.key, h.knows.of_eq (getEncounterInfo_matching _ _ _ _ _) hsecrets⟩
  | setAddress address =>
      obtain rfl := apply_setAddress hd
      exact ⟨h.named, h.key, h.knows.of_eq rfl rfl⟩

/-! ## Runs -/

theorem exchange_first {event : ContactEvent P ec} (h : exchange sha256 slack carry s (true, event) = some s') :
    ∃ d, event.apply sha256 slack carry s.1 s.2 = some d ∧ s' = (d, s.2) := by
  obtain ⟨d, hd, rfl⟩ := Option.map_eq_some_iff.mp h
  exact ⟨d, hd, rfl⟩

theorem exchange_second {event : ContactEvent P ec} (h : exchange sha256 slack carry s (false, event) = some s') :
    ∃ d, event.apply sha256 slack carry s.2 s.1 = some d ∧ s' = (s.1, d) := by
  obtain ⟨d, hd, rfl⟩ := Option.map_eq_some_iff.mp h
  exact ⟨d, hd, rfl⟩

/-- Both ends, in a run whose events bring no other keys and sets than those given. -/
theorem End.run (hlaws : ec.Laws) (hcarry : Carries carry) {events : List (Bool × ContactEvent P ec)}
    (h : End sha256 listenSet keys keys' sets sets' s.1) (h' : End sha256 listenSet' keys' keys sets' sets s.2)
    (hevents : ∀ event ∈ events,
      (∀ key ∈ event.2.newKey?, key ∈ if event.1 then keys else keys') ∧
        ∀ advertised ∈ event.2.newSet?, advertised ∈ if event.1 then sets else sets')
    (hrun : events.foldlM (exchange sha256 slack carry) s = some s') :
    End sha256 listenSet keys keys' sets sets' s'.1 ∧ End sha256 listenSet' keys' keys sets' sets s'.2 := by
  refine foldlM_keeps (p := fun s => End sha256 listenSet keys keys' sets sets' s.1 ∧
    End sha256 listenSet' keys' keys sets' sets s.2) (fun s event s₁ hevent hstep hends => ?_) hrun ⟨h, h'⟩
  obtain ⟨hkeys, hsets⟩ := hevents event hevent
  obtain ⟨first, event⟩ := event
  cases first with
  | true =>
      obtain ⟨d, hd, rfl⟩ := exchange_first hstep
      exact ⟨hends.1.apply hlaws hcarry hends.2 hkeys hsets hd, hends.2⟩
  | false =>
      obtain ⟨d, hd, rfl⟩ := exchange_second hstep
      exact ⟨hends.1, hends.2.apply hlaws hcarry hends.1 hkeys hsets hd⟩

theorem Contact.Begins.named (h : c.Begins sha256 listenSet) {p : List LinkValue → Prop} (hp : p c.radio.advertisedSet) :
    Named sha256 p c.radio := by
  obtain ⟨⟨rand, r, hreachable, hradio⟩, -⟩ := h
  rw [hradio] at hp ⊢
  exact named_changeAdvert sha256 hreachable.key hp rand

omit [FloatOps P] in
theorem mem_eventsAt {events : List (Bool × ContactEvent P ec)} {event : Bool × ContactEvent P ec} (h : event ∈ events) :
    event.2 ∈ eventsAt event.1 events :=
  List.mem_map_of_mem (List.mem_filter.mpr ⟨h, decide_eq_true rfl⟩)

omit [FloatOps P] in
theorem mem_keys {events : List (ContactEvent P ec)} {event : ContactEvent P ec} (h : event ∈ events) {key : ec.Key}
    (hkey : key ∈ event.newKey?) : key ∈ c.keys events :=
  List.mem_cons_of_mem _ (List.mem_filterMap.mpr ⟨event, h, hkey⟩)

omit [FloatOps P] in
theorem mem_sets {events : List (ContactEvent P ec)} {event : ContactEvent P ec} (h : event ∈ events)
    {advertised : List LinkValue} (hset : advertised ∈ event.newSet?) : advertised ∈ c.sets events :=
  List.mem_cons_of_mem _ (List.mem_filterMap.mpr ⟨event, h, hset⟩)

theorem Contact.Begins.end (h : c.Begins sha256 listenSet) (events : List (ContactEvent P ec)) :
    End sha256 listenSet (c.keys events) keys' (c.sets events) sets' c := by
  obtain ⟨id, address, hdevice⟩ := h.device
  refine ⟨h.named List.mem_cons_self, List.mem_cons_self, ?_⟩
  rw [hdevice]
  exact .new id address

/-! ## Common secrets -/

/-- The device has the secret of the present keys, and it is confirmed. -/
def Shared (c c' : Contact P ec) : Prop :=
  ∃ value, ec.computeKey (ec.publicKey c'.radio.dhExchange.secret) c.radio.dhExchange.secret = some value ∧
    value ∈ confirmedValues c.device.sharedSecrets

/-- An end whose name is of its present key, and whose device accounts for its secrets. -/
structure Ready (sha256 : List Byte → Digest) (c : Contact P ec) : Prop where
  named : Named sha256 (fun _ => True) c.radio
  accounts : ∃ delivered, Accounts c.device delivered

theorem Contact.Begins.ready (h : c.Begins sha256 listenSet) : Ready sha256 c := by
  obtain ⟨id, address, hdevice⟩ := h.device
  refine ⟨h.named trivial, [], ?_⟩
  rw [hdevice]
  exact .new id address listenSet

theorem Ready.confirmed (h : Ready sha256 c) {value : LinkValue} (hmem : value ∈ confirmedValues c.device.sharedSecrets) :
    c.device.confirmed = true := by
  obtain ⟨_, haccounts⟩ := h.accounts
  exact haccounts.confirmed.mpr (List.ne_nil_of_mem hmem)

theorem request_ripens {answered : Bool} (h : ContactEvent.apply sha256 slack carry c c' (.request answered) = some d) :
    d.radio = c.radio ∧ Ripens c.device d.device := by
  obtain ⟨advert, -, rfl⟩ := apply_request h
  have hchanged := (c.radio.requestEffect sha256 advert).changed c.device
  exact ⟨rfl, .of_changed (hchanged.trans (.op (.setShakenHands true) _))⟩

theorem Ready.apply (h : Ready sha256 c) {event : ContactEvent P ec} (hd : event.apply sha256 slack carry c c' = some d) :
    Ready sha256 d := by
  obtain ⟨delivered, haccounts⟩ := h.accounts
  cases event with
  | act action =>
      obtain rfl := apply_act hd
      exact ⟨h.named.apply action fun _ _ => trivial, delivered, haccounts⟩
  | request answered =>
      obtain ⟨hradio, hripens⟩ := request_ripens hd
      exact ⟨hradio ▸ h.named, delivered, haccounts.ripens hripens⟩
  | report time rssiReportInterval now later =>
      obtain rfl := apply_report hd
      refine ⟨h.named, ?_⟩
      let report := c.device.getEncounterInfo (EncounterEvent.ofTime time) rssiReportInterval false now later
      show ∃ delivered, Accounts report.2.2 delivered
      cases hsuccess : report.1 with
      | true => exact ⟨_, haccounts.report hsuccess⟩
      | false => exact ⟨delivered, getEncounterInfo_failure hsuccess ▸ haccounts⟩
  | setAddress address =>
      obtain rfl := apply_setAddress hd
      exact ⟨h.named, delivered, haccounts.nodup, haccounts.secrets, haccounts.confirmed⟩

theorem confirmedValues_apply {event : ContactEvent P ec} (hd : event.apply sha256 slack carry c c' = some d) :
    confirmedValues c.device.sharedSecrets ⊆ confirmedValues d.device.sharedSecrets := by
  cases event with
  | act action =>
      obtain rfl := apply_act hd
      exact fun _ hv => hv
  | request answered =>
      intro v hv
      obtain ⟨new, hnew⟩ := (request_ripens hd).2
      exact hnew.confirmedValues.mem_iff.mpr (List.mem_append_left new hv)
  | report time rssiReportInterval now later =>
      obtain rfl := apply_report hd
      obtain ⟨-, -, hsecrets⟩ :=
        getEncounterInfo_keeps c.device (EncounterEvent.ofTime time) rssiReportInterval false now later
      exact fun v hv => hsecrets.symm ▸ hv
  | setAddress address =>
      obtain rfl := apply_setAddress hd
      exact fun _ hv => hv

theorem secret_event {event : ContactEvent P ec} (hkey : event.newKey? = none)
    (hd : event.apply sha256 slack carry c c' = some d) : d.radio.dhExchange.secret = c.radio.dhExchange.secret := by
  cases event with
  | act action =>
      obtain rfl := apply_act hd
      show (action.apply sha256 c.radio).dhExchange.secret = _
      rw [secret_apply, show action.newKey? = none from hkey, Option.getD_none]
  | request answered => rw [(request_ripens hd).1]
  | report time rssiReportInterval now later => rw [apply_report hd]
  | setAddress address => rw [apply_setAddress hd]

theorem Shared.apply (h : Shared c c') {event : ContactEvent P ec} (hkey : event.newKey? = none)
    (hd : event.apply sha256 slack carry c c' = some d) : Shared d c' := by
  obtain ⟨value, hvalue, hmem⟩ := h
  exact ⟨value, (secret_event hkey hd).symm ▸ hvalue, confirmedValues_apply hd hmem⟩

theorem Shared.apply_other (h : Shared c c') {event : ContactEvent P ec} (hkey : event.newKey? = none)
    (hd : event.apply sha256 slack carry c' c = some d) : Shared c d := by
  obtain ⟨value, hvalue, hmem⟩ := h
  exact ⟨value, (secret_event hkey hd).symm ▸ hvalue, hmem⟩

theorem request_shared (hlaws : ec.Laws) (hcarry : Carries carry) (h : Ready sha256 c')
    (hd : ContactEvent.apply sha256 slack carry c c' (.request true) = some d) : Shared d c' := by
  obtain ⟨value, bloom, pre, -, -, hvalue, rfl, -⟩ := apply_answered hlaws hcarry h.named hd
  refine ⟨value, hvalue, ?_⟩
  let secret : SharedSecret P := { SharedSecret.ofConfirmed true with value }
  have hconfirmed : secret.confirmed = true := rfl
  exact mem_confirmedValues_addSharedSecret c.device hconfirmed

/-- An event at the first end. -/
theorem Shared.step (hlaws : ec.Laws) (hcarry : Carries carry) (h' : Ready sha256 c') {event : ContactEvent P ec}
    (hkey : event.newKey? = none) (hd : event.apply sha256 slack carry c c' = some d)
    (h : event = .request true ∨ Shared c c') : Shared d c' := by
  rcases h with rfl | hshared
  · exact request_shared hlaws hcarry h' hd
  · exact hshared.apply hkey hd

theorem Ready.exchange (h : Ready sha256 s.1 ∧ Ready sha256 s.2) {event : Bool × ContactEvent P ec}
    (hs' : exchange sha256 slack carry s event = some s') : Ready sha256 s'.1 ∧ Ready sha256 s'.2 := by
  obtain ⟨first, event⟩ := event
  cases first with
  | true =>
      obtain ⟨d, hd, rfl⟩ := exchange_first hs'
      exact ⟨h.1.apply hd, h.2⟩
  | false =>
      obtain ⟨d, hd, rfl⟩ := exchange_second hs'
      exact ⟨h.1, h.2.apply hd⟩

theorem Ready.run (h : Ready sha256 s.1 ∧ Ready sha256 s.2) {events : List (Bool × ContactEvent P ec)}
    (hrun : events.foldlM (EbNRadioBT2NR.exchange sha256 slack carry) s = some s') : Ready sha256 s'.1 ∧ Ready sha256 s'.2 :=
  foldlM_keeps (p := fun s : Contact P ec × Contact P ec => Ready sha256 s.1 ∧ Ready sha256 s.2)
    (fun _ _ _ _ hstep hready => Ready.exchange hready hstep) hrun h

/-- A run has a result if there is a byte behind the advert, or if no request in it is answered. -/
theorem Ready.run_isSome_iff (hcarry : Carries carry) (h : Ready sha256 s.1 ∧ Ready sha256 s.2)
    (events : List (Bool × ContactEvent P ec)) :
    (events.foldlM (EbNRadioBT2NR.exchange sha256 slack carry) s).isSome ↔
      slack ≠ [] ∨ ∀ event ∈ events, event.2 ≠ .request true := by
  rw [foldlM_isSome_iff_of_keeps (q := fun s : Contact P ec × Contact P ec => Ready sha256 s.1 ∧ Ready sha256 s.2)
    (p := fun event => slack ≠ [] ∨ event.2 ≠ .request true) (fun _ _ _ _ hstep hready => Ready.exchange hready hstep)
    (fun s hready event _ => ?_) h]
  · exact ⟨fun hall => or_iff_not_imp_left.mpr fun hslack event hevent => (hall event hevent).resolve_left hslack,
      fun hor event hevent => hor.imp_right fun hall => hall event hevent⟩
  · obtain ⟨first, event⟩ := event
    cases first with
    | true => exact Option.isSome_map.symm ▸ apply_isSome_iff hcarry hready.2.named s.1 event
    | false => exact Option.isSome_map.symm ▸ apply_isSome_iff hcarry hready.1.named s.2 event

section
variable {q q' : Prop} {first other : Bool} {event : ContactEvent P ec} {events : List (Bool × ContactEvent P ec)}

omit [FloatOps P] in
/-- An event at an end may be the request that is looked for there. -/
theorem requested_self (h : event = .request true ∨ q → q')
    (hor : (first, .request true) ∈ (first, event) :: events ∨ q) : (first, .request true) ∈ events ∨ q' := by
  rcases hor with hmem | hq
  · rcases List.mem_cons.mp hmem with heq | hmem
    · exact Or.inr (h (Or.inl (Prod.mk.inj heq).2.symm))
    · exact Or.inl hmem
  · exact Or.inr (h (Or.inr hq))

omit [FloatOps P] in
theorem requested_other (hne : first ≠ other) (h : q → q')
    (hor : (first, .request true) ∈ (other, event) :: events ∨ q) : (first, .request true) ∈ events ∨ q' := by
  rcases hor with hmem | hq
  · rcases List.mem_cons.mp hmem with heq | hmem
    · exact absurd (Prod.mk.inj heq).1 hne
    · exact Or.inl hmem
  · exact Or.inr (h hq)

end

/-- As long as the keys stay, an end that has requested the name of the other has the secret of the two. -/
theorem Shared.run (hlaws : ec.Laws) (hcarry : Carries carry) {events : List (Bool × ContactEvent P ec)}
    (h : Ready sha256 s.1 ∧ Ready sha256 s.2) (hkeys : ∀ event ∈ events, event.2.newKey? = none)
    (hrun : events.foldlM (exchange sha256 slack carry) s = some s') :
    ((true, .request true) ∈ events ∨ Shared s.1 s.2 → Shared s'.1 s'.2) ∧
      ((false, .request true) ∈ events ∨ Shared s.2 s.1 → Shared s'.2 s'.1) := by
  induction events generalizing s with
  | nil =>
      obtain rfl := Option.some.inj hrun
      exact ⟨fun hor => hor.resolve_left List.not_mem_nil, fun hor => hor.resolve_left List.not_mem_nil⟩
  | cons event events ih =>
      obtain ⟨hkey, hrest⟩ := List.forall_mem_cons.mp hkeys
      rw [List.foldlM_cons, Option.bind_eq_bind, Option.bind_eq_some_iff] at hrun
      obtain ⟨s₁, hstep, hrun⟩ := hrun
      obtain ⟨ihfirst, ihsecond⟩ := ih (Ready.exchange h hstep) hrest hrun
      obtain ⟨first, event⟩ := event
      cases first with
      | true =>
          obtain ⟨d, hd, rfl⟩ := exchange_first hstep
          have hself : event = .request true ∨ Shared s.1 s.2 → Shared d s.2 := Shared.step hlaws hcarry h.2 hkey hd
          have hother : Shared s.2 s.1 → Shared s.2 d := fun hshared => hshared.apply_other hkey hd
          refine ⟨fun hor => ihfirst (requested_self hself hor), fun hor => ihsecond ?_⟩
          exact requested_other Bool.false_ne_true hother hor
      | false =>
          obtain ⟨d, hd, rfl⟩ := exchange_second hstep
          have hself : event = .request true ∨ Shared s.2 s.1 → Shared d s.1 := Shared.step hlaws hcarry h.1 hkey hd
          have hother : Shared s.1 s.2 → Shared s.1 d := fun hshared => hshared.apply_other hkey hd
          refine ⟨fun hor => ihfirst ?_, fun hor => ihsecond (requested_self hself hor)⟩
          exact requested_other Bool.false_ne_true.symm hother hor

/-! ## Handshakes -/

/-- The loop goes on up to the first device whose turn does not come, and each device before it is changed by its own
name. -/
theorem shakeHands_heap {r : EbNRadio P (EbNDevice P)} (h : EbNRadio.Tidy r)
    (connect : DeviceID → Option (Effect sha256 (EbNDevice P))) (ids : List DeviceID) (hnodup : ids.Nodup)
    (hids : ∀ id ∈ ids, id ∈ r.deviceMap.idToDevice) :
    let requested := ids.takeWhile fun id => (connect id).isSome
    ∃ r', EbNRadio.shakeHands .Bluetooth2NR connect ids r = some r' ∧ EbNRadio.Tidy r' ∧ r'.deviceMap = r.deviceMap ∧
      (∀ id ∈ requested, ∀ effect ∈ connect id,
        r'.heap id = (r.heap id).map fun d => (effect.run d).setShakenHands true) ∧
      ∀ id, id ∉ requested → r'.heap id = r.heap id := by
  intro requested
  induction ids generalizing r with
  | nil => exact ⟨r, rfl, h, rfl, fun _ hid => absurd hid List.not_mem_nil, fun _ _ => rfl⟩
  | cons id ids ih =>
      obtain ⟨hfresh, hrest⟩ := List.nodup_cons.mp hnodup
      have hin := hids id List.mem_cons_self
      obtain ⟨hget, d, hd, -⟩ := h.lookup hin
      have hconnects : Version.Bluetooth2NR.connects (IsDevice.base d).confirmed r.getHandshakeScheme = true := rfl
      rw [EbNRadio.shakeHands, hget, Option.bind_some, hd, Option.bind_some, if_pos hconnects]
      cases hconnect : connect id with
      | none =>
          have hnone : requested = [] := List.takeWhile_cons_of_neg (by rw [hconnect]; exact Bool.false_ne_true)
          refine ⟨r, rfl, h, rfl, fun j hj => ?_, fun _ _ => rfl⟩
          exact absurd (hnone ▸ hj) List.not_mem_nil
      | some effect =>
          let f : EbNDevice P → EbNDevice P := fun d => (effect.run d).setShakenHands true
          have hsome : requested = id :: ids.takeWhile fun id => (connect id).isSome :=
            List.takeWhile_cons_of_pos (by rw [hconnect]; rfl)
          obtain ⟨hquiet, -⟩ := h.update_quiet sha256 (f := f) hin fun d =>
            (effect.changed d).trans (.op (.setShakenHands true) _)
          obtain ⟨r', hloop, htidy, hmap, hchanged, hothers⟩ :=
            ih hquiet.tidy hrest fun j hj => hids j (List.mem_cons_of_mem _ hj)
          have hnot : id ∉ ids.takeWhile fun id => (connect id).isSome :=
            fun hmem => hfresh ((List.takeWhile_sublist _).subset hmem)
          refine ⟨r', hloop, htidy, hmap, fun j hj => ?_, fun j hj => ?_⟩
          · rcases List.mem_cons.mp (hsome ▸ hj) with rfl | hmem
            · intro effect' heffect'
              rw [hconnect] at heffect'
              cases heffect'
              exact (hothers j hnot).trans (Function.update_self ..)
            · intro effect' heffect'
              rw [hchanged j hmem effect' heffect']
              congr 1
              exact Function.update_of_ne (ne_of_mem_of_not_mem hmem hnot) _ _
          · rw [hsome, List.mem_cons, not_or] at hj
            exact (hothers j hj.2).trans (Function.update_of_ne hj.1 _ _)

/-- What a name request does to a device, as one of the effects of a handshake. -/
def nameEffect (sha256 : List Byte → Digest) (slack : List Byte) (r : EbNRadioBT2NR P ec)
    (names : DeviceID → Option (Option (List Byte))) (id : DeviceID) : Option (Effect sha256 (EbNDevice P)) :=
  (names id).map fun remoteName => r.requestEffect sha256 ((readName slack remoteName).getD none)

/-- Every name that is requested can be read. -/
def Readable (slack : List Byte) (names : DeviceID → Option (Option (List Byte))) (ids : List DeviceID) : Prop :=
  ∀ id ∈ ids.takeWhile fun id => (names id).isSome, ∀ remoteName ∈ names id, (readName slack remoteName).isSome

variable {names : DeviceID → Option (Option (List Byte))}

theorem readable_of_none {id : DeviceID} (h : names id = none) (ids : List DeviceID) :
    Readable slack names (id :: ids) := by
  have hnone : (id :: ids).takeWhile (fun id => (names id).isSome) = [] :=
    List.takeWhile_cons_of_neg (by rw [h]; exact Bool.false_ne_true)
  rw [Readable, hnone]
  exact fun _ hid => absurd hid List.not_mem_nil

theorem readable_cons {id : DeviceID} {remoteName : Option (List Byte)} (h : names id = some remoteName)
    (ids : List DeviceID) :
    Readable slack names (id :: ids) ↔ (readName slack remoteName).isSome ∧ Readable slack names ids := by
  have hsome : (id :: ids).takeWhile (fun id => (names id).isSome)
      = id :: ids.takeWhile fun id => (names id).isSome := List.takeWhile_cons_of_pos (by rw [h]; rfl)
  rw [Readable, hsome, List.forall_mem_cons, h]
  simp only [Option.mem_def, Option.some_inj, forall_eq']
  rfl

theorem readable_iff (slack : List Byte) (names : DeviceID → Option (Option (List Byte))) (ids : List DeviceID) :
    Readable slack names ids ↔
      slack ≠ [] ∨ ∀ id ∈ ids.takeWhile fun id => (names id).isSome, ∀ remoteName,
        names id = some (some remoteName) →
          BinaryToUTF8.getNumEncodedBits NAME_DECODED_SIZE ≠ remoteName.length * 8 := by
  constructor
  · refine fun h => or_iff_not_imp_left.mpr fun hslack id hid remoteName hname => ?_
    exact ((readName_isSome_iff slack remoteName).mp (h id hid _ hname)).resolve_left hslack
  · intro h id hid remoteName hname
    cases remoteName with
    | none => rfl
    | some remoteName => exact (readName_isSome_iff slack remoteName).mpr (h.imp_right fun h => h id hid remoteName hname)

/-- The names that are requested are read one by one, and the loop is that of all radios. -/
theorem requestNames_eq_some_iff (r : EbNRadioBT2NR P ec) (ids : List DeviceID) (base base' : EbNRadio P (EbNDevice P)) :
    r.requestNames sha256 slack names ids base = some base' ↔
      Readable slack names ids ∧
        EbNRadio.shakeHands .Bluetooth2NR (nameEffect sha256 slack r names) ids base = some base' := by
  induction ids generalizing base with
  | nil =>
      have hnone : Readable slack names [] := fun _ hid => absurd hid List.not_mem_nil
      exact (and_iff_right hnone).symm
  | cons id ids ih =>
      rw [requestNames, EbNRadio.shakeHands]
      cases hget : base.devices.getID id with
      | none => exact iff_of_false (by simp) (by simp)
      | some device =>
          cases hd : base.heap device with
          | none => exact iff_of_false (by simp [hd]) (by simp [hd])
          | some d =>
              have hconnects : Version.Bluetooth2NR.connects (IsDevice.base d).confirmed base.getHandshakeScheme = true :=
                rfl
              simp only [Option.bind_some, hd, if_pos hconnects]
              cases hname : names id with
              | none =>
                  rw [nameEffect, hname]
                  exact (and_iff_right (readable_of_none hname ids)).symm
              | some remoteName =>
                  rw [nameEffect, hname, readable_cons hname, Option.map_some]
                  dsimp only
                  cases readName slack remoteName with
                  | none => exact iff_of_false (by simp) (by simp)
                  | some advert =>
                      rw [Option.bind_some, Option.getD_some]
                      exact (ih _).trans (and_congr_left' (and_iff_right rfl).symm)

end Sddr.Radio.EbNRadioBT2NR

import Sddr.Wire.EbNCore
import Sddr.Wire.Lemmas.UnknownFields

/-!
# The bytes of the messages
-/

namespace Sddr.Wire
open Sddr.Lib

/-! ## Sizes -/

section Sizes

variable {number : Nat}

theorem length_writeTagToArray {type : WireType} (h : (makeTag number type).toNat < 128) :
    (writeTagToArray number type).length = 1 := by
  rw [writeTagToArray, writeTagValueToArray_eq, varint_of_lt h, List.length_singleton]

theorem length_writeVarint32SignExtended (value : BitVec 32) :
    (writeVarint32SignExtendedToArray value).length = int32Size value := by
  rw [writeVarint32SignExtendedToArray_eq, int32Size, varintSize32SignExtended_eq]

theorem length_writeInt32 (h : (makeTag number .varint).toNat < 128) (value : BitVec 32) :
    (writeInt32ToArray number value).length = 1 + int32Size value := by
  rw [writeInt32ToArray, List.length_append, length_writeTagToArray h, length_writeVarint32SignExtended]

theorem length_writeEnum (h : (makeTag number .varint).toNat < 128) (value : BitVec 32) :
    (writeEnumToArray number value).length = 1 + int32Size value := length_writeInt32 h value

theorem length_writeUInt64 (h : (makeTag number .varint).toNat < 128) (value : BitVec 64) :
    (writeUInt64ToArray number value).length = 1 + uInt64Size value := by
  rw [writeUInt64ToArray, List.length_append, length_writeTagToArray h, writeVarint64ToArray_eq, uInt64Size, varintSize64_eq]

theorem length_writeSInt32 (h : (makeTag number .varint).toNat < 128) (value : BitVec 32) :
    (writeSInt32ToArray number value).length = 1 + sInt32Size value := by
  rw [writeSInt32ToArray, List.length_append, length_writeTagToArray h, writeVarint32ToArray_eq, sInt32Size, varintSize32_eq]

theorem length_writeBool (h : (makeTag number .varint).toNat < 128) (value : Bool) :
    (writeBoolToArray number value).length = 1 + 1 := by
  rw [writeBoolToArray, List.length_append, length_writeTagToArray h]
  cases value <;> rfl

theorem length_writeBytes (h : (makeTag number .lengthDelimited).toNat < 128) (value : List Byte) :
    (writeBytesToArray number value).length = 1 + lengthDelimitedSize value.length := by
  rw [writeBytesToArray, List.length_append, List.length_append, length_writeTagToArray h, writeVarint32ToArray_eq,
    lengthDelimitedSize, varintSize32_eq, Nat.add_comm value.length]

theorem length_writeMessage (h : (makeTag number .lengthDelimited).toNat < 128) {size : Nat} {bytes : List Byte}
    (hsize : bytes.length = size) :
    (writeMessageNoVirtualToArray number size bytes).length = 1 + lengthDelimitedSize size := by
  rw [← hsize]
  exact length_writeBytes h bytes

theorem length_elim {α : Type} {write : α → List Byte} {size : α → Nat}
    (h : ∀ value, (write value).length = size value) (o : Option α) :
    (o.elim [] write).length = o.elim 0 size := by
  cases o with
  | none => rfl
  | some value => exact h value

theorem length_flatMap {α : Type} {write : α → List Byte} {size : α → Nat}
    (h : ∀ value, (write value).length = 1 + size value) (l : List α) :
    (l.flatMap write).length = 1 * l.length + (l.map size).sum := by
  induction l with
  | nil => rfl
  | cons value l ih =>
      rw [List.flatMap_cons, List.length_append, h, ih, List.length_cons, List.map_cons, List.sum_cons]
      omega

end Sizes

namespace EbNCore

theorem Entry.length_serialize (m : Entry) : m.serialize.length = m.byteSize := by
  rw [serialize, byteSize, List.length_append, List.length_append, length_elim (length_writeBytes (by decide)),
    length_elim fun mode => length_writeEnum (by decide) _, length_serializeUnknownFields]

theorem LinkabilityEvent.length_serialize (m : LinkabilityEvent) : m.serialize.length = m.byteSize := by
  rw [serialize, byteSize, List.length_append,
    length_flatMap fun entry => length_writeMessage (by decide) entry.length_serialize, length_serializeUnknownFields]

theorem RSSIEvent.length_serialize (m : RSSIEvent) : m.serialize.length = m.byteSize := by
  rw [serialize, byteSize, List.length_append, List.length_append, length_elim (length_writeUInt64 (by decide)),
    length_elim (length_writeSInt32 (by decide)), length_serializeUnknownFields]

theorem EncounterEvent.length_serialize (m : EncounterEvent) : m.serialize.length = m.byteSize := by
  simp only [serialize, byteSize, List.length_append]
  rw [length_elim fun type => length_writeEnum (by decide) _, length_elim (length_writeUInt64 (by decide)),
    length_elim (length_writeInt32 (by decide)), length_elim (length_writeBytes (by decide)),
    length_flatMap fun rssiEvent => length_writeMessage (by decide) rssiEvent.length_serialize,
    length_flatMap (length_writeBytes (by decide)), length_flatMap (length_writeBytes (by decide)),
    length_elim (length_writeUInt64 (by decide)), length_elim (length_writeBool (by decide)),
    length_serializeUnknownFields]
  omega

theorem SleepEvent.length_serialize (m : SleepEvent) : m.serialize.length = m.byteSize := by
  rw [serialize, byteSize, List.length_append, length_elim (length_writeUInt64 (by decide)),
    length_serializeUnknownFields]

theorem Event.length_serialize (m : Event) : m.serialize.length = m.byteSize := by
  rw [serialize, byteSize, List.length_append, List.length_append, List.length_append,
    length_elim fun event => length_writeMessage (by decide) (LinkabilityEvent.length_serialize event),
    length_elim fun event => length_writeMessage (by decide) (EncounterEvent.length_serialize event),
    length_elim fun event => length_writeMessage (by decide) (SleepEvent.length_serialize event),
    length_serializeUnknownFields]

/-! ## Parsing what was serialized -/

section Parses

theorem le_sum_map {α : Type} (size : α → Nat) {a : α} {l : List α} (h : a ∈ l) : size a ≤ (l.map size).sum := by
  induction h with
  | head l =>
      rw [List.map_cons, List.sum_cons]
      exact Nat.le_add_right _ _
  | tail b _ ih =>
      rw [List.map_cons, List.sum_cons]
      exact Nat.le_add_left_of_le ih

theorem le_lengthDelimitedSize (length : Nat) : length ≤ lengthDelimitedSize length := Nat.le_add_right _ _

theorem le_sum_lengthDelimitedSize {α : Type} {size : α → Nat} {a : α} {l : List α} (h : a ∈ l) :
    size a ≤ (l.map fun a => lengthDelimitedSize (size a)).sum :=
  Nat.le_trans (le_lengthDelimitedSize _) (le_sum_map (fun a => lengthDelimitedSize (size a)) h)

variable {depth : Nat}

/-- A nested message whose size is known. -/
theorem reads_sized {M : Type} {C : MessageClass M} {bytes : List Byte} {m m' : M} {size : Nat}
    (h : C.Parses depth bytes m m') (hlength : bytes.length = size) (hsize : size < 2 ^ 31) :
    (Reader.message C).Reads (depth + 1) (writeVarint32ToArray (BitVec.ofNat 32 size) ++ bytes) m m' := by
  rw [← hlength]
  exact h.reads_message (by omega)

/-- A mode or a type that is not valid is kept. -/
theorem keeps_invalid {M V : Type} {C : MessageClass M} {f : FieldCase M} (hf : f ∈ C.fields) (htype : f.wireType = .varint)
    {valid : BitVec 32 → Option V} {get : M → Option V × List UnknownField}
    {set : M → Option V × List UnknownField → M}
    (hreader : f.reader = (Reader.enum f.number valid).ofMember get set) (hget : ∀ m, (get m).2 = C.unknownFields m)
    (hset : ∀ m fields, set m ((get m).1, fields) = C.setUnknownFields m fields) {value : BitVec 32}
    (hvalue : valid value = none) : C.Keeps depth (.varint f.number (value.signExtend 64)) := fun m => by
  have hreads : f.reader.Reads depth (writeVarint64ToArray (value.signExtend 64)) m
      (set m ((get m).1, (get m).2 ++ [.varint f.number (value.signExtend 64)])) := by
    rw [hreader]
    exact reads_ofMember (reads_enum_invalid f.number hvalue (get m))
  rw [hget, hset] at hreads
  have hparses := MessageClass.Parses.field hf hreads
  rw [htype] at hparses
  exact hparses

theorem Entry.Unknown.keeps {field : UnknownField} (h : Entry.Unknown depth field) : messageClass.Keeps depth field := by
  obtain h | ⟨value, hvalue, rfl⟩ := h
  · exact h.keeps
  · exact keeps_invalid (f := messageClass.fields[1]) (List.getElem_mem _) rfl rfl (fun _ => rfl) (fun _ _ => rfl) hvalue

theorem EncounterEvent.Unknown.keeps {field : UnknownField} (h : EncounterEvent.Unknown depth field) :
    messageClass.Keeps depth field := by
  obtain h | ⟨value, hvalue, rfl⟩ := h
  · exact h.keeps
  · exact keeps_invalid (f := messageClass.fields[0]) (List.getElem_mem _) rfl rfl (fun _ => rfl) (fun _ _ => rfl) hvalue

theorem Entry.parses (m0 : Entry) {m : Entry} (hfits : m.Fits depth) (h : m.byteSize < 2 ^ 31) :
    messageClass.Parses depth m.serialize m0 (m0.mergeFrom m) := by
  let m1 : Entry := { m0 with linkValue := m.linkValue.or m0.linkValue }
  let m2 : Entry := { m1 with mode := m.mode.or m0.mode }
  refine .append (n := m2) (.append (n := m1) ?linkValue ?mode) ?unknownFields
  case linkValue =>
    refine .optional (f := messageClass.fields[0]) (List.getElem_mem _) rfl rfl fun linkValue hlinkValue => ?_
    have hlength : linkValue.length < 2 ^ 31 := by
      have hle := le_lengthDelimitedSize linkValue.length
      rw [byteSize, hlinkValue, Option.elim_some] at h
      omega
    exact reads_mutableField (reads_bytes hlength _)
  case mode =>
    exact .enumeration (f := messageClass.fields[1]) (List.getElem_mem _) rfl (fun mode => by cases mode <;> decide) rfl
  case unknownFields => exact .unknownFields (fun field hfield => (hfits field hfield).keeps) m2

/-- A message that was clear is read back. -/
theorem Entry.mergeFrom_clear (m : Entry) : mergeFrom {} m = m := by simp [mergeFrom]

theorem LinkabilityEvent.parses (m0 : LinkabilityEvent) {m : LinkabilityEvent} (hfits : m.Fits (depth + 1))
    (h : m.byteSize < 2 ^ 31) : messageClass.Parses (depth + 1) m.serialize m0 (m0.mergeFrom m) := by
  let m1 : LinkabilityEvent := { m0 with entries := m0.entries ++ m.entries }
  refine .append (n := m1) ?entries ?unknownFields
  case entries =>
    refine .repeated (f := messageClass.fields[0]) (List.getElem_mem _) rfl (fun _ => rfl) (fun _ _ => rfl)
      (fun _ _ _ => rfl) fun entry hentry entries => ?_
    have hsize : entry.byteSize < 2 ^ 31 := by
      have hle := @le_sum_lengthDelimitedSize _ Entry.byteSize _ _ hentry
      rw [byteSize] at h
      omega
    have hparses := Entry.parses {} (hfits.entries entry hentry) hsize
    rw [entry.mergeFrom_clear] at hparses
    exact reads_addField (reads_sized hparses entry.length_serialize hsize) entries
  case unknownFields => exact .unknownFields (fun field hfield => (hfits.unknownFields field hfield).keeps) m1

theorem RSSIEvent.parses (m0 : RSSIEvent) {m : RSSIEvent} (hfits : m.Fits depth) :
    messageClass.Parses depth m.serialize m0 (m0.mergeFrom m) := by
  let m1 : RSSIEvent := { m0 with time := m.time.or m0.time }
  let m2 : RSSIEvent := { m1 with rssi := m.rssi.or m0.rssi }
  refine .append (n := m2) (.append (n := m1) ?time ?rssi) ?unknownFields
  case time =>
    exact .optional (f := messageClass.fields[0]) (List.getElem_mem _) rfl rfl fun time _ => reads_uInt64 time _
  case rssi =>
    exact .optional (f := messageClass.fields[1]) (List.getElem_mem _) rfl rfl fun rssi _ => reads_sInt32 rssi _
  case unknownFields => exact .unknownFields (fun field hfield => (hfits field hfield).keeps) m2

theorem RSSIEvent.mergeFrom_clear (m : RSSIEvent) : mergeFrom {} m = m := by simp [mergeFrom]

theorem EncounterEvent.parses (m0 : EncounterEvent) {m : EncounterEvent} (hfits : m.Fits (depth + 1))
    (h : m.byteSize < 2 ^ 31) : messageClass.Parses (depth + 1) m.serialize m0 (m0.mergeFrom m) := by
  let m1 : EncounterEvent := { m0 with type := m.type.or m0.type }
  let m2 : EncounterEvent := { m1 with time := m.time.or m0.time }
  let m3 : EncounterEvent := { m2 with id := m.id.or m0.id }
  let m4 : EncounterEvent := { m3 with address := m.address.or m0.address }
  let m5 : EncounterEvent := { m4 with rssiEvents := m0.rssiEvents ++ m.rssiEvents }
  let m6 : EncounterEvent := { m5 with matchingSet := m0.matchingSet ++ m.matchingSet }
  let m7 : EncounterEvent := { m6 with sharedSecrets := m0.sharedSecrets ++ m.sharedSecrets }
  let m8 : EncounterEvent := { m7 with pkid := m.pkid.or m0.pkid }
  let m9 : EncounterEvent := { m8 with matchingSetUpdated := m.matchingSetUpdated.or m0.matchingSetUpdated }
  refine .append (n := m9) (.append (n := m8) (.append (n := m7) (.append (n := m6) (.append (n := m5) (.append (n := m4)
    (.append (n := m3) (.append (n := m2) (.append (n := m1) ?type ?time) ?id) ?address) ?rssiEvents) ?matchingSet)
    ?sharedSecrets) ?pkid) ?updated) ?unknownFields
  case type =>
    exact .enumeration (f := messageClass.fields[0]) (List.getElem_mem _) rfl (fun type => by cases type <;> decide) rfl
  case time =>
    exact .optional (f := messageClass.fields[1]) (List.getElem_mem _) rfl rfl fun time _ => reads_uInt64 time _
  case id =>
    exact .optional (f := messageClass.fields[2]) (List.getElem_mem _) rfl rfl fun id _ => reads_int32 id _
  case address =>
    refine .optional (f := messageClass.fields[3]) (List.getElem_mem _) rfl rfl fun address haddress => ?_
    have hlength : address.length < 2 ^ 31 := by
      have hle := le_lengthDelimitedSize address.length
      rw [byteSize, haddress, Option.elim_some (a := address)] at h
      omega
    exact reads_mutableField (reads_bytes hlength _)
  case rssiEvents =>
    refine .repeated (f := messageClass.fields[4]) (List.getElem_mem _) rfl (fun _ => rfl) (fun _ _ => rfl)
      (fun _ _ _ => rfl) fun rssiEvent hrssiEvent rssiEvents => ?_
    have hsize : rssiEvent.byteSize < 2 ^ 31 := by
      have hle := @le_sum_lengthDelimitedSize _ RSSIEvent.byteSize _ _ hrssiEvent
      rw [byteSize] at h
      omega
    have hparses := RSSIEvent.parses {} (hfits.rssiEvents rssiEvent hrssiEvent)
    rw [rssiEvent.mergeFrom_clear] at hparses
    exact reads_addField (reads_sized hparses rssiEvent.length_serialize hsize) rssiEvents
  case matchingSet =>
    refine .repeated (f := messageClass.fields[5]) (List.getElem_mem _) rfl (fun _ => rfl) (fun _ _ => rfl)
      (fun _ _ _ => rfl) fun value hvalue values => ?_
    have hlength : value.length < 2 ^ 31 := by
      have hle := @le_sum_lengthDelimitedSize _ List.length _ _ hvalue
      rw [byteSize] at h
      omega
    exact reads_addField (reads_bytes hlength []) values
  case sharedSecrets =>
    refine .repeated (f := messageClass.fields[6]) (List.getElem_mem _) rfl (fun _ => rfl) (fun _ _ => rfl)
      (fun _ _ _ => rfl) fun value hvalue values => ?_
    have hlength : value.length < 2 ^ 31 := by
      have hle := @le_sum_lengthDelimitedSize _ List.length _ _ hvalue
      rw [byteSize] at h
      omega
    exact reads_addField (reads_bytes hlength []) values
  case pkid =>
    exact .optional (f := messageClass.fields[7]) (List.getElem_mem _) rfl rfl fun pkid _ => reads_uInt64 pkid _
  case updated =>
    exact .optional (f := messageClass.fields[8]) (List.getElem_mem _) rfl rfl fun updated _ => reads_bool updated _
  case unknownFields => exact .unknownFields (fun field hfield => (hfits.unknownFields field hfield).keeps) m9

theorem SleepEvent.parses (m0 : SleepEvent) {m : SleepEvent} (hfits : m.Fits depth) :
    messageClass.Parses depth m.serialize m0 (m0.mergeFrom m) := by
  let m1 : SleepEvent := { m0 with duration := m.duration.or m0.duration }
  refine .append (n := m1) ?duration ?unknownFields
  case duration =>
    exact .optional (f := messageClass.fields[0]) (List.getElem_mem _) rfl rfl fun duration _ => reads_uInt64 duration _
  case unknownFields => exact .unknownFields (fun field hfield => (hfits field hfield).keeps) m1

/-- What was serialized is merged into the event. -/
theorem Event.parses (m0 : Event) {m : Event} (hfits : m.Fits (depth + 2)) (h : m.byteSize < 2 ^ 31) :
    messageClass.Parses (depth + 2) m.serialize m0 (m0.mergeFrom m) := by
  let m1 : Event :=
    { m0 with
      linkabilityEvent := m.linkabilityEvent.elim m0.linkabilityEvent fun event =>
        some ((m0.linkabilityEvent.getD {}).mergeFrom event) }
  let m2 : Event :=
    { m1 with
      encounterEvent := m.encounterEvent.elim m0.encounterEvent fun event =>
        some ((m0.encounterEvent.getD {}).mergeFrom event) }
  let m3 : Event :=
    { m2 with
      sleepEvent := m.sleepEvent.elim m0.sleepEvent fun event => some ((m0.sleepEvent.getD {}).mergeFrom event) }
  refine .append (n := m3) (.append (n := m2) (.append (n := m1) ?linkabilityEvent ?encounterEvent) ?sleepEvent)
    ?unknownFields
  case linkabilityEvent =>
    refine .elim (f := messageClass.fields[0]) (List.getElem_mem _) rfl rfl fun event hevent => ?_
    have hsize : event.byteSize < 2 ^ 31 := by
      have hle := le_lengthDelimitedSize event.byteSize
      rw [byteSize, hevent, Option.elim_some (a := event)] at h
      omega
    exact reads_mutableField (reads_sized (LinkabilityEvent.parses _ (hfits.linkabilityEvent event hevent) hsize)
      event.length_serialize hsize)
  case encounterEvent =>
    refine .elim (f := messageClass.fields[1]) (List.getElem_mem _) rfl rfl fun event hevent => ?_
    have hsize : event.byteSize < 2 ^ 31 := by
      have hle := le_lengthDelimitedSize event.byteSize
      rw [byteSize, hevent, Option.elim_some (a := event)] at h
      omega
    exact reads_mutableField (reads_sized (EncounterEvent.parses _ (hfits.encounterEvent event hevent) hsize)
      event.length_serialize hsize)
  case sleepEvent =>
    refine .elim (f := messageClass.fields[2]) (List.getElem_mem _) rfl rfl fun event hevent => ?_
    have hsize : event.byteSize < 2 ^ 31 := by
      have hle := le_lengthDelimitedSize event.byteSize
      rw [byteSize, hevent, Option.elim_some (a := event)] at h
      omega
    have hparses := SleepEvent.parses (m0.sleepEvent.getD {}) (hfits.sleepEvent event hevent)
    exact reads_mutableField (reads_sized hparses event.length_serialize hsize)
  case unknownFields => exact .unknownFields (fun field hfield => (hfits.unknownFields field hfield).keeps) m3

end Parses

theorem LinkabilityEvent.mergeFrom_clear (m : LinkabilityEvent) : mergeFrom {} m = m := by simp [mergeFrom]

theorem EncounterEvent.mergeFrom_clear (m : EncounterEvent) : mergeFrom {} m = m := by simp [mergeFrom]

theorem SleepEvent.mergeFrom_clear (m : SleepEvent) : mergeFrom {} m = m := by simp [mergeFrom]

theorem Event.mergeFrom_clear (m : Event) : mergeFrom {} m = m := by
  have helim : ∀ {α : Type} (o : Option α), (o.elim none fun a => some a) = o := fun o => by cases o <;> rfl
  simp [mergeFrom, LinkabilityEvent.mergeFrom_clear, EncounterEvent.mergeFrom_clear, SleepEvent.mergeFrom_clear, helim]

theorem Event.parseFromCodedStream_of_parses {bytes : List Byte} {m : Event}
    (h : messageClass.Parses recursionLimit bytes {} m) : parseFromCodedStream bytes = (m.isInitialized, m) := by
  rw [parseFromCodedStream, h.mergePartial]

theorem Event.parseFromCodedStream_serialize {m : Event} (hfits : m.Fits recursionLimit) (h : m.byteSize < 2 ^ 31) :
    parseFromCodedStream m.serialize = (m.isInitialized, m) := by
  have hparses := @Event.parses 98 {} _ hfits h
  rw [m.mergeFrom_clear] at hparses
  exact parseFromCodedStream_of_parses hparses

end EbNCore

end Sddr.Wire

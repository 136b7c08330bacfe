import Sddr.Wire.Message

/-!
# The messages of the core

`ebncore.pb.cc`. A field without its bit in `_has_bits_` is `none`, and each message keeps the fields that it does not know.
-/

namespace Sddr.Wire.EbNCore
open Sddr.Lib

/-! ## Enumerations -/

/-- `Event_LinkabilityEvent_Entry_ModeType`. -/
inductive ModeType where
  | Listen
  | AdvertAndListen
  deriving DecidableEq

namespace ModeType

def value : ModeType → BitVec 32
  | Listen => 0
  | AdvertAndListen => 1

/-- `IsValid` and the cast. -/
def ofValue? (value : BitVec 32) : Option ModeType := [Listen, AdvertAndListen].find? fun mode => mode.value = value

end ModeType

/-- `Event_EncounterEvent_EventType`. -/
inductive EventType where
  | Start
  | Update
  | End
  | UnconfirmedStart
  deriving DecidableEq

namespace EventType

def value : EventType → BitVec 32
  | Start => 0
  | Update => 1
  | End => 2
  | UnconfirmedStart => 3

/-- `IsValid` and the cast. -/
def ofValue? (value : BitVec 32) : Option EventType :=
  [Start, Update, End, UnconfirmedStart].find? fun type => type.value = value

end EventType

/-! ## Messages -/

/-- `Event_LinkabilityEvent_Entry`. -/
structure Entry where
  linkValue : Option (List Byte) := none
  mode : Option ModeType := none
  unknownFields : List UnknownField := []
  deriving DecidableEq

/-- `Event_LinkabilityEvent`. -/
structure LinkabilityEvent where
  entries : List Entry := []
  unknownFields : List UnknownField := []
  deriving DecidableEq

/-- `Event_EncounterEvent_RSSIEvent`. -/
structure RSSIEvent where
  time : Option (BitVec 64) := none
  rssi : Option (BitVec 32) := none
  unknownFields : List UnknownField := []
  deriving DecidableEq

/-- `Event_EncounterEvent`. -/
structure EncounterEvent where
  type : Option EventType := none
  time : Option (BitVec 64) := none
  id : Option (BitVec 32) := none
  address : Option (List Byte) := none
  rssiEvents : List RSSIEvent := []
  matchingSet : List (List Byte) := []
  sharedSecrets : List (List Byte) := []
  pkid : Option (BitVec 64) := none
  matchingSetUpdated : Option Bool := none
  unknownFields : List UnknownField := []
  deriving DecidableEq

/-- `Event_SleepEvent`. -/
structure SleepEvent where
  duration : Option (BitVec 64) := none
  unknownFields : List UnknownField := []
  deriving DecidableEq

structure Event where
  linkabilityEvent : Option LinkabilityEvent := none
  encounterEvent : Option EncounterEvent := none
  sleepEvent : Option SleepEvent := none
  unknownFields : List UnknownField := []
  deriving DecidableEq

/-! ## Initialized messages -/

def Entry.isInitialized (m : Entry) : Bool := m.linkValue.isSome && m.mode.isSome

def LinkabilityEvent.isInitialized (m : LinkabilityEvent) : Bool := m.entries.all Entry.isInitialized

def RSSIEvent.isInitialized (m : RSSIEvent) : Bool := m.time.isSome && m.rssi.isSome

def EncounterEvent.isInitialized (m : EncounterEvent) : Bool :=
  m.type.isSome && m.time.isSome && m.id.isSome && m.address.isSome && m.pkid.isSome && m.matchingSetUpdated.isSome
    && m.rssiEvents.all RSSIEvent.isInitialized

def SleepEvent.isInitialized (m : SleepEvent) : Bool := m.duration.isSome

def Event.isInitialized (m : Event) : Bool :=
  m.linkabilityEvent.all LinkabilityEvent.isInitialized && m.encounterEvent.all EncounterEvent.isInitialized
    && m.sleepEvent.all SleepEvent.isInitialized

/-! ## `MergeFrom` -/

def Entry.mergeFrom (m source : Entry) : Entry where
  linkValue := source.linkValue.or m.linkValue
  mode := source.mode.or m.mode
  unknownFields := m.unknownFields ++ source.unknownFields

def LinkabilityEvent.mergeFrom (m source : LinkabilityEvent) : LinkabilityEvent where
  entries := m.entries ++ source.entries
  unknownFields := m.unknownFields ++ source.unknownFields

def EncounterEvent.mergeFrom (m source : EncounterEvent) : EncounterEvent where
  type := source.type.or m.type
  time := source.time.or m.time
  id := source.id.or m.id
  address := source.address.or m.address
  rssiEvents := m.rssiEvents ++ source.rssiEvents
  matchingSet := m.matchingSet ++ source.matchingSet
  sharedSecrets := m.sharedSecrets ++ source.sharedSecrets
  pkid := source.pkid.or m.pkid
  matchingSetUpdated := source.matchingSetUpdated.or m.matchingSetUpdated
  unknownFields := m.unknownFields ++ source.unknownFields

def RSSIEvent.mergeFrom (m source : RSSIEvent) : RSSIEvent where
  time := source.time.or m.time
  rssi := source.rssi.or m.rssi
  unknownFields := m.unknownFields ++ source.unknownFields

def SleepEvent.mergeFrom (m source : SleepEvent) : SleepEvent where
  duration := source.duration.or m.duration
  unknownFields := m.unknownFields ++ source.unknownFields

def Event.mergeFrom (m source : Event) : Event where
  linkabilityEvent := source.linkabilityEvent.elim m.linkabilityEvent fun event =>
    some ((m.linkabilityEvent.getD {}).mergeFrom event)
  encounterEvent := source.encounterEvent.elim m.encounterEvent fun event => some ((m.encounterEvent.getD {}).mergeFrom event)
  sleepEvent := source.sleepEvent.elim m.sleepEvent fun event => some ((m.sleepEvent.getD {}).mergeFrom event)
  unknownFields := m.unknownFields ++ source.unknownFields

/-! ## Sizes -/

def Entry.byteSize (m : Entry) : Nat :=
  m.linkValue.elim 0 (fun linkValue => 1 + lengthDelimitedSize linkValue.length)
    + m.mode.elim 0 (fun mode => 1 + int32Size mode.value)
    + computeUnknownFieldsSize m.unknownFields

def LinkabilityEvent.byteSize (m : LinkabilityEvent) : Nat :=
  (1 * m.entries.length + (m.entries.map fun entry => lengthDelimitedSize entry.byteSize).sum)
    + computeUnknownFieldsSize m.unknownFields

def RSSIEvent.byteSize (m : RSSIEvent) : Nat :=
  m.time.elim 0 (fun time => 1 + uInt64Size time) + m.rssi.elim 0 (fun rssi => 1 + sInt32Size rssi)
    + computeUnknownFieldsSize m.unknownFields

def EncounterEvent.byteSize (m : EncounterEvent) : Nat :=
  m.type.elim 0 (fun type => 1 + int32Size type.value)
    + m.time.elim 0 (fun time => 1 + uInt64Size time)
    + m.id.elim 0 (fun id => 1 + int32Size id)
    + m.address.elim 0 (fun address => 1 + lengthDelimitedSize address.length)
    + m.pkid.elim 0 (fun pkid => 1 + uInt64Size pkid)
    + m.matchingSetUpdated.elim 0 (fun _ => 1 + 1)
    + (1 * m.rssiEvents.length + (m.rssiEvents.map fun rssiEvent => lengthDelimitedSize rssiEvent.byteSize).sum)
    + (1 * m.matchingSet.length + (m.matchingSet.map fun value => lengthDelimitedSize value.length).sum)
    + (1 * m.sharedSecrets.length + (m.sharedSecrets.map fun value => lengthDelimitedSize value.length).sum)
    + computeUnknownFieldsSize m.unknownFields

def SleepEvent.byteSize (m : SleepEvent) : Nat :=
  m.duration.elim 0 (fun duration => 1 + uInt64Size duration) + computeUnknownFieldsSize m.unknownFields

def Event.byteSize (m : Event) : Nat :=
  m.linkabilityEvent.elim 0 (fun event => 1 + lengthDelimitedSize event.byteSize)
    + m.encounterEvent.elim 0 (fun event => 1 + lengthDelimitedSize event.byteSize)
    + m.sleepEvent.elim 0 (fun event => 1 + lengthDelimitedSize event.byteSize)
    + computeUnknownFieldsSize m.unknownFields

/-! ## `SerializeWithCachedSizesToArray` -/

def Entry.serialize (m : Entry) : List Byte :=
  m.linkValue.elim [] (writeBytesToArray 1) ++ m.mode.elim [] (fun mode => writeEnumToArray 2 mode.value)
    ++ serializeUnknownFieldsToArray m.unknownFields

def LinkabilityEvent.serialize (m : LinkabilityEvent) : List Byte :=
  m.entries.flatMap (fun entry => writeMessageNoVirtualToArray 1 entry.byteSize entry.serialize)
    ++ serializeUnknownFieldsToArray m.unknownFields

def RSSIEvent.serialize (m : RSSIEvent) : List Byte :=
  m.time.elim [] (writeUInt64ToArray 1) ++ m.rssi.elim [] (writeSInt32ToArray 2)
    ++ serializeUnknownFieldsToArray m.unknownFields

def EncounterEvent.serialize (m : EncounterEvent) : List Byte :=
  m.type.elim [] (fun type => writeEnumToArray 1 type.value)
    ++ m.time.elim [] (writeUInt64ToArray 2)
    ++ m.id.elim [] (writeInt32ToArray 3)
    ++ m.address.elim [] (writeBytesToArray 4)
    ++ m.rssiEvents.flatMap (fun rssiEvent => writeMessageNoVirtualToArray 5 rssiEvent.byteSize rssiEvent.serialize)
    ++ m.matchingSet.flatMap (writeBytesToArray 6)
    ++ m.sharedSecrets.flatMap (writeBytesToArray 7)
    ++ m.pkid.elim [] (writeUInt64ToArray 8)
    ++ m.matchingSetUpdated.elim [] (writeBoolToArray 9)
    ++ serializeUnknownFieldsToArray m.unknownFields

def SleepEvent.serialize (m : SleepEvent) : List Byte :=
  m.duration.elim [] (writeUInt64ToArray 1) ++ serializeUnknownFieldsToArray m.unknownFields

def Event.serialize (m : Event) : List Byte :=
  m.linkabilityEvent.elim [] (fun event => writeMessageNoVirtualToArray 1 event.byteSize event.serialize)
    ++ m.encounterEvent.elim [] (fun event => writeMessageNoVirtualToArray 2 event.byteSize event.serialize)
    ++ m.sleepEvent.elim [] (fun event => writeMessageNoVirtualToArray 3 event.byteSize event.serialize)
    ++ serializeUnknownFieldsToArray m.unknownFields

/-! ## `MergePartialFromCodedStream` -/

def Entry.messageClass : MessageClass Entry where
  fields := [
    { number := 1, wireType := .lengthDelimited,
      reader := (Reader.bytes.mutableField []).ofMember Entry.linkValue fun m linkValue => { m with linkValue },
      expects := [(16, 2)], endsAfter := false },
    { number := 2, wireType := .varint,
      reader := (Reader.enum 2 ModeType.ofValue?).ofMember (fun m => (m.mode, m.unknownFields))
        fun m (mode, unknownFields) => { m with mode, unknownFields },
      expects := [], endsAfter := true }]
  unknownFields := Entry.unknownFields
  setUnknownFields m unknownFields := { m with unknownFields }
  tags := by decide
  expected := by decide
  distinct := by decide

def LinkabilityEvent.messageClass : MessageClass LinkabilityEvent where
  fields := [
    { number := 1, wireType := .lengthDelimited,
      reader := ((Reader.message Entry.messageClass).addField {}).ofMember LinkabilityEvent.entries
        fun m entries => { m with entries },
      expects := [(10, 1)], endsAfter := true }]
  unknownFields := LinkabilityEvent.unknownFields
  setUnknownFields m unknownFields := { m with unknownFields }
  tags := by decide
  expected := by decide
  distinct := by decide

def RSSIEvent.messageClass : MessageClass RSSIEvent where
  fields := [
    { number := 1, wireType := .varint,
      reader := Reader.uInt64.ofMember RSSIEvent.time fun m time => { m with time },
      expects := [(16, 2)], endsAfter := false },
    { number := 2, wireType := .varint,
      reader := Reader.sInt32.ofMember RSSIEvent.rssi fun m rssi => { m with rssi },
      expects := [], endsAfter := true }]
  unknownFields := RSSIEvent.unknownFields
  setUnknownFields m unknownFields := { m with unknownFields }
  tags := by decide
  expected := by decide
  distinct := by decide

def EncounterEvent.messageClass : MessageClass EncounterEvent where
  fields := [
    { number := 1, wireType := .varint,
      reader := (Reader.enum 1 EventType.ofValue?).ofMember (fun m => (m.type, m.unknownFields))
        fun m (type, unknownFields) => { m with type, unknownFields },
      expects := [(16, 2)], endsAfter := false },
    { number := 2, wireType := .varint,
      reader := Reader.uInt64.ofMember EncounterEvent.time fun m time => { m with time },
      expects := [(24, 3)], endsAfter := false },
    { number := 3, wireType := .varint,
      reader := Reader.int32.ofMember EncounterEvent.id fun m id => { m with id },
      expects := [(34, 4)], endsAfter := false },
    { number := 4, wireType := .lengthDelimited,
      reader := (Reader.bytes.mutableField []).ofMember EncounterEvent.address fun m address => { m with address },
      expects := [(42, 5)], endsAfter := false },
    { number := 5, wireType := .lengthDelimited,
      reader := ((Reader.message RSSIEvent.messageClass).addField {}).ofMember EncounterEvent.rssiEvents
        fun m rssiEvents => { m with rssiEvents },
      expects := [(42, 5), (50, 6)], endsAfter := false },
    { number := 6, wireType := .lengthDelimited,
      reader := (Reader.bytes.addField []).ofMember EncounterEvent.matchingSet fun m matchingSet => { m with matchingSet },
      expects := [(50, 6), (58, 7)], endsAfter := false },
    { number := 7, wireType := .lengthDelimited,
      reader := (Reader.bytes.addField []).ofMember EncounterEvent.sharedSecrets
        fun m sharedSecrets => { m with sharedSecrets },
      expects := [(58, 7), (64, 8)], endsAfter := false },
    { number := 8, wireType := .varint,
      reader := Reader.uInt64.ofMember EncounterEvent.pkid fun m pkid => { m with pkid },
      expects := [(72, 9)], endsAfter := false },
    { number := 9, wireType := .varint,
      reader := Reader.bool.ofMember EncounterEvent.matchingSetUpdated
        fun m matchingSetUpdated => { m with matchingSetUpdated },
      expects := [], endsAfter := true }]
  unknownFields := EncounterEvent.unknownFields
  setUnknownFields m unknownFields := { m with unknownFields }
  tags := by decide
  expected := by decide
  distinct := by decide

def SleepEvent.messageClass : MessageClass SleepEvent where
  fields := [
    { number := 1, wireType := .varint,
      reader := Reader.uInt64.ofMember SleepEvent.duration fun m duration => { m with duration },
      expects := [], endsAfter := true }]
  unknownFields := SleepEvent.unknownFields
  setUnknownFields m unknownFields := { m with unknownFields }
  tags := by decide
  expected := by decide
  distinct := by decide

def Event.messageClass : MessageClass Event where
  fields := [
    { number := 1, wireType := .lengthDelimited,
      reader := ((Reader.message LinkabilityEvent.messageClass).mutableField {}).ofMember Event.linkabilityEvent
        fun m linkabilityEvent => { m with linkabilityEvent },
      expects := [(18, 2)], endsAfter := false },
    { number := 2, wireType := .lengthDelimited,
      reader := ((Reader.message EncounterEvent.messageClass).mutableField {}).ofMember Event.encounterEvent
        fun m encounterEvent => { m with encounterEvent },
      expects := [(26, 3)], endsAfter := false },
    { number := 3, wireType := .lengthDelimited,
      reader := ((Reader.message SleepEvent.messageClass).mutableField {}).ofMember Event.sleepEvent
        fun m sleepEvent => { m with sleepEvent },
      expects := [], endsAfter := true }]
  unknownFields := Event.unknownFields
  setUnknownFields m unknownFields := { m with unknownFields }
  tags := by decide
  expected := by decide
  distinct := by decide

/-! ## What is read back -/

/-- A field without a case, or a mode that is not valid. -/
def Entry.Unknown (depth : Nat) (field : UnknownField) : Prop :=
  Entry.messageClass.Unknown depth field
    ∨ ∃ value, ModeType.ofValue? value = none ∧ field = .varint 2 (value.signExtend 64)

/-- A field without a case, or a type that is not valid. -/
def EncounterEvent.Unknown (depth : Nat) (field : UnknownField) : Prop :=
  EncounterEvent.messageClass.Unknown depth field
    ∨ ∃ value, EventType.ofValue? value = none ∧ field = .varint 1 (value.signExtend 64)

def Entry.Fits (depth : Nat) (m : Entry) : Prop := ∀ field ∈ m.unknownFields, Entry.Unknown depth field

structure LinkabilityEvent.Fits (depth : Nat) (m : LinkabilityEvent) : Prop where
  entries : ∀ entry ∈ m.entries, entry.Fits (depth - 1)
  unknownFields : ∀ field ∈ m.unknownFields, LinkabilityEvent.messageClass.Unknown depth field

def RSSIEvent.Fits (depth : Nat) (m : RSSIEvent) : Prop :=
  ∀ field ∈ m.unknownFields, RSSIEvent.messageClass.Unknown depth field

structure EncounterEvent.Fits (depth : Nat) (m : EncounterEvent) : Prop where
  rssiEvents : ∀ rssiEvent ∈ m.rssiEvents, rssiEvent.Fits (depth - 1)
  unknownFields : ∀ field ∈ m.unknownFields, EncounterEvent.Unknown depth field

def SleepEvent.Fits (depth : Nat) (m : SleepEvent) : Prop :=
  ∀ field ∈ m.unknownFields, SleepEvent.messageClass.Unknown depth field

/-- The unknown fields of the event and of the messages in it are such as a parser leaves them, where `depth` more messages and
groups may be entered. -/
structure Event.Fits (depth : Nat) (m : Event) : Prop where
  linkabilityEvent : ∀ event ∈ m.linkabilityEvent, event.Fits (depth - 1)
  encounterEvent : ∀ event ∈ m.encounterEvent, event.Fits (depth - 1)
  sleepEvent : ∀ event ∈ m.sleepEvent, event.Fits (depth - 1)
  unknownFields : ∀ field ∈ m.unknownFields, Event.messageClass.Unknown depth field

/-! ## Parsing -/

/-- `default_recursion_limit_`. -/
def recursionLimit : Nat := 100

/-- `ParseFromCodedStream` for an array of fewer than `kDefaultTotalBytesLimit` bytes: what it returns, and the event as it
leaves it. -/
def Event.parseFromCodedStream (buffer : List Byte) : Bool × Event :=
  match Event.messageClass.mergePartial recursionLimit {} buffer with
  | .failed m => (false, m)
  | .ended m _ => (m.isInitialized, m)

end Sddr.Wire.EbNCore

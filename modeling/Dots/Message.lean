import Dots.Type.Struct

/-!
# Headers, messages and transmissions

The internal types the library itself reads keep their fields here; every other type, cached
internal types included, is a `Struct` of the type its name stands for in a `Schema`.

* `DotsHeader`, `DotsMt`, `DotsCloneInformation`.
* The handshake messages `DotsMsgHello`, `DotsMsgConnect`, `DotsMsgConnectResponse`,
  `DotsMsgError`, with their property sets, and the other internal messages.
* `AnyStruct`, `Transmission`; `Transmission.wire` is what arrives of a transmission.
-/

set_option autoImplicit false

namespace Dots

abbrev Timepoint := ℕ

/-- The id of a connection, unique in a space. -/
abbrev ConnectionId := ℕ

/-- `Connection::HostId`. -/
def hostId : ConnectionId := 1

/-- `Connection::UninitializedId`, the id of a guest before the handshake. -/
def uninitializedId : ConnectionId := 0

structure DotsHeader where
  typeName : String
  sentTime : Option Timepoint := none
  serverSentTime : Option Timepoint := none
  attributes : PropertySet
  sender : Option ConnectionId := none
  fromCache : Option ℕ := none
  removeObj : Option Bool := none
  isFromMyself : Option Bool := none
  deriving DecidableEq

inductive DotsMt | create | update | remove
  deriving DecidableEq

structure DotsCloneInformation where
  lastOperation : DotsMt
  lastUpdateFrom : Option ConnectionId
  created : Option Timepoint
  createdFrom : Option ConnectionId
  modified : Option Timepoint
  localUpdateTime : Timepoint
  deriving DecidableEq

/-! ## Handshake messages -/

structure DotsMsgHello where
  serverName : Option String := none
  authChallenge : Option ℕ := none
  authenticationRequired : Option Bool := none
  deriving DecidableEq

structure DotsMsgConnect where
  clientName : Option String := none
  preloadCache : Option Bool := none
  preloadClientFinished : Option Bool := none
  authChallengeResponse : Option String := none
  cnonce : Option String := none
  deriving DecidableEq

structure DotsMsgConnectResponse where
  serverName : Option String := none
  accepted : Option Bool := none
  preload : Option Bool := none
  preloadFinished : Option Bool := none
  clientId : Option ConnectionId := none
  deriving DecidableEq

structure DotsMsgError where
  errorCode : Option ℤ := none
  errorText : Option String := none
  deriving DecidableEq

/-- The bit of a property that is valid, nothing for one that is not. -/
def validBit {α : Type} (t : Tag) (p : Option α) : PropertySet := if p.isSome then {t} else ∅

def DotsMsgHello.validProperties (m : DotsMsgHello) : PropertySet :=
  validBit 1 m.serverName ∪ validBit 2 m.authChallenge ∪ validBit 3 m.authenticationRequired

def DotsMsgConnect.validProperties (m : DotsMsgConnect) : PropertySet :=
  validBit 1 m.clientName ∪ validBit 2 m.preloadCache ∪ validBit 3 m.preloadClientFinished ∪
    validBit 4 m.authChallengeResponse ∪ validBit 5 m.cnonce

def DotsMsgConnectResponse.validProperties (m : DotsMsgConnectResponse) : PropertySet :=
  validBit 1 m.serverName ∪ validBit 2 m.accepted ∪ validBit 3 m.preload ∪
    validBit 4 m.preloadFinished ∪ validBit 5 m.clientId

def DotsMsgError.validProperties (m : DotsMsgError) : PropertySet :=
  validBit 1 m.errorCode ∪ validBit 2 m.errorText

/-! ## Other internal messages -/

inductive DotsMemberEvent | join | leave | kill
  deriving DecidableEq

structure DotsMember where
  groupName : Option String := none
  event : Option DotsMemberEvent := none
  client : Option ConnectionId := none
  deriving DecidableEq

structure DotsCacheInfo where
  typeName : Option String := none
  startTransmission : Option Bool := none
  endTransmission : Option Bool := none
  endDescriptorRequest : Option Bool := none
  deriving DecidableEq

structure DotsClearCache where
  typeNames : Option (List String) := none
  deriving DecidableEq

structure DotsDescriptorRequest where
  whitelist : Option (List String) := none
  blacklist : Option (List String) := none
  deriving DecidableEq

structure DotsEcho where
  request : Option Bool := none
  identifier : Option ℕ := none
  sequenceNumber : Option ℕ := none
  data : Option String := none
  deriving DecidableEq

structure EnumElementDescriptor where
  enumValue : Option ℤ := none
  name : Option String := none
  tag : Option ℕ := none
  deriving DecidableEq

structure EnumDescriptorData where
  name : Option String := none
  elements : Option (List EnumElementDescriptor) := none
  deriving DecidableEq

structure StructPropertyData where
  name : Option String := none
  tag : Option ℕ := none
  isKey : Option Bool := none
  type : Option String := none
  deriving DecidableEq

structure DotsStructFlags where
  cached : Option Bool := none
  internal : Option Bool := none
  persistent : Option Bool := none
  cleanup : Option Bool := none
  local_ : Option Bool := none
  substructOnly : Option Bool := none
  deriving DecidableEq

structure StructDescriptorData where
  name : Option String := none
  properties : Option (List StructPropertyData) := none
  flags : Option DotsStructFlags := none
  deriving DecidableEq

/-! ## Instances of any type -/

/-- The internal types whose fields are above; none of them is cached. -/
def internalTypes : List String :=
  ["DotsMsgHello", "DotsMsgConnect", "DotsMsgConnectResponse", "DotsMsgError", "DotsMember",
    "DotsCacheInfo", "DotsClearCache", "DotsDescriptorRequest", "DotsEcho", "EnumDescriptorData",
    "StructDescriptorData"]

/-- The struct types of a space: what each type name stands for. -/
structure Schema where
  descriptor : String → StructDescriptor
  name_eq : ∀ n, (descriptor n).name = n
  internalTypes_not_cached : ∀ n ∈ internalTypes, (descriptor n).cached = false

/-- The test type `DotsTestStruct` of the DOTS model. -/
def dotsTestStruct : StructDescriptor where
  name := "DotsTestStruct"
  propertyDescriptors := [
    { name := "stringField", tag := 1, isKey := false },
    { name := "indKeyfField", tag := 2, isKey := true },
    { name := "floatField", tag := 3, isKey := false },
    { name := "enumField", tag := 4, isKey := false },
    { name := "tp", tag := 5, isKey := false },
    { name := "subStruct", tag := 6, isKey := false },
    { name := "uuid", tag := 7, isKey := false },
    { name := "uint64Field", tag := 8, isKey := false },
    { name := "int64Field", tag := 9, isKey := false }]
  cached := true
  internal := false
  cleanup := false
  substructOnly := false
  tags_nodup := by decide

/-- `DotsTestStruct{ .indKeyfField = key, .int64Field = value }`, the second property being
invalid for `none`. -/
def dotsTestInstance (key : ℕ) (value : Option ℕ) : Struct ℕ dotsTestStruct where
  value t := if t = 2 then some key else if t = 9 then value else none
  value_eq_none t ht := by
    have h2 : t ≠ 2 := by rintro rfl; exact ht (by decide)
    have h9 : t ≠ 9 := by rintro rfl; exact ht (by decide)
    rw [if_neg h2, if_neg h9]

/-- A space whose only type with properties is `DotsTestStruct`. -/
def testSchema : Schema where
  descriptor n :=
    if n = "DotsTestStruct" then dotsTestStruct
    else
      { name := n, propertyDescriptors := [], cached := false, internal := false
        cleanup := false, substructOnly := false, tags_nodup := List.nodup_nil }
  name_eq n := by
    split_ifs with h
    · exact h.symm
    · rfl
  internalTypes_not_cached := by decide

/-- An instance of any struct type. -/
inductive AnyStruct (S : Schema) (V : Type)
  | hello (m : DotsMsgHello)
  | connect (m : DotsMsgConnect)
  | connectResponse (m : DotsMsgConnectResponse)
  | error (m : DotsMsgError)
  | member (m : DotsMember)
  | cacheInfo (m : DotsCacheInfo)
  | clearCache (m : DotsClearCache)
  | descriptorRequest (m : DotsDescriptorRequest)
  | echo (m : DotsEcho)
  | enumDescriptorData (m : EnumDescriptorData)
  | structDescriptorData (m : StructDescriptorData)
  | struct (n : String) (x : Struct V (S.descriptor n))

namespace AnyStruct

variable {S : Schema} {V : Type}

def typeName : AnyStruct S V → String
  | hello _ => "DotsMsgHello"
  | connect _ => "DotsMsgConnect"
  | connectResponse _ => "DotsMsgConnectResponse"
  | error _ => "DotsMsgError"
  | member _ => "DotsMember"
  | cacheInfo _ => "DotsCacheInfo"
  | clearCache _ => "DotsClearCache"
  | descriptorRequest _ => "DotsDescriptorRequest"
  | echo _ => "DotsEcho"
  | enumDescriptorData _ => "EnumDescriptorData"
  | structDescriptorData _ => "StructDescriptorData"
  | struct n _ => n

/-- The types of the handshake, `_isAny` in `Connection::handleReceive`. -/
def isSystem : AnyStruct S V → Bool
  | hello _ | connect _ | connectResponse _ | error _ => true
  | _ => false

def cached : AnyStruct S V → Bool
  | struct n _ => (S.descriptor n).cached
  | _ => false

/-- The values of the key properties, nothing for the uncached types above. -/
def key : AnyStruct S V → List (Option V)
  | struct _ x => x.key
  | _ => []

/-- Whether all key properties are valid. -/
def hasKeyProperties : AnyStruct S V → Bool
  | enumDescriptorData m => m.name.isSome
  | structDescriptorData m => m.name.isSome
  | struct n x => decide ((S.descriptor n).keyProperties ⊆ x.validProperties)
  | _ => true

/-- The key properties that are not valid. -/
def missingKeyProperties : AnyStruct S V → PropertySet
  | enumDescriptorData _ | structDescriptorData _ => {1}
  | struct n x => (S.descriptor n).keyProperties \ x.validProperties
  | _ => ∅

/-- The valid properties of a handshake message. -/
def systemProperties : AnyStruct S V → PropertySet
  | hello m => m.validProperties
  | connect m => m.validProperties
  | connectResponse m => m.validProperties
  | error m => m.validProperties
  | _ => ∅

/-- The valid properties of an instance. -/
def validProperties : AnyStruct S V → PropertySet
  | member m => validBit 1 m.groupName ∪ validBit 2 m.event ∪ validBit 3 m.client
  | cacheInfo m =>
    validBit 1 m.typeName ∪ validBit 2 m.startTransmission ∪ validBit 3 m.endTransmission ∪
      validBit 4 m.endDescriptorRequest
  | clearCache m => validBit 1 m.typeNames
  | descriptorRequest m => validBit 1 m.whitelist ∪ validBit 2 m.blacklist
  | echo m =>
    validBit 1 m.request ∪ validBit 2 m.identifier ∪ validBit 3 m.sequenceNumber ∪
      validBit 4 m.data
  | enumDescriptorData m => validBit 1 m.name ∪ validBit 2 m.elements
  | structDescriptorData m =>
    validBit 1 m.name ∪ validBit 2 m.properties ∪ validBit 5 m.flags
  | struct _ x => x.validProperties
  | x => x.systemProperties

/-- What a channel carries of an instance. -/
def restrict : AnyStruct S V → PropertySet → AnyStruct S V
  | struct n x, s => struct n (x.restrict s)
  | x, _ => x

@[simp] theorem typeName_restrict (x : AnyStruct S V) (s : PropertySet) :
    (x.restrict s).typeName = x.typeName := by cases x <;> rfl

@[simp] theorem isSystem_restrict (x : AnyStruct S V) (s : PropertySet) :
    (x.restrict s).isSystem = x.isSystem := by cases x <;> rfl

theorem restrict_of_isSystem {x : AnyStruct S V} (h : x.isSystem = true) (s : PropertySet) :
    x.restrict s = x := by
  cases x with
  | struct n y => exact Bool.noConfusion h
  | _ => rfl

@[simp] theorem restrict_restrict (x : AnyStruct S V) (s : PropertySet) :
    (x.restrict s).restrict s = x.restrict s := by
  cases x <;> simp [restrict]

/-- An instance is cached exactly if its type is. -/
theorem cached_eq (x : AnyStruct S V) : x.cached = (S.descriptor x.typeName).cached := by
  cases x with
  | struct n y => rfl
  | _ => exact (S.internalTypes_not_cached _ (by simp [typeName, internalTypes])).symm

end AnyStruct

/-- A header with the instance it announces. -/
structure Transmission (S : Schema) (V : Type) where
  header : DotsHeader
  instance_ : AnyStruct S V
  typed : header.typeName = instance_.typeName

namespace Transmission

variable {S : Schema} {V : Type}

@[ext] theorem ext {t u : Transmission S V} (hh : t.header = u.header)
    (hi : t.instance_ = u.instance_) : t = u := by
  cases t; cases u; cases hh; cases hi; rfl

/-- What arrives of a transmission: the header and the properties it names. -/
def wire (t : Transmission S V) : Transmission S V where
  header := t.header
  instance_ := t.instance_.restrict t.header.attributes
  typed := by rw [AnyStruct.typeName_restrict, t.typed]

@[simp] theorem wire_wire (t : Transmission S V) : t.wire.wire = t.wire :=
  ext rfl (AnyStruct.restrict_restrict _ _)

/-- A transmission of an instance that travels with a default header. -/
def ofInstance (x : AnyStruct S V) (attributes : PropertySet) (now : Timepoint)
    (remove : Bool) : Transmission S V where
  header := { typeName := x.typeName, sentTime := some now, attributes, removeObj := some remove }
  instance_ := x
  typed := rfl

end Transmission

end Dots

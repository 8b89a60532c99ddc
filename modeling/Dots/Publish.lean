import Dots.Container

/-!
# Publishing

`HostTransceiver::publish` and `GuestTransceiver::publish` begin with the same checks and compute
the same property set.

* `publishCheck`: the exceptions of a `publish` call.
* `Publish`: a call that passes the checks; `attributes` is the property set of its header.
* `hostTransmission`, `guestTransmission`: what the two transceivers make of it.
-/

set_option autoImplicit false

namespace Dots

variable {S : Schema} {V : Type}

/-- The checks at the head of `publish`, with the exception each of them throws. -/
def publishCheck {d : StructDescriptor} (x : Struct V d) : Except String Unit :=
  if d.substructOnly then
    .error ("attempt to publish substruct-only type '" ++ d.name ++ "'")
  else if ¬ d.keyProperties ⊆ x.validProperties then
    .error "attempt to publish instance with missing key properties"
  else .ok ()

variable (S V) in
/-- A `publish` call that passes the checks. -/
structure Publish where
  typeName : String
  value : Struct V (S.descriptor typeName)
  includedProperties : Option PropertySet
  remove : Bool
  check : publishCheck value = .ok ()

namespace Publish

variable (p : Publish S V)

theorem keyProperties_valid :
    (S.descriptor p.typeName).keyProperties ⊆ p.value.validProperties := by
  have h := p.check
  unfold publishCheck at h
  split_ifs at h with _ hk
  exact hk

/-- The included properties after `publish` has added the keys and dropped foreign bits. -/
def attributes : PropertySet :=
  match p.includedProperties with
  | none => p.value.validProperties
  | some s =>
    (s ∪ (S.descriptor p.typeName).keyProperties) ∩ (S.descriptor p.typeName).properties

theorem keyProperties_subset_attributes :
    (S.descriptor p.typeName).keyProperties ⊆ p.attributes := by
  unfold attributes
  cases p.includedProperties with
  | none => exact p.keyProperties_valid
  | some s =>
    exact Finset.subset_inter Finset.subset_union_right StructDescriptor.keyProperties_subset

/-- The transmission `HostTransceiver::publish` dispatches and transmits. -/
def hostTransmission (now : Timepoint) : Transmission S V where
  header :=
    { typeName := p.typeName, sentTime := some now, serverSentTime := some now
      attributes := p.attributes, sender := some hostId, removeObj := some p.remove
      isFromMyself := some true }
  instance_ := .struct p.typeName p.value
  typed := rfl

/-- The transmission `GuestTransceiver::publish` hands to its host connection. -/
def guestTransmission (now : Timepoint) : Transmission S V :=
  .ofInstance (.struct p.typeName p.value)
    (p.attributes ∩ (S.descriptor p.typeName).properties) now p.remove

end Publish

/-- A publish of one `DotsTestStruct`. -/
def testPublish (key value : ℕ) : Publish testSchema ℕ where
  typeName := "DotsTestStruct"
  value := dotsTestInstance key (some value)
  includedProperties := none
  remove := false
  check := rfl

end Dots

import Dots.Type.Struct

/-!
# Typed values

The other modules take the values of properties from any type; here they have the types of the
source.

* `FundamentalType`, `EnumeratorDescriptor`, `TypeDescriptor`, `PropertyDescriptors`: what a value
  can be, structs and vectors nested to any depth.
* `Value d`, `Instance ps`: the values of a descriptor and the instances of a property list. An
  instance has a value or nothing for each property, so that no value of a wrong type exists.
* `Instance.restrict`: the properties of an instance in a property set.
* `WellFormed`, `Enumerated`: tags and enumerators are distinct; enum values have enumerators.
-/

set_option autoImplicit false

namespace Dots

theorem PropertyDescriptor.set_subset_iff {p : PropertyDescriptor} {s : PropertySet} :
    p.set ⊆ s ↔ p.tag ∈ s := Finset.singleton_subset_iff

/-- The property set of a mask. -/
def PropertySet.ofValue (value : BitVec 32) : PropertySet :=
  Finset.univ.filter fun t => value.getLsbD t

/-- The mask of a property set. -/
def PropertySet.toValue (s : PropertySet) : BitVec 32 :=
  (BitVec.ofBoolListLE ((List.finRange 32).map fun t => decide (t ∈ s))).setWidth 32

theorem PropertySet.getLsbD_toValue (s : PropertySet) (t : Tag) :
    s.toValue.getLsbD t = decide (t ∈ s) := by
  rw [toValue, BitVec.getLsbD_setWidth, BitVec.getLsbD_ofBoolListLE]
  simp [List.getD_eq_getElem?_getD]

theorem PropertySet.ofValue_toValue (s : PropertySet) : ofValue s.toValue = s := by
  ext t
  rw [ofValue, Finset.mem_filter, getLsbD_toValue]
  simp

/-- The number of values of a `size_t`. -/
abbrev sizeLimit : ℕ := 2 ^ 64

/-- The fundamental types of `type::Type`. -/
inductive FundamentalType
  | boolean
  | int8
  | uint8
  | int16
  | uint16
  | int32
  | uint32
  | int64
  | uint64
  | float32
  | float64
  | propertySet
  | timepoint
  | steadyTimepoint
  | duration
  | uuid
  | string
  deriving DecidableEq

/-- Integers are bit vectors, floating-point values their bit patterns, and a time is a duration,
that is a `double`. -/
def FundamentalType.Value : FundamentalType → Type
  | .boolean => Bool
  | .int8 | .uint8 => BitVec 8
  | .int16 | .uint16 => BitVec 16
  | .int32 | .uint32 | .float32 | .propertySet => BitVec 32
  | .int64 | .uint64 | .float64 | .timepoint | .steadyTimepoint | .duration => BitVec 64
  | .uuid => {bytes : List UInt8 // bytes.length = 16}
  | .string => {bytes : List UInt8 // bytes.length < sizeLimit}

/-- A default-constructed value. -/
def FundamentalType.fresh : (t : FundamentalType) → t.Value
  | .boolean => (false : Bool)
  | .int8 | .uint8 => 0#8
  | .int16 | .uint16 => 0#16
  | .int32 | .uint32 | .float32 | .propertySet => 0#32
  | .int64 | .uint64 | .float64 | .timepoint | .steadyTimepoint | .duration => 0#64
  | .uuid => ⟨List.replicate 16 0, rfl⟩
  | .string => ⟨[], Nat.two_pow_pos 64⟩

structure EnumeratorDescriptor where
  tag : BitVec 32
  name : String
  value : BitVec 32
  deriving DecidableEq

mutual

/-- `Descriptor<>`: a fundamental type, an enum, a vector or a struct. -/
inductive TypeDescriptor
  | fundamental (type : FundamentalType)
  | enumeration (name : String) (enumerators : List EnumeratorDescriptor)
  | vector (valueDescriptor : TypeDescriptor)
  | struct (propertyDescriptors : PropertyDescriptors)

/-- The properties of a struct with the descriptors of their values. -/
inductive PropertyDescriptors
  | nil
  | cons (p : PropertyDescriptor) (valueDescriptor : TypeDescriptor) (rest : PropertyDescriptors)

end

mutual

/-- The values of a descriptor. -/
def Value : TypeDescriptor → Type
  | .fundamental t => t.Value
  | .enumeration _ _ => BitVec 32
  | .vector d => {vs : List (Value d) // vs.length < sizeLimit}
  | .struct ps => Instance ps

/-- The instances of a property list: each property is valid with a value, or invalid. -/
def Instance : PropertyDescriptors → Type
  | .nil => Unit
  | .cons _ d ps => Option (Value d) × Instance ps

end

mutual

def Value.fresh : (d : TypeDescriptor) → Value d
  | .fundamental t => t.fresh
  | .enumeration _ _ => 0#32
  | .vector _ => ⟨[], Nat.two_pow_pos 64⟩
  | .struct ps => Instance.fresh ps

/-- An instance with no valid property. -/
def Instance.fresh : (ps : PropertyDescriptors) → Instance ps
  | .nil => ()
  | .cons _ _ ps => (none, Instance.fresh ps)

end

namespace PropertyDescriptors

def tags : PropertyDescriptors → List Tag
  | .nil => []
  | .cons p _ ps => p.tag :: ps.tags

end PropertyDescriptors

namespace Instance

def validProperties : (ps : PropertyDescriptors) → Instance ps → PropertySet
  | .nil, _ => ∅
  | .cons p _ ps, (v, x) => (if v.isSome then p.set else ∅) ∪ validProperties ps x

/-- The part of an instance that lies in a property set. -/
def restrict : (ps : PropertyDescriptors) → PropertySet → Instance ps → Instance ps
  | .nil, _, _ => ()
  | .cons p _ ps, s, (v, x) => (if p.tag ∈ s then v else none, restrict ps s x)

variable {ps : PropertyDescriptors} {x : Instance ps} {s : PropertySet} {t : Tag}

/-- Only the valid properties matter. -/
theorem restrict_congr {s s' : PropertySet} : ∀ (ps : PropertyDescriptors) (x : Instance ps),
    (∀ t ∈ x.validProperties ps, t ∈ s ↔ t ∈ s') → restrict ps s x = restrict ps s' x
  | .nil, _, _ => rfl
  | .cons p d ps, (v, x), h => by
    have ih := restrict_congr ps x fun t ht => h t (Finset.mem_union_right _ ht)
    rw [restrict, restrict, ih]
    cases v with
    | none => split_ifs <;> rfl
    | some v =>
      have hp := h p.tag (Finset.mem_union_left _ (by simp [PropertyDescriptor.set]))
      simp only [hp]
      rfl

theorem restrict_univ : ∀ (ps : PropertyDescriptors) (x : Instance ps),
    restrict ps Finset.univ x = x
  | .nil, _ => rfl
  | .cons p d ps, (v, x) => by
    rw [restrict, restrict_univ ps x, if_pos (Finset.mem_univ _)]

/-- An instance is its own restriction to the valid properties. -/
theorem restrict_validProperties (ps : PropertyDescriptors) (x : Instance ps) :
    restrict ps (x.validProperties ps) x = x :=
  (restrict_congr ps x fun t ht => by simp [ht]).trans (restrict_univ ps x)

theorem validProperties_subset : ∀ (ps : PropertyDescriptors) (x : Instance ps),
    validProperties ps x ⊆ ps.tags.toFinset
  | .nil, _ => by simp [validProperties]
  | .cons p d ps, (v, x) => by
    have ih := validProperties_subset ps x
    simp only [validProperties, PropertyDescriptors.tags, List.toFinset_cons, PropertyDescriptor.set]
    apply Finset.union_subset
    · split_ifs <;> simp
    · exact ih.trans (Finset.subset_insert ..)

theorem validProperties_restrict : ∀ (ps : PropertyDescriptors) (x : Instance ps),
    (restrict ps s x).validProperties ps = s ∩ x.validProperties ps
  | .nil, _ => (Finset.inter_empty s).symm
  | .cons p d ps, (v, x) => by
    have hset : (if (if p.tag ∈ s then v else none).isSome then p.set else ∅) =
        s ∩ (if v.isSome then p.set else ∅) := by
      rw [PropertyDescriptor.set]
      by_cases hp : p.tag ∈ s
      · rw [if_pos hp]
        split_ifs
        · exact (Finset.inter_singleton_of_mem hp).symm
        · exact (Finset.inter_empty s).symm
      · rw [if_neg hp, Option.isSome_none, if_neg Bool.false_ne_true]
        split_ifs
        · exact (Finset.inter_singleton_of_notMem hp).symm
        · exact (Finset.inter_empty s).symm
    rw [restrict, validProperties, validProperties, validProperties_restrict ps x, hset,
      Finset.inter_union_distrib_left]

/-- Nothing is left out of an instance exactly if its valid properties lie in the set. -/
theorem restrict_eq_self_iff : restrict ps s x = x ↔ x.validProperties ps ⊆ s := by
  constructor
  · intro h
    have hvalid := validProperties_restrict ps x (s := s)
    rw [h] at hvalid
    rw [hvalid]
    exact Finset.inter_subset_left
  · intro h
    exact (restrict_congr ps x fun t ht => iff_of_true (h ht) (Finset.mem_univ t)).trans
      (restrict_univ ps x)

end Instance

/-! ## Distinct tags and named values -/

mutual

/-- The properties of a struct have distinct tags, the enumerators of an enum distinct tags and
values, at every level. -/
def TypeDescriptor.WellFormed : TypeDescriptor → Prop
  | .fundamental _ => True
  | .enumeration _ es => (es.map EnumeratorDescriptor.tag).Nodup ∧
      (es.map EnumeratorDescriptor.value).Nodup
  | .vector d => d.WellFormed
  | .struct ps => ps.WellFormed

def PropertyDescriptors.WellFormed : PropertyDescriptors → Prop
  | .nil => True
  | .cons p d ps => p.tag ∉ ps.tags ∧ d.WellFormed ∧ ps.WellFormed

end

mutual

instance TypeDescriptor.decidableWellFormed : (d : TypeDescriptor) → Decidable d.WellFormed
  | .fundamental _ => .isTrue trivial
  | .enumeration _ es => inferInstanceAs (Decidable ((es.map EnumeratorDescriptor.tag).Nodup ∧
      (es.map EnumeratorDescriptor.value).Nodup))
  | .vector d => d.decidableWellFormed
  | .struct ps => ps.decidableWellFormed

instance PropertyDescriptors.decidableWellFormed : (ps : PropertyDescriptors) →
    Decidable ps.WellFormed
  | .nil => .isTrue trivial
  | .cons p d ps =>
    have := d.decidableWellFormed
    have := ps.decidableWellFormed
    inferInstanceAs (Decidable (p.tag ∉ ps.tags ∧ d.WellFormed ∧ ps.WellFormed))

end

mutual

/-- Every enum value has an enumerator. -/
def Value.Enumerated : (d : TypeDescriptor) → Value d → Prop
  | .fundamental _, _ => True
  | .enumeration _ es, v => ∃ e ∈ es, e.value = v
  | .vector d, vs => ∀ v ∈ vs.1, Value.Enumerated d v
  | .struct ps, x => Instance.Enumerated ps x

def Instance.Enumerated : (ps : PropertyDescriptors) → Instance ps → Prop
  | .nil, _ => True
  | .cons _ d ps, (v, x) => (∀ v' ∈ v, Value.Enumerated d v') ∧ Instance.Enumerated ps x

end

theorem Instance.Enumerated.restrict {s : PropertySet} : ∀ {ps : PropertyDescriptors} {x : Instance ps},
    x.Enumerated ps → (x.restrict ps s).Enumerated ps
  | .nil, _, _ => trivial
  | .cons p d ps, (v, x), h => by
    refine ⟨fun v' hv' => ?_, h.2.restrict⟩
    split_ifs at hv'
    · exact h.1 v' hv'
    · cases hv'

end Dots

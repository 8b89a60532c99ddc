import Mathlib.Algebra.GroupWithZero.Nat
import Mathlib.Data.Finset.Basic
import Mathlib.Data.Fintype.Pi
import Mathlib.Data.Fintype.Sets

/-!
# Struct descriptors and their instances

* `PropertySet`, `PropertyDescriptor`, `StructDescriptor`: a type is a list of properties with
  distinct tags and a few flags.
* `Struct V d`: an instance of `d`, a value for each valid property; the values are drawn from
  any type `V`.
* `restrict`: what a channel carries of an instance when the header names a property set.
* `key`, `keyCompare`, **`keyCompare_iff`**: the key properties and the order of a container.
-/

set_option autoImplicit false

namespace Dots

/-- The index of a property in the 32-bit property mask. -/
abbrev Tag := Fin 32

/-- The numerals of tags. -/
instance Tag.neZero : NeZero 32 := ⟨Nat.succ_ne_zero 31⟩

/-- The property mask, as the set of its bits. -/
abbrev PropertySet := Finset Tag

structure PropertyDescriptor where
  name : String
  tag : Tag
  isKey : Bool
  deriving DecidableEq

/-- The single bit of a property. -/
def PropertyDescriptor.set (p : PropertyDescriptor) : PropertySet := {p.tag}

structure StructDescriptor where
  name : String
  propertyDescriptors : List PropertyDescriptor
  cached : Bool
  internal : Bool
  cleanup : Bool
  substructOnly : Bool
  tags_nodup : (propertyDescriptors.map PropertyDescriptor.tag).Nodup
  deriving DecidableEq

namespace StructDescriptor

variable (d : StructDescriptor)

def properties : PropertySet := (d.propertyDescriptors.map PropertyDescriptor.tag).toFinset

def keyPropertyDescriptors : List PropertyDescriptor :=
  d.propertyDescriptors.filter PropertyDescriptor.isKey

def noKeyPropertyDescriptors : List PropertyDescriptor :=
  d.propertyDescriptors.filter fun p => !p.isKey

def keyProperties : PropertySet :=
  (d.keyPropertyDescriptors.map PropertyDescriptor.tag).toFinset

variable {d}

theorem mem_properties {t : Tag} :
    t ∈ d.properties ↔ ∃ p ∈ d.propertyDescriptors, p.tag = t := by
  simp [properties]

theorem mem_keyProperties {t : Tag} :
    t ∈ d.keyProperties ↔ ∃ p ∈ d.propertyDescriptors, p.isKey = true ∧ p.tag = t := by
  simp [keyProperties, keyPropertyDescriptors, and_assoc]

theorem keyProperties_subset : d.keyProperties ⊆ d.properties := by
  intro t ht
  obtain ⟨p, hp, -, rfl⟩ := mem_keyProperties.mp ht
  exact mem_properties.mpr ⟨p, hp, rfl⟩

theorem tag_injOn {p q : PropertyDescriptor} (hp : p ∈ d.propertyDescriptors)
    (hq : q ∈ d.propertyDescriptors) (h : p.tag = q.tag) : p = q :=
  List.inj_on_of_nodup_map d.tags_nodup hp hq h

/-- The tags of the properties that are not keys. -/
theorem mem_noKey_tags {t : Tag} :
    t ∈ d.noKeyPropertyDescriptors.map PropertyDescriptor.tag ↔
      t ∈ d.properties ∧ t ∉ d.keyProperties := by
  simp only [noKeyPropertyDescriptors, List.mem_map, List.mem_filter, Bool.not_eq_true',
    mem_properties, mem_keyProperties]
  constructor
  · rintro ⟨p, ⟨hp, hk⟩, rfl⟩
    refine ⟨⟨p, hp, rfl⟩, ?_⟩
    rintro ⟨q, hq, hqk, hqp⟩
    rw [tag_injOn hq hp hqp, hk] at hqk
    exact Bool.noConfusion hqk
  · rintro ⟨⟨p, hp, rfl⟩, hn⟩
    refine ⟨p, ⟨hp, ?_⟩, rfl⟩
    rw [← Bool.not_eq_true]
    exact fun hk => hn ⟨p, hp, hk, rfl⟩

end StructDescriptor

/-- An instance: the values of its valid properties, all of them properties of the type. -/
@[ext]
structure Struct (V : Type) (d : StructDescriptor) where
  value : Tag → Option V
  value_eq_none : ∀ t, t ∉ d.properties → value t = none

namespace Struct

variable {V : Type} {d : StructDescriptor}

instance [DecidableEq V] : DecidableEq (Struct V d) := fun _ _ =>
  decidable_of_iff _ Struct.ext_iff.symm

def validProperties (x : Struct V d) : PropertySet := Finset.univ.filter fun t => (x.value t).isSome

@[simp] theorem mem_validProperties {x : Struct V d} {t : Tag} :
    t ∈ x.validProperties ↔ ∃ v, x.value t = some v := by
  simp [validProperties, Option.isSome_iff_exists]

theorem validProperties_subset (x : Struct V d) : x.validProperties ⊆ d.properties := by
  intro t ht
  obtain ⟨v, hv⟩ := mem_validProperties.mp ht
  by_contra hn
  rw [x.value_eq_none t hn] at hv
  cases hv

theorem value_eq_none_iff {x : Struct V d} {t : Tag} :
    x.value t = none ↔ t ∉ x.validProperties := by
  rw [mem_validProperties, ← Option.isSome_iff_exists, Option.not_isSome_iff_eq_none]

/-- Two instances agree on a property set: the same validity and equal values there. -/
def AgreeOn (s : PropertySet) (x y : Struct V d) : Prop := ∀ t ∈ s, x.value t = y.value t

/-- The part of an instance that lies in a property set. -/
def restrict (x : Struct V d) (s : PropertySet) : Struct V d where
  value t := if t ∈ s then x.value t else none
  value_eq_none t ht := by simp [x.value_eq_none t ht]

theorem restrict_value (x : Struct V d) (s : PropertySet) (t : Tag) :
    (x.restrict s).value t = if t ∈ s then x.value t else none := rfl

@[simp] theorem restrict_restrict (x : Struct V d) (s : PropertySet) :
    (x.restrict s).restrict s = x.restrict s := by
  ext1; funext t
  simp only [restrict_value]
  split_ifs <;> rfl

theorem validProperties_restrict (x : Struct V d) (s : PropertySet) :
    (x.restrict s).validProperties = x.validProperties ∩ s := by
  ext t
  simp only [mem_validProperties, restrict_value, Finset.mem_inter]
  split_ifs with h <;> simp [h]

theorem restrict_agreeOn (x : Struct V d) (s : PropertySet) : AgreeOn s x (x.restrict s) :=
  fun t ht => by rw [restrict_value, if_pos ht]

/-- An instance is its own restriction exactly if nothing valid lies outside. -/
theorem restrict_eq_self_iff {x : Struct V d} {s : PropertySet} :
    x = x.restrict s ↔ x.validProperties ⊆ s := by
  constructor
  · intro h
    rw [h, validProperties_restrict]
    exact Finset.inter_subset_right
  · intro h
    ext1; funext t
    rw [restrict_value]
    split_ifs with ht
    · rfl
    · exact value_eq_none_iff.mpr fun hv => ht (h hv)

/-! ## Keys -/

/-- The values of the key properties, in descriptor order. -/
def key (x : Struct V d) : List (Option V) :=
  d.keyPropertyDescriptors.map fun p => x.value p.tag

theorem key_congr {x y : Struct V d} (h : AgreeOn d.keyProperties x y) : x.key = y.key := by
  refine List.map_congr_left fun p hp => h p.tag ?_
  have hp' := List.mem_filter.mp hp
  exact StructDescriptor.mem_keyProperties.mpr ⟨p, hp'.1, hp'.2, rfl⟩

theorem agreeOn_of_key_eq {x y : Struct V d} (h : x.key = y.key) :
    AgreeOn d.keyProperties x y := by
  intro t ht
  obtain ⟨p, hp, hk, rfl⟩ := StructDescriptor.mem_keyProperties.mp ht
  exact List.map_inj_left.mp h p (List.mem_filter.mpr ⟨hp, hk⟩)

@[simp] theorem key_restrict {x : Struct V d} {s : PropertySet} (h : d.keyProperties ⊆ s) :
    (x.restrict s).key = x.key :=
  key_congr fun t ht => by rw [restrict_value, if_pos (h ht)]

variable [Ord V]

/-- `valueDescriptor.less` on the values of one property. -/
def less (a b : Option V) : Bool := compare a b == .lt

theorem less_iff {a b : Option V} : less a b = true ↔ compare a b = .lt := by
  simp [less]

/-- `Container::key_compare`: the first key property on which the instances differ decides. -/
def keyCompare : List PropertyDescriptor → Struct V d → Struct V d → Bool
  | [], _, _ => false
  | p :: ps, lhs, rhs =>
    if less (lhs.value p.tag) (rhs.value p.tag) then true
    else if less (rhs.value p.tag) (lhs.value p.tag) then false
    else keyCompare ps lhs rhs

/-- **The container order** is the lexicographic order of the keys. -/
theorem keyCompare_iff [Std.TransOrd V] [Std.LawfulEqOrd V] (x y : Struct V d) :
    keyCompare d.keyPropertyDescriptors x y = true ↔ compare x.key y.key = .lt := by
  unfold key
  induction d.keyPropertyDescriptors with
  | nil => simp [keyCompare, compare, List.compareLex]
  | cons p ps ih =>
    have hswap := @Std.OrientedCmp.eq_swap _ compare _ (y.value p.tag) (x.value p.tag)
    simp only [keyCompare, List.map_cons]
    rw [List.compare_cons_cons]
    split_ifs with hlt hgt
    · simp [less_iff.mp hlt]
    · rw [less_iff.mp hgt, eq_comm, Ordering.swap_eq_iff_eq_swap] at hswap
      simp [hswap]
    · -- neither is smaller, so the values agree and the remaining keys decide
      have heq : compare (x.value p.tag) (y.value p.tag) = .eq := by
        rw [less_iff] at hlt hgt
        cases hc : compare (x.value p.tag) (y.value p.tag) with
        | lt => exact absurd hc hlt
        | eq => rfl
        | gt => rw [hc] at hswap; exact absurd hswap hgt
      rw [heq, ih]
      rfl

end Struct

end Dots

import Dots.Type.Value
import Mathlib.Order.SymmDiff

/-!
# The operations of structs

Every operation on instances exists twice. A compiled struct folds over its properties; a
descriptor loops over the properties in a set. Values are compared and copied by the compiler in the
one case, by the descriptors of their types in the other.

* `Property`: assignment, swap and comparisons of a single property, given those of its values.
* `StaticStruct`: the operations of a compiled struct.
* `StructDescriptor`: the operations that a descriptor drives.
-/

set_option autoImplicit false

namespace Dots

/-- `==` and `<` of the fundamental types. -/
structure Comparison where
  equal : (t : FundamentalType) → t.Value → t.Value → Bool
  less : (t : FundamentalType) → t.Value → t.Value → Bool

/-! ## Properties and vectors -/

namespace Property

variable {α : Type}

/-- `emplace` with the value of another property. -/
def emplace (construct : α → α) (assign : α → α → α) : Option α → α → Option α
  | some v, other => some (assign v other)
  | none, other => some (construct other)

def assign (construct : α → α) (assign : α → α → α) (lhs rhs : Option α) : Option α :=
  match rhs with
  | some other => emplace construct assign lhs other
  | none => none

def swap (construct : α → α) (swap : α → α → α × α) : Option α → Option α → Option α × Option α
  | some v, some w => ((swap v w).1, (swap v w).2)
  | some v, none => (none, construct v)
  | none, some w => (construct w, none)
  | none, none => (none, none)

def equal (equal : α → α → Bool) (lhs rhs : Option α) : Bool :=
  match rhs with
  | some w => match lhs with
    | some v => equal v w
    | none => false
  | none => !lhs.isSome

def less (less : α → α → Bool) (lhs rhs : Option α) : Bool :=
  match rhs with
  | some w => match lhs with
    | some v => less v w
    | none => true
  | none => false

end Property

/-- `operator <` of `std::vector`. -/
def vectorLess {α : Type} (less : α → α → Bool) : List α → List α → Bool
  | _, [] => false
  | [], _ :: _ => true
  | v :: vs, w :: ws => less v w || (!less w v && vectorLess less vs ws)

/-! ## Compiled structs -/

namespace StaticStruct

/-- `propertyThis = propertyOther`: the compiler copies the value. -/
def assignProperty {α : Type} : Option α → Option α → Option α :=
  Property.assign id fun _ other => other

def assign (included : PropertySet) : (ps : PropertyDescriptors) → Instance ps → Instance ps →
    Instance ps
  | .nil, _, _ => ()
  | .cons p _ ps, (v, x), (w, y) =>
    (if p.set ⊆ included then assignProperty v w else none, assign included ps x y)

def copy (included : PropertySet) : (ps : PropertyDescriptors) → Instance ps → Instance ps →
    Instance ps
  | .nil, _, _ => ()
  | .cons p _ ps, (v, x), (w, y) =>
    (if p.set ⊆ included then assignProperty v w else v, copy included ps x y)

mutual

/-- The assignment of a valid property in a merge: structs are merged into what is there. -/
def mergeProperty : (d : TypeDescriptor) → Option (Value d) → Value d → Option (Value d)
  | .struct ps, v, w => some (merge Finset.univ ps (v.getD (Instance.fresh ps)) w)
  | .fundamental _, v, w | .enumeration _ _, v, w | .vector _, v, w => assignProperty v (some w)

def merge (included : PropertySet) : (ps : PropertyDescriptors) → Instance ps → Instance ps →
    Instance ps
  | .nil, _, _ => ()
  | .cons p d ps, (v, x), (w, y) =>
    (if p.set ⊆ included then
      match w with
      | some w => mergeProperty d v w
      | none => v
    else v, merge included ps x y)

end

/-- `std::swap` of the values. -/
def swap (included : PropertySet) : (ps : PropertyDescriptors) → Instance ps → Instance ps →
    Instance ps × Instance ps
  | .nil, _, _ => ((), ())
  | .cons p _ ps, (v, x), (w, y) =>
    let rest := swap included ps x y
    if p.set ⊆ included then
      let property := Property.swap id (fun v w => (w, v)) v w
      ((property.1, rest.1), (property.2, rest.2))
    else ((v, rest.1), (w, rest.2))

def clear (included : PropertySet) : (ps : PropertyDescriptors) → Instance ps → Instance ps
  | .nil, _ => ()
  | .cons p _ ps, (v, x) => (if p.set ⊆ included then none else v, clear included ps x)

variable (c : Comparison)

mutual

/-- `operator ==` of the values. -/
def equalValue : (d : TypeDescriptor) → Value d → Value d → Bool
  | .fundamental t, v, w => c.equal t v w
  | .enumeration _ _, (v : BitVec 32), (w : BitVec 32) => c.equal .int32 v w
  | .vector d, v, w => List.isEqv v.1 w.1 (equalValue d)
  | .struct ps, x, y => equal Finset.univ ps x y

def equal (included : PropertySet) : (ps : PropertyDescriptors) → Instance ps → Instance ps → Bool
  | .nil, _, _ => true
  | .cons p d ps, (v, x), (w, y) =>
    (if p.set ⊆ included then Property.equal (equalValue d) v w else true) && equal included ps x y

end

/-- The fold over the key properties. -/
def same : (ps : PropertyDescriptors) → Instance ps → Instance ps → Bool
  | .nil, _, _ => true
  | .cons p d ps, (v, x), (w, y) =>
    if p.isKey then Property.equal (equalValue c d) v w && same ps x y else same ps x y

mutual

/-- `operator <` of the values. -/
def lessValue : (d : TypeDescriptor) → Value d → Value d → Bool
  | .fundamental t, v, w => c.less t v w
  | .enumeration _ _, (v : BitVec 32), (w : BitVec 32) => c.less .int32 v w
  | .vector d, v, w => vectorLess (lessValue d) v.1 w.1
  | .struct ps, x, y => less Finset.univ ps x y

/-- The comparison of the first pair decides, or that of the others. -/
def less (included : PropertySet) : (ps : PropertyDescriptors) → Instance ps → Instance ps → Bool
  | .nil, _, _ => false
  | .cons p d ps, (v, x), (w, y) =>
    let less' (v w : Option (Value d)) : Bool :=
      decide (p.set ⊆ included) && Property.less (lessValue d) v w
    if included = ∅ then false
    else less' v w || (!less' w v && less included ps x y)

end

/-- The properties of a set that differ. -/
def checkInequality (intersection : PropertySet) : (ps : PropertyDescriptors) → Instance ps →
    Instance ps → PropertySet
  | .nil, _, _ => ∅
  | .cons p d ps, (v, x), (w, y) =>
    (if p.set ⊆ intersection ∧ ¬Property.equal (equalValue c d) v w then p.set else ∅) ∪
      checkInequality intersection ps x y

def diffProperties (included : PropertySet) (ps : PropertyDescriptors) (x y : Instance ps) :
    PropertySet :=
  let symmetricDiff := symmDiff (x.validProperties ps) (y.validProperties ps) ∩ included
  let intersection := x.validProperties ps ∩ y.validProperties ps ∩ included
  if intersection = ∅ then symmetricDiff
  else symmetricDiff ∪ checkInequality c intersection ps x y

end StaticStruct

/-! ## Descriptors -/

namespace StructDescriptor

mutual

/-- `Descriptor::constructInPlace` with another value. -/
def constructValue : (d : TypeDescriptor) → Value d → Value d
  | .fundamental _, v => v
  | .enumeration _ _, v => v
  | .vector d, vs => ⟨vs.1.map (constructValue d), by simpa using vs.2⟩
  | .struct ps, x => constructLoop (x.validProperties ps) ps x

/-- The loop over the valid properties of the other instance, whose values are assigned. -/
def constructLoop (valid : PropertySet) : (ps : PropertyDescriptors) → Instance ps → Instance ps
  | .nil, _ => ()
  | .cons p d ps, (v, x) =>
    (if p.set ⊆ valid then v.map (constructValue d) else none, constructLoop valid ps x)

end

mutual

/-- `Descriptor::assign`. A vector is assigned a copy of the other one. -/
def assignValue : (d : TypeDescriptor) → Value d → Value d → Value d
  | .fundamental _, _, w => w
  | .enumeration _ _, _, w => w
  | .vector d, _, w => constructValue (.vector d) w
  | .struct ps, x, y => assignLoop (y.validProperties ps ∩ Finset.univ) ps x y

/-- The loop of `assign` over all properties. -/
def assignLoop (assignProperties : PropertySet) : (ps : PropertyDescriptors) → Instance ps →
    Instance ps → Instance ps
  | .nil, _, _ => ()
  | .cons p d ps, (v, x), (w, y) =>
    (if p.set ⊆ assignProperties then Property.assign (constructValue d) (assignValue d) v w
    else none, assignLoop assignProperties ps x y)

end

def assign (included : PropertySet) (ps : PropertyDescriptors) (x y : Instance ps) : Instance ps :=
  assignLoop (y.validProperties ps ∩ included) ps x y

/-- `Property::assign`. -/
def assignProperty (d : TypeDescriptor) : Option (Value d) → Option (Value d) → Option (Value d) :=
  Property.assign (constructValue d) (assignValue d)

/-- The loop of `copy`. -/
def copyLoop (copyProperties : PropertySet) : (ps : PropertyDescriptors) → Instance ps → Instance ps →
    Instance ps
  | .nil, _, _ => ()
  | .cons p d ps, (v, x), (w, y) =>
    (if p.set ⊆ copyProperties then
      if w.isSome then assignProperty d v w else none
    else v, copyLoop copyProperties ps x y)

def copy (included : PropertySet) (ps : PropertyDescriptors) (x y : Instance ps) : Instance ps :=
  copyLoop ((x.validProperties ps ∪ y.validProperties ps) ∩ included) ps x y

mutual

def mergeProperty : (d : TypeDescriptor) → Option (Value d) → Option (Value d) → Option (Value d)
  | .struct ps, v, some w =>
    some (mergeLoop (Instance.validProperties ps w ∩ Finset.univ) ps (v.getD (Instance.fresh ps)) w)
  | .struct _, v, none => v
  | .fundamental t, v, w => assignProperty (.fundamental t) v w
  | .enumeration name es, v, w => assignProperty (.enumeration name es) v w
  | .vector d, v, w => assignProperty (.vector d) v w

/-- The loop of `merge`. -/
def mergeLoop (mergeProperties : PropertySet) : (ps : PropertyDescriptors) → Instance ps →
    Instance ps → Instance ps
  | .nil, _, _ => ()
  | .cons p d ps, (v, x), (w, y) =>
    (if p.set ⊆ mergeProperties then mergeProperty d v w else v,
      mergeLoop mergeProperties ps x y)

end

def merge (included : PropertySet) (ps : PropertyDescriptors) (x y : Instance ps) : Instance ps :=
  mergeLoop (y.validProperties ps ∩ included) ps x y

mutual

/-- `Descriptor::swap`. -/
def swapValue : (d : TypeDescriptor) → Value d → Value d → Value d × Value d
  | .fundamental _, v, w => (w, v)
  | .enumeration _ _, v, w => (w, v)
  | .vector _, v, w => (w, v)
  | .struct ps, x, y => swap Finset.univ ps x y

def swap (included : PropertySet) : (ps : PropertyDescriptors) → Instance ps → Instance ps →
    Instance ps × Instance ps
  | .nil, _, _ => ((), ())
  | .cons p d ps, (v, x), (w, y) =>
    let rest := swap included ps x y
    if p.set ⊆ included then
      let property := Property.swap (constructValue d) (swapValue d) v w
      ((property.1, rest.1), (property.2, rest.2))
    else ((v, rest.1), (w, rest.2))

end

def clear (included : PropertySet) : (ps : PropertyDescriptors) → Instance ps → Instance ps
  | .nil, _ => ()
  | .cons p _ ps, (v, x) => (if p.set ⊆ included then none else v, clear included ps x)

variable (c : Comparison)

mutual

/-- `Descriptor::equal`. -/
def equalValue : (d : TypeDescriptor) → Value d → Value d → Bool
  | .fundamental t, v, w => c.equal t v w
  | .enumeration _ _, (v : BitVec 32), (w : BitVec 32) => c.equal .int32 v w
  | .vector d, v, w => List.isEqv v.1 w.1 (equalValue d)
  | .struct ps, x, y => equal Finset.univ ps x y

/-- The loop of `equal` ends at the first properties that differ. -/
def equal (included : PropertySet) : (ps : PropertyDescriptors) → Instance ps → Instance ps → Bool
  | .nil, _, _ => true
  | .cons p d ps, (v, x), (w, y) =>
    if p.set ⊆ included then
      if !Property.equal (equalValue d) v w then false else equal included ps x y
    else equal included ps x y

end

/-- `keyProperties`, as the constructor of a descriptor adds them up. -/
def keySet : PropertyDescriptors → PropertySet
  | .nil => ∅
  | .cons p _ ps => (if p.isKey then p.set else ∅) ∪ keySet ps

def same (ps : PropertyDescriptors) (x y : Instance ps) : Bool :=
  equal c (keySet ps) ps x y

mutual

/-- `Descriptor::less`. -/
def lessValue : (d : TypeDescriptor) → Value d → Value d → Bool
  | .fundamental t, v, w => c.less t v w
  | .enumeration _ _, (v : BitVec 32), (w : BitVec 32) => c.less .int32 v w
  | .vector d, v, w => vectorLess (lessValue d) v.1 w.1
  | .struct ps, x, y => lessLoop Finset.univ ps x y

/-- The loop of `less` ends at the first properties that are not equivalent. -/
def lessLoop (included : PropertySet) : (ps : PropertyDescriptors) → Instance ps → Instance ps →
    Bool
  | .nil, _, _ => false
  | .cons p d ps, (v, x), (w, y) =>
    if p.set ⊆ included then
      if Property.less (lessValue d) v w then true
      else if Property.less (lessValue d) w v then false
      else lessLoop included ps x y
    else lessLoop included ps x y

end

def less (included : PropertySet) (ps : PropertyDescriptors) (x y : Instance ps) : Bool :=
  if included = ∅ then false else lessLoop c included ps x y

/-- The loop of `diffProperties`. -/
def diffLoop (intersection : PropertySet) : (ps : PropertyDescriptors) → Instance ps →
    Instance ps → PropertySet
  | .nil, _, _ => ∅
  | .cons p d ps, (v, x), (w, y) =>
    if p.set ⊆ intersection then
      (if !Property.equal (equalValue c d) v w then p.set else ∅) ∪ diffLoop intersection ps x y
    else diffLoop intersection ps x y

def diffProperties (included : PropertySet) (ps : PropertyDescriptors) (x y : Instance ps) :
    PropertySet :=
  let symmetricDiff := symmDiff (x.validProperties ps) (y.validProperties ps) ∩ included
  let intersection := x.validProperties ps ∩ y.validProperties ps ∩ included
  if intersection = ∅ then symmetricDiff
  else symmetricDiff ∪ diffLoop c intersection ps x y

end StructDescriptor

end Dots

import Dots.Type.Layout
import Dots.Type.Path
import Mathlib.Logic.Function.Basic

/-!
# Proxy properties

A proxy property finds the validity of a property by walking the elements of its path and the
value by the one offset of the path.

* `Memory`, `constructInPlace`, `assign`, `destruct`: what is at an address, and the operations of
  the descriptors on it.
* `ProxyProperty`: the properties on a path.
* `HoldsValue`, `HoldsArea`: an instance in memory. `ValueLaid`, `AreaLaid`: offsets that keep the
  properties apart.
-/

set_option autoImplicit false

namespace Dots

/-- What begins at an address: a property area, or a value that is no struct. -/
inductive Cell
  | free
  | area (validProperties : PropertySet)
  | object (d : TypeDescriptor) (value : Value d)

abbrev Memory := ℕ → Cell

namespace Memory

variable (m : Memory)

def set (i : ℕ) (c : Cell) : Memory := Function.update m i c

def validProperties (area : ℕ) : PropertySet :=
  match m area with
  | .area s => s
  | _ => ∅

/-- `validProperties() += set`. -/
def setValid (area : ℕ) (p : PropertyDescriptor) : Memory :=
  m.set area (.area (m.validProperties area ∪ p.set))

/-- `validProperties() -= set`. -/
def setInvalid (area : ℕ) (p : PropertyDescriptor) : Memory :=
  m.set area (.area (m.validProperties area \ p.set))

def isValid (area : ℕ) (p : PropertyDescriptor) : Bool := p.set ⊆ m.validProperties area

end Memory

/-! ## The operations of the descriptors -/

/-- `Property::emplace` over the operations of its subclass and of the descriptor. -/
def Memory.emplaceProperty (isValid : Bool) (setValid assign constructInPlace : Memory → Memory)
    (m : Memory) : Memory :=
  if isValid then assign m else constructInPlace (setValid m)

/-- `Property::reset`. -/
def Memory.resetProperty (isValid : Bool) (destruct setInvalid : Memory → Memory) (m : Memory) : Memory :=
  if isValid then setInvalid (destruct m) else m

/-- `usesDynamicMemory`. -/
def FundamentalType.usesDynamicMemory : FundamentalType → Bool
  | .string => true
  | _ => false

mutual

def TypeDescriptor.usesDynamicMemory : TypeDescriptor → Bool
  | .fundamental t => t.usesDynamicMemory
  | .enumeration _ _ => false
  | .vector _ => true
  | .struct qs => qs.usesDynamicMemory

def PropertyDescriptors.usesDynamicMemory : PropertyDescriptors → Bool
  | .nil => false
  | .cons _ d ps => d.usesDynamicMemory || ps.usesDynamicMemory

end

mutual

/-- `destruct`. -/
def destruct : (d : TypeDescriptor) → ValueOffsets d → ℕ → Memory → Memory
  | .fundamental _, _, i, m | .enumeration _ _, _, i, m | .vector _, _, i, m => m.set i .free
  | .struct qs, o, i, m =>
    (destructProperties qs o.area (i + o.areaOffset) (m.validProperties (i + o.areaOffset)) m).set
      (i + o.areaOffset) (.area ∅)

/-- The loop over the valid properties that use dynamic memory. -/
def destructProperties : (ps : PropertyDescriptors) → AreaOffsets ps → ℕ → PropertySet → Memory →
    Memory
  | .nil, _, _, _, m => m
  | .cons p d ps, (offset, o, os), area, valid, m =>
    destructProperties ps os area valid
      (if p.set ⊆ valid ∧ d.usesDynamicMemory then destruct d o (area + offset) m else m)

end

/-- `constructInPlace` without a value. -/
def constructDefault : (d : TypeDescriptor) → ValueOffsets d → ℕ → Memory → Memory
  | .struct _, o, i, m => m.set (i + o.areaOffset) (.area ∅)
  | .fundamental t, _, i, m => m.set i (.object (.fundamental t) (Value.fresh _))
  | .enumeration n es, _, i, m => m.set i (.object (.enumeration n es) (Value.fresh _))
  | .vector d, _, i, m => m.set i (.object (.vector d) (Value.fresh _))

mutual

/-- `constructInPlace`: a struct begins with an empty property area. -/
def constructInPlace : (d : TypeDescriptor) → ValueOffsets d → ℕ → Value d → Memory → Memory
  | .fundamental t, _, i, v, m => m.set i (.object (.fundamental t) v)
  | .enumeration n es, _, i, v, m => m.set i (.object (.enumeration n es) v)
  | .vector d, _, i, v, m => m.set i (.object (.vector d) v)
  | .struct qs, o, i, x, m =>
    constructProperties qs o.area (i + o.areaOffset) x (m.set (i + o.areaOffset) (.area ∅))

/-- The loop over the properties that are valid in the other instance. -/
def constructProperties : (ps : PropertyDescriptors) → AreaOffsets ps → ℕ → Instance ps → Memory →
    Memory
  | .nil, _, _, _, m => m
  | .cons p d ps, (offset, o, os), area, (v, x), m =>
    constructProperties ps os area x
      (match v with
      | none => m
      | some v =>
        Memory.emplaceProperty (m.isValid area p) (Memory.setValid · area p)
          (assign d o (area + offset) v) (constructInPlace d o (area + offset) v) m)

/-- `assign`. -/
def assign : (d : TypeDescriptor) → ValueOffsets d → ℕ → Value d → Memory → Memory
  | .fundamental t, _, i, v, m => m.set i (.object (.fundamental t) v)
  | .enumeration n es, _, i, v, m => m.set i (.object (.enumeration n es) v)
  | .vector d, _, i, v, m => m.set i (.object (.vector d) v)
  | .struct qs, o, i, x, m => assignProperties qs o.area (i + o.areaOffset) x m

/-- The loop over all properties; those that are not valid in the other instance are reset. -/
def assignProperties : (ps : PropertyDescriptors) → AreaOffsets ps → ℕ → Instance ps → Memory →
    Memory
  | .nil, _, _, _, m => m
  | .cons p d ps, (offset, o, os), area, (v, x), m =>
    assignProperties ps os area x
      (match v with
      | none =>
        Memory.resetProperty (m.isValid area p) (destruct d o (area + offset)) (Memory.setInvalid · area p) m
      | some v =>
        Memory.emplaceProperty (m.isValid area p) (Memory.setValid · area p)
          (assign d o (area + offset) v) (constructInPlace d o (area + offset) v) m)

end

/-! ## Properties on a path -/

/-- The properties of an area that is reached from the one at `area`. -/
structure ProxyProperty (d : TypeDescriptor) where
  area : ℕ
  path : PropertyPath d

/-- The area in the value of an element. -/
def PropertyElement.subArea {d : TypeDescriptor} (e : PropertyElement d) (area : ℕ) : ℕ :=
  area + e.offset + e.subAreaOffset.getD 0

/-- `valueOrEmplace()` of a property in an area. -/
def PropertyElement.valueOrEmplace {d : TypeDescriptor} (e : PropertyElement d) (area : ℕ)
    (m : Memory) : Memory :=
  if m.isValid area e.descriptor then m
  else constructDefault d e.offsets (area + e.offset) (m.setValid area e.descriptor)

namespace ProxyProperty

/-- The walk of a `const` proxy, which ends at a struct that is not valid. -/
def validPathProperties : List (Σ d, PropertyElement d) → ℕ → Memory → PropertySet
  | [], area, m => m.validProperties area
  | e :: way, area, m =>
    if m.isValid area e.2.descriptor then validPathProperties way (e.2.subArea area) m else ∅

/-- The walk of a proxy that may write: structs are emplaced on the way. The area at its end. -/
def emplacePath : List (Σ d, PropertyElement d) → ℕ → Memory → ℕ × Memory
  | [], area, m => (area, m)
  | e :: way, area, m => emplacePath way (e.2.subArea area) (e.2.valueOrEmplace area m)

variable {d : TypeDescriptor} (property : ProxyProperty d)

def descriptor : PropertyDescriptor := property.path.destination.descriptor

def storage : ℕ := property.area + property.path.offset

def isValid (m : Memory) : Bool :=
  property.descriptor.set ⊆ validPathProperties property.path.way property.area m

def setValid (m : Memory) : Memory :=
  (emplacePath property.path.way property.area m).2.setValid
    (emplacePath property.path.way property.area m).1 property.descriptor

def setInvalid (m : Memory) : Memory :=
  (emplacePath property.path.way property.area m).2.setInvalid
    (emplacePath property.path.way property.area m).1 property.descriptor

/-- `value`: a reference, that is an address, or the exception. -/
def value (m : Memory) : Except String ℕ :=
  if property.isValid m then .ok property.storage
  else .error ("property is expected to be valid but it is not: " ++ property.descriptor.name)

def emplace (v : Value d) (m : Memory) : Memory :=
  Memory.emplaceProperty (property.isValid m) property.setValid
    (assign d property.path.destination.offsets property.storage v)
    (constructInPlace d property.path.destination.offsets property.storage v) m

def reset (m : Memory) : Memory :=
  Memory.resetProperty (property.isValid m)
    (destruct d property.path.destination.offsets property.storage) property.setInvalid m

end ProxyProperty

/-! ## Instances in memory -/

mutual

/-- A value is at an address. -/
def HoldsValue : (d : TypeDescriptor) → ValueOffsets d → Memory → ℕ → Value d → Prop
  | .fundamental t, _, m, i, v => m i = .object (.fundamental t) v
  | .enumeration n es, _, m, i, v => m i = .object (.enumeration n es) v
  | .vector d, _, m, i, v => m i = .object (.vector d) v
  | .struct qs, o, m, i, x => HoldsArea qs o.area m (i + o.areaOffset) x

/-- An area has the valid properties of an instance and their values. -/
def HoldsArea : (ps : PropertyDescriptors) → AreaOffsets ps → Memory → ℕ → Instance ps → Prop
  | .nil, _, _, _, _ => True
  | .cons p d ps, (offset, o, os), m, area, (v, x) =>
    m.isValid area p = v.isSome ∧ (∀ v', v = some v' → HoldsValue d o m (area + offset) v') ∧
      HoldsArea ps os m area x

end

/-- The tag of a property and the part of the area that its value takes. -/
structure Slot where
  tag : Tag
  offset : ℕ
  size : ℕ

/-- Neither the tags nor the values are the same. -/
def Slot.Apart (s s' : Slot) : Prop :=
  s.tag ≠ s'.tag ∧ (s.offset + s.size ≤ s'.offset ∨ s'.offset + s'.size ≤ s.offset)

instance (s s' : Slot) : Decidable (s.Apart s') := inferInstanceAs (Decidable (_ ∧ (_ ∨ _)))

def slots : (ps : PropertyDescriptors) → AreaOffsets ps → List Slot
  | .nil, _ => []
  | .cons p d ps, (offset, o, os) => ⟨p.tag, offset, o.size d⟩ :: slots ps os

/-- `sizeof(PropertyArea)`. -/
def PropertyArea.size : ℕ := 4

mutual

/-- The area of a struct is in the memory of its value. -/
def ValueLaid : (d : TypeDescriptor) → ValueOffsets d → Prop
  | .fundamental _, size | .enumeration _ _, size | .vector _, size => (0 : ℕ) < size
  | .struct qs, o => o.areaOffset ≤ o.size (.struct qs) ∧
    AreaLaid qs o.area (o.size (.struct qs) - o.areaOffset)

/-- The properties are apart from each other, behind the property set and in the area. -/
def AreaLaid : (ps : PropertyDescriptors) → AreaOffsets ps → ℕ → Prop
  | .nil, _, areaSize => PropertyArea.size ≤ areaSize
  | .cons p d ps, (offset, o, os), areaSize =>
    PropertyArea.size ≤ offset ∧ offset + o.size d ≤ areaSize ∧ ValueLaid d o ∧
      (∀ s ∈ slots ps os, Slot.Apart ⟨p.tag, offset, o.size d⟩ s) ∧ AreaLaid ps os areaSize

end

mutual

instance decidableValueLaid : (d : TypeDescriptor) → (o : ValueOffsets d) → Decidable (ValueLaid d o)
  | .fundamental _, size | .enumeration _ _, size | .vector _, size => Nat.decLt 0 size
  | .struct qs, o =>
    have := decidableAreaLaid qs o.area (o.size (.struct qs) - o.areaOffset)
    inferInstanceAs (Decidable (o.areaOffset ≤ o.size (.struct qs) ∧
      AreaLaid qs o.area (o.size (.struct qs) - o.areaOffset)))

instance decidableAreaLaid : (ps : PropertyDescriptors) → (os : AreaOffsets ps) → (areaSize : ℕ) →
    Decidable (AreaLaid ps os areaSize)
  | .nil, _, areaSize => inferInstanceAs (Decidable (PropertyArea.size ≤ areaSize))
  | .cons p d ps, (offset, o, os), areaSize =>
    have := decidableValueLaid d o
    have := decidableAreaLaid ps os areaSize
    inferInstanceAs (Decidable (PropertyArea.size ≤ offset ∧ offset + o.size d ≤ areaSize ∧
      ValueLaid d o ∧ (∀ s ∈ slots ps os, Slot.Apart ⟨p.tag, offset, o.size d⟩ s) ∧
      AreaLaid ps os areaSize))

end

/-- Nothing but the memory of `size` bytes at `i` has changed. -/
def SameOutside (i size : ℕ) (m m' : Memory) : Prop := ∀ j, j < i ∨ i + size ≤ j → m' j = m j

def SameIn (i size : ℕ) (m m' : Memory) : Prop := ∀ j, i ≤ j → j < i + size → m' j = m j

/-- Of the properties in an area only those in some slots have changed. -/
structure Changes (area : ℕ) (ss : List Slot) (m m' : Memory) : Prop where
  outside (i : ℕ) (h : i ≠ area)
    (hs : ∀ s ∈ ss, i < area + s.offset ∨ area + s.offset + s.size ≤ i) : m' i = m i
  valid (t : Tag) (h : ∀ s ∈ ss, s.tag ≠ t) :
    t ∈ m'.validProperties area ↔ t ∈ m.validProperties area

variable {m m' m'' : Memory} {area areaSize i j : ℕ} {p : PropertyDescriptor} {d : TypeDescriptor}
  {ps : PropertyDescriptors}

namespace Memory

theorem isValid_iff : m.isValid area p = true ↔ p.tag ∈ m.validProperties area := by
  simp [isValid, PropertyDescriptor.set_subset_iff]

theorem set_of_ne {c : Cell} (h : j ≠ i) : m.set i c j = m j := by simp [set, h]

theorem validProperties_set_area {s : PropertySet} :
    (m.set area (.area s)).validProperties area = s := by
  simp [validProperties, set]

theorem validProperties_congr (h : m' area = m area) :
    m'.validProperties area = m.validProperties area := by
  rw [validProperties, validProperties, h]

theorem isValid_congr (h : m' area = m area) : m'.isValid area p = m.isValid area p := by
  rw [isValid, isValid, validProperties_congr h]

theorem isValid_setValid : (m.setValid area p).isValid area p = true := by
  rw [isValid_iff, setValid, validProperties_set_area]
  exact Finset.mem_union_right _ (Finset.mem_singleton_self _)

theorem isValid_setInvalid : (m.setInvalid area p).isValid area p = false := by
  rw [Bool.eq_false_iff, Ne, isValid_iff, setInvalid, validProperties_set_area]
  simp [PropertyDescriptor.set]

theorem setValid_of_ne (h : j ≠ area) : m.setValid area p j = m j := set_of_ne h

theorem setInvalid_of_ne (h : j ≠ area) : m.setInvalid area p j = m j := set_of_ne h

theorem mem_setValid {t : Tag} (h : p.tag ≠ t) :
    t ∈ (m.setValid area p).validProperties area ↔ t ∈ m.validProperties area := by
  rw [setValid, validProperties_set_area]
  simp [PropertyDescriptor.set, h.symm]

theorem mem_setInvalid {t : Tag} (h : p.tag ≠ t) :
    t ∈ (m.setInvalid area p).validProperties area ↔ t ∈ m.validProperties area := by
  rw [setInvalid, validProperties_set_area]
  simp [PropertyDescriptor.set, h.symm]

end Memory

/-! ## What a change leaves alone -/

theorem PropertyArea.size_pos : 0 < PropertyArea.size := by decide

theorem AreaLaid.le_areaSize : ∀ {ps : PropertyDescriptors} {os : AreaOffsets ps},
    AreaLaid ps os areaSize → PropertyArea.size ≤ areaSize
  | .nil, _, h => h
  | .cons _ _ _, (_, _, _), h => h.2.2.2.2.le_areaSize

theorem AreaLaid.slot_le : ∀ {ps : PropertyDescriptors} {os : AreaOffsets ps},
    AreaLaid ps os areaSize → ∀ s ∈ slots ps os,
      PropertyArea.size ≤ s.offset ∧ s.offset + s.size ≤ areaSize
  | .cons _ _ _, (_, _, _), h, s, hs => by
    rcases List.mem_cons.mp hs with rfl | hs
    · exact ⟨h.1, h.2.1⟩
    · exact h.2.2.2.2.slot_le s hs

mutual

theorem HoldsValue.congr : ∀ {d : TypeDescriptor} {o : ValueOffsets d} {i : ℕ} {v : Value d},
    ValueLaid d o → SameIn i (o.size d) m m' → HoldsValue d o m i v → HoldsValue d o m' i v
  | .fundamental _, _, i, _, hlaid, hsame, h | .enumeration _ _, _, i, _, hlaid, hsame, h
  | .vector _, _, i, _, hlaid, hsame, h =>
    (hsame i le_rfl (Nat.lt_add_of_pos_right hlaid)).trans h
  | .struct _, o, i, _, hlaid, hsame, h => by
    have hsize := hlaid.1
    exact HoldsArea.congr hlaid.2 (fun j hj hlt => hsame j (by omega) (by omega)) h

theorem HoldsArea.congr : ∀ {ps : PropertyDescriptors} {os : AreaOffsets ps} {area n : ℕ}
    {x : Instance ps}, AreaLaid ps os n → SameIn area n m m' →
    HoldsArea ps os m area x → HoldsArea ps os m' area x
  | .nil, _, _, _, _, _, _, _ => trivial
  | .cons p _ _, (offset, o, os), area, n, (v, x), hlaid, hsame, h => by
    obtain ⟨hoffset, hsize, hvalue, -, hrest⟩ := hlaid
    obtain ⟨hvalid, hholds, harea⟩ := h
    have hpos := PropertyArea.size_pos
    have hvalid' : m'.isValid area p = m.isValid area p :=
      Memory.isValid_congr (hsame area le_rfl (by omega))
    refine ⟨hvalid'.trans hvalid, fun v' hv' => ?_, HoldsArea.congr hrest hsame harea⟩
    exact HoldsValue.congr hvalue (fun j hj hlt => hsame j (by omega) (by omega)) (hholds v' hv')

end

namespace Changes

variable {ss ss' : List Slot} {s : Slot}

theorem refl : Changes area ss m m := ⟨fun _ _ _ => rfl, fun _ _ => Iff.rfl⟩

theorem append (h : Changes area ss m m') (h' : Changes area ss' m' m'') :
    Changes area (ss ++ ss') m m'' where
  outside i hi hs := by
    have hfirst := h.outside i hi fun s hmem => hs s (List.mem_append_left _ hmem)
    exact (h'.outside i hi fun s hmem => hs s (List.mem_append_right _ hmem)).trans hfirst
  valid t ht := by
    have hfirst := h.valid t fun s hmem => ht s (List.mem_append_left _ hmem)
    exact (h'.valid t fun s hmem => ht s (List.mem_append_right _ hmem)).trans hfirst

theorem mono (h : Changes area ss m m') (hss : ss ⊆ ss') : Changes area ss' m m' where
  outside i hi hs := h.outside i hi fun s hmem => hs s (hss hmem)
  valid t ht := h.valid t fun s hmem => ht s (hss hmem)

/-- Another slot is as before. -/
theorem sameIn (h : Changes area ss m m') (hapart : ∀ s' ∈ ss, s.Apart s')
    (hoffset : PropertyArea.size ≤ s.offset) : SameIn (area + s.offset) s.size m m' := by
  intro j hj hlt
  have hpos := PropertyArea.size_pos
  refine h.outside j (by omega) fun s' hs' => ?_
  rcases (hapart s' hs').2 with hle | hle <;> omega

theorem isValid_eq (h : Changes area ss m m') (htag : ∀ s ∈ ss, s.tag ≠ p.tag) :
    m'.isValid area p = m.isValid area p := by
  rw [Bool.eq_iff_iff, Memory.isValid_iff, Memory.isValid_iff]
  exact h.valid p.tag htag

/-- The property of another slot is as before. -/
theorem holdsProperty {o : ValueOffsets d} {offset : ℕ} {v : Option (Value d)}
    (h : Changes area ss m m') (hlaid : ValueLaid d o) (hoffset : PropertyArea.size ≤ offset)
    (hapart : ∀ s ∈ ss, Slot.Apart ⟨p.tag, offset, o.size d⟩ s)
    (hvalid : m.isValid area p = v.isSome)
    (hholds : ∀ v', v = some v' → HoldsValue d o m (area + offset) v') :
    m'.isValid area p = v.isSome ∧
      ∀ v', v = some v' → HoldsValue d o m' (area + offset) v' := by
  refine ⟨(h.isValid_eq fun s hs => (hapart s hs).1.symm).trans hvalid, fun v' hv' => ?_⟩
  exact HoldsValue.congr hlaid (h.sameIn hapart hoffset) (hholds v' hv')

/-- The properties of other slots are as before. -/
theorem holdsArea : ∀ {ps : PropertyDescriptors} {os : AreaOffsets ps} {x : Instance ps},
    Changes area ss m m' → AreaLaid ps os areaSize →
    (∀ s ∈ ss, ∀ s' ∈ slots ps os, s.Apart s') → HoldsArea ps os m area x →
    HoldsArea ps os m' area x
  | .nil, _, _, _, _, _, _ => trivial
  | .cons p d ps, (offset, o, os), (v, x), h, hlaid, hapart, hholds => by
    obtain ⟨hoffset, -, hvalue, -, hrest⟩ := hlaid
    have hhead : ∀ s ∈ ss, Slot.Apart ⟨p.tag, offset, o.size d⟩ s := fun s hs =>
      ⟨(hapart s hs _ List.mem_cons_self).1.symm, (hapart s hs _ List.mem_cons_self).2.symm⟩
    obtain ⟨hvalid', hholds'⟩ := h.holdsProperty hvalue hoffset hhead hholds.1 hholds.2.1
    refine ⟨hvalid', hholds', h.holdsArea hrest (fun s hs s' hs' => ?_) hholds.2.2⟩
    exact hapart s hs s' (List.mem_cons_of_mem _ hs')

/-- The changes are in the memory of the area. -/
theorem sameOutside {os : AreaOffsets ps} (h : Changes area (slots ps os) m m')
    (hlaid : AreaLaid ps os areaSize) : SameOutside area areaSize m m' := by
  intro j hj
  have hpos := PropertyArea.size_pos
  have hsize := hlaid.le_areaSize
  refine h.outside j (by omega) fun s hs => ?_
  have hle := (hlaid.slot_le s hs).2
  omega

end Changes

/-! ## What the operations write -/

section Operations

variable {s : Slot} {o : ValueOffsets d} {os : AreaOffsets ps} {offset : ℕ}

/-- The operation puts a value at an address and changes nothing else. -/
def Writes (o : ValueOffsets d) (i : ℕ) (v : Value d) (f : Memory → Memory) : Prop :=
  ∀ m, SameOutside i (o.size d) m (f m) ∧ HoldsValue d o (f m) i v

theorem sameOutside_set {size : ℕ} {c : Cell} (h : 0 < size) :
    SameOutside i size m (m.set i c) := fun j hj => Memory.set_of_ne (by omega)

theorem SameOutside.trans {size : ℕ} (h : SameOutside i size m m') (h' : SameOutside i size m' m'') :
    SameOutside i size m m'' := fun j hj => (h' j hj).trans (h j hj)

/-- The area of a struct is in the memory of the struct. -/
theorem SameOutside.of_area {size areaOffset : ℕ} (hle : areaOffset ≤ size)
    (h : SameOutside (i + areaOffset) (size - areaOffset) m m') : SameOutside i size m m' :=
  fun j hj => h j (by omega)

theorem SameOutside.changes (h : SameOutside (area + s.offset) s.size m m')
    (hoffset : PropertyArea.size ≤ s.offset) : Changes area [s] m m' where
  outside j _ hs := h j (hs s (List.mem_singleton_self s))
  valid t _ := by
    have hpos := PropertyArea.size_pos
    rw [Memory.validProperties_congr (h area (by omega))]

theorem SameOutside.isValid (h : SameOutside (area + s.offset) s.size m m')
    (hoffset : PropertyArea.size ≤ s.offset) : m'.isValid area p = m.isValid area p := by
  have hpos := PropertyArea.size_pos
  exact Memory.isValid_congr (h area (by omega))

theorem changes_setValid (h : s.tag = p.tag) : Changes area [s] m (m.setValid area p) where
  outside _ hj _ := Memory.setValid_of_ne hj
  valid _ ht := Memory.mem_setValid (h ▸ ht s (List.mem_singleton_self s))

theorem changes_setInvalid (h : s.tag = p.tag) : Changes area [s] m (m.setInvalid area p) where
  outside _ hj _ := Memory.setInvalid_of_ne hj
  valid _ ht := Memory.mem_setInvalid (h ▸ ht s (List.mem_singleton_self s))

theorem Changes.trans {ss : List Slot} (h : Changes area ss m m') (h' : Changes area ss m' m'') :
    Changes area ss m m'' :=
  (h.append h').mono (List.append_subset.mpr ⟨List.Subset.refl ss, List.Subset.refl ss⟩)

/-- **Emplacing** a property of an area. -/
theorem emplace_spec {v : Value d} {f g : Memory → Memory} (m : Memory)
    (hoffset : PropertyArea.size ≤ offset) (hf : Writes o (area + offset) v f)
    (hg : Writes o (area + offset) v g) {m' : Memory}
    (hm' : m' = Memory.emplaceProperty (m.isValid area p) (Memory.setValid · area p) f g m) :
    Changes area [⟨p.tag, offset, o.size d⟩] m m' ∧ m'.isValid area p = true ∧
      HoldsValue d o m' (area + offset) v := by
  subst hm'
  unfold Memory.emplaceProperty
  split_ifs with hvalid
  · obtain ⟨hsame, hholds⟩ := hf m
    have hchanges : Changes area [⟨p.tag, offset, o.size d⟩] m (f m) :=
      SameOutside.changes (s := ⟨p.tag, offset, o.size d⟩) hsame hoffset
    exact ⟨hchanges,
      (SameOutside.isValid (s := ⟨p.tag, offset, o.size d⟩) hsame hoffset).trans hvalid, hholds⟩
  · obtain ⟨hsame, hholds⟩ := hg (m.setValid area p)
    have hchanges : Changes area [⟨p.tag, offset, o.size d⟩] (m.setValid area p) (g (m.setValid area p)) :=
      SameOutside.changes (s := ⟨p.tag, offset, o.size d⟩) hsame hoffset
    refine ⟨(changes_setValid rfl).trans hchanges, ?_, hholds⟩
    exact (SameOutside.isValid (s := ⟨p.tag, offset, o.size d⟩) hsame hoffset).trans
      Memory.isValid_setValid

/-- **Resetting** a property of an area. -/
theorem reset_spec {f : Memory → Memory} (m : Memory) (hoffset : PropertyArea.size ≤ offset)
    (hf : ∀ m, SameOutside (area + offset) (o.size d) m (f m)) {m' : Memory}
    (hm' : m' = Memory.resetProperty (m.isValid area p) f (Memory.setInvalid · area p) m) :
    Changes area [⟨p.tag, offset, o.size d⟩] m m' ∧ m'.isValid area p = false := by
  subst hm'
  unfold Memory.resetProperty
  split_ifs with hvalid
  · have hchanges : Changes area [⟨p.tag, offset, o.size d⟩] m (f m) :=
      SameOutside.changes (s := ⟨p.tag, offset, o.size d⟩) (hf m) hoffset
    exact ⟨hchanges.trans (changes_setInvalid rfl), Memory.isValid_setInvalid⟩
  · exact ⟨Changes.refl, Bool.eq_false_iff.mpr hvalid⟩

/-- A property that has been dealt with, then the rest of the area. -/
theorem holdsArea_cons {v : Option (Value d)} {x : Instance ps}
    (hlaid : AreaLaid (.cons p d ps) (offset, o, os) areaSize)
    (hhead : Changes area [⟨p.tag, offset, o.size d⟩] m m' ∧ m'.isValid area p = v.isSome ∧
      ∀ v', v = some v' → HoldsValue d o m' (area + offset) v')
    (hrest : Changes area (slots ps os) m' m'' ∧ HoldsArea ps os m'' area x) :
    Changes area (slots (.cons p d ps) (offset, o, os)) m m'' ∧
      HoldsArea (.cons p d ps) (offset, o, os) m'' area (v, x) := by
  obtain ⟨hfirst, hvalid, hvalue⟩ := hhead
  obtain ⟨hchanges, hholds⟩ := hrest
  obtain ⟨hoffset, -, hlaid, hapart, -⟩ := hlaid
  obtain ⟨hvalid', hvalue'⟩ := hchanges.holdsProperty hlaid hoffset hapart hvalid hvalue
  exact ⟨hfirst.append hchanges, hvalid', hvalue', hholds⟩

mutual

/-- Destructing changes the memory of the value only. -/
theorem sameOutside_destruct : ∀ (d : TypeDescriptor) {o : ValueOffsets d} {i : ℕ} {m : Memory},
    ValueLaid d o → SameOutside i (o.size d) m (destruct d o i m)
  | .fundamental _, _, _, _, h | .enumeration _ _, _, _, _, h | .vector _, _, _, _, h =>
    sameOutside_set h
  | .struct qs, o, i, m, h => by
    have hloop := (changes_destructProperties qs (i + o.areaOffset)
      (m.validProperties (i + o.areaOffset)) m h.2).sameOutside h.2
    have hle := h.2.le_areaSize
    have hpos := PropertyArea.size_pos
    exact (hloop.trans (sameOutside_set (by omega))).of_area h.1

theorem changes_destructProperties : ∀ (ps : PropertyDescriptors) {os : AreaOffsets ps} {n : ℕ}
    (area : ℕ) (valid : PropertySet) (m : Memory), AreaLaid ps os n →
    Changes area (slots ps os) m (destructProperties ps os area valid m)
  | .nil, _, _, _, _, _, _ => .refl
  | .cons p d ps, (offset, o, os), n, area, valid, m, h => by
    obtain ⟨hoffset, -, hlaid, -, hrest⟩ := h
    rw [destructProperties]
    have hhead : Changes area [⟨p.tag, offset, o.size d⟩] m
        (if p.set ⊆ valid ∧ d.usesDynamicMemory then destruct d o (area + offset) m else m) := by
      split_ifs
      · exact SameOutside.changes (s := ⟨p.tag, offset, o.size d⟩) (sameOutside_destruct d hlaid) hoffset
      · exact .refl
    exact hhead.append (changes_destructProperties ps area valid _ hrest)

end

mutual

theorem writes_constructInPlace : ∀ (d : TypeDescriptor) {o : ValueOffsets d} {i : ℕ} (v : Value d),
    ValueLaid d o → Writes o i v (constructInPlace d o i v)
  | .fundamental _, _, _, _, h | .enumeration _ _, _, _, _, h | .vector _, _, _, _, h =>
    fun _ => ⟨sameOutside_set h, Function.update_self ..⟩
  | .struct qs, o, i, x, h => by
    intro m
    have hle := h.2.le_areaSize
    have hpos := PropertyArea.size_pos
    have hempty : ∀ s ∈ slots qs o.area, s.tag ∉
        (m.set (i + o.areaOffset) (.area ∅)).validProperties (i + o.areaOffset) := by
      intro s _
      rw [Memory.validProperties_set_area]
      exact Finset.notMem_empty _
    obtain ⟨hchanges, hholds⟩ := constructProperties_spec qs x _ h.2 hempty
    refine ⟨?_, hholds⟩
    exact ((sameOutside_set (by omega)).trans (hchanges.sameOutside h.2)).of_area h.1

/-- The loop over an area without valid properties. -/
theorem constructProperties_spec : ∀ (ps : PropertyDescriptors) {os : AreaOffsets ps} {n area : ℕ}
    (x : Instance ps) (m : Memory), AreaLaid ps os n →
    (∀ s ∈ slots ps os, s.tag ∉ m.validProperties area) →
    Changes area (slots ps os) m (constructProperties ps os area x m) ∧
      HoldsArea ps os (constructProperties ps os area x m) area x
  | .nil, _, _, _, _, _, _, _ => ⟨.refl, trivial⟩
  | .cons p d ps, (offset, o, os), n, area, (v, x), m, h, hempty => by
    obtain ⟨hoffset, hsize, hlaid, hapart, hrest⟩ := h
    have hinvalid := hempty _ List.mem_cons_self
    have hhead : ∀ m', m' = (match v with
        | none => m
        | some v => Memory.emplaceProperty (m.isValid area p) (Memory.setValid · area p)
            (assign d o (area + offset) v) (constructInPlace d o (area + offset) v) m) →
        Changes area [⟨p.tag, offset, o.size d⟩] m m' ∧ m'.isValid area p = v.isSome ∧
          ∀ v', v = some v' → HoldsValue d o m' (area + offset) v' := by
      intro m' hm'
      cases v with
      | none =>
        subst hm'
        refine ⟨.refl, ?_, nofun⟩
        exact Bool.eq_false_iff.mpr fun hvalid => hinvalid (Memory.isValid_iff.mp hvalid)
      | some v =>
        obtain ⟨hchanges, hvalid, hvalue⟩ := emplace_spec m hoffset (writes_assign d v hlaid)
          (writes_constructInPlace d v hlaid) hm'
        refine ⟨hchanges, hvalid, ?_⟩
        rintro _ ⟨⟩
        exact hvalue
    have hfirst := hhead _ rfl
    refine holdsArea_cons ⟨hoffset, hsize, hlaid, hapart, hrest⟩ hfirst
      (constructProperties_spec ps x _ hrest fun s hs hvalid => ?_)
    refine hempty s (List.mem_cons_of_mem _ hs) ((hfirst.1.valid s.tag fun s' hs' => ?_).mp hvalid)
    rw [List.mem_singleton.mp hs']
    exact (hapart s hs).1

theorem writes_assign : ∀ (d : TypeDescriptor) {o : ValueOffsets d} {i : ℕ} (v : Value d),
    ValueLaid d o → Writes o i v (assign d o i v)
  | .fundamental _, _, _, _, h | .enumeration _ _, _, _, _, h | .vector _, _, _, _, h =>
    fun _ => ⟨sameOutside_set h, Function.update_self ..⟩
  | .struct qs, o, i, x, h => by
    intro m
    obtain ⟨hchanges, hholds⟩ := assignProperties_spec qs (i + o.areaOffset) x m h.2
    exact ⟨(hchanges.sameOutside h.2).of_area h.1, hholds⟩

/-- The loop over an area, whatever it holds. -/
theorem assignProperties_spec : ∀ (ps : PropertyDescriptors) {os : AreaOffsets ps} {n : ℕ} (area : ℕ)
    (x : Instance ps) (m : Memory), AreaLaid ps os n →
    Changes area (slots ps os) m (assignProperties ps os area x m) ∧
      HoldsArea ps os (assignProperties ps os area x m) area x
  | .nil, _, _, _, _, _, _ => ⟨.refl, trivial⟩
  | .cons p d ps, (offset, o, os), n, area, (v, x), m, h => by
    obtain ⟨hoffset, hsize, hlaid, hapart, hrest⟩ := h
    have hhead : ∀ m', m' = (match v with
        | none => Memory.resetProperty (m.isValid area p) (destruct d o (area + offset))
            (Memory.setInvalid · area p) m
        | some v => Memory.emplaceProperty (m.isValid area p) (Memory.setValid · area p)
            (assign d o (area + offset) v) (constructInPlace d o (area + offset) v) m) →
        Changes area [⟨p.tag, offset, o.size d⟩] m m' ∧ m'.isValid area p = v.isSome ∧
          ∀ v', v = some v' → HoldsValue d o m' (area + offset) v' := by
      intro m' hm'
      cases v with
      | none =>
        obtain ⟨hchanges, hinvalid⟩ := reset_spec m hoffset
          (fun m => sameOutside_destruct d (m := m) hlaid) hm'
        exact ⟨hchanges, hinvalid, nofun⟩
      | some v =>
        obtain ⟨hchanges, hvalid, hvalue⟩ := emplace_spec m hoffset (writes_assign d v hlaid)
          (writes_constructInPlace d v hlaid) hm'
        refine ⟨hchanges, hvalid, ?_⟩
        rintro _ ⟨⟩
        exact hvalue
    exact holdsArea_cons ⟨hoffset, hsize, hlaid, hapart, hrest⟩ (hhead _ rfl)
      (assignProperties_spec ps area x _ hrest)

end

theorem constructProperties_fresh : ∀ (ps : PropertyDescriptors) (os : AreaOffsets ps) (area : ℕ)
    (m : Memory), constructProperties ps os area (Instance.fresh ps) m = m
  | .nil, _, _, _ => rfl
  | .cons _ _ ps, (_, _, os), area, m => constructProperties_fresh ps os area m

theorem constructDefault_eq : ∀ (d : TypeDescriptor) (o : ValueOffsets d) (i : ℕ) (m : Memory),
    constructDefault d o i m = constructInPlace d o i (Value.fresh d) m
  | .fundamental _, _, _, _ | .enumeration _ _, _, _, _ | .vector _, _, _, _ => rfl
  | .struct qs, o, i, m =>
    (constructProperties_fresh qs o.area (i + o.areaOffset) (m.set (i + o.areaOffset) (.area ∅))).symm

end Operations

/-! ## The walk and the sum -/

section Walk

variable {q : PropertyPath d} {qs : PropertyDescriptors} {e : PropertyElement (.struct qs)}

theorem wayOffset_cons (e : Σ d, PropertyElement d) (way : List (Σ d, PropertyElement d)) :
    PropertyPath.wayOffset (e :: way) =
      e.2.offset + e.2.subAreaOffset.getD 0 + PropertyPath.wayOffset way := by
  have hfold : ∀ (way : List (Σ d, PropertyElement d)) (n : ℕ),
      way.foldl (fun offset e => offset + e.2.offset + e.2.subAreaOffset.getD 0) n =
        n + PropertyPath.wayOffset way := by
    intro way
    induction way with
    | nil => exact fun _ => rfl
    | cons e way ih =>
      intro n
      rw [PropertyPath.wayOffset, List.foldl_cons, List.foldl_cons, ih, ih]
      omega
  rw [PropertyPath.wayOffset, List.foldl_cons, hfold]
  omega

/-- **The sum of the offsets** is the address behind the walk. -/
theorem storage_cons : (⟨area, q.cons e⟩ : ProxyProperty d).storage =
    (⟨e.subArea area, q⟩ : ProxyProperty d).storage := by
  simp only [ProxyProperty.storage, PropertyPath.offset, PropertyPath.cons, wayOffset_cons,
    PropertyElement.subArea]
  omega

theorem subset_empty_eq_false (p : PropertyDescriptor) : decide (p.set ⊆ ∅) = false := by
  simp [PropertyDescriptor.set]

/-- Nothing is valid behind an empty area. -/
theorem validPathProperties_of_empty (way : List (Σ d, PropertyElement d))
    (h : m.validProperties area = ∅) : ProxyProperty.validPathProperties way area m = ∅ := by
  cases way with
  | nil => exact h
  | cons e way =>
    rw [ProxyProperty.validPathProperties, Memory.isValid, h, subset_empty_eq_false]
    rfl

theorem isValid_of_empty (h : m.validProperties area = ∅) :
    (⟨area, q⟩ : ProxyProperty d).isValid m = false := by
  rw [ProxyProperty.isValid, validPathProperties_of_empty _ h, subset_empty_eq_false]

theorem isValid_cons : (⟨area, q.cons e⟩ : ProxyProperty d).isValid m =
    (m.isValid area e.descriptor && (⟨e.subArea area, q⟩ : ProxyProperty d).isValid m) := by
  change decide (q.destination.descriptor.set ⊆ if m.isValid area e.descriptor then
    ProxyProperty.validPathProperties q.way (e.subArea area) m else ∅) = _
  cases m.isValid area e.descriptor with
  | false => exact subset_empty_eq_false _
  | true => rfl

theorem valueOrEmplace_of_isValid (h : m.isValid area e.descriptor = true) :
    e.valueOrEmplace area m = m := by
  rw [PropertyElement.valueOrEmplace, if_pos h]

/-- A struct that has just been emplaced has no valid properties. -/
theorem validProperties_valueOrEmplace (h : m.isValid area e.descriptor = false) :
    (e.valueOrEmplace area m).validProperties (e.subArea area) = ∅ := by
  rw [PropertyElement.valueOrEmplace, h]
  exact Memory.validProperties_set_area

/-- **Emplacing** through a struct is emplacing in the struct, once it is valid. -/
theorem emplace_cons (v : Value d) : (⟨area, q.cons e⟩ : ProxyProperty d).emplace v m =
    (⟨e.subArea area, q⟩ : ProxyProperty d).emplace v (e.valueOrEmplace area m) := by
  rw [ProxyProperty.emplace, ProxyProperty.emplace, storage_cons, isValid_cons]
  cases h : m.isValid area e.descriptor with
  | false =>
    rw [isValid_of_empty (validProperties_valueOrEmplace h)]
    rfl
  | true =>
    have hwalk : (⟨area, q.cons e⟩ : ProxyProperty d).setValid m =
        (⟨e.subArea area, q⟩ : ProxyProperty d).setValid (e.valueOrEmplace area m) := rfl
    rw [valueOrEmplace_of_isValid h] at hwalk ⊢
    rw [Bool.true_and, Memory.emplaceProperty, Memory.emplaceProperty, hwalk]
    rfl

/-- **Resetting** through a valid struct is resetting in the struct. -/
theorem reset_cons (h : m.isValid area e.descriptor = true)
    (hkeep : (destruct d q.destination.offsets (⟨e.subArea area, q⟩ : ProxyProperty d).storage
      m).isValid area e.descriptor = true) :
    (⟨area, q.cons e⟩ : ProxyProperty d).reset m =
      (⟨e.subArea area, q⟩ : ProxyProperty d).reset m := by
  rw [ProxyProperty.reset, ProxyProperty.reset, storage_cons, isValid_cons, h, Bool.true_and,
    Memory.resetProperty, Memory.resetProperty]
  have hwalk : ∀ m', (⟨area, q.cons e⟩ : ProxyProperty d).setInvalid m' =
      (⟨e.subArea area, q⟩ : ProxyProperty d).setInvalid (e.valueOrEmplace area m') := fun _ => rfl
  rw [hwalk]
  change (if _ then ProxyProperty.setInvalid _
    (e.valueOrEmplace area (destruct d q.destination.offsets _ m)) else _) = _
  rw [valueOrEmplace_of_isValid hkeep]

theorem reset_cons_of_invalid (h : m.isValid area e.descriptor = false) :
    (⟨area, q.cons e⟩ : ProxyProperty d).reset m = m := by
  rw [ProxyProperty.reset, isValid_cons, h]
  rfl

end Walk

/-! ## The property at a place -/

/-- The slot of the first element. -/
def Place.slot : {ps : PropertyDescriptors} → {d : TypeDescriptor} → Place ps d → AreaOffsets ps → Slot
  | .cons p d _, _, .here, (offset, o, _) => ⟨p.tag, offset, o.size d⟩
  | .cons p (.struct qs) _, _, .inside _, (offset, o, _) => ⟨p.tag, offset, o.size (.struct qs)⟩
  | .cons _ _ _, _, .there rest, (_, _, os) => rest.slot os

/-- The proxy property on the path of a place. -/
def Place.property (π : Place ps d) (os : AreaOffsets ps) (area : ℕ) : ProxyProperty d :=
  ⟨area, π.propertyPath os⟩

namespace Place

theorem slot_mem : ∀ {ps : PropertyDescriptors} {d : TypeDescriptor} (π : Place ps d)
    (os : AreaOffsets ps), π.slot os ∈ slots ps os
  | .cons _ _ _, _, .here, (_, _, _) => List.mem_cons_self
  | .cons _ _ _, _, .inside _, (_, _, _) => List.mem_cons_self
  | .cons _ _ _, _, .there rest, (_, _, os) => List.mem_cons_of_mem _ (rest.slot_mem os)

theorem offset_here {e : PropertyElement d} : PropertyPath.offset ⟨[], e⟩ = e.offset :=
  Nat.zero_add e.offset

theorem offset_cons {q : PropertyPath d} {qs : PropertyDescriptors}
    {e : PropertyElement (.struct qs)} :
    (q.cons e).offset = e.offset + e.offsets.areaOffset + q.offset := by
  rw [PropertyPath.offset, PropertyPath.cons, wayOffset_cons, Nat.add_assoc]
  rfl

theorem propertyPath_here {offset : ℕ} {o : ValueOffsets d} {os : AreaOffsets ps} :
    (here : Place (.cons p d ps) d).propertyPath (offset, o, os) = ⟨[], p, offset, o⟩ := rfl

theorem propertyPath_inside {qs : PropertyDescriptors} (rest : Place qs d) {offset : ℕ}
    {o : ValueOffsets (.struct qs)} {os : AreaOffsets ps} :
    (inside rest : Place (.cons p (.struct qs) ps) d).propertyPath (offset, o, os) =
      (rest.propertyPath o.area).cons ⟨p, offset, o⟩ := rfl

theorem property_inside {qs : PropertyDescriptors} (rest : Place qs d) {offset : ℕ}
    {o : ValueOffsets (.struct qs)} {os : AreaOffsets ps} :
    (inside rest : Place (.cons p (.struct qs) ps) d).property (offset, o, os) area =
      ⟨area, (rest.propertyPath o.area).cons ⟨p, offset, o⟩⟩ := rfl

theorem storage_here {offset : ℕ} {o : ValueOffsets d} {os : AreaOffsets ps} :
    ((here : Place (.cons p d ps) d).property (offset, o, os) area).storage = area + offset := by
  change area + PropertyPath.offset ⟨[], p, offset, o⟩ = area + offset
  rw [offset_here]

/-- The memory of the property is in the area. -/
theorem offset_le : ∀ {ps : PropertyDescriptors} {d : TypeDescriptor} (π : Place ps d)
    {os : AreaOffsets ps} {n : ℕ}, AreaLaid ps os n →
    PropertyArea.size ≤ (π.propertyPath os).offset ∧
      (π.propertyPath os).offset + (π.propertyPath os).destination.offsets.size d ≤ n ∧
      ValueLaid d (π.propertyPath os).destination.offsets
  | .cons p d _, _, .here, (offset, o, _), n, h => by
    obtain ⟨hoffset, hsize, hlaid, -, -⟩ := h
    rw [propertyPath_here, offset_here]
    exact ⟨hoffset, hsize, hlaid⟩
  | .cons p _ _, _, .inside rest, (offset, o, os), n, h => by
    obtain ⟨hoffset, hsize, ⟨harea, hlaid⟩, -, -⟩ := h
    obtain ⟨hle, hsize', hlaid'⟩ := rest.offset_le hlaid
    rw [propertyPath_inside, offset_cons]
    refine ⟨?_, ?_, hlaid'⟩
    · change PropertyArea.size ≤ offset + o.areaOffset + _
      omega
    · change offset + o.areaOffset + (rest.propertyPath o.area).offset +
        (rest.propertyPath o.area).destination.offsets.size _ ≤ n
      omega
  | .cons _ _ _, _, .there rest, (_, _, os), n, h => rest.offset_le h.2.2.2.2

/-- **Reading**: the walk and the sum lead to the property reached element by element. -/
theorem reads : ∀ {ps : PropertyDescriptors} {d : TypeDescriptor} (π : Place ps d)
    (os : AreaOffsets ps) (m : Memory) (area : ℕ) (x : Instance ps), HoldsArea ps os m area x →
    (π.property os area).isValid m = (π.get x).isSome ∧
      ∀ v, π.get x = some v → HoldsValue d (π.propertyPath os).destination.offsets m
        (π.property os area).storage v
  | .cons _ _ _, _, .here, (offset, o, os), m, area, (v, x), h => by
    refine ⟨h.1, fun v' hv' => ?_⟩
    rw [storage_here]
    exact h.2.1 v' hv'
  | .cons p _ _, _, .inside rest, (offset, o, os), m, area, (w, x), h => by
    obtain ⟨hvalid, hholds, -⟩ := h
    rw [property_inside, isValid_cons, storage_cons]
    cases w with
    | none => exact ⟨by rw [hvalid]; rfl, nofun⟩
    | some w =>
      obtain ⟨hinside, hvalue⟩ := rest.reads o.area m (area + offset + o.areaOffset) w (hholds w rfl)
      refine ⟨?_, hvalue⟩
      rw [hvalid]
      exact hinside
  | .cons _ _ _, _, .there rest, (_, _, os), m, area, (_, x), h => rest.reads os m area x h.2.2

/-- A struct on the way is valid then, with the properties it had. -/
theorem valueOrEmplace_spec {qs : PropertyDescriptors} {o : ValueOffsets (.struct qs)} {offset : ℕ}
    {w : Option (Instance qs)} (hoffset : PropertyArea.size ≤ offset) (hlaid : ValueLaid _ o)
    (hvalid : m.isValid area p = w.isSome)
    (hholds : ∀ w', w = some w' → HoldsValue (.struct qs) o m (area + offset) w')
    (hm' : m' = PropertyElement.valueOrEmplace ⟨p, offset, o⟩ area m) :
    Changes area [⟨p.tag, offset, o.size (.struct qs)⟩] m m' ∧ m'.isValid area p = true ∧
      HoldsArea qs o.area m' (area + offset + o.areaOffset) (w.getD (Instance.fresh qs)) := by
  cases w with
  | some w =>
    rw [valueOrEmplace_of_isValid hvalid] at hm'
    subst hm'
    exact ⟨.refl, hvalid, hholds w rfl⟩
  | none =>
    have hwrites := writes_constructInPlace (.struct qs) (i := area + offset) (Value.fresh _) hlaid
    refine emplace_spec (p := p) m hoffset hwrites hwrites ?_
    rw [hm', PropertyElement.valueOrEmplace, hvalid, constructDefault_eq]
    rfl

/-- A property has changed and the others of the area have not. -/
theorem holdsArea_head {o : ValueOffsets d} {os : AreaOffsets ps} {offset : ℕ} {v : Option (Value d)}
    {x : Instance ps} (hlaid : AreaLaid (.cons p d ps) (offset, o, os) areaSize)
    (hchanges : Changes area [⟨p.tag, offset, o.size d⟩] m m')
    (hvalid : m'.isValid area p = v.isSome)
    (hholds : ∀ v', v = some v' → HoldsValue d o m' (area + offset) v')
    (htail : HoldsArea ps os m area x) :
    HoldsArea (.cons p d ps) (offset, o, os) m' area (v, x) := by
  obtain ⟨-, -, -, hapart, hrest⟩ := hlaid
  refine ⟨hvalid, hholds, hchanges.holdsArea hrest (fun s hs s' hs' => ?_) htail⟩
  rw [List.mem_singleton.mp hs]
  exact hapart s' hs'

/-- A property behind the first has changed. -/
theorem holdsArea_tail {o : ValueOffsets d} {os : AreaOffsets ps} {offset : ℕ} {v : Option (Value d)}
    {x y : Instance ps} {s : Slot} (hlaid : AreaLaid (.cons p d ps) (offset, o, os) areaSize)
    (hs : s ∈ slots ps os) (hchanges : Changes area [s] m m')
    (h : HoldsArea (.cons p d ps) (offset, o, os) m area (v, x)) (htail : HoldsArea ps os m' area y) :
    HoldsArea (.cons p d ps) (offset, o, os) m' area (v, y) := by
  obtain ⟨hoffset, -, hvalue, hapart, -⟩ := hlaid
  obtain ⟨hvalid, hholds, -⟩ := h
  obtain ⟨hvalid', hholds'⟩ := hchanges.holdsProperty hvalue hoffset
    (fun s' hs' => hapart s' (List.mem_singleton.mp hs' ▸ hs)) hvalid hholds
  exact ⟨hvalid', hholds', htail⟩

/-- What changes in the area of a struct is in the slot of the struct. -/
theorem sameOutside_inside {qs : PropertyDescriptors} {o : ValueOffsets (.struct qs)} {s : Slot}
    (hlaid : ValueLaid _ o) (hs : s ∈ slots qs o.area)
    (h : Changes (i + o.areaOffset) [s] m m') : SameOutside i (o.size (.struct qs)) m m' := by
  have hchanges : Changes (i + o.areaOffset) (slots qs o.area) m m' :=
    h.mono fun s' hs' => List.mem_singleton.mp hs' ▸ hs
  exact (hchanges.sameOutside hlaid.2).of_area hlaid.1

/-- **Emplacing**: the value is at the place, and in the area only the first element has changed. -/
theorem emplaces : ∀ {ps : PropertyDescriptors} {d : TypeDescriptor} (π : Place ps d) (v : Value d)
    {os : AreaOffsets ps} {n : ℕ} (m : Memory) (area : ℕ) (x : Instance ps), AreaLaid ps os n →
    HoldsArea ps os m area x →
    Changes area [π.slot os] m ((π.property os area).emplace v m) ∧
      HoldsArea ps os ((π.property os area).emplace v m) area (π.emplace v x)
  | .cons p d ps, _, .here, v, (offset, o, os), n, m, area, (w, x), hlaid, h => by
    have hemplace : ((here : Place (.cons p d ps) d).property (offset, o, os) area).emplace v m =
        Memory.emplaceProperty (m.isValid area p) (Memory.setValid · area p) (assign d o (area + offset) v)
          (constructInPlace d o (area + offset) v) m := by
      rw [ProxyProperty.emplace, storage_here]
      rfl
    obtain ⟨hchanges, hvalid, hholds⟩ := emplace_spec m hlaid.1 (writes_assign d v hlaid.2.2.1)
      (writes_constructInPlace d v hlaid.2.2.1) hemplace
    refine ⟨hchanges, holdsArea_head hlaid hchanges hvalid ?_ h.2.2⟩
    rintro _ ⟨⟩
    exact hholds
  | .cons p _ ps, d, .inside rest, v, (offset, o, os), n, m, area, (w, x), hlaid, h => by
    rw [property_inside, emplace_cons]
    obtain ⟨hfirst, hvalid, hinside⟩ := valueOrEmplace_spec hlaid.1 hlaid.2.2.1 h.1 h.2.1 rfl
    obtain ⟨hchanges, hdone⟩ := rest.emplaces v _ _ _ hlaid.2.2.1.2 hinside
    have hsame := sameOutside_inside hlaid.2.2.1 (rest.slot_mem o.area) hchanges
    have hslot := hfirst.trans (SameOutside.changes (s := ⟨p.tag, offset, o.size _⟩) hsame hlaid.1)
    refine ⟨hslot, holdsArea_head hlaid hslot ?_ ?_ h.2.2⟩
    · exact (SameOutside.isValid (s := ⟨p.tag, offset, o.size _⟩) hsame hlaid.1).trans hvalid
    · rintro _ ⟨⟩
      exact hdone
  | .cons p _ ps, d, .there rest, v, (offset, o, os), n, m, area, (w, x), hlaid, h => by
    obtain ⟨hchanges, hdone⟩ := rest.emplaces v m area x hlaid.2.2.2.2 h.2.2
    exact ⟨hchanges, holdsArea_tail hlaid (rest.slot_mem os) hchanges h hdone⟩

/-- **Resetting**: nothing is at the place, and in the area only the first element has changed. -/
theorem resets : ∀ {ps : PropertyDescriptors} {d : TypeDescriptor} (π : Place ps d)
    {os : AreaOffsets ps} {n : ℕ} (m : Memory) (area : ℕ) (x : Instance ps), AreaLaid ps os n →
    HoldsArea ps os m area x →
    Changes area [π.slot os] m ((π.property os area).reset m) ∧
      HoldsArea ps os ((π.property os area).reset m) area (π.reset x)
  | .cons p d ps, _, .here, (offset, o, os), n, m, area, (w, x), hlaid, h => by
    have hreset : ((here : Place (.cons p d ps) d).property (offset, o, os) area).reset m =
        Memory.resetProperty (m.isValid area p) (destruct d o (area + offset))
          (Memory.setInvalid · area p) m := by
      rw [ProxyProperty.reset, storage_here]
      rfl
    obtain ⟨hchanges, hinvalid⟩ := reset_spec m hlaid.1
      (fun m => sameOutside_destruct d (m := m) hlaid.2.2.1) hreset
    exact ⟨hchanges, holdsArea_head hlaid hchanges hinvalid nofun h.2.2⟩
  | .cons p _ ps, d, .inside rest, (offset, o, os), n, m, area, (none, x), hlaid, h => by
    rw [property_inside, reset_cons_of_invalid h.1]
    exact ⟨.refl, h⟩
  | .cons p _ ps, d, .inside rest, (offset, o, os), n, m, area, (some w, x), hlaid, h => by
    have hkeep : (destruct d (rest.propertyPath o.area).destination.offsets
        (rest.property o.area (area + offset + o.areaOffset)).storage m).isValid area p = true := by
      obtain ⟨hle, -, hvalue⟩ := rest.offset_le hlaid.2.2.1.2
      have hpos := PropertyArea.size_pos
      have hsame := sameOutside_destruct d (m := m)
        (i := (rest.property o.area (area + offset + o.areaOffset)).storage) hvalue
      refine (Memory.isValid_congr (hsame area (.inl ?_))).trans h.1
      change area < area + offset + o.areaOffset + (rest.propertyPath o.area).offset
      omega
    rw [property_inside, reset_cons h.1 hkeep]
    obtain ⟨hchanges, hdone⟩ := rest.resets m _ w hlaid.2.2.1.2 (h.2.1 w rfl)
    have hsame := sameOutside_inside hlaid.2.2.1 (rest.slot_mem o.area) hchanges
    have hslot := SameOutside.changes (s := ⟨p.tag, offset, o.size _⟩) hsame hlaid.1
    refine ⟨hslot, holdsArea_head hlaid hslot ?_ ?_ h.2.2⟩
    · exact (SameOutside.isValid (s := ⟨p.tag, offset, o.size _⟩) hsame hlaid.1).trans h.1
    · rintro _ ⟨⟩
      exact hdone
  | .cons p _ ps, d, .there rest, (offset, o, os), n, m, area, (w, x), hlaid, h => by
    obtain ⟨hchanges, hdone⟩ := rest.resets m area x hlaid.2.2.2.2 h.2.2
    exact ⟨hchanges, holdsArea_tail hlaid (rest.slot_mem os) hchanges h hdone⟩

end Place

/-! ## Path access -/

def PropertyDescriptors.ValuesLaid : (ps : PropertyDescriptors) → AreaOffsets ps → Prop
  | .nil, _ => True
  | .cons _ d ps, (_, o, os) => ValueLaid d o ∧ ps.ValuesLaid os

theorem tag_mem_of_mem_slots : ∀ {ps : PropertyDescriptors} {os : AreaOffsets ps} {s : Slot},
    s ∈ slots ps os → s.tag ∈ ps.tags
  | .cons _ _ _, (_, _, _), s, h => by
    rcases List.mem_cons.mp h with rfl | h
    · exact List.mem_cons_self
    · exact List.mem_cons_of_mem _ (tag_mem_of_mem_slots h)

/-- **A sound layout**, as the converter gives it to one struct, keeps properties with distinct tags
apart. -/
theorem areaLaid_of_sound {c : SizeOf} (hsize : PropertyArea.size ≤ c.propertyArea)
    (hpropertyArea : PropertyArea.size ≤ areaSize) :
    ∀ {ps : PropertyDescriptors} {os : AreaOffsets ps} {placed : List PlacedProperty},
    ps.tags.Nodup → ps.ValuesLaid os →
    (slots ps os).map (fun s => (s.offset, s.size)) = placed.map (fun q => (q.offset, q.type.size)) →
    SoundLayout c placed areaSize → AreaLaid ps os areaSize
  | .nil, _, _, _, _, _, _ => hpropertyArea
  | .cons p d ps, (offset, o, os), [], _, _, hplaced, _ => absurd hplaced (List.cons_ne_nil _ _)
  | .cons p d ps, (offset, o, os), q :: placed, htags, hvalues, hplaced, hsound => by
    obtain ⟨hhead, htail⟩ := List.cons.inj hplaced
    have hoffset : offset = q.offset := (Prod.mk.inj hhead).1
    have hvalue : o.size d = q.type.size := (Prod.mk.inj hhead).2
    obtain ⟨hdisjoint, hrest⟩ := List.pairwise_cons.mp hsound.disjoint
    have hsound' : SoundLayout c placed areaSize :=
      ⟨fun q hq => hsound.aligned q (List.mem_cons_of_mem _ hq), hrest,
        fun q hq => hsound.behindArea q (List.mem_cons_of_mem _ hq),
        fun q hq => hsound.inside q (List.mem_cons_of_mem _ hq)⟩
    obtain ⟨htag, htags⟩ := List.nodup_cons.mp htags
    have hbehind := hsound.behindArea q List.mem_cons_self
    have hinside := hsound.inside q List.mem_cons_self
    refine ⟨by omega, by omega, hvalues.1, fun s hs => ⟨fun heq => htag ?_, .inl ?_⟩,
      areaLaid_of_sound hsize hpropertyArea htags hvalues.2 htail hsound'⟩
    · rw [show p.tag = s.tag from heq]
      exact tag_mem_of_mem_slots hs
    · have hmem := List.mem_map_of_mem (f := fun s : Slot => (s.offset, s.size)) hs
      rw [htail] at hmem
      obtain ⟨q', hq', heq⟩ := List.mem_map.mp hmem
      have hle := hdisjoint q' hq'
      rw [(Prod.mk.inj heq).1] at hle
      change offset + o.size d ≤ s.offset
      omega

/-- The paths of a descriptor stand for its properties at any depth: each is listed once and found
by its joined name only, and a proxy property on it does to an instance in memory what is done to
the property reached element by element. -/
structure PathAccess (ps : PropertyDescriptors) (os : AreaOffsets ps) (areaSize : ℕ) : Prop where
  listed : ∃ πs : List (Σ d, Place ps d), πs.Nodup ∧ (∀ π, π ∈ πs) ∧
    propertyPaths ps os = πs.map fun π => ⟨π.1, π.2.propertyPath os⟩
  names {d : TypeDescriptor} (π : Place ps d) : (π.propertyPath os).names = π.names
  found {d : TypeDescriptor} (π : Place ps d) : path ps os π.name = .ok ⟨d, π.propertyPath os⟩
  unknown (s : String) (h : ∀ (d : TypeDescriptor) (π : Place ps d), π.name ≠ s) :
    path ps os s = .error ("unknown composed property name '" ++ s ++ "'")
  isValid {d : TypeDescriptor} (π : Place ps d) (m : Memory) (area : ℕ) (x : Instance ps)
    (h : HoldsArea ps os m area x) : (π.property os area).isValid m = (π.get x).isSome
  value {d : TypeDescriptor} (π : Place ps d) (m : Memory) (area : ℕ) (x : Instance ps)
    (h : HoldsArea ps os m area x) (v : Value d) (hv : π.get x = some v) :
    ∃ i, (π.property os area).value m = .ok i ∧
      HoldsValue d (π.propertyPath os).destination.offsets m i v
  invalid {d : TypeDescriptor} (π : Place ps d) (m : Memory) (area : ℕ) (x : Instance ps)
    (h : HoldsArea ps os m area x) (hv : π.get x = none) :
    (π.property os area).value m = .error ("property is expected to be valid but it is not: " ++
      (π.propertyPath os).destination.descriptor.name)
  emplace {d : TypeDescriptor} (π : Place ps d) (v : Value d) (m : Memory) (area : ℕ)
    (x : Instance ps) (h : HoldsArea ps os m area x) :
    SameOutside area areaSize m ((π.property os area).emplace v m) ∧
      ∃ y, HoldsArea ps os ((π.property os area).emplace v m) area y ∧ Emplaced π v x y
  reset {d : TypeDescriptor} (π : Place ps d) (m : Memory) (area : ℕ) (x : Instance ps)
    (h : HoldsArea ps os m area x) :
    SameOutside area areaSize m ((π.property os area).reset m) ∧
      ∃ y, HoldsArea ps os ((π.property os area).reset m) area y ∧ Invalidated π x y

theorem Place.sameOutside {π : Place ps d} {os : AreaOffsets ps} (hlaid : AreaLaid ps os areaSize)
    (h : Changes area [π.slot os] m m') : SameOutside area areaSize m m' := by
  have hchanges : Changes area (slots ps os) m m' :=
    h.mono fun s hs => List.mem_singleton.mp hs ▸ π.slot_mem os
  exact hchanges.sameOutside hlaid

/-- **Path access** is nested access, if the properties of each struct have distinct tags and
values apart, and distinct names without a dot. -/
theorem pathAccess {ps : PropertyDescriptors} {os : AreaOffsets ps} {areaSize : ℕ}
    (hlaid : AreaLaid ps os areaSize) (hnamed : ps.PathNamed) : PathAccess ps os areaSize where
  listed := ⟨places ps, nodup_places ps, fun π => mem_places π.2, propertyPaths_eq ps os⟩
  names π := π.names_propertyPath os
  found := path_name hnamed
  unknown _ := path_unknown
  isValid π m area x h := (π.reads os m area x h).1
  value π m area x h v hv := by
    obtain ⟨hvalid, hholds⟩ := π.reads os m area x h
    refine ⟨_, if_pos ?_, hholds v hv⟩
    rw [hvalid, hv]
    rfl
  invalid π m area x h hv := by
    refine if_neg ?_
    rw [(π.reads os m area x h).1, hv]
    exact Bool.false_ne_true
  emplace π v m area x h := by
    obtain ⟨hchanges, hholds⟩ := π.emplaces v m area x hlaid h
    exact ⟨Place.sameOutside hlaid hchanges, _, hholds, Place.emplaced_emplace π v x⟩
  reset π m area x h := by
    obtain ⟨hchanges, hholds⟩ := π.resets m area x hlaid h
    exact ⟨Place.sameOutside hlaid hchanges, _, hholds, Place.invalidated_reset π x⟩

/-- A struct in a struct: `a` behind the property set, then `b` with `b.c` in it. -/
def nestedDescriptors : PropertyDescriptors :=
  .cons ⟨"a", 1, true⟩ (.fundamental .int32)
    (.cons ⟨"b", 2, false⟩ (.struct (.cons ⟨"c", 1, false⟩ (.fundamental .boolean) .nil)) .nil)

def nestedOffsets : AreaOffsets nestedDescriptors := (4, (4 : ℕ), 8, (40, 32, 4, (1 : ℕ), ()), ())

/-- An instance at address 0 in which only `a` is valid. -/
def nestedMemory : Memory :=
  (Memory.set (fun _ => .free) 0 (.area {1})).set 4 (.object (.fundamental .int32) (5#32))

/-- `b.c`. -/
def nestedPlace : Place nestedDescriptors (.fundamental .boolean) := .there (.inside .here)

/-- Emplacing `b.c` makes `b` valid, and `a` keeps its value. -/
theorem pathAccess_nested : PathAccess nestedDescriptors nestedOffsets 48 ∧
    HoldsArea nestedDescriptors nestedOffsets nestedMemory 0 (some (5#32), none, ()) ∧
    HoldsArea nestedDescriptors nestedOffsets
      ((nestedPlace.property nestedOffsets 0).emplace true nestedMemory) 0
      (some (5#32), some (some true, ()), ()) := by
  have haccess : PathAccess nestedDescriptors nestedOffsets 48 := pathAccess (by decide) (by decide)
  have hholds : HoldsArea nestedDescriptors nestedOffsets nestedMemory 0 (some (5#32), none, ()) :=
    ⟨by decide, fun v hv => by cases hv; rfl, by decide, nofun, trivial⟩
  refine ⟨haccess, hholds, ?_⟩
  obtain ⟨-, ⟨a, b, ⟨⟩⟩, hy, hemplaced⟩ := haccess.emplace nestedPlace true nestedMemory 0 _ hholds
  have ha : a = some (5#32) := hemplaced.others .here nofun nofun
  have hc : nestedPlace.get (a, b, ()) = some true := hemplaced.value
  obtain ⟨⟨c, ⟨⟩⟩, rfl⟩ : ∃ x, b = some x :=
    Option.isSome_iff_exists.mp (hemplaced.way (.there .here) (.there (.under .here)))
  cases ha
  cases hc
  exact hy

def dottedDescriptors : PropertyDescriptors :=
  .cons ⟨"a.b", 1, false⟩ (.fundamental .int32) .nil

/-- Two properties with one name. -/
def namesakeDescriptors : PropertyDescriptors :=
  .cons ⟨"a", 1, false⟩ (.fundamental .int32) (.cons ⟨"a", 2, false⟩ (.fundamental .uint32) .nil)

/-- Two properties with one tag. -/
def sharedDescriptors : PropertyDescriptors :=
  .cons ⟨"a", 1, false⟩ (.fundamental .int32) (.cons ⟨"b", 1, false⟩ (.fundamental .int32) .nil)

/-- A dot in a name, a name used twice and a tag used twice. -/
theorem not_pathAccess : ¬PathAccess dottedDescriptors (4, (4 : ℕ), ()) 8 ∧
    ¬PathAccess namesakeDescriptors (4, (4 : ℕ), 8, (4 : ℕ), ()) 12 ∧
    ¬PathAccess sharedDescriptors (4, (4 : ℕ), 8, (4 : ℕ), ()) 12 := by
  refine ⟨fun h => ?_, fun h => ?_, fun h => ?_⟩
  · have hfound := congrArg Except.isOk (h.found .here)
    exact absurd hfound (by decide)
  · have hfirst : path namesakeDescriptors _ "a" = _ := h.found .here
    have hsecond : path namesakeDescriptors _ "a" = _ := h.found (.there .here)
    cases hfirst.symm.trans hsecond
  · let m : Memory := fun _ => .area ∅
    have hholds : HoldsArea sharedDescriptors (4, (4 : ℕ), 8, (4 : ℕ), ()) m 0 (none, none, ()) :=
      ⟨by decide, nofun, by decide, nofun, trivial⟩
    obtain ⟨-, y, hy, hemplaced⟩ := h.emplace .here (0#32) m 0 _ hholds
    have hother : y.2.1 = none := hemplaced.others (.there .here) nofun nofun
    have hvalid : true = y.2.1.isSome := hy.2.2.1
    rw [hother] at hvalid
    cases hvalid

end Dots

import Dots.Type.Value

/-!
# Paths to nested properties

A property can be reached through the structs that hold it, at any depth.

* `Place ps d`: the properties of a list and of the structs in it, one place for each.
* `Place.get`, `Place.emplace`, `Place.reset`: an instance followed element by element;
  **`emplaced_emplace`**, **`invalidated_reset`** say what changes.
* `AreaOffsets`, `PropertyPath`, `propertyPaths`: the offsets of a descriptor and the paths that
  the source precomputes; **`propertyPaths_eq`** lists each place once.
* `path`: the lookup of a dotted name; **`path_name`**, **`path_unknown`**.
-/

set_option autoImplicit false

namespace Dots

/-! ## Places in a descriptor -/

/-- A property whose values have the descriptor `d`: of the list, or of a struct in it. -/
inductive Place : PropertyDescriptors → TypeDescriptor → Type
  | here {p : PropertyDescriptor} {d : TypeDescriptor} {ps : PropertyDescriptors} :
    Place (.cons p d ps) d
  | inside {p : PropertyDescriptor} {d : TypeDescriptor} {qs ps : PropertyDescriptors}
    (rest : Place qs d) : Place (.cons p (.struct qs) ps) d
  | there {p : PropertyDescriptor} {d d' : TypeDescriptor} {ps : PropertyDescriptors}
    (rest : Place ps d) : Place (.cons p d' ps) d

/-- The first property is the second one, or a struct on the way to it. -/
inductive Place.Leads : {ps : PropertyDescriptors} → {d d' : TypeDescriptor} →
    Place ps d → Place ps d' → Prop
  | self {ps : PropertyDescriptors} {d : TypeDescriptor} (π : Place ps d) : π.Leads π
  | under {p : PropertyDescriptor} {d : TypeDescriptor} {qs ps : PropertyDescriptors}
    (ρ : Place qs d) : (here : Place (.cons p (.struct qs) ps) _).Leads (.inside ρ)
  | inside {p : PropertyDescriptor} {d d' : TypeDescriptor} {qs ps : PropertyDescriptors}
    {π : Place qs d} {ρ : Place qs d'} (h : π.Leads ρ) :
    (inside π : Place (.cons p (.struct qs) ps) d).Leads (.inside ρ)
  | there {p : PropertyDescriptor} {d d' d'' : TypeDescriptor} {ps : PropertyDescriptors}
    {π : Place ps d} {ρ : Place ps d'} (h : π.Leads ρ) :
    (there π : Place (.cons p d'' ps) d).Leads (.there ρ)

namespace Place

/-- The property reached element by element: nothing if a struct on the way is invalid. -/
def get : {ps : PropertyDescriptors} → {d : TypeDescriptor} → Place ps d → Instance ps →
    Option (Value d)
  | _, _, .here, (v, _) => v
  | _, _, .inside rest, (v, _) => v.bind rest.get
  | _, _, .there rest, (_, x) => rest.get x

/-- The instance with a value at a place, the structs on the way made valid. -/
def emplace : {ps : PropertyDescriptors} → {d : TypeDescriptor} → Place ps d → Value d →
    Instance ps → Instance ps
  | _, _, .here, v, (_, x) => (some v, x)
  | _, _, .inside rest, v, (w, x) => (some (rest.emplace v (w.getD (Instance.fresh _))), x)
  | _, _, .there rest, v, (w, x) => (w, rest.emplace v x)

/-- The instance without the value at a place. -/
def reset : {ps : PropertyDescriptors} → {d : TypeDescriptor} → Place ps d → Instance ps →
    Instance ps
  | _, _, .here, (_, x) => (none, x)
  | _, _, .inside rest, (w, x) => (w.map rest.reset, x)
  | _, _, .there rest, (w, x) => (w, rest.reset x)

end Place

/-- The value at a place and valid structs on the way to it; no other property is different. -/
structure Emplaced {ps : PropertyDescriptors} {d : TypeDescriptor} (π : Place ps d) (v : Value d)
    (x y : Instance ps) : Prop where
  value : π.get y = some v
  way {d' : TypeDescriptor} (ρ : Place ps d') (h : ρ.Leads π) : (ρ.get y).isSome
  others {d' : TypeDescriptor} (ρ : Place ps d') (hup : ¬ρ.Leads π) (hdown : ¬π.Leads ρ) :
    ρ.get y = ρ.get x

/-- No value at a place; no other property is different, and the structs on the way to it are as
valid as before. -/
structure Invalidated {ps : PropertyDescriptors} {d : TypeDescriptor} (π : Place ps d)
    (x y : Instance ps) : Prop where
  value : π.get y = none
  valid {d' : TypeDescriptor} (ρ : Place ps d') (h : ¬π.Leads ρ) :
    (ρ.get y).isSome = (ρ.get x).isSome
  others {d' : TypeDescriptor} (ρ : Place ps d') (hup : ¬ρ.Leads π) (hdown : ¬π.Leads ρ) :
    ρ.get y = ρ.get x

namespace Place

theorem get_fresh : ∀ {ps : PropertyDescriptors} {d : TypeDescriptor} (π : Place ps d),
    π.get (Instance.fresh ps) = none
  | _, _, .here => rfl
  | _, _, .inside _ => rfl
  | _, _, .there rest => get_fresh rest

/-- A struct that is not valid has the properties of a fresh one. -/
theorem get_getD {qs : PropertyDescriptors} {d : TypeDescriptor} (π : Place qs d)
    (w : Option (Instance qs)) : π.get (w.getD (Instance.fresh qs)) = w.bind π.get := by
  cases w with
  | none => exact get_fresh π
  | some w => rfl

theorem get_emplace : ∀ {ps : PropertyDescriptors} {d : TypeDescriptor} (π : Place ps d)
    (v : Value d) (x : Instance ps), π.get (π.emplace v x) = some v
  | _, _, .here, _, (_, _) => rfl
  | _, _, .inside rest, v, (w, _) => get_emplace rest v (w.getD (Instance.fresh _))
  | _, _, .there rest, v, (_, x) => get_emplace rest v x

theorem isSome_get_emplace {ps : PropertyDescriptors} {d d' : TypeDescriptor} {ρ : Place ps d'}
    {π : Place ps d} (h : ρ.Leads π) (v : Value d) (x : Instance ps) :
    (ρ.get (π.emplace v x)).isSome := by
  induction h with
  | self π => rw [get_emplace]; rfl
  | under ρ => rfl
  | inside h ih => exact ih v (x.1.getD (Instance.fresh _))
  | there h ih => exact ih v x.2

theorem get_emplace_of_not : ∀ {ps : PropertyDescriptors} {d d' : TypeDescriptor} (π : Place ps d)
    (ρ : Place ps d') (v : Value d) (x : Instance ps), ¬ρ.Leads π → ¬π.Leads ρ →
    ρ.get (π.emplace v x) = ρ.get x
  | _, _, _, .here, .here, _, _, hup, _ => absurd (.self _) hup
  | _, _, _, .here, .inside ρ, _, _, _, hdown => absurd (.under ρ) hdown
  | _, _, _, .here, .there _, _, (_, _), _, _ => rfl
  | _, _, _, .inside π, .here, _, _, hup, _ => absurd (.under π) hup
  | _, _, _, .inside π, .inside ρ, v, (w, _), hup, hdown =>
    (get_emplace_of_not π ρ v _ (fun h => hup h.inside) fun h => hdown h.inside).trans (get_getD ρ w)
  | _, _, _, .inside _, .there _, _, (_, _), _, _ => rfl
  | _, _, _, .there _, .here, _, (_, _), _, _ => rfl
  | _, _, _, .there _, .inside _, _, (_, _), _, _ => rfl
  | _, _, _, .there π, .there ρ, v, (_, x), hup, hdown =>
    get_emplace_of_not π ρ v x (fun h => hup h.there) fun h => hdown h.there

/-- **Emplacing** changes nothing but the property and the structs on the way to it. -/
theorem emplaced_emplace {ps : PropertyDescriptors} {d : TypeDescriptor} (π : Place ps d)
    (v : Value d) (x : Instance ps) : Emplaced π v x (π.emplace v x) where
  value := get_emplace π v x
  way _ h := isSome_get_emplace h v x
  others ρ := get_emplace_of_not π ρ v x

theorem get_reset : ∀ {ps : PropertyDescriptors} {d : TypeDescriptor} (π : Place ps d)
    (x : Instance ps), π.get (π.reset x) = none
  | _, _, .here, (_, _) => rfl
  | _, _, .inside _, (none, _) => rfl
  | _, _, .inside rest, (some w, _) => get_reset rest w
  | _, _, .there rest, (_, x) => get_reset rest x

theorem isSome_get_reset : ∀ {ps : PropertyDescriptors} {d d' : TypeDescriptor} (π : Place ps d)
    (ρ : Place ps d') (x : Instance ps), ¬π.Leads ρ →
    (ρ.get (π.reset x)).isSome = (ρ.get x).isSome
  | _, _, _, .here, .here, _, h => absurd (.self _) h
  | _, _, _, .here, .inside ρ, _, h => absurd (.under ρ) h
  | _, _, _, .here, .there _, (_, _), _ => rfl
  | _, _, _, .inside _, .here, (_, _), _ => Option.isSome_map
  | _, _, _, .inside _, .inside _, (none, _), _ => rfl
  | _, _, _, .inside π, .inside ρ, (some w, _), h => isSome_get_reset π ρ w fun h' => h h'.inside
  | _, _, _, .inside _, .there _, (_, _), _ => rfl
  | _, _, _, .there _, .here, (_, _), _ => rfl
  | _, _, _, .there _, .inside _, (_, _), _ => rfl
  | _, _, _, .there π, .there ρ, (_, x), h => isSome_get_reset π ρ x fun h' => h h'.there

theorem get_reset_of_not : ∀ {ps : PropertyDescriptors} {d d' : TypeDescriptor} (π : Place ps d)
    (ρ : Place ps d') (x : Instance ps), ¬ρ.Leads π → ¬π.Leads ρ → ρ.get (π.reset x) = ρ.get x
  | _, _, _, .here, .here, _, hup, _ => absurd (.self _) hup
  | _, _, _, .here, .inside ρ, _, _, hdown => absurd (.under ρ) hdown
  | _, _, _, .here, .there _, (_, _), _, _ => rfl
  | _, _, _, .inside π, .here, _, hup, _ => absurd (.under π) hup
  | _, _, _, .inside _, .inside _, (none, _), _, _ => rfl
  | _, _, _, .inside π, .inside ρ, (some w, _), hup, hdown =>
    get_reset_of_not π ρ w (fun h => hup h.inside) fun h => hdown h.inside
  | _, _, _, .inside _, .there _, (_, _), _, _ => rfl
  | _, _, _, .there _, .here, (_, _), _, _ => rfl
  | _, _, _, .there _, .inside _, (_, _), _, _ => rfl
  | _, _, _, .there π, .there ρ, (_, x), hup, hdown =>
    get_reset_of_not π ρ x (fun h => hup h.there) fun h => hdown h.there

/-- **Resetting** invalidates the property only. -/
theorem invalidated_reset {ps : PropertyDescriptors} {d : TypeDescriptor} (π : Place ps d)
    (x : Instance ps) : Invalidated π x (π.reset x) where
  value := get_reset π x
  valid ρ := isSome_get_reset π ρ x
  others ρ := get_reset_of_not π ρ x

end Place

/-! ## Offsets and property paths -/

mutual

/-- The size of the values of a descriptor; for a struct also the offset of the property area in
it and the offsets there. -/
def ValueOffsets : TypeDescriptor → Type
  | .fundamental _ | .enumeration _ _ | .vector _ => ℕ
  | .struct qs => ℕ × ℕ × AreaOffsets qs

/-- The offset of each property in the area, with the offsets in its value. -/
def AreaOffsets : PropertyDescriptors → Type
  | .nil => Unit
  | .cons _ d ps => ℕ × ValueOffsets d × AreaOffsets ps

end

/-- `Descriptor::size`. -/
def ValueOffsets.size : (d : TypeDescriptor) → ValueOffsets d → ℕ
  | .fundamental _, size | .enumeration _ _, size | .vector _, size => size
  | .struct _, (size, _, _) => size

/-- `StructDescriptor::areaOffset`. -/
def ValueOffsets.areaOffset {qs : PropertyDescriptors} (o : ValueOffsets (.struct qs)) : ℕ := o.2.1

def ValueOffsets.area {qs : PropertyDescriptors} (o : ValueOffsets (.struct qs)) : AreaOffsets qs :=
  o.2.2

/-- A property descriptor with its offset and the descriptor of its value. -/
structure PropertyElement (d : TypeDescriptor) where
  descriptor : PropertyDescriptor
  offset : ℕ
  offsets : ValueOffsets d

/-- Only structs have an area. -/
def PropertyElement.subAreaOffset : {d : TypeDescriptor} → PropertyElement d → Option ℕ
  | .fundamental _, _ | .enumeration _ _, _ | .vector _, _ => none
  | .struct _, e => some e.offsets.areaOffset

/-- The elements of a path are those on the way and the destination. -/
structure PropertyPath (d : TypeDescriptor) where
  way : List (Σ d, PropertyElement d)
  destination : PropertyElement d

namespace PropertyPath

variable {d d' : TypeDescriptor}

def elements (q : PropertyPath d) : List (Σ d, PropertyElement d) := q.way ++ [⟨d, q.destination⟩]

/-- The loop of the constructor, which reads the area offset of each element but the last. -/
def wayOffset (way : List (Σ d, PropertyElement d)) : ℕ :=
  way.foldl (fun offset e => offset + e.2.offset + e.2.subAreaOffset.getD 0) 0

def offset (q : PropertyPath d) : ℕ := wayOffset q.way + q.destination.offset

def cons (e : PropertyElement d') (q : PropertyPath d) : PropertyPath d := ⟨⟨d', e⟩ :: q.way, q.destination⟩

def names (q : PropertyPath d) : List String := q.elements.map fun e => e.2.descriptor.name

end PropertyPath

mutual

/-- `StructDescriptor::propertyPaths`: each property, then the paths of its struct behind it. -/
def propertyPaths : (ps : PropertyDescriptors) → AreaOffsets ps → List (Σ d, PropertyPath d)
  | .nil, _ => []
  | .cons p d ps, (offset, o, os) =>
    ⟨d, [], p, offset, o⟩ ::
      (subPropertyPaths d o).map (fun q => ⟨q.1, q.2.cons ⟨p, offset, o⟩⟩) ++ propertyPaths ps os

def subPropertyPaths : (d : TypeDescriptor) → ValueOffsets d → List (Σ d, PropertyPath d)
  | .fundamental _, _ | .enumeration _ _, _ | .vector _, _ => []
  | .struct qs, o => propertyPaths qs o.area

end

/-- `_path`: the text is split at each dot. The first throw of the source is behind a comparison
that is never true. -/
def path (ps : PropertyDescriptors) (os : AreaOffsets ps) (propertyPath : String) :
    Except String (Σ d, PropertyPath d) :=
  let propertyNames := propertyPath.toList.splitOn '.'
  match (propertyPaths ps os).find? fun q => q.2.names.map String.toList = propertyNames with
  | some q => .ok q
  | none => .error ("unknown composed property name '" ++ propertyPath ++ "'")

/-! ## Each place once -/

mutual

/-- Every place of a property list. -/
def places : (ps : PropertyDescriptors) → List (Σ d, Place ps d)
  | .nil => []
  | .cons p d ps =>
    ⟨d, .here⟩ :: placesInside d p ps ++ (places ps).map fun π => ⟨π.1, .there π.2⟩

def placesInside : (d : TypeDescriptor) → (p : PropertyDescriptor) → (ps : PropertyDescriptors) →
    List (Σ d', Place (.cons p d ps) d')
  | .fundamental _, _, _ | .enumeration _ _, _, _ | .vector _, _, _ => []
  | .struct qs, _, _ => (places qs).map fun π => ⟨π.1, .inside π.2⟩

end

namespace Place

/-- The path with the elements of a place. -/
def propertyPath : {ps : PropertyDescriptors} → {d : TypeDescriptor} → Place ps d →
    AreaOffsets ps → PropertyPath d
  | .cons p _ _, _, .here, (offset, o, _) => ⟨[], p, offset, o⟩
  | .cons p _ _, _, .inside rest, (offset, o, _) =>
    (rest.propertyPath o.area).cons ⟨p, offset, o⟩
  | .cons _ _ _, _, .there rest, (_, _, os) => rest.propertyPath os

def names : {ps : PropertyDescriptors} → {d : TypeDescriptor} → Place ps d → List String
  | .cons p _ _, _, .here => [p.name]
  | .cons p _ _, _, .inside rest => p.name :: rest.names
  | _, _, .there rest => rest.names

/-- The names of the elements, joined with dots. -/
def name {ps : PropertyDescriptors} {d : TypeDescriptor} (π : Place ps d) : String :=
  ".".intercalate π.names

end Place

theorem mem_places : ∀ {ps : PropertyDescriptors} {d : TypeDescriptor} (π : Place ps d),
    (⟨d, π⟩ : Σ d, Place ps d) ∈ places ps
  | _, _, .here => List.mem_cons_self
  | _, _, .inside rest =>
    List.mem_append_left _ (List.mem_cons_of_mem _ (List.mem_map.mpr ⟨_, mem_places rest, rfl⟩))
  | _, _, .there rest => List.mem_append_right _ (List.mem_map.mpr ⟨_, mem_places rest, rfl⟩)

/-- Which way a place goes first. -/
def Place.branch : {ps : PropertyDescriptors} → {d : TypeDescriptor} → Place ps d → ℕ
  | _, _, .here => 0
  | _, _, .inside _ => 1
  | _, _, .there _ => 2

theorem branch_of_mem_placesInside : ∀ (d : TypeDescriptor) (p : PropertyDescriptor)
    (ps : PropertyDescriptors), ∀ π ∈ placesInside d p ps, π.2.branch = 1
  | .fundamental _, _, _, _, h | .enumeration _ _, _, _, _, h | .vector _, _, _, _, h => by cases h
  | .struct qs, p, ps, π, h => by
    obtain ⟨ρ, -, rfl⟩ := List.mem_map.mp h
    rfl

mutual

theorem nodup_places : ∀ ps : PropertyDescriptors, (places ps).Nodup
  | .nil => List.nodup_nil
  | .cons p d ps => by
    have hinside := nodup_placesInside d p ps
    have hthere : ((places ps).map fun π => (⟨π.1, .there π.2⟩ : Σ d', Place (.cons p d ps) d')).Nodup := by
      refine (nodup_places ps).map fun π ρ h => ?_
      obtain ⟨_, π⟩ := π
      obtain ⟨_, ρ⟩ := ρ
      cases h
      rfl
    have hbranch : ∀ π ∈ (places ps).map fun π => (⟨π.1, .there π.2⟩ : Σ d', Place (.cons p d ps) d'),
        π.2.branch = 2 := by
      intro π h
      obtain ⟨ρ, -, rfl⟩ := List.mem_map.mp h
      rfl
    have hone := branch_of_mem_placesInside d p ps
    refine List.nodup_append'.mpr ⟨List.nodup_cons.mpr ⟨fun h => ?_, hinside⟩, hthere, fun π h h' => ?_⟩
    · cases hone _ h
    · have htwo := hbranch π h'
      rcases List.mem_cons.mp h with rfl | h
      · cases htwo
      · rw [hone π h] at htwo
        cases htwo

theorem nodup_placesInside : ∀ (d : TypeDescriptor) (p : PropertyDescriptor)
    (ps : PropertyDescriptors), (placesInside d p ps).Nodup
  | .fundamental _, _, _ | .enumeration _ _, _, _ | .vector _, _, _ => List.nodup_nil
  | .struct qs, p, ps => by
    refine (nodup_places qs).map fun π ρ h => ?_
    obtain ⟨_, π⟩ := π
    obtain ⟨_, ρ⟩ := ρ
    cases h
    rfl

end

mutual

/-- **The paths of the source** are those of the places, each once. -/
theorem propertyPaths_eq : ∀ (ps : PropertyDescriptors) (os : AreaOffsets ps),
    propertyPaths ps os = (places ps).map fun π => ⟨π.1, π.2.propertyPath os⟩
  | .nil, _ => rfl
  | .cons p d ps, (offset, o, os) => by
    have hinside := subPropertyPaths_eq d p ps offset o os
    have hthere := propertyPaths_eq ps os
    rw [propertyPaths, places, hinside, hthere]
    simp only [List.map_cons, List.map_append, List.map_map]
    rfl

theorem subPropertyPaths_eq : ∀ (d : TypeDescriptor) (p : PropertyDescriptor)
    (ps : PropertyDescriptors) (offset : ℕ) (o : ValueOffsets d) (os : AreaOffsets ps),
    (subPropertyPaths d o).map (fun q => (⟨q.1, q.2.cons ⟨p, offset, o⟩⟩ : Σ d, PropertyPath d)) =
      (placesInside d p ps).map fun π => ⟨π.1, π.2.propertyPath (offset, o, os)⟩
  | .fundamental _, _, _, _, _, _ | .enumeration _ _, _, _, _, _, _ | .vector _, _, _, _, _, _ => rfl
  | .struct qs, p, ps, offset, o, os => by
    rw [subPropertyPaths, placesInside, propertyPaths_eq qs o.area, List.map_map, List.map_map]
    rfl

end

/-! ## Looking up a dotted name -/

namespace PropertyDescriptors

def propertyNames : PropertyDescriptors → List String
  | .nil => []
  | .cons p _ ps => p.name :: ps.propertyNames

end PropertyDescriptors

mutual

/-- The properties of each struct have distinct names without a dot. -/
def PropertyDescriptors.PathNamed : PropertyDescriptors → Prop
  | .nil => True
  | .cons p d ps => '.' ∉ p.name.toList ∧ p.name ∉ ps.propertyNames ∧ d.PathNamed ∧ ps.PathNamed

def TypeDescriptor.PathNamed : TypeDescriptor → Prop
  | .fundamental _ | .enumeration _ _ | .vector _ => True
  | .struct qs => qs.PathNamed

end

mutual

instance PropertyDescriptors.decidablePathNamed : (ps : PropertyDescriptors) → Decidable ps.PathNamed
  | .nil => .isTrue trivial
  | .cons p d ps =>
    have := d.decidablePathNamed
    have := ps.decidablePathNamed
    inferInstanceAs (Decidable ('.' ∉ p.name.toList ∧ p.name ∉ ps.propertyNames ∧ d.PathNamed ∧ ps.PathNamed))

instance TypeDescriptor.decidablePathNamed : (d : TypeDescriptor) → Decidable d.PathNamed
  | .fundamental _ | .enumeration _ _ | .vector _ => .isTrue trivial
  | .struct qs => qs.decidablePathNamed

end

namespace Place

theorem names_propertyPath : ∀ {ps : PropertyDescriptors} {d : TypeDescriptor} (π : Place ps d)
    (os : AreaOffsets ps), (π.propertyPath os).names = π.names
  | .cons _ _ _, _, .here, (_, _, _) => rfl
  | .cons p _ _, _, .inside rest, (_, o, _) =>
    congrArg (List.cons p.name) (rest.names_propertyPath o.area)
  | .cons _ _ _, _, .there rest, (_, _, os) => rest.names_propertyPath os

/-- The first name is one of the list. -/
theorem exists_names : ∀ {ps : PropertyDescriptors} {d : TypeDescriptor} (π : Place ps d),
    ∃ n ∈ ps.propertyNames, ∃ ns, π.names = n :: ns
  | .cons p _ _, _, .here => ⟨p.name, List.mem_cons_self, [], rfl⟩
  | .cons p _ _, _, .inside rest => ⟨p.name, List.mem_cons_self, rest.names, rfl⟩
  | _, _, .there rest => by
    obtain ⟨n, hn, ns, h⟩ := rest.exists_names
    exact ⟨n, List.mem_cons_of_mem _ hn, ns, h⟩

theorem names_ne_nil {ps : PropertyDescriptors} {d : TypeDescriptor} (π : Place ps d) :
    π.names ≠ [] := by
  obtain ⟨n, -, ns, h⟩ := π.exists_names
  rw [h]
  exact List.cons_ne_nil n ns

/-- A place elsewhere in the list begins with another name. -/
theorem names_ne_cons {ps : PropertyDescriptors} {d : TypeDescriptor} {n : String} (π : Place ps d)
    (h : n ∉ ps.propertyNames) (ns : List String) : π.names ≠ n :: ns := by
  obtain ⟨n', hn', ns', hnames⟩ := π.exists_names
  rintro heq
  rw [hnames] at heq
  obtain ⟨rfl, -⟩ := List.cons.inj heq
  exact h hn'

theorem dot_notMem_names : ∀ {ps : PropertyDescriptors} {d : TypeDescriptor} (π : Place ps d),
    ps.PathNamed → ∀ n ∈ π.names, '.' ∉ n.toList
  | .cons _ _ _, _, .here, h, _, hn => by
    rw [List.mem_singleton.mp hn]
    exact h.1
  | .cons _ _ _, _, .inside rest, h, _, hn => by
    rcases List.mem_cons.mp hn with rfl | hn
    · exact h.1
    · exact rest.dot_notMem_names h.2.2.1 _ hn
  | .cons _ _ _, _, .there rest, h, _, hn => rest.dot_notMem_names h.2.2.2 _ hn

/-- **Distinct names** lead to distinct places. -/
theorem names_injective : ∀ {ps : PropertyDescriptors} {d d' : TypeDescriptor} (π : Place ps d)
    (ρ : Place ps d'), ps.PathNamed → π.names = ρ.names →
    (⟨d, π⟩ : Σ d, Place ps d) = ⟨d', ρ⟩
  | _, _, _, .here, .here, _, _ => rfl
  | _, _, _, .here, .inside ρ, _, heq => absurd (List.cons.inj heq).2.symm ρ.names_ne_nil
  | _, _, _, .here, .there ρ, h, heq => absurd heq.symm (ρ.names_ne_cons h.2.1 _)
  | _, _, _, .inside π, .here, _, heq => absurd (List.cons.inj heq).2 π.names_ne_nil
  | _, _, _, .inside π, .inside ρ, h, heq => by
    cases names_injective π ρ h.2.2.1 (List.cons.inj heq).2
    rfl
  | _, _, _, .inside _, .there ρ, h, heq => absurd heq.symm (ρ.names_ne_cons h.2.1 _)
  | _, _, _, .there π, .here, h, heq => absurd heq (π.names_ne_cons h.2.1 _)
  | _, _, _, .there π, .inside _, h, heq => absurd heq (π.names_ne_cons h.2.1 _)
  | _, _, _, .there π, .there ρ, h, heq => by
    cases names_injective π ρ h.2.2.2 heq
    rfl

end Place

variable {ps : PropertyDescriptors} {d : TypeDescriptor} {os : AreaOffsets ps}

/-- Splitting at the dots is the inverse of joining with them. -/
theorem splitOn_intercalate_names {ns : List String} (hne : ns ≠ [])
    (hdot : ∀ n ∈ ns, '.' ∉ n.toList) :
    (".".intercalate ns).toList.splitOn '.' = ns.map String.toList := by
  rw [String.toList_intercalate]
  refine List.splitOn_intercalate '.' (fun l hl => ?_) fun h => hne (List.map_eq_nil_iff.mp h)
  obtain ⟨n, hn, rfl⟩ := List.mem_map.mp hl
  exact hdot n hn

theorem intercalate_of_splitOn {ns : List String} {s : String}
    (h : ns.map String.toList = s.toList.splitOn '.') : ".".intercalate ns = s := by
  apply String.toList_injective
  rw [String.toList_intercalate, h]
  exact List.intercalate_splitOn '.'

/-- The paths of the source are those of places. -/
theorem mem_propertyPaths {q : Σ d, PropertyPath d} (h : q ∈ propertyPaths ps os) :
    ∃ (d : TypeDescriptor) (π : Place ps d), q = ⟨d, π.propertyPath os⟩ := by
  rw [propertyPaths_eq] at h
  obtain ⟨π, -, rfl⟩ := List.mem_map.mp h
  exact ⟨π.1, π.2, rfl⟩

/-- **The name of a place** is looked up as the path of the place. -/
theorem path_name (h : ps.PathNamed) (π : Place ps d) :
    path ps os π.name = .ok ⟨d, π.propertyPath os⟩ := by
  have hsplit : π.name.toList.splitOn '.' = π.names.map String.toList :=
    splitOn_intercalate_names π.names_ne_nil (π.dot_notMem_names h)
  have hmem : (⟨d, π.propertyPath os⟩ : Σ d, PropertyPath d) ∈ propertyPaths ps os := by
    rw [propertyPaths_eq]
    exact List.mem_map.mpr ⟨⟨d, π⟩, mem_places π, rfl⟩
  simp only [path]
  split
  next q hfind =>
    obtain ⟨d', ρ, rfl⟩ := mem_propertyPaths (List.mem_of_find?_eq_some hfind)
    have hnames : ρ.names.map String.toList = π.names.map String.toList := by
      have hfound := List.find?_some hfind
      rwa [decide_eq_true_eq, hsplit, Place.names_propertyPath] at hfound
    have hinj : Function.Injective String.toList := fun _ _ => String.toList_injective
    cases ρ.names_injective π h (List.map_injective_iff.mpr hinj hnames)
    rfl
  next hfind =>
    refine absurd (List.find?_eq_none.mp hfind _ hmem) (not_not.mpr (decide_eq_true ?_))
    rw [hsplit, Place.names_propertyPath]

/-- **Any other text** is refused. -/
theorem path_unknown {s : String} (h : ∀ (d : TypeDescriptor) (π : Place ps d), π.name ≠ s) :
    path ps os s = .error ("unknown composed property name '" ++ s ++ "'") := by
  simp only [path]
  split
  next q hfind =>
    obtain ⟨d', ρ, rfl⟩ := mem_propertyPaths (List.mem_of_find?_eq_some hfind)
    have hnames := List.find?_some hfind
    rw [decide_eq_true_eq, Place.names_propertyPath] at hnames
    exact absurd (intercalate_of_splitOn hnames) (h d' ρ)
  next hfind => rfl

end Dots

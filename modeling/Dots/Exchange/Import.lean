import Dots.Exchange.Export

/-!
# The import of types

What a channel receives about a type is registered, and then stands for the same type.

* `TypeTree`, `TypeObjects.tree`: what a descriptor stands for, to any depth.
* `DotsModel`: the types that programs have in common, by name.
* `TypeFactory`: how descriptors are made.
* `DescriptorConverter.enumObject`, `DescriptorConverter.structObject`: the conversion of descriptor
  data.
* `RegistryOf`: a registry whose types are those of a model.
* **`converts_enumObject`**, **`converts_structObject`**: descriptor data of a model is imported.
* `Party`: a registry and a channel; `importDependencies`, `receive`.
* **`imports_data`**: what a channel does with descriptor data of a model.
-/

set_option autoImplicit false

namespace Dots

variable {D : Type}

/-! ## What a descriptor stands for -/

mutual

/-- A type with all that it is made of. -/
inductive TypeTree
  | fundamental (name : String)
  | vector (valueType : TypeTree)
  | enum (name : String) (enumerators : List (ℕ × String × ℤ))
  | struct (name : String) (flags : StructFlags) (properties : PropertyTrees)
  deriving DecidableEq

inductive PropertyTrees
  | nil
  | cons (name : String) (tag : ℕ) (isKey : Bool) (valueType : TypeTree) (rest : PropertyTrees)
  deriving DecidableEq

end

namespace PropertyTrees

def ofProperties : List (ObjectProperty TypeTree) → PropertyTrees
  | [] => nil
  | p :: ps => cons p.name p.tag p.isKey p.valueDescriptor (ofProperties ps)

def properties : PropertyTrees → List (ObjectProperty TypeTree)
  | nil => []
  | cons name tag isKey t rest => ⟨t, name, tag, isKey⟩ :: properties rest

@[simp] theorem properties_ofProperties (ps : List (ObjectProperty TypeTree)) :
    (ofProperties ps).properties = ps := by
  induction ps with
  | nil => rfl
  | cons p ps ih => rw [ofProperties, properties, ih]

@[simp] theorem ofProperties_properties : ∀ ps : PropertyTrees, ofProperties ps.properties = ps
  | nil => rfl
  | cons name tag isKey t rest => by
    rw [properties, ofProperties, ofProperties_properties rest]

end PropertyTrees

namespace TypeTree

def name : TypeTree → String
  | fundamental n => n
  | vector t => "vector<" ++ name t ++ ">"
  | enum n _ => n
  | struct n _ _ => n

/-- The types of values; the one that all enums have in common is left out. -/
def valueTypes : TypeTree → List TypeTree
  | fundamental _ => []
  | vector t => [t]
  | enum _ _ => []
  | struct _ _ ps => ps.properties.map ObjectProperty.valueDescriptor

/-- The types that descriptor data can be about. -/
def IsNamed : TypeTree → Prop
  | enum _ _ => True
  | struct _ _ _ => True
  | _ => False

instance : DecidablePred IsNamed
  | fundamental _ => .isFalse id
  | vector _ => .isFalse id
  | enum _ _ => .isTrue trivial
  | struct _ _ _ => .isTrue trivial

/-- The types whose descriptors are transmitted. -/
def IsExported : TypeTree → Prop
  | enum _ _ => True
  | struct _ flags _ => flags.internal = false
  | _ => False

def propertyData (p : ObjectProperty TypeTree) : StructPropertyData where
  name := some p.name
  tag := some p.tag
  isKey := some p.isKey
  type := some p.valueDescriptor.name

def structData (n : String) (flags : StructFlags) (ps : PropertyTrees) : StructDescriptorData where
  name := some n
  flags := some flags.data
  properties := some (ps.properties.map propertyData)

/-- The descriptor data of a type. -/
def data : TypeTree → ChannelMessage
  | enum n enumerators => .enumDescriptorData (DescriptorConverter.enumData n enumerators)
  | struct n flags ps => .structDescriptorData (structData n flags ps)
  | t => .other t.name

end TypeTree

namespace TypeObjects

variable (o : TypeObjects D)

/-- What a descriptor stands for. -/
def tree (d : D) : TypeTree :=
  match _h : o.description d with
  | .fundamental => .fundamental (o.name d)
  | .vector e => .vector (tree e)
  | .enum enumerators => .enum (o.name d) enumerators
  | .struct flags ps => .struct (o.name d) flags (.ofProperties (ps.attach.map fun p =>
      { p.1 with valueDescriptor := tree p.1.valueDescriptor }))
termination_by o.constructed d
decreasing_by
  · exact o.constructed_lt d e (by rw [_h]; exact List.mem_singleton_self e)
  · exact o.constructed_lt d _ (by rw [_h]; exact List.mem_map_of_mem p.2)

/-- A property with what its value type stands for. -/
def propertyTree (p : ObjectProperty D) : ObjectProperty TypeTree :=
  { p with valueDescriptor := o.tree p.valueDescriptor }

variable {o} {d e : D} {flags : StructFlags} {ps : List (ObjectProperty D)}
  {enumerators : List (ℕ × String × ℤ)}

theorem tree_fundamental (h : o.description d = .fundamental) :
    o.tree d = .fundamental (o.name d) := by
  rw [tree]
  split <;> simp_all

theorem tree_vector (h : o.description d = .vector e) : o.tree d = .vector (o.tree e) := by
  rw [tree]
  split <;> simp_all

theorem tree_enum (h : o.description d = .enum enumerators) :
    o.tree d = .enum (o.name d) enumerators := by
  rw [tree]
  split <;> simp_all

theorem tree_struct (h : o.description d = .struct flags ps) :
    o.tree d = .struct (o.name d) flags (.ofProperties (ps.map o.propertyTree)) := by
  rw [tree]
  split
  all_goals rename_i heq; rw [h] at heq; cases heq
  exact congrArg (fun ps => TypeTree.struct (o.name d) _ (.ofProperties ps))
    (List.attach_map_val (l := ps) (f := o.propertyTree))

theorem tree_name (d : D) : (o.tree d).name = o.name d := by
  cases h : o.description d with
  | fundamental => rw [tree_fundamental h, TypeTree.name]
  | vector e =>
    have hlt : o.constructed e < o.constructed d :=
      o.constructed_lt d e (by rw [h]; exact List.mem_singleton_self e)
    rw [tree_vector h, TypeTree.name, tree_name e, o.name_vector h]
  | enum enumerators => rw [tree_enum h, TypeTree.name]
  | struct flags ps => rw [tree_struct h, TypeTree.name]
termination_by o.constructed d

theorem exists_of_tree_enum {n : String} (h : o.tree d = .enum n enumerators) :
    o.description d = .enum enumerators := by
  cases hd : o.description d with
  | fundamental => rw [tree_fundamental hd] at h; cases h
  | vector e => rw [tree_vector hd] at h; cases h
  | enum enumerators' => rw [tree_enum hd] at h; cases h; rfl
  | struct flags ps => rw [tree_struct hd] at h; cases h

theorem exists_of_tree_struct {n : String} {ts : PropertyTrees} (h : o.tree d = .struct n flags ts) :
    ∃ ps, o.description d = .struct flags ps ∧ ts = .ofProperties (ps.map o.propertyTree) := by
  cases hd : o.description d with
  | fundamental => rw [tree_fundamental hd] at h; cases h
  | vector e => rw [tree_vector hd] at h; cases h
  | enum enumerators' => rw [tree_enum hd] at h; cases h
  | struct flags' ps => rw [tree_struct hd] at h; cases h; exact ⟨ps, rfl, rfl⟩

theorem mem_valueTypes (he : e ∈ o.dependencies d) :
    o.tree e ∈ (o.tree d).valueTypes ∨ e = o.int32 := by
  rw [o.dependencies_eq] at he
  cases h : o.description d with
  | fundamental =>
    rw [h] at he
    cases he
  | vector f =>
    rw [h] at he
    rw [tree_vector h, List.mem_singleton.mp he]
    exact .inl (List.mem_singleton_self _)
  | enum enumerators =>
    rw [h] at he
    exact .inr (List.mem_singleton.mp he)
  | struct flags ps =>
    rw [h] at he
    obtain ⟨p, hp, rfl⟩ := List.mem_map.mp he
    rw [tree_struct h, TypeTree.valueTypes, PropertyTrees.properties_ofProperties, List.map_map]
    exact .inl (List.mem_map_of_mem (f := ObjectProperty.valueDescriptor ∘ o.propertyTree) hp)

theorem exists_of_mem_valueTypes {t : TypeTree} (ht : t ∈ (o.tree d).valueTypes) :
    ∃ e ∈ o.dependencies d, o.tree e = t := by
  simp only [o.dependencies_eq]
  cases h : o.description d with
  | fundamental =>
    rw [tree_fundamental h] at ht
    cases ht
  | vector e =>
    rw [tree_vector h] at ht
    exact ⟨e, List.mem_singleton_self e, (List.mem_singleton.mp ht).symm⟩
  | enum enumerators =>
    rw [tree_enum h] at ht
    cases ht
  | struct flags ps =>
    rw [tree_struct h, TypeTree.valueTypes, PropertyTrees.properties_ofProperties, List.map_map] at ht
    obtain ⟨p, hp, rfl⟩ := List.mem_map.mp ht
    exact ⟨p.valueDescriptor, List.mem_map_of_mem hp, rfl⟩

/-- **What is transmitted of a descriptor** is the data of what it stands for. -/
theorem message_dependency (h : o.Exported d) :
    (Outgoing.dependency d).message o = (o.tree d).data := by
  rcases h with ⟨enumerators, h⟩ | ⟨flags, ps, h, -⟩
  · rw [tree_enum h]
    simp [Outgoing.message, h, TypeTree.data]
  · rw [tree_struct h]
    simp [Outgoing.message, h, TypeTree.data, TypeTree.structData, TypeTree.propertyData,
      DescriptorConverter.structData, propertyTree, tree_name]

theorem isExported_tree (h : o.Exported d) : (o.tree d).IsExported := by
  rcases h with ⟨enumerators, h⟩ | ⟨flags, ps, h, hinternal⟩
  · rw [tree_enum h]
    trivial
  · rw [tree_struct h]
    exact hinternal

theorem exported_of_tree (h : (o.tree d).IsExported) : o.Exported d := by
  cases hd : o.description d with
  | fundamental => rw [tree_fundamental hd] at h; exact h.elim
  | vector e => rw [tree_vector hd] at h; exact h.elim
  | enum enumerators => exact .inl ⟨enumerators, hd⟩
  | struct flags ps => rw [tree_struct hd] at h; exact .inr ⟨flags, ps, hd, h⟩

end TypeObjects

/-! ## The types of a model -/

/-- A type whose vectors can be made when they are needed, or such a vector. -/
def TypeTree.Importable : TypeTree → Prop
  | .vector t => t.IsNamed
  | t => t.IsNamed

instance : DecidablePred TypeTree.Importable
  | .fundamental _ => .isFalse id
  | .vector t => inferInstanceAs (Decidable t.IsNamed)
  | .enum _ _ => .isTrue trivial
  | .struct _ _ _ => .isTrue trivial

/-- The types of descriptor data. -/
def IsDescriptorData (name : String) : Prop :=
  name = "EnumDescriptorData" ∨ name = "StructDescriptorData"

/-- The types that programs have in common, by name, as their DOTS model defines them, and those
that every registry has from the beginning. -/
structure DotsModel where
  type : String → Option TypeTree
  builtin : String → Prop
  name_eq {n : String} {t : TypeTree} : type n = some t → t.name = n
  closed {n : String} {t : TypeTree} : type n = some t → ∀ u ∈ t.valueTypes, type u.name = some u
  builtin_of_fundamental {n m : String} : type n = some (.fundamental m) → builtin n
  builtin_of_internal {n m : String} {flags : StructFlags} {ps : PropertyTrees} :
    type n = some (.struct m flags ps) → flags.internal = true → builtin n
  importable {n m : String} {flags : StructFlags} {ps : PropertyTrees} :
    type n = some (.struct m flags ps) → flags.internal = false →
      ps ≠ .nil ∧ ∀ p ∈ ps.properties, builtin p.valueDescriptor.name ∨ p.valueDescriptor.Importable
  builtin_descriptorData {n : String} : IsDescriptorData n → builtin n
  struct_descriptorData {n : String} : IsDescriptorData n →
    ∃ flags ps, type n = some (.struct n flags ps)

/-- A descriptor that stands for the type that a model has by its name. -/
def DotsModel.Conforms (M : DotsModel) (o : TypeObjects D) (d : D) : Prop :=
  M.type (o.name d) = some (o.tree d)

variable {M : DotsModel}

theorem DotsModel.Conforms.dependency {o : TypeObjects D} {d e : D} (h : M.Conforms o d)
    (hint32 : M.Conforms o o.int32) (he : e ∈ o.dependencies d) : M.Conforms o e := by
  rcases TypeObjects.mem_valueTypes he with hmem | rfl
  · have hclosed := M.closed h _ hmem
    rwa [TypeObjects.tree_name] at hclosed
  · exact hint32

/-! ## Making descriptors -/

/-- How descriptors are made. Each is a new object, which is told apart by a number. -/
structure TypeFactory (D : Type) extends TypeObjects D where
  isDynamic : D → Bool
  createVector : ℕ → D → D
  createEnum : ℕ → String → List (ℕ × String × ℤ) → D
  createStruct : ℕ → String → StructFlags → List (ObjectProperty D) → D
  description_createVector (k : ℕ) (d : D) : description (createVector k d) = .vector d
  description_createEnum (k : ℕ) (n : String) (enumerators : List (ℕ × String × ℤ)) :
    description (createEnum k n enumerators) = .enum enumerators
  description_createStruct (k : ℕ) (n : String) (flags : StructFlags)
    (ps : List (ObjectProperty D)) : description (createStruct k n flags ps) = .struct flags ps
  name_createEnum (k : ℕ) (n : String) (enumerators : List (ℕ × String × ℤ)) :
    name (createEnum k n enumerators) = n
  name_createStruct (k : ℕ) (n : String) (flags : StructFlags) (ps : List (ObjectProperty D)) :
    name (createStruct k n flags ps) = n

namespace TypeFactory

variable (o : TypeFactory D)

theorem tree_createVector (k : ℕ) (d : D) :
    o.tree (o.createVector k d) = .vector (o.tree d) :=
  TypeObjects.tree_vector (o.description_createVector k d)

theorem tree_createEnum (k : ℕ) (n : String) (enumerators : List (ℕ × String × ℤ)) :
    o.tree (o.createEnum k n enumerators) = .enum n enumerators := by
  rw [TypeObjects.tree_enum (o.description_createEnum k n enumerators), o.name_createEnum]

theorem tree_createStruct (k : ℕ) (n : String) (flags : StructFlags)
    (ps : List (ObjectProperty D)) : o.tree (o.createStruct k n flags ps) =
      .struct n flags (.ofProperties (ps.map o.propertyTree)) := by
  rw [TypeObjects.tree_struct (o.description_createStruct k n flags ps), o.name_createStruct]

end TypeFactory

/-! ## Converting descriptor data -/

/-- A registry, and how many descriptors were made. -/
structure TypeStore (D : Type) where
  registry : TypeRegistry D
  created : ℕ := 0

def StructFlags.ofData (m : Option DotsStructFlags) : StructFlags where
  cached := (m.bind DotsStructFlags.cached) == some true
  internal := (m.bind DotsStructFlags.internal) == some true
  persistent := (m.bind DotsStructFlags.persistent) == some true
  cleanup := (m.bind DotsStructFlags.cleanup) == some true
  local_ := (m.bind DotsStructFlags.local_) == some true
  substructOnly := (m.bind DotsStructFlags.substructOnly) == some true

theorem StructFlags.ofData_data (f : StructFlags) : ofData (some f.data) = f := by
  obtain ⟨_, _, _, _, _, _⟩ := f
  simp [ofData, data]

namespace DescriptorConverter

variable (o : TypeFactory D)

/-- `Registry::registerType` of descriptors that are made for it, the last of which is `d`. -/
def registerNew (s : TypeStore D) (d : D) (made : ℕ) : TypeStore D × Except String D :=
  let r := s.registry.registerType o.graph d true
  (⟨r.1, s.created + made⟩, r.2)

/-- `DescriptorConverter(EnumDescriptorData)`. -/
def enumObject (s : TypeStore D) (m : EnumDescriptorData) : TypeStore D × Except String D :=
  match m.name with
  | none => (s, .error (invalidProperty "name"))
  | some name =>
    match s.registry.findEnumType o.toTypeObjects name, m.elements with
    | some d, _ => (s, .ok d)
    | none, none => (s, .error (invalidProperty "elements"))
    | none, some es =>
      match es.mapM EnumElementDescriptor.read with
      | .error what => (s, .error what)
      | .ok enumerators => registerNew o s (o.createEnum s.created name enumerators) 1

/-- A vector of a type that is registered. The values of a static struct are dynamic ones. -/
def vectorObject (s : TypeStore D) (valueTypeName : String) (e : D) :
    TypeStore D × Except String D :=
  match o.description e with
  | .enum _ => registerNew o s (o.createVector s.created e) 1
  | .struct flags ps =>
    if o.isDynamic e then registerNew o s (o.createVector s.created e) 1
    else
      let value := o.createStruct s.created (o.name e) flags ps
      registerNew o s (o.createVector (s.created + 1) value) 2
  | _ => (s, .error ("unsupported dynamic vector type: " ++ valueTypeName))

/-- The descriptor of the values of a property. -/
def typeObject (s : TypeStore D) (typeName : String) : TypeStore D × Except String D :=
  match s.registry.findType typeName with
  | some d => (s, .ok d)
  | none =>
    if ¬ "vector<".toList <:+: typeName.toList then
      (s, .error ("missing type dependency: " ++ typeName))
    else
      match s.registry.findType (valueTypeName typeName) with
      | none => (s, .error ("missing value type dependency: " ++ valueTypeName typeName))
      | some e => vectorObject o s (valueTypeName typeName) e

/-- One turn of the loop over the properties. -/
def propertyObject (s : TypeStore D) (p : StructPropertyData) :
    TypeStore D × Except String (ObjectProperty D) :=
  match p.type with
  | none => (s, .error (invalidProperty "type"))
  | some typeName =>
    match typeObject o s typeName with
    | (s, .error what) => (s, .error what)
    | (s, .ok d) =>
      match readProperty p typeName with
      | .error what => (s, .error what)
      | .ok q => (s, .ok ⟨d, q.name, q.tag, q.isKey⟩)

/-- The loop over the properties. -/
def propertyObjects (s : TypeStore D) : List StructPropertyData →
    TypeStore D × Except String (List (ObjectProperty D))
  | [] => (s, .ok [])
  | p :: ps =>
    match propertyObject o s p with
    | (s, .error what) => (s, .error what)
    | (s, .ok q) =>
      match propertyObjects s ps with
      | (s, .error what) => (s, .error what)
      | (s, .ok qs) => (s, .ok (q :: qs))

/-- `DescriptorConverter(StructDescriptorData)`. Without any property the source reads the offset of
a last property that does not exist; the model stops there. -/
def structObject (s : TypeStore D) (m : StructDescriptorData) : TypeStore D × Except String D :=
  match m.name with
  | none => (s, .error (invalidProperty "name"))
  | some name =>
    match s.registry.findStructType o.toTypeObjects name, m.properties with
    | some d, _ => (s, .ok d)
    | none, none => (s, .error (invalidProperty "properties"))
    | none, some [] => (s, .error "no last property")
    | none, some ps =>
      match propertyObjects o s ps with
      | (s, .error what) => (s, .error what)
      | (s, .ok qs) =>
        registerNew o s (o.createStruct s.created name (.ofData m.flags) qs) 1

end DescriptorConverter

/-! ## Registries of a model -/

/-- The descriptors that a program starts with are those of the model. -/
structure DotsModel.Fits (M : DotsModel) (o : TypeObjects D) : Prop where
  int32 : M.Conforms o o.int32
  builtin_int32 : M.builtin (o.name o.int32)

/-- A registry whose types are those of a model, with what they are made of. -/
structure RegistryOf (M : DotsModel) (o : TypeObjects D) (r : TypeRegistry D) : Prop where
  name_eq {n : String} {d : D} : r.findType n = some d → o.name d = n
  conforms {n : String} {d : D} : r.findType n = some d → M.Conforms o d
  builtin {n : String} : M.builtin n → r.findType n ≠ none
  closed {n : String} {d : D} : r.findType n = some d →
    ∀ e ∈ o.dependencies d, r.findType (o.name e) ≠ none

namespace RegistryOf

variable {o : TypeObjects D} {r r' : TypeRegistry D} {d : D} {n : String}

theorem tree_eq (hr : RegistryOf M o r) (h : r.findType n = some d) {t : TypeTree}
    (ht : M.type n = some t) : o.tree d = t := by
  have hconforms := hr.conforms h
  rw [DotsModel.Conforms, hr.name_eq h, ht] at hconforms
  exact (Option.some_inj.mp hconforms).symm

theorem findEnumType_eq_none (hr : RegistryOf M o r) {enumerators : List (ℕ × String × ℤ)}
    (ht : M.type n = some (.enum n enumerators)) (h : r.findEnumType o n = none) :
    r.findType n = none := by
  cases hfind : r.findType n with
  | none => rfl
  | some d =>
    have hd := TypeObjects.exists_of_tree_enum (hr.tree_eq hfind ht)
    rw [TypeRegistry.findEnumType, hfind] at h
    simp [hd] at h

theorem findStructType_eq_none (hr : RegistryOf M o r) {flags : StructFlags} {ps : PropertyTrees}
    (ht : M.type n = some (.struct n flags ps)) (h : r.findStructType o n = none) :
    r.findType n = none := by
  cases hfind : r.findType n with
  | none => rfl
  | some d =>
    obtain ⟨_, hd, -⟩ := TypeObjects.exists_of_tree_struct (hr.tree_eq hfind ht)
    rw [TypeRegistry.findStructType, hfind] at h
    simp [hd] at h

/-- A type whose parts are registered is registered alone. -/
theorem registerType_eq (h : r.findType (o.name d) = none)
    (hdependencies : ∀ e ∈ o.dependencies d, r.findType (o.name e) ≠ none) (assertNewType : Bool) :
    r.registerType o.graph d assertNewType = ((r.emplace o.graph d).handleNewType d, .ok d) := by
  have hfold (es : List D) (hes : ∀ e ∈ es, (r.emplace o.graph d).findType (o.name e) ≠ none) :
      es.foldl (fun r e => (TypeRegistry.registerType o.graph e false r).1) (r.emplace o.graph d) =
        r.emplace o.graph d := by
    induction es with
    | nil => rfl
    | cons e es ih =>
      obtain ⟨e', he'⟩ := Option.ne_none_iff_exists'.mp (hes e List.mem_cons_self)
      rw [List.foldl_cons, TypeRegistry.registerType_of_some (g := o.graph) he']
      exact ih fun f hf => hes f (List.mem_cons_of_mem e hf)
  have hkeeps : r.Keeps (r.emplace o.graph d) := TypeRegistry.keeps_emplace h
  rw [TypeRegistry.registerType_of_none assertNewType h]
  have hall := hfold (o.dependencies d) fun e he => hkeeps.ne_none (hdependencies e he)
  exact congrArg (fun r : TypeRegistry D => (r.handleNewType d, Except.ok d)) hall

theorem emplace (hr : RegistryOf M o r) (hd : M.Conforms o d) (h : r.findType (o.name d) = none)
    (hdependencies : ∀ e ∈ o.dependencies d, r.findType (o.name e) ≠ none) :
    RegistryOf M o ((r.emplace o.graph d).handleNewType d) := by
  have hkeeps : r.Keeps ((r.emplace o.graph d).handleNewType d) := TypeRegistry.keeps_emplace h
  have hcases {n : String} {e : D}
      (he : ((r.emplace o.graph d).handleNewType d).findType n = some e) :
      n = o.name d ∧ e = d ∨ r.findType n = some e := by
    by_cases hn : n = o.name d
    · rw [hn] at he
      have hself := TypeRegistry.findType_emplace_self (g := o.graph) (r := r) d
      exact .inl ⟨hn, (Option.some_inj.mp (hself.symm.trans he)).symm⟩
    · exact .inr ((TypeRegistry.findType_emplace_of_ne (g := o.graph) hn).symm.trans he)
  refine ⟨fun he => ?_, fun he => ?_, fun hn => hkeeps.ne_none (hr.builtin hn), fun he f hf => ?_⟩
  · rcases hcases he with ⟨rfl, rfl⟩ | he
    · rfl
    · exact hr.name_eq he
  · rcases hcases he with ⟨rfl, rfl⟩ | he
    · exact hd
    · exact hr.conforms he
  · rcases hcases he with ⟨rfl, rfl⟩ | he
    · exact hkeeps.ne_none (hdependencies f hf)
    · exact hkeeps.ne_none (hr.closed he f hf)

end RegistryOf

/-! ## Conversions -/

namespace DescriptorConverter

variable {o : TypeFactory D} {s s' : TypeStore D}

/-- What a conversion does to a registry of a model: the types that are new are among those of `P`. -/
structure Grows (M : DotsModel) (o : TypeFactory D) (P : String → Prop) (s s' : TypeStore D) :
    Prop where
  registryOf : RegistryOf M o.toTypeObjects s'.registry
  keeps : s.registry.Keeps s'.registry
  new {n : String} : s'.registry.findType n ≠ none → s.registry.findType n ≠ none ∨ P n

theorem Grows.refl {P : String → Prop} (hs : RegistryOf M o.toTypeObjects s.registry) :
    Grows M o P s s :=
  ⟨hs, fun _ _ h => h, .inl⟩

theorem Grows.trans {P : String → Prop} {s'' : TypeStore D} (h : Grows M o P s s')
    (h' : Grows M o P s' s'') : Grows M o P s s'' where
  registryOf := h'.registryOf
  keeps n d hd := h'.keeps n d (h.keeps n d hd)
  new hn := (h'.new hn).elim h.new .inr

/-- A new descriptor of the model is registered. -/
theorem grows_registerNew (hs : RegistryOf M o.toTypeObjects s.registry) {d : D} (made : ℕ)
    {P : String → Prop} (hnew : P (o.name d)) (hd : M.Conforms o.toTypeObjects d)
    (h : s.registry.findType (o.name d) = none)
    (hdependencies : ∀ e ∈ o.dependencies d, s.registry.findType (o.name e) ≠ none) :
    ∃ s', registerNew o s d made = (s', .ok d) ∧ Grows M o P s s' ∧
      s'.registry.findType (o.name d) ≠ none := by
  have hregister := RegistryOf.registerType_eq h hdependencies true
  have hself : ((s.registry.emplace o.graph d).handleNewType d).findType (o.name d) = some d :=
    TypeRegistry.findType_emplace_self (g := o.graph) d
  refine ⟨⟨(s.registry.emplace o.graph d).handleNewType d, s.created + made⟩, ?_,
    ⟨hs.emplace hd h hdependencies, TypeRegistry.keeps_emplace h, fun {n} hn => ?_⟩, ?_⟩
  · rw [registerNew, hregister]
  · by_cases hname : n = o.name d
    · exact .inr (hname ▸ hnew)
    · exact .inl ((TypeRegistry.findType_emplace_of_ne (g := o.graph) hname) ▸ hn)
  · rw [hself]
    exact Option.some_ne_none d

theorem read_element (e : ℕ × String × ℤ) :
    EnumElementDescriptor.read { enumValue := some e.2.2, name := some e.2.1, tag := some e.1 } =
      .ok e := rfl

theorem mapM_read_enumData (enumerators : List (ℕ × String × ℤ)) :
    (enumerators.map fun e => ({ enumValue := some e.2.2, name := some e.2.1, tag := some e.1 } :
      EnumElementDescriptor)).mapM EnumElementDescriptor.read = .ok enumerators := by
  induction enumerators with
  | nil => rfl
  | cons e es ih => rw [List.map_cons, List.mapM_cons, read_element, ih]; rfl

/-- **Enum data of a model** is imported. -/
theorem converts_enumObject (hM : M.Fits o.toTypeObjects)
    (hs : RegistryOf M o.toTypeObjects s.registry) {n : String}
    {enumerators : List (ℕ × String × ℤ)} (ht : M.type n = some (.enum n enumerators)) :
    ∃ s' d, enumObject o s (enumData n enumerators) = (s', .ok d) ∧
      Grows M o (fun m => m = n) s s' ∧ o.tree d = .enum n enumerators ∧
      s'.registry.findType n ≠ none := by
  cases hfind : s.registry.findEnumType o.toTypeObjects n with
  | some d =>
    have hd : s.registry.findType n = some d := (Option.filter_eq_some_iff.mp hfind).1
    refine ⟨s, d, ?_, .refl hs, hs.tree_eq hd ht, ?_⟩
    · simp [enumObject, enumData, hfind]
    · rw [hd]
      exact Option.some_ne_none d
  | none =>
    have hnone := hs.findEnumType_eq_none ht hfind
    have htree := o.tree_createEnum s.created n enumerators
    have hname := o.name_createEnum s.created n enumerators
    obtain ⟨s', hregister, hgrows, hknown⟩ := grows_registerNew hs
      (d := o.createEnum s.created n enumerators) 1 (P := fun m => m = n) hname
      (by rw [DotsModel.Conforms, htree, hname]; exact ht) (by rw [hname]; exact hnone)
      (fun e he => by
        rw [TypeObjects.dependencies_eq, o.description_createEnum] at he
        rw [List.mem_singleton.mp he]
        exact hs.builtin hM.builtin_int32)
    refine ⟨s', _, ?_, hgrows, htree, hname ▸ hknown⟩
    simp only [enumObject, enumData, hfind, mapM_read_enumData]
    exact hregister

/-! ## Vectors -/

theorem valueTypeName_vector (n : String) : valueTypeName ("vector<" ++ n ++ ">") = n := by
  have hlist : ("vector<" ++ n ++ ">").toList = "vector<".toList ++ (n.toList ++ ">".toList) := by
    simp
  have hlength : ("vector<" ++ n ++ ">").length - 8 = n.toList.length := by
    rw [← String.length_toList, hlist]
    simp
  rw [valueTypeName, hlist, hlength]
  have hprefix : "vector<".toList.length = 7 := by decide
  rw [← hprefix, List.drop_left, List.take_left]
  simp

theorem isInfix_vector (n : String) : "vector<".toList <:+: ("vector<" ++ n ++ ">").toList :=
  ⟨[], n.toList ++ ">".toList, by simp⟩

/-- A type that is registered, or a vector that can be made of one. -/
def Available (r : TypeRegistry D) (t : TypeTree) : Prop :=
  r.findType t.name ≠ none ∨ ∃ u, t = .vector u ∧ u.IsNamed ∧ r.findType u.name ≠ none

theorem Available.mono {r r' : TypeRegistry D} {t : TypeTree} (h : Available r t)
    (hkeeps : r.Keeps r') : Available r' t :=
  h.imp hkeeps.ne_none fun ⟨u, ht, hnamed, hu⟩ => ⟨u, ht, hnamed, hkeeps.ne_none hu⟩

/-- The types that the loop over the properties may register. -/
def IsVector (M : DotsModel) (n : String) : Prop := ∃ t, M.type n = some (.vector t)

theorem converts_vectorObject (hs : RegistryOf M o.toTypeObjects s.registry) {e : D} {t : TypeTree}
    (hnamed : t.IsNamed) (he : s.registry.findType t.name = some e) (htree : o.tree e = t)
    (ht : M.type (TypeTree.vector t).name = some (.vector t))
    (hnone : s.registry.findType (TypeTree.vector t).name = none) :
    ∃ s' d, vectorObject o s t.name e = (s', .ok d) ∧ Grows M o (IsVector M) s s' ∧
      o.tree d = .vector t ∧ s'.registry.findType (TypeTree.vector t).name ≠ none := by
  have hregister {k : ℕ} {value : D} (made : ℕ) (hvalue : o.tree value = t) :
      ∃ s' d, registerNew o s (o.createVector k value) made = (s', .ok d) ∧
        Grows M o (IsVector M) s s' ∧ o.tree d = .vector t ∧
        s'.registry.findType (TypeTree.vector t).name ≠ none := by
    have hvector : o.tree (o.createVector k value) = .vector t := by
      rw [o.tree_createVector, hvalue]
    have hname : o.name (o.createVector k value) = (TypeTree.vector t).name := by
      rw [← TypeObjects.tree_name, hvector]
    obtain ⟨s', h, hgrows, hknown⟩ := grows_registerNew hs (d := o.createVector k value) made
      (P := IsVector M) ⟨t, hname ▸ ht⟩ (by rw [DotsModel.Conforms, hvector, hname]; exact ht)
      (hname ▸ hnone) (fun f hf => by
        rw [TypeObjects.dependencies_eq, o.description_createVector] at hf
        rw [List.mem_singleton.mp hf, ← TypeObjects.tree_name, hvalue, he]
        exact Option.some_ne_none e)
    exact ⟨s', _, h, hgrows, hvector, hname ▸ hknown⟩
  cases t with
  | fundamental n => exact hnamed.elim
  | vector u => exact hnamed.elim
  | enum n enumerators =>
    rw [vectorObject, TypeObjects.exists_of_tree_enum htree]
    exact hregister 1 htree
  | struct n flags ps =>
    obtain ⟨qs, hdescription, rfl⟩ := TypeObjects.exists_of_tree_struct htree
    rw [vectorObject, hdescription]
    by_cases hdynamic : o.isDynamic e
    · simp only [hdynamic, if_true]
      exact hregister 1 htree
    · simp only [hdynamic]
      refine hregister 2 ?_
      rw [o.tree_createStruct, ← TypeObjects.tree_name, htree]
      rfl

theorem converts_typeObject (hs : RegistryOf M o.toTypeObjects s.registry) {t : TypeTree}
    (ht : M.type t.name = some t) (havailable : Available s.registry t) :
    ∃ s' d, typeObject o s t.name = (s', .ok d) ∧ Grows M o (IsVector M) s s' ∧ o.tree d = t ∧
      s'.registry.findType t.name ≠ none := by
  cases hfind : s.registry.findType t.name with
  | some d =>
    refine ⟨s, d, ?_, .refl hs, hs.tree_eq hfind ht, by rw [hfind]; exact Option.some_ne_none d⟩
    rw [typeObject, hfind]
  | none =>
    obtain ⟨u, rfl, hnamed, hu⟩ := havailable.resolve_left (not_not.mpr hfind)
    obtain ⟨e, he⟩ := Option.ne_none_iff_exists'.mp hu
    have htree := hs.tree_eq he (M.closed ht u (List.mem_singleton_self u))
    have hvector := converts_vectorObject hs hnamed he htree ht hfind
    have hname : (TypeTree.vector u).name = "vector<" ++ u.name ++ ">" := rfl
    rw [hname] at hfind hvector ⊢
    rw [typeObject, hfind]
    dsimp only
    rw [if_neg (not_not.mpr (isInfix_vector u.name)), valueTypeName_vector, he]
    exact hvector

/-! ## Structs -/

theorem converts_propertyObject (hs : RegistryOf M o.toTypeObjects s.registry)
    {p : ObjectProperty TypeTree} (ht : M.type p.valueDescriptor.name = some p.valueDescriptor)
    (havailable : Available s.registry p.valueDescriptor) :
    ∃ s' q, propertyObject o s (TypeTree.propertyData p) = (s', .ok q) ∧ Grows M o (IsVector M) s s' ∧
      o.propertyTree q = p ∧ s'.registry.findType (o.name q.valueDescriptor) ≠ none := by
  obtain ⟨s', d, htype, hgrows, htree, hknown⟩ := converts_typeObject hs ht havailable
  refine ⟨s', ⟨d, p.name, p.tag, p.isKey⟩, ?_, hgrows, ?_, ?_⟩
  · simp [propertyObject, TypeTree.propertyData, htype, readProperty]
  · rw [TypeObjects.propertyTree, htree]
  · rw [← TypeObjects.tree_name, htree]
    exact hknown

theorem converts_propertyObjects (ps : List (ObjectProperty TypeTree)) :
    ∀ {s : TypeStore D}, RegistryOf M o.toTypeObjects s.registry →
      (∀ p ∈ ps, M.type p.valueDescriptor.name = some p.valueDescriptor ∧
        Available s.registry p.valueDescriptor) →
      ∃ s' qs, propertyObjects o s (ps.map TypeTree.propertyData) = (s', .ok qs) ∧
        Grows M o (IsVector M) s s' ∧ qs.map o.propertyTree = ps ∧
        ∀ q ∈ qs, s'.registry.findType (o.name q.valueDescriptor) ≠ none := by
  induction ps with
  | nil => exact fun hs _ => ⟨_, [], rfl, .refl hs, rfl, nofun⟩
  | cons p ps ih =>
    intro s hs hps
    obtain ⟨ht, havailable⟩ := hps p List.mem_cons_self
    obtain ⟨s', q, hq, hgrows, htree, hknown⟩ := converts_propertyObject hs ht havailable
    obtain ⟨s'', qs, hqs, hgrows', htrees, hknowns⟩ := ih hgrows.registryOf fun p' hp' =>
      (hps p' (List.mem_cons_of_mem p hp')).imp_right fun h => h.mono hgrows.keeps
    refine ⟨s'', q :: qs, ?_, hgrows.trans hgrows', ?_, fun q' hq' => ?_⟩
    · rw [List.map_cons, propertyObjects, hq]
      simp only [hqs]
    · rw [List.map_cons, htree, htrees]
    · rcases List.mem_cons.mp hq' with rfl | hq'
      · exact hgrows'.keeps.ne_none hknown
      · exact hknowns q' hq'

/-- **Struct data of a model** is imported, if the types of its properties are available. -/
theorem converts_structObject (hs : RegistryOf M o.toTypeObjects s.registry) {n : String}
    {flags : StructFlags} {ps : PropertyTrees} (ht : M.type n = some (.struct n flags ps))
    (hps : ps ≠ .nil) (havailable : ∀ p ∈ ps.properties, Available s.registry p.valueDescriptor) :
    ∃ s' d, structObject o s (TypeTree.structData n flags ps) = (s', .ok d) ∧
      Grows M o (fun m => m = n ∨ IsVector M m) s s' ∧ o.tree d = .struct n flags ps ∧
      s'.registry.findType n ≠ none := by
  cases hfind : s.registry.findStructType o.toTypeObjects n with
  | some d =>
    have hd : s.registry.findType n = some d := (Option.filter_eq_some_iff.mp hfind).1
    refine ⟨s, d, ?_, .refl hs, hs.tree_eq hd ht, ?_⟩
    · simp [structObject, TypeTree.structData, hfind]
    · rw [hd]
      exact Option.some_ne_none d
  | none =>
    have hnone := hs.findStructType_eq_none ht hfind
    have hclosed (p : ObjectProperty TypeTree) (hp : p ∈ ps.properties) :
        M.type p.valueDescriptor.name = some p.valueDescriptor :=
      M.closed ht p.valueDescriptor (List.mem_map_of_mem hp)
    obtain ⟨s', qs, hqs, hgrows, htrees, hknowns⟩ := converts_propertyObjects ps.properties hs
      fun p hp => ⟨hclosed p hp, havailable p hp⟩
    -- the loop over the properties registers vectors only
    have hnone' : s'.registry.findType n = none := by
      by_contra hknown
      rcases hgrows.new hknown with h | ⟨t, h⟩
      · exact h hnone
      · rw [ht] at h
        cases h
    have htree := o.tree_createStruct s'.created n flags qs
    rw [htrees, PropertyTrees.ofProperties_properties] at htree
    have hname := o.name_createStruct s'.created n flags qs
    obtain ⟨s'', hregister, hgrows', hknown⟩ := grows_registerNew hgrows.registryOf
      (d := o.createStruct s'.created n flags qs) 1
      (P := fun m => m = n ∨ IsVector M m) (.inl hname)
      (by rw [DotsModel.Conforms, htree, hname]; exact ht) (by rw [hname]; exact hnone')
      (fun e he => by
        rw [TypeObjects.dependencies_eq, o.description_createStruct] at he
        obtain ⟨q, hq, rfl⟩ := List.mem_map.mp he
        exact hknowns q hq)
    have hwhole : Grows M o (fun m => m = n ∨ IsVector M m) s s' :=
      { hgrows with new := fun hn => (hgrows.new hn).imp_right .inr }
    refine ⟨s'', _, ?_, hwhole.trans hgrows', htree, hname ▸ hknown⟩
    have hcons : ps.properties.map TypeTree.propertyData ≠ [] := by
      cases ps with
      | nil => exact absurd rfl hps
      | cons => exact List.cons_ne_nil _ _
    obtain ⟨p, rest, hp⟩ := List.exists_cons_of_ne_nil hcons
    rw [hp] at hqs
    simp only [structObject, TypeTree.structData, hfind, hp, hqs, StructFlags.ofData_data]
    exact hregister

end DescriptorConverter

/-! ## The receiving side -/

/-- The type that a message is an instance of. -/
def ChannelMessage.typeName : ChannelMessage → String
  | .enumDescriptorData _ => "EnumDescriptorData"
  | .structDescriptorData _ => "StructDescriptorData"
  | .other name => name

/-- `Registry::getStructType`. -/
def TypeRegistry.getStructType (o : TypeObjects D) (r : TypeRegistry D) (name : String) :
    Except String D :=
  match r.findType name with
  | none => .error ("no type registered with name1: " ++ name)
  | some d =>
    match o.description d with
    | .struct _ _ => .ok d
    | _ => .error ("registered type with name '" ++ name ++ "' is not a struct type")

theorem RegistryOf.getStructType_eq {o : TypeObjects D} {r : TypeRegistry D}
    (hr : RegistryOf M o r) {n : String} {flags : StructFlags} {ps : PropertyTrees}
    (ht : M.type n = some (.struct n flags ps)) (h : r.findType n ≠ none) :
    ∃ d, r.getStructType o n = .ok d ∧ o.tree d = .struct n flags ps := by
  obtain ⟨d, hd⟩ := Option.ne_none_iff_exists'.mp h
  have htree := hr.tree_eq hd ht
  obtain ⟨_, hdescription, -⟩ := TypeObjects.exists_of_tree_struct htree
  refine ⟨d, ?_, htree⟩
  rw [TypeRegistry.getStructType, hd]
  simp only [hdescription]

/-- A program with one channel: its registry and what the channel keeps. -/
structure Party (D : Type) where
  store : TypeStore D
  channel : TypeChannel D := {}

namespace Party

variable [DecidableEq D] (o : TypeFactory D) (p : Party D)

/-- `importDependencies` of descriptor data: the name is shared before the conversion. -/
def importData (name : Option String) (convert : TypeStore D → TypeStore D × Except String D) :
    Party D × Except String Unit :=
  match name with
  | none => (p, .error (invalidProperty "name"))
  | some name =>
    if name ∈ p.channel.sharedTypeNames then (p, .ok ())
    else
      match convert p.store with
      | (s, .error what) =>
        let sharedTypeNames := insert name p.channel.sharedTypeNames
        (⟨s, { p.channel with sharedTypeNames }⟩, .error what)
      | (s, .ok d) => (⟨s, p.channel.shareReceived name d⟩, .ok ())

/-- `Channel::importDependencies`. -/
def importDependencies : ChannelMessage → Party D × Except String Unit
  | .structDescriptorData m =>
    p.importData m.name fun s => DescriptorConverter.structObject o s m
  | .enumDescriptorData m => p.importData m.name fun s => DescriptorConverter.enumObject o s m
  | .other _ => (p, .ok ())

/-- The reception of a message up to the invocation of the handler, with the type of the instance
that the handler is given. -/
def receive (m : ChannelMessage) : Party D × Except String D :=
  match p.store.registry.getStructType o.toTypeObjects m.typeName with
  | .error what => (p, .error what)
  | .ok d =>
    match p.importDependencies o m with
    | (p, .error what) => (p, .error what)
    | (p, .ok _) => (p, .ok d)

variable {o p} {p' : Party D}

/-- What the import of a type does to a program: the type is registered, and no other than this one
is shared with the peer that was not before. -/
structure Imports (M : DotsModel) (o : TypeFactory D) (name : String) (p p' : Party D) : Prop where
  registryOf : RegistryOf M o.toTypeObjects p'.store.registry
  keeps : p.store.registry.Keeps p'.store.registry
  known : p'.store.registry.findType name ≠ none
  transmitted : p'.channel.transmitted = p.channel.transmitted
  names : ∀ n ∈ p'.channel.sharedTypeNames, n ∈ p.channel.sharedTypeNames ∨ n = name
  descriptors : ∀ d ∈ p'.channel.sharedTypeDescriptors,
    d ∈ p.channel.sharedTypeDescriptors ∨ o.name d = name

theorem imports_importData (hr : RegistryOf M o.toTypeObjects p.store.registry) (t : TypeTree)
    (convert : TypeStore D → TypeStore D × Except String D) {P : String → Prop}
    (hconvert : ∃ s d, convert p.store = (s, .ok d) ∧ DescriptorConverter.Grows M o P p.store s ∧
      o.tree d = t ∧ s.registry.findType t.name ≠ none)
    (hshared : ∀ n ∈ p.channel.sharedTypeNames, p.store.registry.findType n ≠ none) :
    ∃ p', p.importData (some t.name) convert = (p', .ok ()) ∧ Imports M o t.name p p' := by
  by_cases hname : t.name ∈ p.channel.sharedTypeNames
  · refine ⟨p, if_pos hname, ⟨hr, fun _ _ h => h, hshared _ hname, rfl, fun _ => .inl, fun _ => .inl⟩⟩
  · obtain ⟨s, d, hs, hgrows, htree, hknown⟩ := hconvert
    refine ⟨⟨s, p.channel.shareReceived t.name d⟩, ?_,
      ⟨hgrows.registryOf, hgrows.keeps, hknown, rfl, fun n hn => ?_, fun e he => ?_⟩⟩
    · rw [importData, if_neg hname, hs]
    · exact (Finset.mem_insert.mp hn).symm
    · refine (Finset.mem_insert.mp he).symm.imp_right fun heq => ?_
      rw [heq, ← TypeObjects.tree_name, htree]

/-- **Descriptor data of a model** is imported, if the types of its properties are available. -/
theorem imports_data (hM : M.Fits o.toTypeObjects)
    (hr : RegistryOf M o.toTypeObjects p.store.registry)
    (hshared : ∀ n ∈ p.channel.sharedTypeNames, p.store.registry.findType n ≠ none) {t : TypeTree}
    (ht : M.type t.name = some t) (hexported : t.IsExported)
    (havailable : ∀ u ∈ t.valueTypes, DescriptorConverter.Available p.store.registry u) :
    ∃ p', p.importDependencies o t.data = (p', .ok ()) ∧ Imports M o t.name p p' := by
  cases t with
  | fundamental n => exact hexported.elim
  | vector u => exact hexported.elim
  | enum n enumerators =>
    exact imports_importData hr (.enum n enumerators)
      (fun s => DescriptorConverter.enumObject o s (DescriptorConverter.enumData n enumerators))
      (DescriptorConverter.converts_enumObject hM hr ht) hshared
  | struct n flags ps =>
    have hconverts := DescriptorConverter.converts_structObject hr ht (M.importable ht hexported).1
      fun q hq => havailable _ (List.mem_map_of_mem hq)
    exact imports_importData hr (.struct n flags ps)
      (fun s => DescriptorConverter.structObject o s (TypeTree.structData n flags ps)) hconverts hshared

end Party

end Dots

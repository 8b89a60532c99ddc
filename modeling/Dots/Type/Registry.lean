import Dots.Message

/-!
# The registry and the import of descriptors

* `Registry`: the types a transceiver knows, by name.
* `DescriptorConverter`: how a descriptor that arrives as data is registered.
* `Channel.importDependencies`: what a channel does with such data before anyone else sees it.
* **`importDependencies_eq_self_iff`**: which data leaves the registry as it is.
-/

set_option autoImplicit false

namespace Dots

/-! ## The registry -/

/-- A property of a registered struct type. -/
structure RegisteredProperty where
  type : String
  name : String
  tag : ℕ
  isKey : Bool
  deriving DecidableEq

/-- `type::Descriptor`, by the kind of type it describes. -/
inductive Descriptor
  | fundamental
  | vector (valueType : String)
  | enum (enumerators : List (ℕ × String × ℤ))
  | struct (flags : DotsStructFlags) (properties : List RegisteredProperty)
  deriving DecidableEq

/-- `type::Registry`. -/
structure Registry where
  types : String → Option Descriptor

namespace Registry

variable (r : Registry)

def findType (name : String) : Option Descriptor := r.types name

def findEnumType (name : String) : Option Descriptor :=
  match r.findType name with
  | some (.enum es) => some (.enum es)
  | _ => none

def findStructType (name : String) : Option Descriptor :=
  match r.findType name with
  | some (.struct f ps) => some (.struct f ps)
  | _ => none

/-- `Registry::registerType` of a new type. The descriptors it depends on come from the registry
or are fundamental, so the recursive calls of the source find them registered. -/
def registerType (name : String) (d : Descriptor) : Registry × Except String Unit :=
  match r.findType name with
  | some _ => (r, .error ("there already is a type with name: " ++ name))
  | none => ({ types := Function.update r.types name (some d) }, .ok ())

theorem findEnumType_eq_none {name : String} (h : r.findType name = none) :
    r.findEnumType name = none := by
  simp [findEnumType, h]

/-- A registration leaves the registry as it is exactly if the name is taken. -/
theorem registerType_eq_self_iff {name : String} {d : Descriptor} :
    (r.registerType name d).1 = r ↔ r.findType name ≠ none := by
  unfold registerType
  split
  · rename_i e he
    simp [he]
  · rename_i he
    refine iff_of_false (fun h => ?_) (not_not.mpr he)
    have hn : some d = none :=
      ((Function.update_self name (some d) r.types).symm.trans
        (congrFun (congrArg Registry.types h) name)).trans he
    cases hn

theorem registerType_of_taken {name : String} {d : Descriptor} (h : r.findType name ≠ none) :
    r.registerType name d = (r, .error ("there already is a type with name: " ++ name)) := by
  obtain ⟨e, he⟩ := Option.ne_none_iff_exists'.mp h
  simp [registerType, he]

/-- What is registered stays registered. -/
def Grows (r r' : Registry) : Prop := ∀ name, r.findType name ≠ none → r'.findType name ≠ none

/-- Something new is registered. -/
def Adds (r r' : Registry) : Prop := ∃ name, r.findType name = none ∧ r'.findType name ≠ none

variable {r} in
theorem Adds.ne {r' : Registry} (h : r.Adds r') : r' ≠ r := by
  rintro rfl
  obtain ⟨name, hn, hs⟩ := h
  exact hs hn

variable {r} in
theorem Adds.trans {r' r'' : Registry} (h : r.Adds r') (hg : r'.Grows r'') : r.Adds r'' :=
  h.imp fun name hn => ⟨hn.1, hg name hn.2⟩

theorem registerType_adds {name : String} {d : Descriptor} (h : r.findType name = none) :
    r.Adds (r.registerType name d).1 := by
  refine ⟨name, h, ?_⟩
  have hreg : r.registerType name d = (⟨Function.update r.types name (some d)⟩, .ok ()) := by
    simp [registerType, h]
  rw [hreg]
  exact ne_of_eq_of_ne (Function.update_self ..) (Option.some_ne_none d)

theorem registerType_grows (name : String) (d : Descriptor) :
    r.Grows (r.registerType name d).1 := by
  intro n hn
  unfold registerType
  split
  · exact hn
  · simp only [findType, Function.update_apply]
    split_ifs
    · exact Option.some_ne_none d
    · exact hn

end Registry

/-! ## Converting descriptor data -/

/-- Reading a property that is not valid throws. -/
def invalidProperty (name : String) : String :=
  "property is expected to be valid but it is not: " ++ name

/-- The fields of an element, all of which have to be valid. -/
def EnumElementDescriptor.read (e : EnumElementDescriptor) : Except String (ℕ × String × ℤ) :=
  match e.tag, e.name, e.enumValue with
  | some tag, some name, some value => .ok (tag, name, value)
  | none, _, _ => .error (invalidProperty "tag")
  | _, none, _ => .error (invalidProperty "name")
  | _, _, none => .error (invalidProperty "enum_value")

/-- The flags of a new struct type; a flag that is not valid is not set. -/
def StructDescriptorData.registeredFlags (m : StructDescriptorData) : DotsStructFlags :=
  m.flags.getD {}

/-- `DescriptorConverter`, for the registry it has been given. -/
structure DescriptorConverter where
  registry : Registry

namespace DescriptorConverter

variable (c : DescriptorConverter)

/-- `DescriptorConverter(EnumDescriptorData)`: the registry afterwards. -/
def enumType (m : EnumDescriptorData) : Registry × Except String Unit :=
  match m.name with
  | none => (c.registry, .error (invalidProperty "name"))
  | some name =>
    match c.registry.findEnumType name, m.elements with
    | some _, _ => (c.registry, .ok ())
    | none, none => (c.registry, .error (invalidProperty "elements"))
    | none, some es =>
      match es.mapM EnumElementDescriptor.read with
      | .error what => (c.registry, .error what)
      | .ok enumerators => c.registry.registerType name (.enum enumerators)

/-- The value type that a name of a vector type contains. -/
def valueTypeName (typeName : String) : String :=
  String.ofList ((typeName.toList.drop 7).take (typeName.length - 8))

/-- The type of a property: a vector type that is not registered yet gets registered. -/
def propertyType (r : Registry) (typeName : String) : Registry × Except String Unit :=
  match r.findType typeName with
  | some _ => (r, .ok ())
  | none =>
    if ¬ "vector<".toList <:+: typeName.toList then
      (r, .error ("missing type dependency: " ++ typeName))
    else
      match r.findType (valueTypeName typeName) with
      | none => (r, .error ("missing value type dependency: " ++ valueTypeName typeName))
      | some (.enum _) | some (.struct _ _) =>
        r.registerType ("vector<" ++ valueTypeName typeName ++ ">")
          (.vector (valueTypeName typeName))
      | some _ => (r, .error ("unsupported dynamic vector type: " ++ valueTypeName typeName))

/-- The remaining fields of a property, all of which have to be valid. -/
def readProperty (p : StructPropertyData) (typeName : String) :
    Except String RegisteredProperty :=
  match p.name, p.tag, p.isKey with
  | some name, some tag, some isKey => .ok ⟨typeName, name, tag, isKey⟩
  | none, _, _ => .error (invalidProperty "name")
  | _, none, _ => .error (invalidProperty "tag")
  | _, _, none => .error (invalidProperty "isKey")

/-- One turn of the loop over the properties. -/
def property (r : Registry) (p : StructPropertyData) :
    Registry × Except String RegisteredProperty :=
  match p.type with
  | none => (r, .error (invalidProperty "type"))
  | some typeName =>
    match propertyType r typeName with
    | (r, .error what) => (r, .error what)
    | (r, .ok _) => (r, readProperty p typeName)

/-- The loop over the properties. -/
def properties (r : Registry) : List StructPropertyData →
    Registry × Except String (List RegisteredProperty)
  | [] => (r, .ok [])
  | p :: ps =>
    match property r p with
    | (r, .error what) => (r, .error what)
    | (r, .ok q) =>
      match properties r ps with
      | (r, .error what) => (r, .error what)
      | (r, .ok qs) => (r, .ok (q :: qs))

/-- `DescriptorConverter(StructDescriptorData)`: the registry afterwards. Without any property the
source reads the offset of a last property that does not exist; the model stops there. -/
def structType (m : StructDescriptorData) : Registry × Except String Unit :=
  match m.name with
  | none => (c.registry, .error (invalidProperty "name"))
  | some name =>
    match c.registry.findStructType name, m.properties with
    | some _, _ => (c.registry, .ok ())
    | none, none => (c.registry, .error (invalidProperty "properties"))
    | none, some [] => (c.registry, .error "no last property")
    | none, some ps =>
      match properties c.registry ps with
      | (r, .error what) => (r, .error what)
      | (r, .ok qs) => r.registerType name (.struct m.registeredFlags qs)

end DescriptorConverter

/-! ## The channel -/

/-- The members of a `Channel` that its receiving side uses. -/
structure Channel where
  sharedTypeNames : Finset String := ∅
  asyncReceiving : Bool := true

namespace Channel

variable {S : Schema} {V : Type} (ch : Channel)

/-- `Channel::importDependencies`: the channel, the registry, and what was thrown. -/
def importDependencies (r : Registry) : AnyStruct S V → Channel × Registry × Except String Unit
  | .structDescriptorData m =>
    match m.name with
    | none => (ch, r, .error (invalidProperty "name"))
    | some name =>
      if name ∈ ch.sharedTypeNames then (ch, r, .ok ())
      else ({ ch with sharedTypeNames := insert name ch.sharedTypeNames },
        DescriptorConverter.structType ⟨r⟩ m)
  | .enumDescriptorData m =>
    match m.name with
    | none => (ch, r, .error (invalidProperty "name"))
    | some name =>
      if name ∈ ch.sharedTypeNames then (ch, r, .ok ())
      else ({ ch with sharedTypeNames := insert name ch.sharedTypeNames },
        DescriptorConverter.enumType ⟨r⟩ m)
  | _ => (ch, r, .ok ())

end Channel

/-! ## What changes the registry -/

namespace Registry

variable (r : Registry)

/-- The conversion of a property that leaves the registry as it is and goes on. -/
def Known (p : StructPropertyData) : Prop :=
  (∃ typeName, p.type = some typeName ∧ r.findType typeName ≠ none) ∧
    p.name ≠ none ∧ p.tag ≠ none ∧ p.isKey ≠ none

/-- A property whose vector type is not registered yet, but whose value type is. -/
def NewVector (p : StructPropertyData) : Prop :=
  ∃ typeName, p.type = some typeName ∧ r.findType typeName = none ∧
    "vector<".toList <:+: typeName.toList ∧
    (∃ d, r.findType (DescriptorConverter.valueTypeName typeName) = some d ∧
      ((∃ es, d = .enum es) ∨ ∃ f ps, d = .struct f ps)) ∧
    r.findType ("vector<" ++ DescriptorConverter.valueTypeName typeName ++ ">") = none

/-- Properties that register a vector type before anything is wrong with them. -/
def RegistersVector (ps : List StructPropertyData) : Prop :=
  ∃ pre p post, ps = pre ++ p :: post ∧ (∀ q ∈ pre, r.Known q) ∧ r.NewVector p

/-- Struct data that registers something. -/
def RegistersStruct (m : StructDescriptorData) : Prop :=
  ∃ name ps, m.name = some name ∧ m.properties = some ps ∧ r.findStructType name = none ∧
    (r.RegistersVector ps ∨ ps ≠ [] ∧ (∀ p ∈ ps, r.Known p) ∧ r.findType name = none)

/-- Enum data that registers something. -/
def RegistersEnum (m : EnumDescriptorData) : Prop :=
  ∃ name es, m.name = some name ∧ m.elements = some es ∧ r.findType name = none ∧
    ∀ e ∈ es, e.tag ≠ none ∧ e.name ≠ none ∧ e.enumValue ≠ none

/-- Data that registers something when a channel receives it. -/
def Imports {S : Schema} {V : Type} (ch : Channel) : AnyStruct S V → Prop
  | .structDescriptorData m => (∀ name ∈ m.name, name ∉ ch.sharedTypeNames) ∧ r.RegistersStruct m
  | .enumDescriptorData m => (∀ name ∈ m.name, name ∉ ch.sharedTypeNames) ∧ r.RegistersEnum m
  | _ => False

end Registry

namespace DescriptorConverter

variable {r : Registry}

/-- The three outcomes of a property. -/
theorem property_cases (r : Registry) (p : StructPropertyData) :
    (r.Known p ∧ ∃ q, property r p = (r, .ok q)) ∨
    (r.NewVector p ∧ r.Adds (property r p).1 ∧ r.Grows (property r p).1) ∨
    (¬ r.Known p ∧ ¬ r.NewVector p ∧ ∃ what, property r p = (r, .error what)) := by
  cases htype : p.type with
  | none =>
    refine .inr (.inr ⟨?_, ?_, invalidProperty "type", by simp [property, htype]⟩)
    · rintro ⟨⟨typeName, ht, -⟩, -⟩
      simp [htype] at ht
    · rintro ⟨typeName, ht, -⟩
      simp [htype] at ht
  | some typeName =>
    cases hfind : r.findType typeName with
    | some d =>
      have hprop : property r p = (r, readProperty p typeName) := by
        simp [property, htype, propertyType, hfind]
      have hnew : ¬ r.NewVector p := by
        rintro ⟨n, ht, hn, -⟩
        obtain rfl := Option.some.inj (htype.symm.trans ht)
        simp [hfind] at hn
      cases hread : readProperty p typeName with
      | ok q =>
        refine .inl ⟨⟨⟨typeName, htype, by simp [hfind]⟩, ?_⟩, q, by rw [hprop, hread]⟩
        unfold readProperty at hread
        split at hread <;> simp_all
      | error what =>
        refine .inr (.inr ⟨fun hk => ?_, hnew, what, by rw [hprop, hread]⟩)
        obtain ⟨-, hname, htag, hkey⟩ := hk
        unfold readProperty at hread
        split at hread <;> simp_all
    | none =>
      have hknown : ¬ r.Known p := by
        rintro ⟨⟨n, ht, hn⟩, -⟩
        obtain rfl := Option.some.inj (htype.symm.trans ht)
        exact hn hfind
      by_cases hnew : r.NewVector p
      · obtain ⟨n, ht, -, hvec, ⟨d, hd, hkind⟩, hfree⟩ := hnew
        obtain rfl := Option.some.inj (htype.symm.trans ht)
        have hpt : propertyType r typeName =
            r.registerType ("vector<" ++ valueTypeName typeName ++ ">")
              (.vector (valueTypeName typeName)) := by
          simp only [propertyType, hfind, hvec, not_true_eq_false, if_false, hd]
          rcases hkind with ⟨es, rfl⟩ | ⟨f, ps, rfl⟩ <;> rfl
        have hreg : (property r p).1 = (r.registerType
            ("vector<" ++ valueTypeName typeName ++ ">") (.vector (valueTypeName typeName))).1 := by
          simp only [property, htype, hpt]
          split <;> simp_all
        refine .inr (.inl ⟨⟨typeName, htype, hfind, hvec, ⟨d, hd, hkind⟩, hfree⟩, ?_, ?_⟩)
        · rw [hreg]
          exact r.registerType_adds hfree
        · rw [hreg]
          exact r.registerType_grows _ _
      · have hpt : ∃ what, propertyType r typeName = (r, .error what) := by
          simp only [propertyType, hfind]
          by_cases hvec : "vector<".toList <:+: typeName.toList
          swap
          · exact ⟨_, by rw [if_pos hvec]⟩
          rw [if_neg (not_not.mpr hvec)]
          split
          · exact ⟨_, rfl⟩
          · rename_i es hd
            exact ⟨_, r.registerType_of_taken fun hfree =>
              hnew ⟨typeName, htype, hfind, hvec, ⟨_, hd, .inl ⟨es, rfl⟩⟩, hfree⟩⟩
          · rename_i f ps hd
            exact ⟨_, r.registerType_of_taken fun hfree =>
              hnew ⟨typeName, htype, hfind, hvec, ⟨_, hd, .inr ⟨f, ps, rfl⟩⟩, hfree⟩⟩
          · exact ⟨_, rfl⟩
        obtain ⟨what, hpt⟩ := hpt
        exact .inr (.inr ⟨hknown, hnew, what, by simp [property, htype, hpt]⟩)

/-- The rest of the loop keeps what the first property has registered. -/
theorem property_grows_properties (p : StructPropertyData) (ps : List StructPropertyData)
    (h : ∀ r' : Registry, r'.Grows (properties r' ps).1) :
    (property r p).1.Grows (properties r (p :: ps)).1 := by
  unfold properties
  obtain ⟨r', _ | q⟩ := property r p
  · exact fun _ => id
  · have hps := h r'
    simp only
    generalize properties r' ps = rqs at hps
    obtain ⟨r'', _ | qs⟩ := rqs <;> exact hps

theorem properties_grows (ps : List StructPropertyData) : r.Grows (properties r ps).1 := by
  induction ps generalizing r with
  | nil => exact fun _ => id
  | cons p ps ih =>
    have hp : r.Grows (property r p).1 := by
      rcases property_cases r p with ⟨-, q, hp⟩ | ⟨-, -, hp⟩ | ⟨-, -, what, hp⟩
      · rw [hp]; exact fun _ => id
      · exact hp
      · rw [hp]; exact fun _ => id
    exact fun n hn => property_grows_properties p ps (fun _ => ih) n (hp n hn)

theorem registersVector_cons {p : StructPropertyData} {ps : List StructPropertyData} :
    r.RegistersVector (p :: ps) ↔ r.NewVector p ∨ r.Known p ∧ r.RegistersVector ps := by
  constructor
  · rintro ⟨pre, q, post, hps, hpre, hq⟩
    cases pre with
    | nil =>
      obtain ⟨rfl, -⟩ := List.cons.inj hps
      exact .inl hq
    | cons p' pre =>
      obtain ⟨rfl, rfl⟩ := List.cons.inj hps
      exact .inr ⟨hpre p List.mem_cons_self, pre, q, post, rfl,
        fun q' hq' => hpre q' (List.mem_cons_of_mem _ hq'), hq⟩
  · rintro (hp | ⟨hp, pre, q, post, rfl, hpre, hq⟩)
    · exact ⟨[], p, ps, rfl, by simp, hp⟩
    · exact ⟨p :: pre, q, post, rfl, List.forall_mem_cons.mpr ⟨hp, hpre⟩, hq⟩

theorem not_newVector_of_known {p : StructPropertyData} (hk : r.Known p) : ¬ r.NewVector p := by
  rintro ⟨n, ht, hfind, -⟩
  obtain ⟨⟨m, hm, hreg⟩, -⟩ := hk
  exact hreg (Option.some.inj (hm.symm.trans ht) ▸ hfind)

/-- **A vector type** that the loop over the properties registers stays. -/
theorem properties_adds {ps : List StructPropertyData} (h : r.RegistersVector ps) :
    r.Adds (properties r ps).1 := by
  induction ps with
  | nil =>
    obtain ⟨pre, q, post, hps, -⟩ := h
    simp at hps
  | cons p ps ih =>
    have hgrow := property_grows_properties (r := r) p ps fun _ => properties_grows ps
    rcases registersVector_cons.mp h with hnew | ⟨hk, hps⟩
    · rcases property_cases r p with ⟨hk, -⟩ | ⟨-, hadds, -⟩ | ⟨-, hn, -⟩
      · exact absurd hnew (not_newVector_of_known hk)
      · exact hadds.trans hgrow
      · exact absurd hnew hn
    · rcases property_cases r p with ⟨-, q, hp⟩ | ⟨hnew, -⟩ | ⟨hn, -⟩
      · -- the loop goes on with the same registry
        have hrest : (properties r (p :: ps)).1 = (properties r ps).1 := by
          simp only [properties, hp]
          split <;> simp_all
        rw [hrest]
        exact ih hps
      · exact absurd hnew (not_newVector_of_known hk)
      · exact absurd hk hn

/-- **Without a new vector type** the loop leaves the registry as it is; it succeeds exactly if
all properties are known. -/
theorem properties_of_not {ps : List StructPropertyData} (h : ¬ r.RegistersVector ps) :
    (∃ qs, properties r ps = (r, .ok qs)) ∧ (∀ p ∈ ps, r.Known p) ∨
      (∃ what, properties r ps = (r, .error what)) ∧ ¬ ∀ p ∈ ps, r.Known p := by
  induction ps with
  | nil => exact .inl ⟨⟨[], rfl⟩, by simp⟩
  | cons p ps ih =>
    rw [registersVector_cons, not_or] at h
    rcases property_cases r p with ⟨hk, q, hp⟩ | ⟨hnew, -⟩ | ⟨hk, -, what, hp⟩
    · rcases ih fun hps => h.2 ⟨hk, hps⟩ with ⟨⟨qs, hqs⟩, hall⟩ | ⟨⟨what, hps⟩, hall⟩
      · exact .inl ⟨⟨q :: qs, by simp [properties, hp, hqs]⟩, List.forall_mem_cons.mpr ⟨hk, hall⟩⟩
      · exact .inr ⟨⟨what, by simp [properties, hp, hps]⟩,
          fun hk' => hall (List.forall_mem_cons.mp hk').2⟩
    · exact absurd hnew h.1
    · exact .inr ⟨⟨what, by simp [properties, hp]⟩, fun hk' => hk (hk' p List.mem_cons_self)⟩

/-- **Struct data** that registers nothing. -/
theorem structType_eq_self_iff {m : StructDescriptorData} :
    (structType ⟨r⟩ m).1 = r ↔ ¬ r.RegistersStruct m := by
  unfold structType
  cases hname : m.name with
  | none => simp [Registry.RegistersStruct, hname]
  | some name =>
    simp only
    cases hfind : r.findStructType name with
    | some d => simp [Registry.RegistersStruct, hname, hfind]
    | none =>
      cases hps : m.properties with
      | none => simp [Registry.RegistersStruct, hps]
      | some ps =>
        have hreg : r.RegistersStruct m ↔ r.RegistersVector ps ∨
            ps ≠ [] ∧ (∀ q ∈ ps, r.Known q) ∧ r.findType name = none := by
          simp [Registry.RegistersStruct, hname, hps, hfind]
        rw [hreg]
        cases ps with
        | nil =>
          refine iff_of_true rfl ?_
          rintro (⟨pre, q, post, hnil, -⟩ | ⟨hne, -⟩)
          · simp at hnil
          · exact hne rfl
        | cons p ps =>
          simp only [ne_eq, reduceCtorEq, not_false_eq_true, true_and]
          by_cases hv : r.RegistersVector (p :: ps)
          · refine iff_of_false ?_ (not_not.mpr (.inl hv))
            have hadds := properties_adds hv
            generalize properties r (p :: ps) = rqs at hadds
            obtain ⟨r', _ | qs⟩ := rqs
            · exact hadds.ne
            · exact (hadds.trans (r'.registerType_grows _ _)).ne
          · rcases properties_of_not hv with ⟨⟨qs, hqs⟩, hall⟩ | ⟨⟨what, hwhat⟩, hall⟩
            · simp only [hqs, Registry.registerType_eq_self_iff]
              exact not_congr ⟨fun h => .inr ⟨hall, h⟩, fun h => (h.resolve_left hv).2⟩
            · rw [hwhat]
              exact iff_of_true rfl fun h => h.elim hv fun h => hall h.1

/-! ## Enum data -/

theorem read_eq_ok_iff {e : EnumElementDescriptor} :
    (∃ q, e.read = .ok q) ↔ e.tag ≠ none ∧ e.name ≠ none ∧ e.enumValue ≠ none := by
  unfold EnumElementDescriptor.read
  cases e.tag <;> cases e.name <;> cases e.enumValue <;> simp

theorem mapM_eq_ok_iff {α β : Type} {f : α → Except String β} (xs : List α) :
    (∃ ys, xs.mapM f = .ok ys) ↔ ∀ x ∈ xs, ∃ y, f x = .ok y := by
  induction xs with
  | nil => simp [pure, Except.pure]
  | cons x xs ih =>
    rw [List.mapM_cons, List.forall_mem_cons, ← ih]
    cases f x with
    | error e => simp [bind, Except.bind]
    | ok y => cases xs.mapM f <;> simp [bind, Except.bind, pure, Except.pure]

/-- **Enum data** that registers nothing. -/
theorem enumType_eq_self_iff {m : EnumDescriptorData} :
    (enumType ⟨r⟩ m).1 = r ↔ ¬ r.RegistersEnum m := by
  unfold enumType
  cases hname : m.name with
  | none => simp [Registry.RegistersEnum, hname]
  | some name =>
    simp only
    cases hfind : r.findEnumType name with
    | some d =>
      have hne : r.findType name ≠ none := fun h => by
        simp [r.findEnumType_eq_none h] at hfind
      simp [Registry.RegistersEnum, hname, hne]
    | none =>
      cases hes : m.elements with
      | none => simp [Registry.RegistersEnum, hes]
      | some es =>
        have hread := mapM_eq_ok_iff (f := EnumElementDescriptor.read) es
        simp only [read_eq_ok_iff] at hread
        have hreg : r.RegistersEnum m ↔ r.findType name = none ∧
            ∀ e ∈ es, e.tag ≠ none ∧ e.name ≠ none ∧ e.enumValue ≠ none := by
          simp [Registry.RegistersEnum, hname, hes]
        rw [hreg]
        simp only
        cases hm : es.mapM EnumElementDescriptor.read with
        | error what =>
          refine iff_of_true rfl fun h => ?_
          obtain ⟨ys, hys⟩ := hread.mpr h.2
          rw [hm] at hys
          cases hys
        | ok ys =>
          have hall := hread.mp ⟨ys, hm⟩
          simp only [Registry.registerType_eq_self_iff]
          exact not_congr ⟨fun h => ⟨h, hall⟩, fun h => h.1⟩

end DescriptorConverter

/-- **What a channel imports.** -/
theorem Channel.importDependencies_eq_self_iff {S : Schema} {V : Type} (ch : Channel)
    (r : Registry) (x : AnyStruct S V) :
    (ch.importDependencies r x).2.1 = r ↔ ¬ r.Imports ch x := by
  cases x with
  | structDescriptorData m =>
    simp only [importDependencies]
    cases hname : m.name with
    | none =>
      refine iff_of_true rfl fun h => ?_
      obtain ⟨name, ps, hn, -⟩ := h.2
      simp [hname] at hn
    | some name =>
      simp only
      split_ifs with hmem
      · simp [Registry.Imports, hname, hmem]
      · simp only [DescriptorConverter.structType_eq_self_iff]
        simp [Registry.Imports, hname, hmem]
  | enumDescriptorData m =>
    simp only [importDependencies]
    cases hname : m.name with
    | none =>
      refine iff_of_true rfl fun h => ?_
      obtain ⟨name, ps, hn, -⟩ := h.2
      simp [hname] at hn
    | some name =>
      simp only
      split_ifs with hmem
      · simp [Registry.Imports, hname, hmem]
      · simp only [DescriptorConverter.enumType_eq_self_iff]
        simp [Registry.Imports, hname, hmem]
  | _ => exact iff_of_true rfl id

/-! ## What stays registered -/

/-- Every type stays registered as what it is. -/
def Registry.Extends (r r' : Registry) : Prop :=
  ∀ name d, r.findType name = some d → r'.findType name = some d

theorem Registry.Extends.findStructType {r r' : Registry} (h : r.Extends r') {name : String}
    (hn : r'.findStructType name = none) : r.findStructType name = none := by
  unfold Registry.findStructType at hn ⊢
  split
  · rename_i f ps he
    rw [h name _ he] at hn
    cases hn
  · rfl

theorem Registry.registerType_extends (r : Registry) (name : String) (d : Descriptor) :
    r.Extends (r.registerType name d).1 := by
  intro n e he
  unfold Registry.registerType
  split
  · exact he
  · rename_i hnone
    have hne : n ≠ name := by
      rintro rfl
      rw [hnone] at he
      cases he
    exact (Function.update_of_ne hne (some d) r.types).trans he

namespace DescriptorConverter

theorem propertyType_extends (r : Registry) (typeName : String) :
    r.Extends (propertyType r typeName).1 := by
  have hrefl : r.Extends r := fun _ _ => id
  unfold propertyType
  split
  · exact hrefl
  · split_ifs
    · split
      · exact hrefl
      · exact r.registerType_extends _ _
      · exact r.registerType_extends _ _
      · exact hrefl
    · exact hrefl

theorem properties_extends (r : Registry) (ps : List StructPropertyData) :
    r.Extends (properties r ps).1 := by
  induction ps generalizing r with
  | nil => exact fun _ _ => id
  | cons p ps ih =>
    have hp : r.Extends (property r p).1 := by
      unfold property
      split
      · exact fun _ _ => id
      · rename_i typeName _
        have ht := propertyType_extends r typeName
        generalize propertyType r typeName = re at ht
        obtain ⟨r', _ | u⟩ := re <;> exact ht
    unfold properties
    generalize property r p = re at hp
    obtain ⟨r', _ | q⟩ := re
    · exact hp
    · have hps := ih r'
      simp only
      generalize properties r' ps = rqs at hps
      obtain ⟨r'', _ | qs⟩ := rqs <;> exact fun n d hd => hps n d (hp n d hd)

theorem structType_extends (c : DescriptorConverter) (m : StructDescriptorData) :
    c.registry.Extends (c.structType m).1 := by
  unfold structType
  split
  · exact fun _ _ => id
  split
  · exact fun _ _ => id
  · exact fun _ _ => id
  · exact fun _ _ => id
  · rename_i ps _ _ _
    have hps := properties_extends c.registry ps
    generalize properties c.registry ps = re at hps
    obtain ⟨r, _ | qs⟩ := re
    · exact hps
    · exact fun n d hd => r.registerType_extends _ _ n d (hps n d hd)

theorem enumType_extends (c : DescriptorConverter) (m : EnumDescriptorData) :
    c.registry.Extends (c.enumType m).1 := by
  unfold enumType
  split
  · exact fun _ _ => id
  split
  · exact fun _ _ => id
  · exact fun _ _ => id
  · split
    · exact fun _ _ => id
    · exact c.registry.registerType_extends _ _

end DescriptorConverter

/-- **An import** keeps what is registered. -/
theorem Channel.importDependencies_extends {S : Schema} {V : Type} (ch : Channel) (r : Registry)
    (x : AnyStruct S V) : r.Extends (ch.importDependencies r x).2.1 := by
  unfold Channel.importDependencies
  split
  · split
    · exact fun _ _ => id
    · split_ifs
      · exact fun _ _ => id
      · exact DescriptorConverter.structType_extends ⟨r⟩ _
  · split
    · exact fun _ _ => id
    · split_ifs
      · exact fun _ _ => id
      · exact DescriptorConverter.enumType_extends ⟨r⟩ _
  · exact fun _ _ => id

end Dots

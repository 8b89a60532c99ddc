import Mathlib.Data.Finset.Insert
import Dots.Type.Registration
import Dots.Type.Registry

/-!
# The export of types

A channel transmits the types that an instance is made of before the instance, each of them once.

* `Description`, `TypeObjects`: the descriptors of a program as objects, and what they say.
* `DescriptorConverter.enumData`, `DescriptorConverter.structData`: what is transmitted of a type.
* `TypeChannel`: what a `Channel` shares with its peer and what it has transmitted;
  `exportDependencies`, `transmit`, `transmitDescriptor`, `transmitTransmission`.
* `Ready`, `Ordered`: a peer that was told of some types can make use of others.
* **`exports_exportDependencies`**: what an export transmits.
* **`exports_run`**: what a channel transmits in a run.
-/

set_option autoImplicit false

namespace Dots

variable {D : Type}

/-! ## Descriptors as objects -/

/-- The flags of a `StructDescriptor`. -/
structure StructFlags where
  cached : Bool := false
  internal : Bool := false
  persistent : Bool := false
  cleanup : Bool := false
  local_ : Bool := false
  substructOnly : Bool := false
  deriving DecidableEq

def StructFlags.data (f : StructFlags) : DotsStructFlags where
  cached := some f.cached
  internal := some f.internal
  persistent := some f.persistent
  cleanup := some f.cleanup
  local_ := some f.local_
  substructOnly := some f.substructOnly

/-- `PropertyDescriptor`. -/
structure ObjectProperty (D : Type) where
  valueDescriptor : D
  name : String
  tag : ℕ
  isKey : Bool

/-- What a descriptor says, by the kind of type it describes. -/
inductive Description (D : Type)
  | fundamental
  | vector (valueDescriptor : D)
  | enum (enumerators : List (ℕ × String × ℤ))
  | struct (flags : StructFlags) (properties : List (ObjectProperty D))

/-- The underlying type of every enum is `int32_t`. -/
def Description.kind (int32 : D) : Description D → TypeKind D
  | .fundamental => .fundamental
  | .vector e => .vector e
  | .enum _ => .enum int32
  | .struct flags ps => .struct flags.internal (ps.map ObjectProperty.valueDescriptor)

/-- The descriptors of a program, which are told apart as objects, and not by their names. -/
structure TypeObjects (D : Type) where
  name : D → String
  description : D → Description D
  int32 : D
  enumDescriptorData : D
  structDescriptorData : D
  constructed : D → ℕ
  constructed_lt (d : D) :
    ∀ e ∈ ((description d).kind int32).dependencies, constructed e < constructed d
  int32_fundamental : description int32 = .fundamental
  name_vector {d e : D} : description d = .vector e → name d = "vector<" ++ name e ++ ">"
  enum_internal : ∃ flags ps, description enumDescriptorData = .struct flags ps ∧
    flags.internal = true
  struct_internal : ∃ flags ps, description structDescriptorData = .struct flags ps ∧
    flags.internal = true

namespace TypeObjects

variable (o : TypeObjects D)

def graph : TypeGraph D where
  name := o.name
  kind d := (o.description d).kind o.int32
  constructed := o.constructed
  constructed_lt := o.constructed_lt
  kind_underlying {d e} h := by
    have he : o.int32 = e := by
      cases hd : o.description d with
      | enum _ => simpa [hd, Description.kind] using h
      | _ => simp [hd, Description.kind] at h
    rw [← he, o.int32_fundamental]
    rfl

def dependencies (d : D) : List D := o.graph.dependencies d

theorem dependencies_eq (d : D) :
    o.dependencies d = ((o.description d).kind o.int32).dependencies := rfl

theorem constructed_lt_of_mem {d e : D} (h : e ∈ o.dependencies d) :
    o.constructed e < o.constructed d := o.constructed_lt d e h

/-- The types whose descriptors are transmitted. -/
def Exported (d : D) : Prop :=
  (∃ enumerators, o.description d = .enum enumerators) ∨
    ∃ flags ps, o.description d = .struct flags ps ∧ flags.internal = false

end TypeObjects

/-! ## Converting descriptors -/

namespace DescriptorConverter

/-- `DescriptorConverter(EnumDescriptor)`. -/
def enumData (name : String) (enumerators : List (ℕ × String × ℤ)) : EnumDescriptorData where
  name := some name
  elements := some (enumerators.map fun e =>
    { enumValue := some e.2.2, name := some e.2.1, tag := some e.1 })

/-- `DescriptorConverter(StructDescriptor)`. -/
def structData (o : TypeObjects D) (name : String) (flags : StructFlags)
    (ps : List (ObjectProperty D)) : StructDescriptorData where
  name := some name
  flags := some flags.data
  properties := some (ps.map fun p =>
    { name := some p.name, tag := some p.tag, isKey := some p.isKey
      type := some (o.name p.valueDescriptor) })

end DescriptorConverter

/-- What a message says about types: it is descriptor data, or an instance of another type. -/
inductive ChannelMessage
  | enumDescriptorData (m : EnumDescriptorData)
  | structDescriptorData (m : StructDescriptorData)
  | other (typeName : String)
  deriving DecidableEq

/-- A message with where it comes from: the descriptor of a type that the channel exports, an
instance of a type, or a transmission that was received from elsewhere, with the type that it is
about if it is descriptor data. -/
inductive Outgoing (D : Type)
  | dependency (d : D)
  | payload (d : D)
  | forwarded (embedded : Option D) (m : ChannelMessage)

def Outgoing.message (o : TypeObjects D) : Outgoing D → ChannelMessage
  | .dependency d =>
    match o.description d with
    | .enum enumerators =>
      .enumDescriptorData (DescriptorConverter.enumData (o.name d) enumerators)
    | .struct flags ps =>
      .structDescriptorData (DescriptorConverter.structData o (o.name d) flags ps)
    | _ => .other (o.name d)
  | .payload d => .other (o.name d)
  | .forwarded _ m => m

/-- The types that were exported. -/
def exported : List (Outgoing D) → List D
  | [] => []
  | .dependency d :: ms => d :: exported ms
  | _ :: ms => exported ms

theorem exported_append (ms ms' : List (Outgoing D)) :
    exported (ms ++ ms') = exported ms ++ exported ms' := by
  induction ms with
  | nil => rfl
  | cons m ms ih => cases m <;> simp [exported, ih]

theorem exported_map_dependency (ds : List D) : exported (ds.map .dependency) = ds := by
  induction ds with
  | nil => rfl
  | cons d ds ih => rw [List.map_cons, exported, ih]

/-! ## The channel -/

/-- What a `Channel` keeps for the types, and what `transmitImpl` was called with. -/
structure TypeChannel (D : Type) where
  sharedTypeNames : Finset String := ∅
  sharedTypeDescriptors : Finset D := ∅
  transmitted : List (Outgoing D) := []

namespace TypeChannel

variable [DecidableEq D] (o : TypeObjects D)

def share (d : D) (c : TypeChannel D) : TypeChannel D :=
  { c with sharedTypeDescriptors := insert d c.sharedTypeDescriptors }

def transmitImpl (m : Outgoing D) (c : TypeChannel D) : TypeChannel D :=
  { c with transmitted := c.transmitted ++ [m] }

/-- `transmit` of a converted descriptor, whose own type is `EnumDescriptorData` or
`StructDescriptorData`. -/
def transmitData (type d : D) (c : TypeChannel D) : TypeChannel D :=
  (c.share type).transmitImpl (.dependency d)

/-- `exportDependencies(const type::Descriptor<>&)`. -/
def exportDependencies (d : D) (c : TypeChannel D) : TypeChannel D :=
  if d ∈ c.sharedTypeDescriptors then c
  else
    let c := c.share d
    match _h : o.description d with
    | .fundamental => c
    | .vector e => exportDependencies e c
    | .enum _ => (exportDependencies o.int32 c).transmitData o.enumDescriptorData d
    | .struct flags ps =>
      if flags.internal then c
      else
        (ps.attach.foldl (fun c p => exportDependencies p.1.valueDescriptor c) c).transmitData
          o.structDescriptorData d
termination_by o.constructed d
decreasing_by
  · exact o.constructed_lt d e (by rw [_h]; exact List.mem_singleton_self e)
  · exact o.constructed_lt d o.int32 (by rw [_h]; exact List.mem_singleton_self o.int32)
  · exact o.constructed_lt d _ (by rw [_h]; exact List.mem_map_of_mem p.2)

/-- `transmit(const DotsHeader&, const type::Struct&)` of an instance of a type. -/
def transmit (d : D) (c : TypeChannel D) : TypeChannel D :=
  (exportDependencies o d c).transmitImpl (.payload d)

/-- `transmit(const type::Descriptor<>&)`. -/
def transmitDescriptor (d : D) (c : TypeChannel D) : TypeChannel D := exportDependencies o d c

end TypeChannel

/-- `Registry::findEnumType`. -/
def TypeRegistry.findEnumType (o : TypeObjects D) (r : TypeRegistry D) (name : String) : Option D :=
  (r.findType name).filter fun d => match o.description d with
    | .enum _ => true
    | _ => false

/-- `Registry::findStructType`. -/
def TypeRegistry.findStructType (o : TypeObjects D) (r : TypeRegistry D) (name : String) :
    Option D :=
  (r.findType name).filter fun d => match o.description d with
    | .struct _ _ => true
    | _ => false

namespace TypeChannel

variable [DecidableEq D] (o : TypeObjects D)

/-- The type that descriptor data is about, if it is registered. -/
def embeddedDescriptor (r : TypeRegistry D) : ChannelMessage → Except String (Option D)
  | .structDescriptorData m =>
    match m.name with
    | none => .error (invalidProperty "name")
    | some name => .ok (r.findStructType o name)
  | .enumDescriptorData m =>
    match m.name with
    | none => .error (invalidProperty "name")
    | some name => .ok (r.findEnumType o name)
  | .other _ => .ok none

/-- `transmit(const Transmission&)`, with `exportDependencies(const type::Struct&)`. -/
def transmitTransmission (r : TypeRegistry D) (m : ChannelMessage) (c : TypeChannel D) :
    Except String (TypeChannel D) := do
  let embedded ← embeddedDescriptor o r m
  let c := embedded.elim c fun d => exportDependencies o d c
  return c.transmitImpl (.forwarded embedded m)

/-- The end of `importDependencies`: a type that was received is shared from now on. -/
def shareReceived (name : String) (d : D) (c : TypeChannel D) : TypeChannel D :=
  { c with
    sharedTypeNames := insert name c.sharedTypeNames
    sharedTypeDescriptors := insert d c.sharedTypeDescriptors }

end TypeChannel

/-! ## What a peer can make use of -/

namespace TypeObjects

variable (o : TypeObjects D)

/-- A peer that was told of some types has what belongs to a descriptor: fundamental and internal
types are in every program, and a vector comes with the type of its values. -/
inductive Ready (told : D → Prop) : D → Prop
  | told {d : D} : told d → Ready told d
  | fundamental {d : D} : o.description d = .fundamental → Ready told d
  | internal {d : D} {flags : StructFlags} {ps : List (ObjectProperty D)} :
      o.description d = .struct flags ps → flags.internal = true → Ready told d
  | vector {d e : D} : o.description d = .vector e → Ready told e → Ready told d

variable {o} {told told' : D → Prop}

theorem Ready.mono {d : D} (hd : o.Ready told d) (h : ∀ e, told e → told' e) :
    o.Ready told' d := by
  induction hd with
  | told hd => exact .told (h _ hd)
  | fundamental hd => exact .fundamental hd
  | internal hd hflags => exact .internal hd hflags
  | vector hd _ ih => exact .vector hd ih

variable (o)

/-- A message that a peer can make use of when it was told of some types. -/
def Follows (told : D → Prop) : Outgoing D → Prop
  | .dependency d => o.Exported d ∧ ∀ e ∈ o.dependencies d, o.Ready told e
  | .payload d => o.Ready told d
  | .forwarded embedded _ => ∀ d ∈ embedded, o.Ready told d

/-- Each message can be made use of when it arrives. -/
def Ordered (told : D → Prop) : List (Outgoing D) → Prop
  | [] => True
  | m :: ms => o.Follows told m ∧ Ordered (fun d => told d ∨ d ∈ exported [m]) ms

variable {o}

theorem Follows.mono {m : Outgoing D} (hm : o.Follows told m) (h : ∀ e, told e → told' e) :
    o.Follows told' m := by
  cases m with
  | dependency d => exact ⟨hm.1, fun e he => (hm.2 e he).mono h⟩
  | payload d => exact Ready.mono hm h
  | forwarded embedded m => exact fun d hd => (hm d hd).mono h

theorem Ordered.mono {ms : List (Outgoing D)} (hms : o.Ordered told ms)
    (h : ∀ e, told e → told' e) : o.Ordered told' ms := by
  induction ms generalizing told told' with
  | nil => trivial
  | cons m ms ih => exact ⟨hms.1.mono h, ih hms.2 fun e he => he.imp_left (h e)⟩

theorem ordered_append {ms ms' : List (Outgoing D)} : o.Ordered told (ms ++ ms') ↔
    o.Ordered told ms ∧ o.Ordered (fun d => told d ∨ d ∈ exported ms) ms' := by
  induction ms generalizing told with
  | nil => simp [Ordered, exported]
  | cons m ms ih =>
    have hexported (d : D) :
        ((told d ∨ d ∈ exported [m]) ∨ d ∈ exported ms) ↔ told d ∨ d ∈ exported (m :: ms) := by
      rw [or_assoc, ← List.mem_append, ← exported_append]
      rfl
    rw [List.cons_append, Ordered, Ordered, ih, and_assoc]
    simp only [hexported]

end TypeObjects

/-! ## Exports -/

namespace TypeChannel

variable [DecidableEq D] {o : TypeObjects D} {told : D → Prop} {c c' c'' : TypeChannel D}
  {ds ds' : List D} {d : D}

/-- An export of the descriptors `ds`: each of them is new to the channel and comes after what it
depends on, and of all that is shared now the peer has what belongs to it. The descriptors are
among those of a set `W`. -/
structure Exports (o : TypeObjects D) (told W : D → Prop) (c c' : TypeChannel D) (ds : List D) :
    Prop where
  transmitted : c'.transmitted = c.transmitted ++ ds.map .dependency
  sharedTypeNames : c'.sharedTypeNames = c.sharedTypeNames
  keeps : c.sharedTypeDescriptors ⊆ c'.sharedTypeDescriptors
  nodup : ds.Nodup
  fresh : ∀ e ∈ ds, e ∉ c.sharedTypeDescriptors ∧ e ∈ c'.sharedTypeDescriptors
  within : ∀ e ∈ ds, W e
  ready : ∀ e ∈ c'.sharedTypeDescriptors, e ∉ c.sharedTypeDescriptors →
    o.Ready (fun f => told f ∨ f ∈ ds) e
  ordered : o.Ordered told (ds.map .dependency)

variable {W : D → Prop}

omit [DecidableEq D] in
theorem Exports.refl (c : TypeChannel D) : Exports o told W c c [] where
  transmitted := (List.append_nil _).symm
  sharedTypeNames := rfl
  keeps := Finset.Subset.refl _
  nodup := List.nodup_nil
  fresh := nofun
  within := nofun
  ready _ he hnot := absurd he hnot
  ordered := trivial

theorem Exports.trans (h : Exports o told W c c' ds)
    (h' : Exports o (fun f => told f ∨ f ∈ ds) W c' c'' ds') :
    Exports o told W c c'' (ds ++ ds') where
  transmitted := by
    rw [h'.transmitted, h.transmitted, List.map_append, List.append_assoc]
  sharedTypeNames := h'.sharedTypeNames.trans h.sharedTypeNames
  keeps := h.keeps.trans h'.keeps
  nodup := List.nodup_append.mpr ⟨h.nodup, h'.nodup, fun e he f hf heq =>
    (h'.fresh f hf).1 (heq ▸ (h.fresh e he).2)⟩
  fresh e he := by
    rcases List.mem_append.mp he with he | he
    · exact ⟨(h.fresh e he).1, h'.keeps (h.fresh e he).2⟩
    · exact ⟨fun hold => (h'.fresh e he).1 (h.keeps hold), (h'.fresh e he).2⟩
  within e he := (List.mem_append.mp he).elim (h.within e) (h'.within e)
  ready e he hnot := by
    by_cases hmid : e ∈ c'.sharedTypeDescriptors
    · refine (h.ready e hmid hnot).mono fun f hf => hf.imp_right fun hf => ?_
      exact List.mem_append_left ds' hf
    · refine (h'.ready e he hmid).mono fun f hf => ?_
      rw [List.mem_append, ← or_assoc]
      exact hf
  ordered := by
    rw [List.map_append, TypeObjects.ordered_append, exported_map_dependency]
    exact ⟨h.ordered, h'.ordered⟩

/-- What is shared and was constructed before a number of others. -/
def ReadyBelow (o : TypeObjects D) (told : D → Prop) (c : TypeChannel D) (k : ℕ) : Prop :=
  ∀ e ∈ c.sharedTypeDescriptors, o.constructed e < k → o.Ready told e

theorem ReadyBelow.exports {k : ℕ} (hc : ReadyBelow o told c k) (h : Exports o told W c c' ds) :
    ReadyBelow o (fun f => told f ∨ f ∈ ds) c' k := by
  intro e he hlt
  by_cases hold : e ∈ c.sharedTypeDescriptors
  · exact (hc e hold hlt).mono fun _ => .inl
  · exact h.ready e he hold

/-- An export that ends with the descriptors it was asked for. -/
def ExportsAll (o : TypeObjects D) (told W : D → Prop) (c c' : TypeChannel D) (ds es : List D) :
    Prop :=
  Exports o told W c c' ds ∧ ∀ e ∈ es, o.Ready (fun f => told f ∨ f ∈ ds) e

/-- The descriptors that another one depends on are exported one after the other. -/
theorem exports_foldl {α : Type} {f : α → TypeChannel D → TypeChannel D} {value : α → D} {k : ℕ}
    (as : List α)
    (hstep : ∀ a ∈ as, ∀ (told : D → Prop) (c : TypeChannel D), ReadyBelow o told c k →
      ∃ ds, ExportsAll o told W c (f a c) ds [value a]) :
    ∀ (told : D → Prop) (c : TypeChannel D), ReadyBelow o told c k →
      ∃ ds, ExportsAll o told W c (as.foldl (fun c a => f a c) c) ds (as.map value) := by
  induction as with
  | nil => exact fun told c _ => ⟨[], .refl c, nofun⟩
  | cons a as ih =>
    intro told c hc
    obtain ⟨ds, h, hready⟩ := hstep a List.mem_cons_self told c hc
    obtain ⟨ds', h', hready'⟩ := ih (fun b hb => hstep b (List.mem_cons_of_mem a hb)) _ _
      (hc.exports h)
    refine ⟨ds ++ ds', h.trans h', fun e he => ?_⟩
    rcases List.mem_cons.mp he with rfl | he
    · refine (hready _ (List.mem_singleton_self _)).mono fun f hf => hf.imp_right fun hf => ?_
      exact List.mem_append_left ds' hf
    · refine (hready' e he).mono fun f hf => ?_
      rw [List.mem_append, ← or_assoc]
      exact hf

/-- A descriptor is transmitted when what it depends on was exported. -/
theorem ExportsAll.transmitData {type : D} (h : ExportsAll o told W (c.share d) c' ds (o.dependencies d))
    (hnew : d ∉ c.sharedTypeDescriptors) (hW : W d) (hd : o.Exported d)
    (htype : o.Ready (fun f => told f ∨ f ∈ ds ++ [d]) type) :
    Exports o told W c (c'.transmitData type d) (ds ++ [d]) where
  transmitted := by
    rw [List.map_append, ← List.append_assoc]
    exact congrArg (· ++ [_]) h.1.transmitted
  sharedTypeNames := h.1.sharedTypeNames
  keeps := (Finset.subset_insert d _).trans (h.1.keeps.trans (Finset.subset_insert type _))
  nodup := List.nodup_append.mpr ⟨h.1.nodup, List.nodup_singleton d, fun e he f hf heq => by
    rw [heq, List.mem_singleton.mp hf] at he
    exact (h.1.fresh d he).1 (Finset.mem_insert_self d _)⟩
  fresh e he := by
    rcases List.mem_append.mp he with he | he
    · exact ⟨fun hold => (h.1.fresh e he).1 (Finset.mem_insert_of_mem hold),
        Finset.mem_insert_of_mem (h.1.fresh e he).2⟩
    · rw [List.mem_singleton.mp he]
      exact ⟨hnew, Finset.mem_insert_of_mem (h.1.keeps (Finset.mem_insert_self d _))⟩
  within e he := by
    rcases List.mem_append.mp he with he | he
    · exact h.1.within e he
    · rw [List.mem_singleton.mp he]
      exact hW
  ready e he hnot := by
    rcases Finset.mem_insert.mp he with rfl | he
    · exact htype
    · by_cases heq : e = d
      · rw [heq]
        exact .told (.inr (List.mem_append_right ds (List.mem_singleton_self d)))
      · have hnot' : e ∉ (c.share d).sharedTypeDescriptors := by
          rw [share, Finset.mem_insert, not_or]
          exact ⟨heq, hnot⟩
        refine (h.1.ready e he hnot').mono fun f hf => hf.imp_right fun hf => ?_
        exact List.mem_append_left [d] hf
  ordered := by
    rw [List.map_append, TypeObjects.ordered_append, exported_map_dependency]
    exact ⟨h.1.ordered, ⟨hd, h.2⟩, trivial⟩

theorem exportDependencies_of_mem (h : d ∈ c.sharedTypeDescriptors) :
    exportDependencies o d c = c := by
  rw [exportDependencies, if_pos h]

/-- **An export** transmits what is new among the types that a descriptor is made of, each of them
once and after those that it depends on. -/
theorem exports_exportDependencies (hW : ∀ d, W d → ∀ e ∈ o.dependencies d, W e) (d : D)
    (hd : W d) (told : D → Prop) (c : TypeChannel D)
    (hc : ReadyBelow o told c (o.constructed d + 1)) :
    ∃ ds, ExportsAll o told W c (exportDependencies o d c) ds [d] := by
  by_cases hmem : d ∈ c.sharedTypeDescriptors
  · rw [exportDependencies_of_mem hmem]
    refine ⟨[], .refl c, fun e he => ?_⟩
    rw [List.mem_singleton.mp he]
    exact (hc d hmem (Nat.lt_succ_self _)).mono fun _ => .inl
  -- nothing that is constructed before `d` depends on it
  have hbelow {e : D} (he : e ∈ o.dependencies d) :
      ReadyBelow o told (c.share d) (o.constructed e + 1) := by
    intro f hf hlt
    have hltd := o.constructed_lt_of_mem he
    rcases Finset.mem_insert.mp hf with rfl | hf
    · omega
    · exact hc f hf (by omega)
  have hnew {c' : TypeChannel D} {ds : List D} {type : D} (hexported : o.Exported d)
      (htype : ∃ flags ps, o.description type = .struct flags ps ∧ flags.internal = true)
      (h : ExportsAll o told W (c.share d) c' ds (o.dependencies d)) :
      ExportsAll o told W c (c'.transmitData type d) (ds ++ [d]) [d] := by
    obtain ⟨flags, ps, hstruct, hinternal⟩ := htype
    refine ⟨h.transmitData hmem hd hexported (.internal hstruct hinternal), fun e he => ?_⟩
    rw [List.mem_singleton.mp he]
    exact .told (.inr (List.mem_append_right ds (List.mem_singleton_self d)))
  -- a descriptor that is not transmitted itself
  have hplain {c' : TypeChannel D} {ds : List D}
      (h : Exports o told W (c.share d) c' ds) (hready : o.Ready (fun f => told f ∨ f ∈ ds) d) :
      ExportsAll o told W c c' ds [d] := by
    refine ⟨{ h with
      keeps := (Finset.subset_insert d _).trans h.keeps
      fresh := fun e he => ⟨fun hold => (h.fresh e he).1 (Finset.mem_insert_of_mem hold),
        (h.fresh e he).2⟩
      ready := fun e he hnot => ?_ }, fun e he => ?_⟩
    · by_cases heq : e = d
      · rw [heq]
        exact hready
      · refine h.ready e he ?_
        rw [share, Finset.mem_insert, not_or]
        exact ⟨heq, hnot⟩
    · rw [List.mem_singleton.mp he]
      exact hready
  rw [exportDependencies, if_neg hmem]
  split
  · rename_i hdescription
    exact ⟨[], hplain (.refl _) (.fundamental hdescription)⟩
  · rename_i e hdescription
    have he : e ∈ o.dependencies d := by
      rw [o.dependencies_eq, hdescription]
      exact List.mem_singleton_self e
    obtain ⟨ds, h, hready⟩ := exports_exportDependencies hW e (hW d hd e he) told (c.share d)
      (hbelow he)
    exact ⟨ds, hplain h (.vector hdescription (hready e (List.mem_singleton_self e)))⟩
  · rename_i enumerators hdescription
    have hdependencies : o.dependencies d = [o.int32] := by
      rw [o.dependencies_eq, hdescription]
      rfl
    have he : o.int32 ∈ o.dependencies d := by
      rw [hdependencies]
      exact List.mem_singleton_self o.int32
    obtain ⟨ds, h⟩ := exports_exportDependencies hW o.int32 (hW d hd _ he) told (c.share d)
      (hbelow he)
    rw [← hdependencies] at h
    exact ⟨_, hnew (.inl ⟨enumerators, hdescription⟩) o.enum_internal h⟩
  · rename_i flags ps hdescription
    split_ifs with hinternal
    · exact ⟨[], hplain (.refl _) (.internal hdescription hinternal)⟩
    · have hdependencies : o.dependencies d = ps.map ObjectProperty.valueDescriptor := by
        rw [o.dependencies_eq, hdescription]
        rfl
      have hexported : o.Exported d :=
        .inr ⟨flags, ps, hdescription, Bool.eq_false_iff.mpr hinternal⟩
      have hfold (c : TypeChannel D) :
          ps.attach.foldl (fun c p => exportDependencies o p.1.valueDescriptor c) c =
            ps.foldl (fun c p => exportDependencies o p.valueDescriptor c) c := by
        simp only [List.foldl_subtype, List.unattach_attach]
      have hmem' (p : ObjectProperty D) (hp : p ∈ ps) : p.valueDescriptor ∈ o.dependencies d := by
        rw [hdependencies]
        exact List.mem_map_of_mem hp
      obtain ⟨ds, h⟩ := exports_foldl (k := o.constructed d) (W := W) ps (fun p hp told c hc =>
        exports_exportDependencies hW p.valueDescriptor (hW d hd _ (hmem' p hp)) told c
          fun e he hlt => hc e he (by have := o.constructed_lt_of_mem (hmem' p hp); omega))
        told (c.share d) fun e he hlt => by
          rcases Finset.mem_insert.mp he with rfl | he
          · omega
          · exact hc e he (by omega)
      rw [← hdependencies, ← hfold] at h
      exact ⟨_, hnew hexported o.struct_internal h⟩
termination_by o.constructed d
decreasing_by
  all_goals first | exact o.constructed_lt_of_mem he | exact o.constructed_lt_of_mem (hmem' p hp)

/-! ## Runs -/

/-- What a channel is used for: the three ways of transmitting, the last one with the registry at
that time, and the reception of descriptor data, with the descriptor that its conversion gives if it
does not throw. -/
inductive Act (D : Type)
  | transmit (d : D)
  | transmitDescriptor (d : D)
  | transmitTransmission (r : TypeRegistry D) (m : ChannelMessage)
  | receive (name : String) (d : Option D)

variable (o) in
def act (c : TypeChannel D) : Act D → TypeChannel D
  | .transmit d => c.transmit o d
  | .transmitDescriptor d => c.transmitDescriptor o d
  | .transmitTransmission r m =>
    match c.transmitTransmission o r m with
    | .ok c => c
    | .error _ => c
  | .receive name d =>
    if name ∈ c.sharedTypeNames then c
    else
      match d with
      | some d => c.shareReceived name d
      | none => { c with sharedTypeNames := insert name c.sharedTypeNames }

variable (o) in
def run (acts : List (Act D)) : TypeChannel D := acts.foldl (act o) {}

/-- The types that a peer was told of, or that it has told of. -/
def Told (acts : List (Act D)) (c : TypeChannel D) (d : D) : Prop :=
  d ∈ exported c.transmitted ∨ ∃ name, .receive name (some d) ∈ acts

/-- What holds of a channel in a run. -/
structure Sharing (o : TypeObjects D) (acts : List (Act D)) (c : TypeChannel D) : Prop where
  nodup : (exported c.transmitted).Nodup
  shared : ∀ d ∈ exported c.transmitted, d ∈ c.sharedTypeDescriptors
  ready : ∀ d ∈ c.sharedTypeDescriptors, o.Ready (Told acts c) d

/-- A step of a channel: what it transmits is new, in order, and sent once. -/
structure Transmits (o : TypeObjects D) (acts : List (Act D)) (c c' : TypeChannel D) : Prop where
  sharing : Sharing o acts c'
  ordered : ∃ ms, c'.transmitted = c.transmitted ++ ms ∧ o.Ordered (Told acts c) ms

variable {acts : List (Act D)}

theorem Sharing.exports (h : Sharing o acts c) (hW : ∀ d, W d → ∀ e ∈ o.dependencies d, W e)
    (hd : W d) : Transmits o acts c (exportDependencies o d c) ∧
      o.Ready (Told acts (exportDependencies o d c)) d := by
  obtain ⟨ds, hexports, hready⟩ := exports_exportDependencies hW d hd (Told acts c) c
    fun e he _ => h.ready e he
  have hexported : exported (exportDependencies o d c).transmitted = exported c.transmitted ++ ds := by
    rw [hexports.transmitted, exported_append, exported_map_dependency]
  have htold (e : D) : (Told acts c e ∨ e ∈ ds) → Told acts (exportDependencies o d c) e := by
    rw [Told, Told, hexported, List.mem_append]
    tauto
  refine ⟨⟨⟨?_, fun e he => ?_, fun e he => ?_⟩, _, hexports.transmitted, hexports.ordered⟩,
    (hready d (List.mem_singleton_self d)).mono htold⟩
  · rw [hexported, List.nodup_append]
    exact ⟨h.nodup, hexports.nodup, fun e he f hf heq =>
      (hexports.fresh f hf).1 (heq ▸ h.shared e he)⟩
  · rw [hexported] at he
    rcases List.mem_append.mp he with he | he
    · exact hexports.keeps (h.shared e he)
    · exact (hexports.fresh e he).2
  · by_cases hold : e ∈ c.sharedTypeDescriptors
    · exact (h.ready e hold).mono fun f hf => htold f (.inl hf)
    · exact (hexports.ready e he hold).mono htold

omit [DecidableEq D] in
/-- A message that exports nothing. -/
theorem Transmits.transmitImpl (h : Transmits o acts c c') {m : Outgoing D}
    (hm : o.Follows (Told acts c') m) (hnone : exported [m] = []) :
    Transmits o acts c (c'.transmitImpl m) := by
  obtain ⟨⟨hnodup, hshared, hready⟩, ms, htransmitted, hordered⟩ := h
  have hexported : exported (c'.transmitImpl m).transmitted = exported c'.transmitted := by
    show exported (c'.transmitted ++ [m]) = _
    rw [exported_append, hnone, List.append_nil]
  have htold : Told acts (c'.transmitImpl m) = Told acts c' := by
    funext d
    rw [Told, hexported, Told]
  refine ⟨⟨?_, ?_, ?_⟩, ms ++ [m], ?_, ?_⟩
  · rw [hexported]
    exact hnodup
  · rw [hexported]
    exact hshared
  · rw [htold]
    exact hready
  · show c'.transmitted ++ [m] = _
    rw [htransmitted, List.append_assoc]
  · rw [TypeObjects.ordered_append]
    refine ⟨hordered, hm.mono fun e he => ?_, trivial⟩
    rw [Told, htransmitted, exported_append, List.mem_append] at he
    rw [Told]
    tauto

omit [DecidableEq D] in
theorem Sharing.refl (h : Sharing o acts c) : Transmits o acts c c :=
  ⟨h, [], (List.append_nil _).symm, trivial⟩

omit [DecidableEq D] in
/-- What is told in a run is told in a longer one. -/
theorem Told.append {a : Act D} (h : Told acts c d) : Told (acts ++ [a]) c d :=
  h.imp_right fun ⟨name, hname⟩ => ⟨name, List.mem_append_left _ hname⟩

theorem Sharing.act (h : Sharing o acts c) (a : Act D) :
    Sharing o (acts ++ [a]) (act o c a) ∧ ∃ ms,
      (act o c a).transmitted = c.transmitted ++ ms ∧ o.Ordered (Told acts c) ms := by
  have hall : ∀ d : D, True → ∀ e ∈ o.dependencies d, True := fun _ _ _ _ => trivial
  have hlonger {c' : TypeChannel D} (h' : Transmits o acts c c') :
      Sharing o (acts ++ [a]) c' ∧ ∃ ms,
        c'.transmitted = c.transmitted ++ ms ∧ o.Ordered (Told acts c) ms :=
    ⟨⟨h'.sharing.nodup, h'.sharing.shared, fun d hd =>
      (h'.sharing.ready d hd).mono fun _ => Told.append⟩, h'.ordered⟩
  cases a with
  | transmit d =>
    obtain ⟨hexports, hready⟩ := h.exports hall (d := d) trivial
    exact hlonger (hexports.transmitImpl (m := .payload d) hready rfl)
  | transmitDescriptor d => exact hlonger (h.exports hall (d := d) trivial).1
  | transmitTransmission r m =>
    cases hembedded : embeddedDescriptor o r m with
    | error what =>
      have hact : TypeChannel.act o c (.transmitTransmission r m) = c := by
        simp [TypeChannel.act, transmitTransmission, hembedded, bind, Except.bind]
      rw [hact]
      exact hlonger h.refl
    | ok embedded =>
      have hact : TypeChannel.act o c (.transmitTransmission r m) =
          (embedded.elim c fun d => exportDependencies o d c).transmitImpl
            (.forwarded embedded m) := by
        simp [TypeChannel.act, transmitTransmission, hembedded, bind, Except.bind, pure, Except.pure]
      rw [hact]
      cases embedded with
      | none =>
        exact hlonger (h.refl.transmitImpl (m := .forwarded none m) (fun e he => by cases he) rfl)
      | some d =>
        obtain ⟨hexports, hready⟩ := h.exports hall (d := d) trivial
        refine hlonger (hexports.transmitImpl (m := .forwarded (some d) m) (fun e he => ?_) rfl)
        rw [← Option.some_inj.mp he]
        exact hready
  | receive name d =>
    by_cases hname : name ∈ c.sharedTypeNames
    · have hact : TypeChannel.act o c (.receive name d) = c := if_pos hname
      rw [hact]
      exact hlonger h.refl
    · cases d with
      | none =>
        have hact : TypeChannel.act o c (.receive name none) =
            { c with sharedTypeNames := insert name c.sharedTypeNames } := if_neg hname
        rw [hact]
        exact hlonger ⟨⟨h.nodup, h.shared, h.ready⟩, [], (List.append_nil _).symm, trivial⟩
      | some d =>
        have hact : TypeChannel.act o c (.receive name (some d)) = c.shareReceived name d :=
          if_neg hname
        rw [hact]
        refine ⟨⟨h.nodup, fun e he => Finset.mem_insert_of_mem (h.shared e he), fun e he => ?_⟩,
          [], (List.append_nil _).symm, trivial⟩
        rcases Finset.mem_insert.mp he with rfl | he
        · exact .told (.inr ⟨name, List.mem_append_right _ (List.mem_singleton_self _)⟩)
        · exact (h.ready e he).mono fun _ => Told.append

theorem sharing_run (acts : List (Act D)) : Sharing o acts (run o acts) := by
  induction acts using List.reverseRecOn with
  | nil => exact ⟨List.nodup_nil, nofun, fun d hd => absurd hd (Finset.notMem_empty d)⟩
  | append_singleton acts a ih =>
    rw [run, List.foldl_append]
    exact (ih.act a).1

/-- **Whatever a channel is used for**, it exports each descriptor object at most once; and
whenever it is used, what it transmits then is in order for a peer that was told of the types that
were transmitted or received before: a descriptor comes after those that it depends on, and an
instance or forwarded descriptor data after what its type is made of. -/
theorem exports_run (o : TypeObjects D) (acts : List (Act D)) (a : Act D) :
    (exported (run o (acts ++ [a])).transmitted).Nodup ∧
      ∃ ms, (run o (acts ++ [a])).transmitted = (run o acts).transmitted ++ ms ∧
        o.Ordered (Told acts (run o acts)) ms := by
  have hact : run o (acts ++ [a]) = act o (run o acts) a := by
    rw [run, List.foldl_append]
    rfl
  refine ⟨(sharing_run (acts ++ [a])).nodup, ?_⟩
  rw [hact]
  exact ((sharing_run acts).act a).2

end TypeChannel

end Dots

import Dots.Exchange.Import
import Dots.Lib.Run

/-!
# The exchange of types

Two programs of the same model, each with a registry and a channel to the other, transmit and
receive in any order. Whatever one of them receives, it has the type of.

* `Link`, `Act`, `Link.step`: the two programs, what they do, and what is in flight.
* `Link.Allowed`: what a program keeps to when it uses its channel.
* `Direction`, `Link.Sound`: what holds of the messages in flight from one program to the other.
* **`delivers_run`**: every message is received with the type that it was sent with.
-/

set_option autoImplicit false

namespace Dots

variable {D : Type} {M : DotsModel}

/-! ## Registrations -/

namespace TypeRegistry

/-- What a registration adds is what its type is made of. -/
theorem within_registerType {g : TypeGraph D} {W : D → Prop}
    (hW : ∀ d, W d → ∀ e ∈ g.dependencies d, W e) (d : D) (hd : W d) (assertNewType : Bool)
    {r : TypeRegistry D} (hr : ∀ n e, r.findType n = some e → W e) :
    ∀ n e, (registerType g d assertNewType r).1.findType n = some e → W e := by
  have hfold (es : List D) (hes : ∀ e ∈ es, e ∈ g.dependencies d) :
      ∀ {r : TypeRegistry D}, (∀ n e, r.findType n = some e → W e) → ∀ n e,
        (es.foldl (fun r e => (registerType g e false r).1) r).findType n = some e → W e := by
    induction es with
    | nil => exact fun hr => hr
    | cons e es ih =>
      intro r hr
      have he := hes e List.mem_cons_self
      exact ih (fun f hf => hes f (List.mem_cons_of_mem e hf))
        (within_registerType hW e (hW d hd e he) false hr)
  cases hfind : r.findType (g.name d) with
  | some d' =>
    rw [registerType_of_some hfind]
    exact hr
  | none =>
    rw [registerType_of_none assertNewType hfind]
    refine hfold _ (fun _ he => he) fun n e he => ?_
    by_cases hn : n = g.name d
    · rw [hn, findType_emplace_self] at he
      exact Option.some_inj.mp he ▸ hd
    · rw [findType_emplace_of_ne hn] at he
      exact hr n e he
termination_by g.constructed d
decreasing_by exact g.constructed_lt d e he

end TypeRegistry

namespace RegistryOf

variable {o : TypeObjects D} {r : TypeRegistry D}

theorem sound (hr : RegistryOf M o r) : TypeRegistry.Sound o.graph r where
  name_eq := hr.name_eq
  closed hregistered := hr.closed hregistered

/-- **A registration** of a type of the model keeps a registry of the model. -/
theorem registerType (hM : M.Fits o) (hr : RegistryOf M o r) {d : D} (hd : M.Conforms o d)
    (assertNewType : Bool) : RegistryOf M o (r.registerType o.graph d assertNewType).1 ∧
      r.Keeps (r.registerType o.graph d assertNewType).1 := by
  have hpending : ∀ p ∈ ([] : List D), o.graph.constructed d < o.graph.constructed p := by simp
  obtain ⟨⟨handled, hwhole⟩, hkeeps, -⟩ :=
    TypeRegistry.registers_registerType d assertNewType hpending hr.sound.partway
  have hsound := hwhole.sound
  refine ⟨⟨hsound.name_eq, fun {n e} he => ?_, fun hn => hkeeps.ne_none (hr.builtin hn),
    fun {n e} he f hf => ?_⟩, hkeeps⟩
  · exact TypeRegistry.within_registerType (g := o.graph)
      (fun d hd e he => hd.dependency hM.int32 he) d hd assertNewType (fun n e => hr.conforms) n e he
  · have hname : o.name e = n := hsound.name_eq he
    exact hsound.closed (d := e) (by rw [← hname] at he; exact he) f hf

/-- The registry that a program of the model starts with. -/
theorem construct {static : StaticDescriptors o.graph} {policy : StaticTypePolicy}
    (hasHandler : Bool)
    (hpolicy : policy = .internalOnly → ∀ name d ds, static.find name = some d →
      o.graph.kind d = .struct true ds → ∀ e ∈ ds, o.graph.isUserType e = false)
    (hconforms : ∀ n d, static.find n = some d → M.Conforms o d)
    (hbuiltin : ∀ n, M.builtin n →
      ∃ d, static.find n = some d ∧ TypeRegistry.admits o.graph d policy = true) :
    RegistryOf M o (TypeRegistry.construct o.graph static policy hasHandler) := by
  have hsound := TypeRegistry.sound_construct hasHandler hpolicy
  refine ⟨hsound.name_eq, fun hd => hconforms _ _ (TypeRegistry.findType_construct.mp hd).1,
    fun {n} hn => ?_, fun {n d} hd e he => ?_⟩
  · obtain ⟨d, hd⟩ := hbuiltin n hn
    rw [TypeRegistry.findType_construct.mpr hd]
    exact Option.some_ne_none d
  · have hname : o.name d = n := hsound.name_eq hd
    exact hsound.closed (d := d) (by rw [← hname] at hd; exact hd) e he

/-- What a type of the model is made of is registered with it. -/
theorem known_dependency (hM : M.Fits o) (hr : RegistryOf M o r) {d e : D} (hd : M.Conforms o d)
    (h : r.findType (o.name d) ≠ none) (he : e ∈ o.dependencies d) :
    r.findType (o.name e) ≠ none := by
  obtain ⟨d', hd'⟩ := Option.ne_none_iff_exists'.mp h
  have htree := hr.tree_eq hd' hd
  rcases TypeObjects.mem_valueTypes he with hmem | rfl
  · rw [← htree] at hmem
    obtain ⟨e', he', hsame⟩ := TypeObjects.exists_of_mem_valueTypes hmem
    have hknown := hr.closed hd' e' he'
    rwa [← TypeObjects.tree_name, hsame, TypeObjects.tree_name] at hknown
  · exact hr.builtin hM.builtin_int32

end RegistryOf

/-! ## What a peer can make use of, it has -/

namespace TypeObjects

variable {o : TypeObjects D} {r : TypeRegistry D} {d : D}

/-- An enum or a struct that a peer can make use of is registered there. -/
theorem Ready.known (h : o.Ready (fun f => r.findType (o.name f) ≠ none) d)
    (hbuiltin : ∀ {n}, M.builtin n → r.findType n ≠ none) (hd : M.Conforms o d)
    (hnamed : (o.tree d).IsNamed) : r.findType (o.name d) ≠ none := by
  cases h with
  | told h => exact h
  | fundamental h =>
    rw [tree_fundamental h] at hnamed
    exact hnamed.elim
  | internal h hinternal =>
    rw [DotsModel.Conforms, tree_struct h] at hd
    exact hbuiltin (M.builtin_of_internal hd hinternal)
  | vector h _ =>
    rw [tree_vector h] at hnamed
    exact hnamed.elim

theorem Ready.available (h : o.Ready (fun f => r.findType (o.name f) ≠ none) d)
    (hbuiltin : ∀ {n}, M.builtin n → r.findType n ≠ none) (hd : M.Conforms o d)
    (himportable : M.builtin (o.name d) ∨ (o.tree d).Importable) :
    DescriptorConverter.Available r (o.tree d) := by
  rw [DescriptorConverter.Available, tree_name]
  rcases himportable with hn | himportable
  · exact .inl (hbuiltin hn)
  cases h with
  | told h => exact .inl h
  | fundamental h =>
    rw [DotsModel.Conforms, tree_fundamental h] at hd
    exact .inl (hbuiltin (M.builtin_of_fundamental hd))
  | internal h hinternal =>
    rw [DotsModel.Conforms, tree_struct h] at hd
    exact .inl (hbuiltin (M.builtin_of_internal hd hinternal))
  | @vector _ e h he =>
    rw [tree_vector h] at himportable ⊢
    have hconforms : M.Conforms o e := by
      rw [DotsModel.Conforms, tree_vector h] at hd
      have hclosed := M.closed hd _ (List.mem_singleton_self _)
      rwa [tree_name] at hclosed
    refine .inr ⟨o.tree e, rfl, himportable, ?_⟩
    rw [tree_name]
    exact he.known hbuiltin hconforms himportable

/-- The types of the values of an exported type. -/
theorem available_of_exported (hd : M.Conforms o d) (hexported : o.Exported d)
    (hbuiltin : ∀ {n}, M.builtin n → r.findType n ≠ none)
    (h : ∀ e ∈ o.dependencies d, o.Ready (fun f => r.findType (o.name f) ≠ none) e) :
    ∀ u ∈ (o.tree d).valueTypes, DescriptorConverter.Available r u := by
  intro u hu
  obtain ⟨e, he, rfl⟩ := exists_of_mem_valueTypes hu
  have hconforms : M.Conforms o e := by
    have hclosed := M.closed hd _ hu
    rwa [tree_name] at hclosed
  refine (h e he).available hbuiltin hconforms ?_
  have htree := isExported_tree hexported
  cases hd' : o.tree d with
  | fundamental n => rw [hd'] at htree; exact htree.elim
  | vector t => rw [hd'] at htree; exact htree.elim
  | enum n enumerators => rw [hd'] at hu; cases hu
  | struct n flags ps =>
    rw [hd'] at htree hu
    rw [DotsModel.Conforms, hd'] at hd
    obtain ⟨p, hp, hvalue⟩ := List.mem_map.mp hu
    have himportable := (M.importable hd htree).2 p hp
    rwa [hvalue, tree_name] at himportable

end TypeObjects

/-! ## Two programs -/

namespace Exchange

inductive Side | guest | host
  deriving DecidableEq

def Side.other : Side → Side
  | guest => host
  | host => guest

@[simp] theorem Side.other_other (b : Side) : b.other.other = b := by cases b <;> rfl

@[simp] theorem Side.other_ne (b : Side) : b.other ≠ b := by cases b <;> decide

@[simp] theorem Side.ne_other (b : Side) : b ≠ b.other := b.other_ne.symm

theorem Side.eq_or (b c : Side) : c = b ∨ c = b.other := by
  cases b <;> cases c <;> simp [other]

/-- Two programs with a channel between them: how many messages of the other one each of them has
received, the types of the instances that its handler was given, and the error that ended its
reception. -/
structure Link (D : Type) where
  party : Side → Party D
  received : Side → ℕ := fun _ => 0
  delivered : Side → List D := fun _ => []
  error : Side → Option String := fun _ => none

/-- What happens: a program registers a type, makes one of the three kinds of transmissions, or
receives the next message. -/
inductive Act (D : Type)
  | registerType (b : Side) (d : D) (assertNewType : Bool)
  | transmit (b : Side) (d : D)
  | transmitDescriptor (b : Side) (d : D)
  | transmitTransmission (b : Side) (m : ChannelMessage)
  | receive (b : Side)

def registerType (o : TypeFactory D) (d : D) (assertNewType : Bool) (p : Party D) : Party D :=
  { p with store := { p.store with
      registry := (p.store.registry.registerType o.graph d assertNewType).1 } }

namespace Link

variable [DecidableEq D] (o : Side → TypeFactory D) (l : Link D)

def update (b : Side) (p : Party D) : Link D :=
  { l with party := Function.update l.party b p }

/-- `processReceive`: an error ends the reception. -/
def receive (b : Side) (m : Outgoing D) : Link D :=
  let l := { l with received := Function.update l.received b (l.received b + 1) }
  match (l.party b).receive (o b) (m.message (o b.other).toTypeObjects) with
  | (p, .error what) => { l.update b p with error := Function.update l.error b (some what) }
  | (p, .ok d) =>
    { l.update b p with delivered := Function.update l.delivered b (l.delivered b ++ [d]) }

def step : Act D → Option (Link D)
  | .registerType b d assertNewType =>
    some (l.update b (registerType (o b) d assertNewType (l.party b)))
  | .transmit b d =>
    let channel := (l.party b).channel.transmit (o b).toTypeObjects d
    some (l.update b { l.party b with channel })
  | .transmitDescriptor b d =>
    let channel := (l.party b).channel.transmitDescriptor (o b).toTypeObjects d
    some (l.update b { l.party b with channel })
  | .transmitTransmission b m =>
    match (l.party b).channel.transmitTransmission (o b).toTypeObjects (l.party b).store.registry m with
    | .error _ => some l
    | .ok channel => some (l.update b { l.party b with channel })
  | .receive b =>
    match l.error b, (l.party b.other).channel.transmitted[l.received b]? with
    | none, some m => some (l.receive o b m)
    | _, _ => none

end Link

/-! ## What the programs keep to -/

/-- A type of the model by a name. -/
def IsStruct (M : DotsModel) (n : String) : Prop := ∃ flags ps, M.type n = some (.struct n flags ps)

/-- A type of the model that a program has registered, if not as this object then as another. -/
structure Owns (M : DotsModel) (o : TypeObjects D) (p : Party D) (d : D) : Prop where
  conforms : M.Conforms o d
  known : p.store.registry.findType (o.name d) ≠ none

/-- What a program does with its channel. It registers types of the model. It transmits types that
it has registered, and instances of them that are not descriptor data. From elsewhere it forwards
descriptor data of a type that it has registered, and instances that the other program has
registered the type of. -/
def Link.Allowed (M : DotsModel) (o : Side → TypeFactory D) (l : Link D) : Act D → Prop
  | .registerType b d _ => M.Conforms (o b).toTypeObjects d
  | .transmit b d => Owns M (o b).toTypeObjects (l.party b) d ∧ IsStruct M ((o b).name d) ∧
      ¬IsDescriptorData ((o b).name d)
  | .transmitDescriptor b d => Owns M (o b).toTypeObjects (l.party b) d
  | .transmitTransmission b m =>
    (∃ n, m = .other n ∧ IsStruct M n ∧ ¬IsDescriptorData n ∧
      (l.party b).store.registry.findType n ≠ none ∧
      (l.party b.other).store.registry.findType n ≠ none) ∨
    ∃ t, m = t.data ∧ t.IsExported ∧ M.type t.name = some t ∧
      (l.party b).store.registry.findType t.name ≠ none
  | .receive _ => True

/-! ## Messages in flight -/

variable {o o' : TypeFactory D} {p p' q q' : Party D} {k : ℕ} {ds : List D} {d : D}

/-- A message that a program may have sent. -/
def Proper (M : DotsModel) (o : TypeObjects D) (p p' : Party D) : Outgoing D → Prop
  | .dependency d => Owns M o p d
  | .payload d => Owns M o p d ∧ IsStruct M (o.name d) ∧ ¬IsDescriptorData (o.name d)
  | .forwarded (some d) m => Owns M o p d ∧ o.Exported d ∧ m = (o.tree d).data
  | .forwarded none m => ∃ n, m = .other n ∧ IsStruct M n ∧ ¬IsDescriptorData n ∧
      p.store.registry.findType n ≠ none ∧ p'.store.registry.findType n ≠ none

/-- A type that a program has, or will have been told of. -/
def Told (o : TypeFactory D) (p p' : Party D) (k : ℕ) (d : D) : Prop :=
  p'.store.registry.findType (o.name d) ≠ none ∨ d ∈ exported (p.channel.transmitted.drop k)

/-- An instance of the type `e` that was received is what was sent. -/
def Delivers (o o' : TypeObjects D) (m : Outgoing D) (e : D) : Prop :=
  o'.name e = (m.message o).typeName ∧ ∀ d, m = .payload d → o'.tree e = o.tree d

/-- What holds of the messages of a program `p` of which `p'` has received `k`. -/
structure Direction (M : DotsModel) (o o' : TypeFactory D) (p p' : Party D) (k : ℕ) (ds : List D) :
    Prop where
  names : ∀ n ∈ p.channel.sharedTypeNames, p.store.registry.findType n ≠ none
  shared : ∀ d ∈ p.channel.sharedTypeDescriptors, o.Ready (Told o p p' k) d
  le : k ≤ p.channel.transmitted.length
  ordered : o.Ordered (fun d => p'.store.registry.findType (o.name d) ≠ none)
    (p.channel.transmitted.drop k)
  proper : ∀ m ∈ p.channel.transmitted.drop k, Proper M o.toTypeObjects p p' m
  delivered : List.Forall₂ (Delivers o.toTypeObjects o'.toTypeObjects)
    (p.channel.transmitted.take k) ds

theorem Owns.mono (h : Owns M o.toTypeObjects p d)
    (hkeeps : p.store.registry.Keeps q.store.registry) : Owns M o.toTypeObjects q d :=
  ⟨h.conforms, hkeeps.ne_none h.known⟩

theorem Proper.mono {m : Outgoing D} (h : Proper M o.toTypeObjects p p' m)
    (hkeeps : p.store.registry.Keeps q.store.registry)
    (hkeeps' : p'.store.registry.Keeps q'.store.registry) :
    Proper M o.toTypeObjects q q' m := by
  cases m with
  | dependency d => exact Owns.mono h hkeeps
  | payload d => exact ⟨h.1.mono hkeeps, h.2⟩
  | forwarded embedded m =>
    cases embedded with
    | some d => exact ⟨h.1.mono hkeeps, h.2⟩
    | none =>
      obtain ⟨n, hm, hstruct, hdata, hknown, hknown'⟩ := h
      exact ⟨n, hm, hstruct, hdata, hkeeps.ne_none hknown, hkeeps'.ne_none hknown'⟩

/-- Types are registered on both sides. -/
theorem Direction.grow (h : Direction M o o' p p' k ds)
    (hkeeps : p.store.registry.Keeps q.store.registry) (hchannel : q.channel = p.channel)
    (hkeeps' : p'.store.registry.Keeps q'.store.registry) : Direction M o o' q q' k ds where
  names n hn := hkeeps.ne_none (h.names n (hchannel ▸ hn))
  shared e he := by
    rw [hchannel] at he
    refine (h.shared e he).mono fun f hf => ?_
    rw [Told, hchannel]
    exact hf.imp_left hkeeps'.ne_none
  le := hchannel ▸ h.le
  ordered := by
    rw [hchannel]
    exact h.ordered.mono fun f => hkeeps'.ne_none
  proper m hm := by
    rw [hchannel] at hm
    exact (h.proper m hm).mono hkeeps hkeeps'
  delivered := hchannel ▸ h.delivered

/-- What a program receives in the other direction is known on both sides. -/
theorem Direction.imports (h : Direction M o o' p p' k ds) {name : String}
    (himports : Party.Imports M o name p q)
    (hknown : p'.store.registry.findType name ≠ none) : Direction M o o' q p' k ds where
  names n hn := by
    rcases himports.names n hn with hn | rfl
    · exact himports.keeps.ne_none (h.names n hn)
    · exact himports.known
  shared e he := by
    rcases himports.descriptors e he with he | rfl
    · refine (h.shared e he).mono fun f hf => ?_
      rwa [Told, himports.transmitted]
    · exact .told (.inl hknown)
  le := himports.transmitted ▸ h.le
  ordered := by
    rw [himports.transmitted]
    exact h.ordered
  proper m hm := by
    rw [himports.transmitted] at hm
    exact (h.proper m hm).mono himports.keeps fun _ _ h => h
  delivered := himports.transmitted ▸ h.delivered

/-! ## Transmissions -/

theorem told_append (ms : List (Outgoing D)) (hle : k ≤ p.channel.transmitted.length)
    (htransmitted : q.channel.transmitted = p.channel.transmitted ++ ms) :
    Told o q p' k d ↔ Told o p p' k d ∨ d ∈ exported ms := by
  rw [Told, Told, htransmitted, List.drop_append_of_le_length hle, exported_append, List.mem_append,
    or_assoc]

/-- Messages that are in order are transmitted. -/
theorem Direction.append (h : Direction M o o' p p' k ds) {ms : List (Outgoing D)}
    (hstore : q.store = p.store)
    (htransmitted : q.channel.transmitted = p.channel.transmitted ++ ms)
    (hnames : q.channel.sharedTypeNames = p.channel.sharedTypeNames)
    (hordered : o.Ordered (Told o p p' k) ms)
    (hproper : ∀ m ∈ ms, Proper M o.toTypeObjects p p' m)
    (hshared : ∀ d ∈ q.channel.sharedTypeDescriptors, o.Ready (Told o q p' k) d) :
    Direction M o o' q p' k ds where
  names n hn := by
    rw [hstore]
    exact h.names n (hnames ▸ hn)
  shared := hshared
  le := by
    rw [htransmitted, List.length_append]
    exact h.le.trans (Nat.le_add_right _ _)
  ordered := by
    rw [htransmitted, List.drop_append_of_le_length h.le, TypeObjects.ordered_append]
    exact ⟨h.ordered, hordered⟩
  proper m hm := by
    have hkeeps : p.store.registry.Keeps q.store.registry := fun _ _ h => hstore ▸ h
    rw [htransmitted, List.drop_append_of_le_length h.le] at hm
    rcases List.mem_append.mp hm with hm | hm
    · exact (h.proper m hm).mono hkeeps fun _ _ h => h
    · exact (hproper m hm).mono hkeeps fun _ _ h => h
  delivered := by
    rw [htransmitted, List.take_append_of_le_length h.le]
    exact h.delivered

/-- A message that exports nothing is transmitted. -/
theorem Direction.transmitImpl (h : Direction M o o' p p' k ds) {m : Outgoing D}
    (hfollows : o.Follows (Told o p p' k) m) (hproper : Proper M o.toTypeObjects p p' m) :
    Direction M o o' { p with channel := p.channel.transmitImpl m } p' k ds := by
  have hsingle (m' : Outgoing D) (hm' : m' ∈ [m]) : Proper M o.toTypeObjects p p' m' := by
    rw [List.mem_singleton.mp hm']
    exact hproper
  refine h.append rfl rfl rfl ⟨hfollows, trivial⟩ hsingle fun d hd => ?_
  refine (h.shared d hd).mono fun f hf => ?_
  exact (told_append [m] h.le rfl).mpr (.inl hf)

/-- What a type that a program has is made of, it has. -/
theorem Owns.dependency {e : D} (hM : M.Fits o.toTypeObjects)
    (hr : RegistryOf M o.toTypeObjects p.store.registry) (hd : Owns M o.toTypeObjects p d)
    (he : e ∈ o.dependencies d) : Owns M o.toTypeObjects p e :=
  ⟨hd.conforms.dependency hM.int32 he, hr.known_dependency hM hd.conforms hd.known he⟩

/-- **An export** of a type that a program has. -/
theorem Direction.exports [DecidableEq D] (hM : M.Fits o.toTypeObjects)
    (hr : RegistryOf M o.toTypeObjects p.store.registry) (h : Direction M o o' p p' k ds)
    (hd : Owns M o.toTypeObjects p d) :
    let q := { p with channel := p.channel.exportDependencies o.toTypeObjects d }
    Direction M o o' q p' k ds ∧ o.Ready (Told o q p' k) d := by
  intro q
  obtain ⟨es, hexports, hready⟩ := TypeChannel.exports_exportDependencies
    (W := Owns M o.toTypeObjects p) (fun d hd e he => hd.dependency hM hr he) d hd
    (Told o p p' k) p.channel fun e he _ => h.shared e he
  have htold (e : D) (he : Told o p p' k e ∨ e ∈ es) : Told o q p' k e := by
    refine (told_append _ h.le hexports.transmitted).mpr ?_
    rwa [exported_map_dependency]
  have hproper (m : Outgoing D) (hm : m ∈ es.map Outgoing.dependency) :
      Proper M o.toTypeObjects p p' m := by
    obtain ⟨e, he, rfl⟩ := List.mem_map.mp hm
    exact hexports.within e he
  refine ⟨h.append rfl hexports.transmitted hexports.sharedTypeNames hexports.ordered hproper
    fun e he => ?_, (hready d (List.mem_singleton_self d)).mono htold⟩
  by_cases hold : e ∈ p.channel.sharedTypeDescriptors
  · exact (h.shared e hold).mono fun f hf => htold f (.inl hf)
  · exact (hexports.ready e he hold).mono htold

/-! ## Receptions -/

theorem isNamed_of_isExported {t : TypeTree} (h : t.IsExported) : t.IsNamed := by
  cases t with
  | fundamental n => exact h.elim
  | vector u => exact h.elim
  | enum n enumerators => trivial
  | struct n flags ps => trivial

/-- What a type that is known is made of is available. -/
theorem available_of_known (hr : RegistryOf M o'.toTypeObjects p'.store.registry) {t : TypeTree}
    (ht : M.type t.name = some t) (hknown : p'.store.registry.findType t.name ≠ none) :
    ∀ u ∈ t.valueTypes, DescriptorConverter.Available p'.store.registry u := by
  intro u hu
  obtain ⟨e, he⟩ := Option.ne_none_iff_exists'.mp hknown
  rw [← hr.tree_eq he ht] at hu
  obtain ⟨f, hf, rfl⟩ := TypeObjects.exists_of_mem_valueTypes hu
  refine .inl ?_
  rw [TypeObjects.tree_name]
  exact hr.closed he f hf

variable [DecidableEq D]

/-- Descriptor data is received. -/
theorem receives_data (hM : M.Fits o'.toTypeObjects)
    (hr : RegistryOf M o'.toTypeObjects p'.store.registry)
    (hnames : ∀ n ∈ p'.channel.sharedTypeNames, p'.store.registry.findType n ≠ none) {t : TypeTree}
    (ht : M.type t.name = some t) (hexported : t.IsExported)
    (havailable : ∀ u ∈ t.valueTypes, DescriptorConverter.Available p'.store.registry u) :
    ∃ q' e, p'.receive o' t.data = (q', .ok e) ∧ Party.Imports M o' t.name p' q' ∧
      o'.name e = t.data.typeName := by
  have hdata : IsDescriptorData t.data.typeName := by
    cases t with
    | fundamental n => exact hexported.elim
    | vector u => exact hexported.elim
    | enum n enumerators => exact .inl rfl
    | struct n flags ps => exact .inr rfl
  obtain ⟨flags, ps, hstruct⟩ := M.struct_descriptorData hdata
  obtain ⟨e, he, htree⟩ := hr.getStructType_eq hstruct (hr.builtin (M.builtin_descriptorData hdata))
  obtain ⟨q', hq', himports⟩ := Party.imports_data hM hr hnames ht hexported havailable
  refine ⟨q', e, ?_, himports, ?_⟩
  · rw [Party.receive, he]
    simp only [hq']
  · rw [← TypeObjects.tree_name, htree]
    rfl

/-- An instance of a type that is known is received. -/
theorem receives_other (hr : RegistryOf M o'.toTypeObjects p'.store.registry) {n : String}
    (hstruct : IsStruct M n) (hknown : p'.store.registry.findType n ≠ none) :
    ∃ e, p'.receive o' (.other n) = (p', .ok e) ∧ Party.Imports M o' n p' p' ∧
      M.type n = some (o'.tree e) := by
  obtain ⟨flags, ps, ht⟩ := hstruct
  obtain ⟨e, he, htree⟩ := hr.getStructType_eq ht hknown
  refine ⟨e, ?_, ⟨hr, fun _ _ h => h, hknown, rfl, fun _ => .inl, fun _ => .inl⟩, ?_⟩
  · rw [Party.receive, ChannelMessage.typeName, he]
    rfl
  · rw [ht, htree]

/-- **The next message** of a program is received. -/
theorem receives (hM : M.Fits o'.toTypeObjects)
    (hr : RegistryOf M o'.toTypeObjects p'.store.registry)
    (hnames : ∀ n ∈ p'.channel.sharedTypeNames, p'.store.registry.findType n ≠ none)
    {m : Outgoing D} (hproper : Proper M o.toTypeObjects p p' m)
    (hfollows : o.Follows (fun d => p'.store.registry.findType (o.name d) ≠ none) m) :
    ∃ q' e n, p'.receive o' (m.message o.toTypeObjects) = (q', .ok e) ∧
      Party.Imports M o' n p' q' ∧ p.store.registry.findType n ≠ none ∧
      (∀ d, m = .dependency d → q'.store.registry.findType (o.name d) ≠ none) ∧
      Delivers o.toTypeObjects o'.toTypeObjects m e := by
  cases m with
  | dependency d =>
    obtain ⟨hexported, hready⟩ := hfollows
    have hdata := TypeObjects.message_dependency hexported
    have ht : M.type (o.tree d).name = some (o.tree d) := by
      rw [TypeObjects.tree_name]
      exact hproper.conforms
    obtain ⟨q', e, hreceive, himports, hname⟩ := receives_data hM hr hnames ht
      (TypeObjects.isExported_tree hexported)
      (TypeObjects.available_of_exported hproper.conforms hexported hr.builtin hready)
    rw [← hdata] at hreceive hname
    rw [TypeObjects.tree_name] at himports
    refine ⟨q', e, _, hreceive, himports, hproper.known, fun f hf => ?_, hname, fun f hf => ?_⟩
    · cases hf
      exact himports.known
    · cases hf
  | payload d =>
    obtain ⟨hd, hstruct, -⟩ := hproper
    have hnamed : (o.tree d).IsNamed := by
      obtain ⟨flags, ps, ht⟩ := hstruct
      have htree := hd.conforms.symm.trans ht
      rw [Option.some_inj.mp htree]
      trivial
    have hknown : p'.store.registry.findType (o.name d) ≠ none :=
      TypeObjects.Ready.known hfollows hr.builtin hd.conforms hnamed
    obtain ⟨e, hreceive, himports, ht⟩ := receives_other hr hstruct hknown
    have htree : o'.tree e = o.tree d := Option.some_inj.mp (ht.symm.trans hd.conforms)
    refine ⟨p', e, _, hreceive, himports, hd.known, fun f hf => ?_, ?_, fun f hf => ?_⟩
    · cases hf
    · rw [← TypeObjects.tree_name, htree, TypeObjects.tree_name]
      rfl
    · cases hf
      exact htree
  | forwarded embedded m =>
    cases embedded with
    | some d =>
      obtain ⟨hd, hexported, rfl⟩ := hproper
      have hnamed := isNamed_of_isExported (TypeObjects.isExported_tree hexported)
      have hknown : p'.store.registry.findType (o.name d) ≠ none :=
        (hfollows d rfl).known hr.builtin hd.conforms hnamed
      have ht : M.type (o.tree d).name = some (o.tree d) := by
        rw [TypeObjects.tree_name]
        exact hd.conforms
      rw [← TypeObjects.tree_name] at hknown
      obtain ⟨q', e, hreceive, himports, hname⟩ := receives_data hM hr hnames ht
        (TypeObjects.isExported_tree hexported) (available_of_known hr ht hknown)
      rw [TypeObjects.tree_name] at himports
      refine ⟨q', e, _, hreceive, himports, hd.known, fun f hf => ?_, hname, fun f hf => ?_⟩
      · cases hf
      · cases hf
    | none =>
      obtain ⟨n, rfl, hstruct, -, hknown, hknown'⟩ := hproper
      obtain ⟨e, hreceive, himports, ht⟩ := receives_other hr hstruct hknown'
      refine ⟨p', e, n, hreceive, himports, hknown, fun f hf => ?_, ?_, fun f hf => ?_⟩
      · cases hf
      · rw [← TypeObjects.tree_name, M.name_eq ht]
        rfl
      · cases hf

/-- The reception of a message, as the direction that it comes from sees it. -/
theorem Direction.receive (hM : M.Fits o'.toTypeObjects)
    (hr : RegistryOf M o'.toTypeObjects p'.store.registry)
    (hnames : ∀ n ∈ p'.channel.sharedTypeNames, p'.store.registry.findType n ≠ none)
    (h : Direction M o o' p p' k ds) {m : Outgoing D}
    (hm : p.channel.transmitted[k]? = some m) :
    ∃ q' e n, p'.receive o' (m.message o.toTypeObjects) = (q', .ok e) ∧
      Party.Imports M o' n p' q' ∧ p.store.registry.findType n ≠ none ∧
      Direction M o o' p q' (k + 1) (ds ++ [e]) := by
  obtain ⟨hlt, hget⟩ := List.getElem?_eq_some_iff.mp hm
  have hdrop : p.channel.transmitted.drop k = m :: p.channel.transmitted.drop (k + 1) := by
    rw [← hget]
    exact List.drop_eq_getElem_cons hlt
  have hordered := h.ordered
  rw [hdrop] at hordered
  obtain ⟨hfollows, hrest⟩ := hordered
  have hproper := h.proper
  rw [hdrop] at hproper
  obtain ⟨q', e, n, hreceive, himports, hknown, htold, hdelivers⟩ :=
    receives hM hr hnames (hproper m List.mem_cons_self) hfollows
  -- what the message tells of is known when it was received
  have hnow (d : D) (hd : p'.store.registry.findType (o.name d) ≠ none ∨ d ∈ exported [m]) :
      q'.store.registry.findType (o.name d) ≠ none := by
    rcases hd with hd | hd
    · exact himports.keeps.ne_none hd
    · cases m with
      | dependency e =>
        obtain rfl := List.mem_singleton.mp hd
        exact htold d rfl
      | payload e => cases hd
      | forwarded embedded m => cases hd
  refine ⟨q', e, n, hreceive, himports, hknown, h.names, fun d hd => ?_, hlt, hrest.mono hnow,
    fun m' hm' => ?_, ?_⟩
  · refine (h.shared d hd).mono fun f hf => ?_
    rw [Told, hdrop, ← List.singleton_append, exported_append, List.mem_append, ← or_assoc] at hf
    exact hf.imp_left (hnow f)
  · exact (hproper m' (List.mem_cons_of_mem m hm')).mono (fun _ _ h => h) himports.keeps
  · rw [List.take_succ_eq_append_getElem hlt, hget]
    exact List.rel_append h.delivered (.cons hdelivers .nil)

/-! ## Runs -/

/-- What holds of two programs and the channel between them. -/
structure Link.Sound (M : DotsModel) (o : Side → TypeFactory D) (l : Link D) : Prop where
  registryOf (b : Side) : RegistryOf M (o b).toTypeObjects (l.party b).store.registry
  error (b : Side) : l.error b = none
  direction (b : Side) : Direction M (o b) (o b.other) (l.party b) (l.party b.other)
    (l.received b.other) (l.delivered b.other)

namespace Link

variable {o : Side → TypeFactory D} {l l' : Link D} {b : Side} {q : Party D}

omit [DecidableEq D] in
@[simp] theorem party_update_self : (l.update b q).party b = q := Function.update_self ..

omit [DecidableEq D] in
@[simp] theorem party_update_other : (l.update b q).party b.other = l.party b.other :=
  Function.update_of_ne b.other_ne ..

omit [DecidableEq D] in
/-- A program changes, and with it the messages that it has sent. -/
theorem Sound.update (h : l.Sound M o)
    (hr : RegistryOf M (o b).toTypeObjects q.store.registry)
    (hkeeps : (l.party b).store.registry.Keeps q.store.registry)
    (hdirection : Direction M (o b) (o b.other) q (l.party b.other) (l.received b.other)
      (l.delivered b.other)) : (l.update b q).Sound M o where
  registryOf c := by
    rcases b.eq_or c with rfl | rfl
    · rwa [party_update_self]
    · rw [party_update_other]
      exact h.registryOf b.other
  error := h.error
  direction c := by
    rcases b.eq_or c with rfl | rfl
    · rwa [party_update_self, party_update_other]
    · have hother := h.direction b.other
      rw [Side.other_other] at hother ⊢
      rw [party_update_self, party_update_other]
      exact hother.grow (fun _ _ h => h) rfl hkeeps

/-- Messages are transmitted. -/
theorem Sound.transmits (h : l.Sound M o) {channel : TypeChannel D}
    (hdirection : Direction M (o b) (o b.other) { l.party b with channel } (l.party b.other)
      (l.received b.other) (l.delivered b.other)) :
    (l.update b { l.party b with channel }).Sound M o :=
  h.update (h.registryOf b) (fun _ _ h => h) hdirection

/-- Transmissions that were received from elsewhere are forwarded. -/
theorem Sound.forwards (hM : ∀ b, M.Fits (o b).toTypeObjects) (h : l.Sound M o) {m : ChannelMessage}
    (hallowed : l.Allowed M o (.transmitTransmission b m)) :
    ∃ channel, (l.party b).channel.transmitTransmission (o b).toTypeObjects
        (l.party b).store.registry m = .ok channel ∧
      Direction M (o b) (o b.other) { l.party b with channel } (l.party b.other)
        (l.received b.other) (l.delivered b.other) := by
  rcases hallowed with ⟨n, rfl, hstruct, hdata, hknown, hknown'⟩ | ⟨t, rfl, hexported, ht, hknown⟩
  · refine ⟨_, rfl, (h.direction b).transmitImpl (m := .forwarded none (.other n)) ?_ ?_⟩
    · intro d hd
      cases hd
    · exact ⟨n, rfl, hstruct, hdata, hknown, hknown'⟩
  · obtain ⟨d, hd⟩ := Option.ne_none_iff_exists'.mp hknown
    have htree := (h.registryOf b).tree_eq hd ht
    have hname : (o b).name d = t.name := by rw [← TypeObjects.tree_name, htree]
    have howns : Owns M (o b).toTypeObjects (l.party b) d :=
      ⟨(h.registryOf b).conforms hd, by rwa [hname]⟩
    have hembedded : TypeChannel.embeddedDescriptor (o b).toTypeObjects (l.party b).store.registry
        t.data = .ok (some d) := by
      cases t with
      | fundamental n => exact hexported.elim
      | vector u => exact hexported.elim
      | enum n enumerators =>
        have hdescription := TypeObjects.exists_of_tree_enum htree
        have hfind : (l.party b).store.registry.findEnumType (o b).toTypeObjects n = some d :=
          Option.filter_eq_some_iff.mpr ⟨hd, by rw [hdescription]⟩
        exact congrArg Except.ok hfind
      | struct n flags ps =>
        obtain ⟨_, hdescription, -⟩ := TypeObjects.exists_of_tree_struct htree
        have hfind : (l.party b).store.registry.findStructType (o b).toTypeObjects n = some d :=
          Option.filter_eq_some_iff.mpr ⟨hd, by rw [hdescription]⟩
        exact congrArg Except.ok hfind
    have hexports := (h.direction b).exports (hM b) (h.registryOf b) howns
    refine ⟨_, by rw [TypeChannel.transmitTransmission, hembedded]; rfl, ?_⟩
    refine hexports.1.transmitImpl (m := .forwarded (some d) t.data) (fun e he => ?_) ?_
    · cases he
      exact hexports.2
    · refine ⟨howns.mono fun _ _ h => h, ?_, by rw [htree]⟩
      rw [← htree] at hexported
      exact TypeObjects.exported_of_tree hexported

/-- The next message of the other program is received. -/
theorem Sound.receive (hM : ∀ b, M.Fits (o b).toTypeObjects) (h : l.Sound M o) {m : Outgoing D}
    (hm : (l.party b.other).channel.transmitted[l.received b]? = some m) :
    (l.receive o b m).Sound M o := by
  have hdirection := h.direction b.other
  rw [Side.other_other] at hdirection
  obtain ⟨q, e, n, hreceive, himports, hknown, hafter⟩ :=
    hdirection.receive (hM b) (h.registryOf b) (h.direction b).names hm
  have hback := (h.direction b).imports himports hknown
  have hlink : l.receive o b m =
      { l.update b q with
        received := Function.update l.received b (l.received b + 1)
        delivered := Function.update l.delivered b (l.delivered b ++ [e]) } := by
    rw [Link.receive]
    simp only [hreceive]
    rfl
  rw [hlink]
  refine ⟨fun c => ?_, h.error, fun c => ?_⟩
  · rcases b.eq_or c with rfl | rfl
    · show RegistryOf M _ ((l.update c q).party c).store.registry
      rw [party_update_self]
      exact himports.registryOf
    · show RegistryOf M _ ((l.update b q).party b.other).store.registry
      rw [party_update_other]
      exact h.registryOf b.other
  · rcases b.eq_or c with rfl | rfl
    · show Direction M _ _ ((l.update c q).party c) ((l.update c q).party c.other)
        (Function.update l.received c _ c.other) (Function.update l.delivered c _ c.other)
      rw [party_update_self, party_update_other, Function.update_of_ne c.other_ne,
        Function.update_of_ne c.other_ne]
      exact hback
    · show Direction M _ _ ((l.update b q).party b.other) ((l.update b q).party b.other.other)
        (Function.update l.received b _ b.other.other) (Function.update l.delivered b _ b.other.other)
      rw [Side.other_other, party_update_self, party_update_other, Function.update_self,
        Function.update_self]
      exact hafter

/-- **Step lemma.** -/
theorem Sound.step (hM : ∀ b, M.Fits (o b).toTypeObjects) (h : l.Sound M o) {a : Act D}
    (hallowed : l.Allowed M o a) (hstep : l.step o a = some l') : l'.Sound M o := by
  cases a with
  | registerType b d assertNewType =>
    obtain rfl := Option.some_inj.mp hstep
    obtain ⟨hr, hkeeps⟩ := (h.registryOf b).registerType (hM b) hallowed assertNewType
    exact h.update hr hkeeps ((h.direction b).grow hkeeps rfl fun _ _ h => h)
  | transmit b d =>
    obtain rfl := Option.some_inj.mp hstep
    obtain ⟨howns, hstruct, hdata⟩ := hallowed
    have hexports := (h.direction b).exports (hM b) (h.registryOf b) howns
    exact h.transmits (hexports.1.transmitImpl (m := .payload d) hexports.2
      ⟨howns.mono fun _ _ h => h, hstruct, hdata⟩)
  | transmitDescriptor b d =>
    obtain rfl := Option.some_inj.mp hstep
    exact h.transmits ((h.direction b).exports (hM b) (h.registryOf b) hallowed).1
  | transmitTransmission b m =>
    obtain ⟨channel, hchannel, hdirection⟩ := h.forwards hM hallowed
    rw [Link.step, hchannel] at hstep
    obtain rfl := Option.some_inj.mp hstep
    exact h.transmits hdirection
  | receive b =>
    cases hm : (l.party b.other).channel.transmitted[l.received b]? with
    | none => simp [Link.step, hm] at hstep
    | some m =>
      simp only [Link.step, hm, h.error b, Option.some_inj] at hstep
      rw [← hstep]
      exact h.receive hM hm

/-- Two programs before they have transmitted anything. -/
def start (r : Side → TypeRegistry D) : Link D where
  party b := { store := { registry := r b } }

omit [DecidableEq D] in
theorem sound_start {r : Side → TypeRegistry D} (hr : ∀ b, RegistryOf M (o b).toTypeObjects (r b)) :
    (start r).Sound M o where
  registryOf := hr
  error _ := rfl
  direction _ :=
    { names := fun n hn => absurd hn (Finset.notMem_empty n)
      shared := fun d hd => absurd hd (Finset.notMem_empty d)
      le := Nat.le_refl 0
      ordered := trivial
      proper := fun _ hm => absurd hm List.not_mem_nil
      delivered := .nil }

end Link

/-! ## Types as their own descriptors -/

mutual

def depth : TypeTree → ℕ
  | .fundamental _ => 0
  | .vector t => depth t + 1
  | .enum _ _ => 1
  | .struct _ _ ps => propertiesDepth ps + 1

def propertiesDepth : PropertyTrees → ℕ
  | .nil => 0
  | .cons _ _ _ t rest => max (depth t) (propertiesDepth rest)

end

theorem depth_le : ∀ {ps : PropertyTrees} {p : ObjectProperty TypeTree}, p ∈ ps.properties →
    depth p.valueDescriptor ≤ propertiesDepth ps
  | .nil, _, h => by cases h
  | .cons name tag isKey t rest, p, h => by
    rw [PropertyTrees.properties] at h
    rw [propertiesDepth]
    rcases List.mem_cons.mp h with rfl | h
    · exact le_max_left _ _
    · exact (depth_le h).trans (le_max_right _ _)

def description : TypeTree → Description TypeTree
  | .fundamental _ => .fundamental
  | .vector t => .vector t
  | .enum _ enumerators => .enum enumerators
  | .struct _ flags ps => .struct flags ps.properties

def internalData (n : String) : TypeTree :=
  .struct n { internal := true } (.cons "name" 1 true (.fundamental "string") .nil)

/-- A program whose descriptors are what they stand for. -/
def treeFactory : TypeFactory TypeTree where
  name := TypeTree.name
  description := description
  int32 := .fundamental "int32"
  enumDescriptorData := internalData "EnumDescriptorData"
  structDescriptorData := internalData "StructDescriptorData"
  constructed := depth
  constructed_lt d e he := by
    cases d with
    | fundamental n => cases he
    | vector t =>
      rw [List.mem_singleton.mp he]
      exact Nat.lt_succ_self _
    | enum n enumerators =>
      rw [List.mem_singleton.mp he]
      exact Nat.zero_lt_one
    | struct n flags ps =>
      obtain ⟨p, hp, rfl⟩ := List.mem_map.mp he
      exact Nat.lt_succ_of_le (depth_le hp)
  int32_fundamental := rfl
  name_vector {d e} h := by
    cases d with
    | vector t => cases h; rfl
    | _ => cases h
  enum_internal := ⟨_, _, rfl, rfl⟩
  struct_internal := ⟨_, _, rfl, rfl⟩
  isDynamic _ := true
  createVector _ t := .vector t
  createEnum _ n enumerators := .enum n enumerators
  createStruct _ n flags ps := .struct n flags (.ofProperties ps)
  description_createVector _ _ := rfl
  description_createEnum _ _ _ := rfl
  description_createStruct _ _ flags ps :=
    congrArg (Description.struct flags) (PropertyTrees.properties_ofProperties ps)
  name_createEnum _ _ _ := rfl
  name_createStruct _ _ _ _ := rfl

/-! ## Vectors of structs -/

def testSubStruct : TypeTree :=
  .struct "DotsTestSubStruct" {} (.cons "flag1" 1 false (.fundamental "bool") .nil)

def testVectorStruct : TypeTree :=
  .struct "DotsTestVectorStruct" {} (.cons "subStructList" 2 false (.vector testSubStruct) .nil)

def testTypes : List TypeTree :=
  [.fundamental "bool", .fundamental "int32", .fundamental "string",
    internalData "EnumDescriptorData", internalData "StructDescriptorData", testSubStruct,
    .vector testSubStruct, testVectorStruct]

def testType (n : String) : Option TypeTree := testTypes.find? fun t => t.name = n

def testBuiltin : TypeTree → Bool
  | .fundamental _ => true
  | .struct _ flags _ => flags.internal
  | _ => false

def testModel : DotsModel where
  type := testType
  builtin n := ∃ t, testType n = some t ∧ testBuiltin t = true
  name_eq h := by simpa using List.find?_some h
  closed h := by
    have hall : ∀ t ∈ testTypes, ∀ u ∈ t.valueTypes, testType u.name = some u := by decide +kernel
    exact hall _ (List.mem_of_find?_eq_some h)
  builtin_of_fundamental h := ⟨_, h, rfl⟩
  builtin_of_internal h hinternal := ⟨_, h, hinternal⟩
  importable {n m flags ps} h hinternal := by
    have hmem : TypeTree.struct m flags ps ∈ testTypes := List.mem_of_find?_eq_some h
    have hstruct : ps = .cons "flag1" 1 false (.fundamental "bool") .nil ∨
        ps = .cons "subStructList" 2 false (.vector testSubStruct) .nil := by
      simp only [testTypes, internalData, testSubStruct, testVectorStruct, List.mem_cons,
        List.not_mem_nil, reduceCtorEq, TypeTree.struct.injEq, false_or, or_false] at hmem
      rcases hmem with ⟨-, rfl, -⟩ | ⟨-, rfl, -⟩ | ⟨-, -, h⟩ | ⟨-, -, h⟩
      · cases hinternal
      · cases hinternal
      · exact .inl h
      · exact .inr h
    rcases hstruct with rfl | rfl
    · refine ⟨by decide, fun p hp => .inl ⟨.fundamental "bool", ?_⟩⟩
      rw [List.mem_singleton.mp hp]
      decide +kernel
    · refine ⟨by decide, fun p hp => .inr ?_⟩
      rw [List.mem_singleton.mp hp]
      trivial
  builtin_descriptorData {n} h := by
    rcases h with rfl | rfl
    · exact ⟨internalData "EnumDescriptorData", by decide +kernel⟩
    · exact ⟨internalData "StructDescriptorData", by decide +kernel⟩
  struct_descriptorData {n} h := by
    rcases h with rfl | rfl
    · exact ⟨_, _, (by decide +kernel : testType _ = some (internalData "EnumDescriptorData"))⟩
    · exact ⟨_, _, (by decide +kernel : testType _ = some (internalData "StructDescriptorData"))⟩

theorem mem_testTypes {n : String} {t : TypeTree} (h : testType n = some t) : t ∈ testTypes :=
  List.mem_of_find?_eq_some h

theorem conforms_testType {n : String} {t : TypeTree} (h : testType n = some t) :
    testModel.Conforms treeFactory.toTypeObjects t := by
  have hall : ∀ t ∈ testTypes, testType t.name = some (treeFactory.tree t) := by decide +kernel
  exact hall t (mem_testTypes h)

theorem fits_testModel : testModel.Fits treeFactory.toTypeObjects where
  int32 := conforms_testType (n := "int32") (by decide +kernel)
  builtin_int32 := ⟨.fundamental "int32", by decide +kernel⟩

def testStatic : StaticDescriptors treeFactory.graph where
  find := testType
  name_eq h := testModel.name_eq h
  closed h e he := by
    have hall : ∀ t ∈ testTypes, ∀ e ∈ treeFactory.graph.dependencies t,
        testType e.name = some e := by decide +kernel
    exact hall _ (mem_testTypes h) e he

def testRegistry (policy : StaticTypePolicy) : TypeRegistry TypeTree :=
  .construct treeFactory.graph testStatic policy false

theorem registryOf_testRegistry {policy : StaticTypePolicy} (h : policy ≠ .fundamentalOnly) :
    RegistryOf testModel treeFactory.toTypeObjects (testRegistry policy) := by
  refine .construct false (fun _ n t ts ht => ?_) (fun n t ht => conforms_testType ht)
    fun n ⟨t, ht, hbuiltin⟩ => ⟨t, ht, ?_⟩
  · have hall : ∀ t ∈ testTypes, ∀ e ∈ treeFactory.graph.dependencies t,
        treeFactory.graph.kind t = .struct true (treeFactory.graph.dependencies t) →
          treeFactory.graph.isUserType e = false := by decide +kernel
    intro hkind e he
    have hdependencies : treeFactory.graph.dependencies t = ts := by
      rw [TypeGraph.dependencies, hkind]
      rfl
    exact hall t (mem_testTypes ht) e (hdependencies ▸ he) (hdependencies ▸ hkind)
  · have hall : ∀ policy : StaticTypePolicy, policy ≠ .fundamentalOnly → ∀ t ∈ testTypes,
        testBuiltin t = true → TypeRegistry.admits treeFactory.graph t policy = true := by
      intro policy h
      cases policy with
      | fundamentalOnly => exact absurd rfl h
      | internalOnly => decide +kernel
      | all => intros; rfl
    exact hall policy h t (mem_testTypes ht) hbuiltin

/-- The guest starts with all types and the host with the internal ones. -/
def testPolicy : Side → StaticTypePolicy
  | .guest => .all
  | .host => .internalOnly

def testStart : Link TypeTree := .start fun b => testRegistry (testPolicy b)

def testActs : List (Act TypeTree) :=
  [.transmit .guest testVectorStruct, .receive .host, .receive .host, .receive .host]

def testAllowed (l : Link TypeTree) : Act TypeTree → Bool
  | .transmit b t => t == testVectorStruct && ((l.party b).store.registry.findType t.name).isSome
  | .receive _ => true
  | _ => false

theorem allowed_testAllowed (l : Link TypeTree) (a : Act TypeTree) (h : testAllowed l a = true) :
    l.Allowed testModel (fun _ => treeFactory) a := by
  cases a with
  | transmit b t =>
    obtain ⟨ht, hknown⟩ := Bool.and_eq_true_iff.mp h
    obtain rfl := eq_of_beq ht
    have ht : testType testVectorStruct.name = some testVectorStruct := by decide +kernel
    have hdata : ¬(testVectorStruct.name = "EnumDescriptorData" ∨
        testVectorStruct.name = "StructDescriptorData") := by decide +kernel
    exact ⟨⟨conforms_testType ht, Option.isSome_iff_ne_none.mp hknown⟩, ⟨_, _, ht⟩, hdata⟩
  | receive b => trivial
  | registerType b t assertNewType => cases h
  | transmitDescriptor b t => cases h
  | transmitTransmission b m => cases h

end Exchange

end Dots

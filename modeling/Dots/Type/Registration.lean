import Mathlib.Data.List.Basic
import Mathlib.Data.List.Nodup
import Mathlib.Logic.Function.Basic
import Mathlib.Tactic.SplitIfs

/-!
# The registration of types

With a type, the types that it refers to are registered. The descriptors of a program share what
they refer to, and different ones may have the same name.

* `TypeGraph`: the descriptors and what they refer to.
* `TypeRegistry`: `type::Registry` with the invocations of its handler; `construct`, `registerType`.
* `Partway`: the state within nested registrations.
* **`registers_run`**: what a sequence of registrations does.
-/

set_option autoImplicit false

namespace Dots

variable {D : Type}

/-! ## Descriptors -/

/-- The descriptors that a descriptor refers to, by the kind of type it describes. -/
inductive TypeKind (D : Type)
  | fundamental
  | enum (underlyingDescriptor : D)
  | vector (valueDescriptor : D)
  | struct (internal : Bool) (valueDescriptors : List D)
  deriving DecidableEq

def TypeKind.dependencies : TypeKind D → List D
  | .fundamental => []
  | .enum d => [d]
  | .vector d => [d]
  | .struct _ ds => ds

/-- The descriptors of a program. A descriptor is constructed after those that it refers to. -/
structure TypeGraph (D : Type) where
  name : D → String
  kind : D → TypeKind D
  constructed : D → ℕ
  constructed_lt (d : D) : ∀ e ∈ (kind d).dependencies, constructed e < constructed d
  kind_underlying {d e : D} : kind d = .enum e → kind e = .fundamental

namespace TypeGraph

variable (g : TypeGraph D)

def dependencies (d : D) : List D := (g.kind d).dependencies

/-- `Descriptor::isFundamentalType`. A vector is fundamental if its elements are. -/
def isFundamentalType (d : D) : Bool :=
  match _h : g.kind d with
  | .fundamental => true
  | .vector e => isFundamentalType e
  | _ => false
termination_by g.constructed d
decreasing_by exact g.constructed_lt d e (by rw [‹g.kind d = _›]; exact List.mem_singleton_self e)

theorem isFundamentalType_vector {d e : D} (h : g.kind d = .vector e) :
    g.isFundamentalType d = g.isFundamentalType e := by
  rw [isFundamentalType]
  split <;> simp_all

/-- What a fundamental type refers to is fundamental. -/
theorem isFundamentalType_dependency {d e : D} (h : g.isFundamentalType d = true)
    (he : e ∈ g.dependencies d) : g.isFundamentalType e = true := by
  rw [dependencies] at he
  cases hd : g.kind d with
  | fundamental => simp [hd, TypeKind.dependencies] at he
  | vector d' =>
    rw [hd, TypeKind.dependencies, List.mem_singleton] at he
    rw [he, ← g.isFundamentalType_vector hd]
    exact h
  | enum d' =>
    rw [isFundamentalType] at h
    split at h <;> simp_all
  | struct internal ds =>
    rw [isFundamentalType] at h
    split at h <;> simp_all

/-- `Registry::IsUserType`. -/
def isUserType (d : D) : Bool :=
  match _h : g.kind d with
  | .struct internal _ => !internal
  | .vector e => isUserType e
  | _ => false
termination_by g.constructed d
decreasing_by exact g.constructed_lt d e (by rw [‹g.kind d = _›]; exact List.mem_singleton_self e)

theorem isUserType_struct {d : D} {internal : Bool} {ds : List D}
    (h : g.kind d = .struct internal ds) : g.isUserType d = !internal := by
  rw [isUserType]
  split <;> simp_all

theorem isUserType_vector {d e : D} (h : g.kind d = .vector e) :
    g.isUserType d = g.isUserType e := by
  rw [isUserType]
  split <;> simp_all

theorem isUserType_fundamental {d : D} (h : g.kind d = .fundamental) : g.isUserType d = false := by
  rw [isUserType]
  split <;> simp_all

end TypeGraph

/-- The static descriptors of a program, by name. An instance is constructed from the instances that
it refers to. -/
structure StaticDescriptors (g : TypeGraph D) where
  find : String → Option D
  name_eq {name : String} {d : D} : find name = some d → g.name d = name
  closed {name : String} {d : D} : find name = some d →
    ∀ e ∈ g.dependencies d, find (g.name e) = some e

/-- `Registry::StaticTypePolicy`. -/
inductive StaticTypePolicy
  | fundamentalOnly
  | internalOnly
  | all
  deriving DecidableEq

/-! ## The registry -/

/-- `type::Registry`: the types by name and the types that the handler has been invoked for, if
there is one. -/
structure TypeRegistry (D : Type) where
  types : String → Option D
  newTypeHandler : Option (List D)

namespace TypeRegistry

variable (g : TypeGraph D) (r : TypeRegistry D)

def findType (name : String) : Option D := r.types name

/-- `DescriptorMap::emplace` of a descriptor whose name is free. -/
def emplace (d : D) : TypeRegistry D :=
  { r with types := Function.update r.types (g.name d) (some d) }

def handleNewType (d : D) : TypeRegistry D :=
  { r with newTypeHandler := r.newTypeHandler.map (· ++ [d]) }

/-- The static types that a registry has from the beginning. -/
def admits (d : D) : StaticTypePolicy → Bool
  | .fundamentalOnly =>
    g.isFundamentalType d ||
      match g.kind d with
      | .vector e => g.isFundamentalType e
      | _ => false
  | .internalOnly => !g.isUserType d
  | .all => true

def construct (static : StaticDescriptors g) (policy : StaticTypePolicy)
    (hasNewTypeHandler : Bool) : TypeRegistry D :=
  { types := fun name => (static.find name).filter fun d => admits g d policy
    newTypeHandler := if hasNewTypeHandler then some [] else none }

/-- `Registry::registerType`. -/
def registerType (d : D) (assertNewType : Bool) (r : TypeRegistry D) :
    TypeRegistry D × Except String D :=
  match r.findType (g.name d) with
  | some d' =>
    (r, if assertNewType then .error ("there already is a type with name: " ++ g.name d)
      else .ok d')
  | none =>
    let r := r.emplace g d
    let r := (g.dependencies d).attach.foldl (fun r e => (registerType e.1 false r).1) r
    (r.handleNewType d, .ok d)
termination_by g.constructed d
decreasing_by exact g.constructed_lt d e.1 e.2

/-- The registry after a sequence of registrations. -/
def run (r : TypeRegistry D) (calls : List (D × Bool)) : TypeRegistry D :=
  calls.foldl (fun r call => (registerType g call.1 call.2 r).1) r

/-! ## Single registrations -/

variable {g} {r}

theorem registerType_of_some {d d' : D} {assertNewType : Bool}
    (h : r.findType (g.name d) = some d') : (registerType g d assertNewType r).1 = r := by
  rw [registerType, h]

theorem registerType_of_none {d : D} (assertNewType : Bool) (h : r.findType (g.name d) = none) :
    registerType g d assertNewType r =
      (((g.dependencies d).foldl (fun r e => (registerType g e false r).1)
        (r.emplace g d)).handleNewType d, .ok d) := by
  rw [registerType, h]
  simp only [List.foldl_subtype, List.unattach_attach]

theorem findType_emplace_self (d : D) : (r.emplace g d).findType (g.name d) = some d :=
  Function.update_self ..

theorem findType_emplace_of_ne {d : D} {name : String} (h : name ≠ g.name d) :
    (r.emplace g d).findType name = r.findType name :=
  Function.update_of_ne h ..

@[simp] theorem findType_handleNewType (d : D) (name : String) :
    (r.handleNewType d).findType name = r.findType name := rfl

/-! ## Nested registrations -/

variable (g)

def Registered (r : TypeRegistry D) (d : D) : Prop := r.findType (g.name d) = some d

/-- The types that are handled one after the other: each of them once, after those that it refers
to. -/
structure Handled (handled : List D) : Prop where
  nodup : handled.Nodup
  ordered (l₁ l₂ : List D) (d : D) : handled = l₁ ++ d :: l₂ →
    ∀ e ∈ g.dependencies d, e ∈ handled → e ∈ l₁

/-- The state within registrations that began in `r₀`, when the types of `pending` are registered
but not handled. -/
structure Partway (r₀ : TypeRegistry D) (pending handled : List D) (r : TypeRegistry D) : Prop where
  name_eq {name : String} {d : D} : r.findType name = some d → g.name d = name
  kept {name : String} {d : D} : r₀.findType name = some d → r.findType name = some d
  handler : r.newTypeHandler = r₀.newTypeHandler.map (· ++ handled)
  new (d : D) : d ∈ handled ∨ d ∈ pending ↔ Registered g r d ∧ r₀.findType (g.name d) = none
  disjoint : ∀ d ∈ pending, d ∉ handled
  closed {d : D} : Registered g r d → d ∉ pending →
    ∀ e ∈ g.dependencies d, r.findType (g.name e) ≠ none ∧ e ∉ pending
  handled : Handled g handled

variable {g} {r₀ : TypeRegistry D} {pending handled : List D}

theorem Partway.emplace (h : Partway g r₀ pending handled r) {d : D}
    (hnew : r.findType (g.name d) = none) :
    Partway g r₀ (d :: pending) handled (r.emplace g d) where
  name_eq {name d'} hfind := by
    rcases eq_or_ne name (g.name d) with rfl | hne
    · rw [findType_emplace_self, Option.some_inj] at hfind
      rw [hfind]
    · rw [findType_emplace_of_ne hne] at hfind
      exact h.name_eq hfind
  kept {name d'} hfind := by
    have hne : name ≠ g.name d := by
      rintro rfl
      rw [h.kept hfind] at hnew
      cases hnew
    rw [findType_emplace_of_ne hne, h.kept hfind]
  handler := h.handler
  new d' := by
    rw [List.mem_cons, or_left_comm, h.new, Registered, Registered]
    rcases eq_or_ne (g.name d') (g.name d) with heq | hne
    · rw [heq, findType_emplace_self, hnew, Option.some_inj, eq_comm]
      have hfree : r₀.findType (g.name d) = none := by
        cases hfind : r₀.findType (g.name d) with
        | none => rfl
        | some _ => rw [h.kept hfind] at hnew; cases hnew
      simp [hfree]
    · rw [findType_emplace_of_ne hne]
      exact or_iff_right fun heq => hne (congrArg g.name heq)
  disjoint d' hmem hhandled := by
    rcases List.mem_cons.mp hmem with rfl | hmem
    · have hregistered := ((h.new d').mp (.inl hhandled)).1
      rw [Registered, hnew] at hregistered
      cases hregistered
    · exact h.disjoint d' hmem hhandled
  closed {d'} hregistered hmem e he := by
    rw [List.mem_cons, not_or] at hmem
    have hne : g.name d' ≠ g.name d := by
      intro heq
      rw [Registered, heq, findType_emplace_self, Option.some_inj] at hregistered
      exact hmem.1 hregistered.symm
    rw [Registered, findType_emplace_of_ne hne] at hregistered
    obtain ⟨hfind, hpending⟩ := h.closed hregistered hmem.2 e he
    have hother : g.name e ≠ g.name d := fun heq => hfind (heq ▸ hnew)
    rw [findType_emplace_of_ne hother, List.mem_cons, not_or]
    exact ⟨hfind, fun heq => hother (congrArg g.name heq), hpending⟩
  handled := h.handled

/-- A type is handled when those that it refers to are registered. -/
theorem Partway.handle {d : D} (h : Partway g r₀ (d :: pending) handled r) (hmem : d ∉ pending)
    (hdependencies : ∀ e ∈ g.dependencies d, r.findType (g.name e) ≠ none ∧ e ∉ d :: pending) :
    Partway g r₀ pending (handled ++ [d]) (r.handleNewType d) where
  name_eq := h.name_eq
  kept := h.kept
  handler := by
    show r.newTypeHandler.map _ = _
    rw [h.handler, Option.map_map]
    congr 1
    funext l
    exact List.append_assoc ..
  new d' := by
    have hnew := h.new d'
    rw [List.mem_cons] at hnew
    rw [List.mem_append, List.mem_singleton, or_assoc]
    exact hnew
  disjoint d' hd' hhandled := by
    rcases List.mem_append.mp hhandled with hhandled | heq
    · exact h.disjoint d' (List.mem_cons_of_mem d hd') hhandled
    · exact hmem (List.mem_singleton.mp heq ▸ hd')
  closed {d'} hregistered hd' e he := by
    have hwhole : r.findType (g.name e) ≠ none ∧ e ∉ d :: pending := by
      by_cases heq : d' = d
      · exact hdependencies e (heq ▸ he)
      · exact h.closed hregistered (by simp [heq, hd']) e he
    exact ⟨hwhole.1, fun hpending => hwhole.2 (List.mem_cons_of_mem d hpending)⟩
  handled :=
    { nodup := by
        rw [List.nodup_append]
        refine ⟨h.handled.nodup, List.nodup_singleton d, ?_⟩
        rintro e he _ hd rfl
        exact h.disjoint e (List.mem_singleton.mp hd ▸ List.mem_cons_self) he
      ordered := by
        intro l₁ l₂ d' hsplit e he hhandled
        rcases List.eq_nil_or_concat l₂ with rfl | ⟨l₂, last, rfl⟩
        · -- the last one is `d` itself, which does not refer to itself
          obtain ⟨rfl, hlast⟩ := List.append_inj' hsplit rfl
          obtain rfl : d = d' := by simpa using hlast
          rcases List.mem_append.mp hhandled with hhandled | heq
          · exact hhandled
          · exact absurd (List.mem_singleton.mp heq ▸ List.mem_cons_self) (hdependencies e he).2
        · rw [List.concat_eq_append, ← List.cons_append, ← List.append_assoc] at hsplit
          obtain ⟨hinit, -⟩ := List.append_inj' hsplit rfl
          rcases List.mem_append.mp hhandled with hhandled | heq
          · exact h.handled.ordered l₁ l₂ d' hinit e he hhandled
          · -- a handled type does not refer to a pending one
            have hd' : d' ∈ handled := hinit ▸ by simp
            have hregistered := ((h.new d').mp (.inl hd')).1
            have hpending : d' ∉ d :: pending := fun hmem => h.disjoint d' hmem hd'
            exact absurd (List.mem_singleton.mp heq ▸ List.mem_cons_self)
              (h.closed hregistered hpending e he).2 }

/-- An entry of the registry is never replaced. -/
def Keeps (r r' : TypeRegistry D) : Prop :=
  ∀ name d, r.findType name = some d → r'.findType name = some d

theorem Keeps.ne_none {r r' : TypeRegistry D} (h : Keeps r r') {name : String}
    (hfind : r.findType name ≠ none) : r'.findType name ≠ none := by
  obtain ⟨d, hd⟩ := Option.ne_none_iff_exists'.mp hfind
  rw [h name d hd]
  exact Option.some_ne_none d

theorem keeps_emplace {d : D} (h : r.findType (g.name d) = none) : Keeps r (r.emplace g d) := by
  intro name d' hfind
  have hne : name ≠ g.name d := by
    rintro rfl
    rw [hfind] at h
    cases h
  rw [findType_emplace_of_ne hne, hfind]

/-- What a registration does in between others. -/
def Registers (g : TypeGraph D) (r₀ : TypeRegistry D) (pending : List D) (e : D)
    (f : TypeRegistry D → TypeRegistry D) : Prop :=
  ∀ {r : TypeRegistry D} {handled : List D}, Partway g r₀ pending handled r →
    (∃ handled', Partway g r₀ pending (handled ++ handled') (f r)) ∧ Keeps r (f r) ∧
      (f r).findType (g.name e) ≠ none

/-- The types that another one refers to are registered one after the other. -/
theorem registers_foldl {f : D → TypeRegistry D → TypeRegistry D} {es : List D}
    (hstep : ∀ e ∈ es, Registers g r₀ pending e (f e)) :
    ∀ {r : TypeRegistry D} {handled : List D}, Partway g r₀ pending handled r →
      (∃ handled', Partway g r₀ pending (handled ++ handled') (es.foldl (fun r e => f e r) r)) ∧
        Keeps r (es.foldl (fun r e => f e r) r) ∧
        ∀ e ∈ es, (es.foldl (fun r e => f e r) r).findType (g.name e) ≠ none := by
  induction es with
  | nil => exact fun h => ⟨⟨[], by rwa [List.append_nil]⟩, fun _ _ hfind => hfind, nofun⟩
  | cons e es ih =>
    intro r handled h
    obtain ⟨⟨handled₁, h₁⟩, hkeeps₁, hfind⟩ := hstep e List.mem_cons_self h
    obtain ⟨⟨handled₂, h₂⟩, hkeeps₂, hrest⟩ :=
      ih (fun e' he' => hstep e' (List.mem_cons_of_mem e he')) h₁
    refine ⟨⟨handled₁ ++ handled₂, by rwa [← List.append_assoc]⟩,
      fun name d hd => hkeeps₂ name d (hkeeps₁ name d hd), ?_⟩
    intro e' he'
    rcases List.mem_cons.mp he' with rfl | he'
    · exact hkeeps₂.ne_none hfind
    · exact hrest e' he'

/-- **A nested registration**: the types that are registered in it are handled when it ends. The
types that are registered around it are constructed from its type. -/
theorem registers_registerType {pending : List D} (d : D) (assertNewType : Bool)
    (hpending : ∀ p ∈ pending, g.constructed d < g.constructed p) :
    Registers g r₀ pending d fun r => (registerType g d assertNewType r).1 := by
  intro r handled h
  beta_reduce
  cases hfind : r.findType (g.name d) with
  | some d' =>
    rw [registerType_of_some hfind, hfind]
    exact ⟨⟨[], by rwa [List.append_nil]⟩, fun _ _ hname => hname, Option.some_ne_none d'⟩
  | none =>
    have hnew := h.emplace hfind
    have hearlier : ∀ e ∈ g.dependencies d, ∀ p ∈ d :: pending,
        g.constructed e < g.constructed p := by
      intro e he p hp
      have hlt := g.constructed_lt d e he
      rcases List.mem_cons.mp hp with rfl | hp
      · exact hlt
      · exact Nat.lt_trans hlt (hpending p hp)
    have hmem : d ∉ pending := fun hmem => Nat.lt_irrefl _ (hpending d hmem)
    obtain ⟨⟨handled', hwhole⟩, hkeeps, hdependencies⟩ :=
      registers_foldl (fun e he => registers_registerType e false (hearlier e he)) hnew
    have hdone := hwhole.handle hmem fun e he =>
      ⟨hdependencies e he, fun hp => Nat.lt_irrefl _ (hearlier e he e hp)⟩
    rw [registerType_of_none assertNewType hfind]
    refine ⟨⟨handled' ++ [d], by rwa [← List.append_assoc]⟩, ?_, ?_⟩
    · intro name d' hname
      exact hkeeps name d' (keeps_emplace hfind name d' hname)
    · rw [findType_handleNewType, hkeeps _ d (findType_emplace_self d)]
      exact Option.some_ne_none d
termination_by g.constructed d
decreasing_by exact g.constructed_lt d e he

/-! ## Sequences of registrations -/

variable (g)

/-- What a registry has is registered under its name, with what it refers to. -/
structure Sound (r : TypeRegistry D) : Prop where
  name_eq {name : String} {d : D} : r.findType name = some d → g.name d = name
  closed {d : D} : Registered g r d → ∀ e ∈ g.dependencies d, r.findType (g.name e) ≠ none

/-- What registrations do: every type that a registered one refers to is registered under its name,
if not by its own descriptor then by one that was there before it, since entries are never replaced;
and the handler is invoked for the types that are new, once for each of them and in order. -/
structure Extension (r r' : TypeRegistry D) : Prop where
  closed (d : D) : Registered g r' d → ∀ e ∈ g.dependencies d,
    ∃ d', r'.findType (g.name e) = some d' ∧ g.name d' = g.name e
  keeps : Keeps r r'
  handler : ∃ handled, r'.newTypeHandler = r.newTypeHandler.map (· ++ handled) ∧
    (∀ d, d ∈ handled ↔ Registered g r' d ∧ ¬Registered g r d) ∧ Handled g handled

variable {g}

theorem Sound.partway (h : Sound g r) : Partway g r [] [] r where
  name_eq := h.name_eq
  kept hfind := hfind
  handler := by simp
  new d := by
    refine iff_of_false (by simp) ?_
    rintro ⟨hregistered, hnone⟩
    rw [Registered, hnone] at hregistered
    cases hregistered
  disjoint := nofun
  closed hregistered _ e he := ⟨h.closed hregistered e he, List.not_mem_nil⟩
  handled := { nodup := List.nodup_nil, ordered := by simp }

/-- Registrations one after the other. -/
theorem Partway.run (calls : List (D × Bool)) : ∀ {r : TypeRegistry D} {handled : List D},
    Partway g r₀ [] handled r →
      ∃ handled', Partway g r₀ [] (handled ++ handled') (r.run g calls) := by
  induction calls with
  | nil => exact fun h => ⟨[], by rwa [List.append_nil]⟩
  | cons call calls ih =>
    intro r handled h
    have hnone : ∀ p ∈ ([] : List D), g.constructed call.1 < g.constructed p := nofun
    obtain ⟨⟨handled₁, h₁⟩, -⟩ := registers_registerType call.1 call.2 hnone h
    obtain ⟨handled₂, h₂⟩ := ih h₁
    exact ⟨handled₁ ++ handled₂, by rwa [← List.append_assoc]⟩

theorem Partway.sound (h : Partway g r₀ [] handled r) : Sound g r where
  name_eq := h.name_eq
  closed hregistered e he := (h.closed hregistered List.not_mem_nil e he).1

theorem Partway.extension (h : Partway g r₀ [] handled r) : Extension g r₀ r where
  closed d hregistered e he := by
    obtain ⟨d', hd'⟩ :=
      Option.ne_none_iff_exists'.mp (h.closed hregistered List.not_mem_nil e he).1
    exact ⟨d', hd', h.name_eq hd'⟩
  keeps _ _ := h.kept
  handler := by
    refine ⟨handled, h.handler, fun d => ?_, h.handled⟩
    have hnew := h.new d
    rw [or_iff_left List.not_mem_nil] at hnew
    refine hnew.trans (and_congr_right fun hregistered => ?_)
    constructor
    · intro hnone hold
      rw [Registered, hnone] at hold
      cases hold
    · intro hold
      cases hfind : r₀.findType (g.name d) with
      | none => rfl
      | some d' =>
        have hkept := h.kept hfind
        rw [hregistered, Option.some_inj] at hkept
        exact absurd (hkept ▸ hfind) hold

/-! ## The types of the beginning -/

theorem findType_construct {static : StaticDescriptors g} {policy : StaticTypePolicy}
    {hasHandler : Bool} {name : String} {d : D} :
    (construct g static policy hasHandler).findType name = some d ↔
      static.find name = some d ∧ admits g d policy = true :=
  Option.filter_eq_some_iff

/-- The second test of the constructor is the first one for a vector. -/
theorem admits_fundamentalOnly (d : D) :
    admits g d .fundamentalOnly = g.isFundamentalType d := by
  unfold admits
  cases hd : g.kind d with
  | vector e => simp [g.isFundamentalType_vector hd]
  | _ => simp

/-- A static type is admitted with those that it refers to, if no internal struct has a property of
a user type. -/
theorem admits_dependencies {policy : StaticTypePolicy} {d : D}
    (hpolicy : policy = .internalOnly → ∀ ds, g.kind d = .struct true ds →
      ∀ e ∈ ds, g.isUserType e = false) (h : admits g d policy = true) :
    ∀ e ∈ g.dependencies d, admits g e policy = true := by
  intro e he
  cases policy with
  | all => rfl
  | fundamentalOnly =>
    rw [admits_fundamentalOnly] at h ⊢
    exact g.isFundamentalType_dependency h he
  | internalOnly =>
    rw [TypeGraph.dependencies] at he
    have huser : g.isUserType d = false := by simpa [admits] using h
    have hother : g.isUserType e = false := by
      cases hd : g.kind d with
      | fundamental => simp [hd, TypeKind.dependencies] at he
      | enum d' =>
        rw [hd, TypeKind.dependencies, List.mem_singleton] at he
        exact g.isUserType_fundamental (g.kind_underlying (he ▸ hd))
      | vector d' =>
        rw [hd, TypeKind.dependencies, List.mem_singleton] at he
        rw [← huser, g.isUserType_vector hd, he]
      | struct internal ds =>
        rw [g.isUserType_struct hd, Bool.not_eq_false'] at huser
        subst huser
        rw [hd] at he
        exact hpolicy rfl ds hd e he
    simp [admits, hother]

theorem sound_construct {static : StaticDescriptors g} {policy : StaticTypePolicy}
    (hasHandler : Bool)
    (hpolicy : policy = .internalOnly → ∀ name d ds, static.find name = some d →
      g.kind d = .struct true ds → ∀ e ∈ ds, g.isUserType e = false) :
    Sound g (construct g static policy hasHandler) where
  name_eq hfind := static.name_eq (findType_construct.mp hfind).1
  closed {d} hregistered e he := by
    obtain ⟨hfind, hadmits⟩ := findType_construct.mp hregistered
    have hother := admits_dependencies (fun hp ds => hpolicy hp _ d ds hfind) hadmits e he
    rw [findType_construct.mpr ⟨static.closed hfind e he, hother⟩]
    exact Option.some_ne_none e

/-- **Every sequence of registrations**, after any other one, keeps the registry closed under what
its types refer to and has every new type handled once, after those that it refers to. -/
theorem extension_run (static : StaticDescriptors g) (policy : StaticTypePolicy) (hasHandler : Bool)
    (hpolicy : policy = .internalOnly → ∀ name d ds, static.find name = some d →
      g.kind d = .struct true ds → ∀ e ∈ ds, g.isUserType e = false)
    (calls calls' : List (D × Bool)) :
    Extension g ((construct g static policy hasHandler).run g calls)
      (((construct g static policy hasHandler).run g calls).run g calls') := by
  obtain ⟨_, hbefore⟩ := (sound_construct hasHandler hpolicy).partway.run calls
  obtain ⟨_, hafter⟩ := hbefore.sound.partway.run calls'
  exact hafter.extension

/-- Readings, vectors of readings and reports, which are internal and refer to both. -/
def reportGraph : TypeGraph (Fin 4) where
  name d := ["int32", "Reading", "vector<Reading>", "Report"].get d
  kind d := [.fundamental, .struct false [0], .vector 1, .struct true [1, 2]].get d
  constructed d := d
  constructed_lt := by decide
  kind_underlying {d e} h := by
    have hnone : ∀ d e : Fin 4, ([.fundamental, .struct false [0], .vector 1, .struct true [1, 2]] :
      List (TypeKind (Fin 4))).get d ≠ .enum e := by decide
    exact absurd h (hnone d e)

/-- The static descriptors of a program that has no readings. -/
def fundamentalStatic : StaticDescriptors reportGraph where
  find name := if name = "int32" then some 0 else none
  name_eq {name d} hfind := by
    split_ifs at hfind with hname
    cases hfind
    exact hname.symm
  closed {name d} hfind := by
    split_ifs at hfind
    cases hfind
    exact nofun

/-- The static descriptors of a program that has the readings and the reports. -/
def reportStatic : StaticDescriptors reportGraph where
  find name := (List.finRange 4).find? fun d => reportGraph.name d = name
  name_eq hfind := by simpa using List.find?_some hfind
  closed {_ d} _ e _ := by
    have hself : ∀ e : Fin 4,
        (List.finRange 4).find? (fun d => reportGraph.name d = reportGraph.name e) = some e := by
      decide
    exact hself e

theorem extension_run_report :
    let r :=
      (construct reportGraph fundamentalStatic .internalOnly true).run reportGraph [(1, true)]
    Extension reportGraph r (r.run reportGraph [(3, true), (2, false)]) :=
  extension_run fundamentalStatic .internalOnly true
    (fun _ name d ds hfind hkind => by
      have hd : d = 0 := by
        simp only [fundamentalStatic] at hfind
        split_ifs at hfind
        exact (Option.some_inj.mp hfind).symm
      subst hd
      cases hkind) [(1, true)] [(3, true), (2, false)]

/-- Of a static internal struct the user types are missing in a registry of internal types. -/
theorem not_extension_run :
    ¬Extension reportGraph (construct reportGraph reportStatic .internalOnly true)
      ((construct reportGraph reportStatic .internalOnly true).run reportGraph [(3, false)]) := by
  have hreport : Registered reportGraph (construct reportGraph reportStatic .internalOnly true) 3 :=
    findType_construct.mpr ⟨by decide, by
      simp [admits, reportGraph.isUserType_struct (d := 3) rfl]⟩
  have hrun : (construct reportGraph reportStatic .internalOnly true).run reportGraph [(3, false)] =
      construct reportGraph reportStatic .internalOnly true := registerType_of_some hreport
  intro h
  rw [hrun] at h
  obtain ⟨d, hfind, hname⟩ := h.closed 3 hreport 1 (by decide)
  obtain ⟨hstatic, hadmits⟩ := findType_construct.mp hfind
  have hsame : ∀ d, reportGraph.name d = reportGraph.name 1 → d = 1 := by decide
  obtain rfl := hsame d hname
  simp [admits, reportGraph.isUserType_struct (d := 1) rfl] at hadmits

end TypeRegistry

end Dots

import Dots.Cbor.Serializer
import Dots.Lib.Keep

/-!
# The visitor of the writing side

* `Visitor σ`: what a serializer with state `σ` does at the parts of a value.
* `visitType`, `visitProperties`, `visit`: the traversal, with the counter of the visiting level. A
  serializer that throws leaves the counter, and what it has written, as they are.
* `Visitor.ThrowsAtEnums`: only an enum value without an enumerator makes the serializer throw.
* **`succeeds_visit`**: then a visit returns exactly if the enum values have enumerators, and the
  counter is what it was.
-/

set_option autoImplicit false

namespace Dots

/-- The functions of a serializer that `TypeVisitor` calls. -/
structure Visitor (σ : Type) where
  /-- The included properties are passed by reference and can be changed. -/
  visitStructBegin (ps : PropertyDescriptors) (x : Instance ps) (includedProperties : PropertySet) :
    Keep Exception σ PropertySet
  visitStructEnd : Keep Exception σ Unit
  visitPropertyBegin (visitingLevel : ℕ) (p : PropertyDescriptor) (isValid : Bool) :
    Keep Exception σ Bool
  visitVectorBegin (size : ℕ) : Keep Exception σ Unit
  visitVectorEnd : Keep Exception σ Unit
  visitEnum (name : String) (enumerators : List EnumeratorDescriptor) (value : BitVec 32) :
    Keep Exception σ Unit
  visitFundamentalType (t : FundamentalType) (value : t.Value) : Keep Exception σ Unit

structure VisitorState (σ : Type) where
  constVisitingLevel : ℕ
  derived : σ

namespace TypeVisitor

variable {σ α : Type}

abbrev Visit (σ : Type) := Keep Exception (VisitorState σ)

/-- A function of the serializer. -/
def derived (m : Keep Exception σ α) : Visit σ α := ExceptT.mk fun s =>
  let (r, d) := m.exec s.derived
  (r, { s with derived := d })

def incrementVisitingLevel : Visit σ Unit :=
  Keep.change fun s => { s with constVisitingLevel := s.constVisitingLevel + 1 }

def decrementVisitingLevel : Visit σ Unit :=
  Keep.change fun s => { s with constVisitingLevel := s.constVisitingLevel - 1 }

/-- `visitPropertyInternal`. -/
def visitPropertyInternal (k : Visitor σ) (p : PropertyDescriptor) (value : Option (Visit σ Unit)) :
    Visit σ Unit := do
  let s ← get
  let visits ← derived (k.visitPropertyBegin (visitingLevel s.constVisitingLevel) p value.isSome)
  match visits, value with
  | true, some visitValue => visitValue
  | _, _ => pure ()

/-- The body of the loop of `visitStructInternal`. -/
def visitProperty (k : Visitor σ) (included : PropertySet) (p : PropertyDescriptor)
    (value : Option (Visit σ Unit)) : Visit σ Unit :=
  if p.set ⊆ included then visitPropertyInternal k p value else pure ()

mutual

/-- `visitTypeInternal`. -/
def visitType (k : Visitor σ) : (d : TypeDescriptor) → Value d → Visit σ Unit
  | .fundamental t, v => derived (k.visitFundamentalType t v)
  | .enumeration name es, v => derived (k.visitEnum name es v)
  | .vector d, vs => do
    derived (k.visitVectorBegin vs.1.length)
    incrementVisitingLevel
    vs.1.forM (visitType k d)
    decrementVisitingLevel
    derived k.visitVectorEnd
  | .struct ps, x => do
    let included ← derived (k.visitStructBegin ps x (x.validProperties ps))
    incrementVisitingLevel
    visitProperties k included ps x
    decrementVisitingLevel
    derived k.visitStructEnd

/-- The loop of `visitStructInternal`. -/
def visitProperties (k : Visitor σ) (included : PropertySet) :
    (ps : PropertyDescriptors) → Instance ps → Visit σ Unit
  | .nil, _ => pure ()
  | .cons p d ps, (v, x) => do
    visitProperty k included p (v.map (visitType k d))
    visitProperties k included ps x

end

/-- `visitStructInternal`. -/
def visitStruct (k : Visitor σ) (ps : PropertyDescriptors) (x : Instance ps)
    (includedProperties : PropertySet) : Visit σ Unit := do
  let included ← derived (k.visitStructBegin ps x includedProperties)
  incrementVisitingLevel
  visitProperties k included ps x
  decrementVisitingLevel
  derived k.visitStructEnd

/-- `visit` of an instance. -/
def visit (k : Visitor σ) (ps : PropertyDescriptors) (x : Instance ps)
    (includedProperties : PropertySet) : Visit σ Unit := do
  incrementVisitingLevel
  visitStruct k ps x includedProperties
  decrementVisitingLevel

/-! ## The parts of a traversal -/

variable {k : Visitor σ} {s s' : VisitorState σ} {a : α}

open Keep

theorem gives_derived {m : Keep Exception σ α} {d d' : σ} {l : ℕ} (h : m.Gives d a d') :
    Gives (derived m) ⟨l, d⟩ a ⟨l, d'⟩ := by
  have hexec : m.exec d = (.ok a, d') := h
  show (let (r, d) := m.exec d; ((r, ⟨l, d⟩) : Except Exception α × VisitorState σ)) = _
  rw [hexec]

/-- A property that is not included. -/
theorem gives_visitProperties_of_notMem {included : PropertySet} {p : PropertyDescriptor}
    {d : TypeDescriptor} {ps : PropertyDescriptors} {v : Option (Value d)} {x : Instance ps}
    (hp : p.tag ∉ included) (h : Gives (visitProperties k included ps x) s () s') :
    Gives (visitProperties k included (.cons p d ps) (v, x)) s () s' := by
  have hskip : visitProperty k included p (v.map (visitType k d)) = pure () :=
    if_neg fun hsubset => hp (PropertyDescriptor.set_subset_iff.mp hsubset)
  rw [visitProperties, hskip]
  exact (gives_pure () s).bind h

end TypeVisitor

/-! ## Enum values without an enumerator -/

/-- Only an enum value that has no enumerator makes the serializer throw. -/
structure Visitor.ThrowsAtEnums {σ : Type} (k : Visitor σ) : Prop where
  structBegin (ps : PropertyDescriptors) (x : Instance ps) (included : PropertySet) (d : σ) :
    ∃ included' d', (k.visitStructBegin ps x included).Gives d included' d' ∧
      ∀ t ∈ x.validProperties ps, t ∈ included' ↔ t ∈ included
  structEnd (d : σ) : ∃ d', k.visitStructEnd.Gives d () d'
  propertyBegin (level : ℕ) (p : PropertyDescriptor) (isValid : Bool) (d : σ) :
    ∃ visits d', (k.visitPropertyBegin level p isValid).Gives d visits d' ∧
      (isValid = true → visits = true)
  vectorBegin (size : ℕ) (d : σ) : ∃ d', (k.visitVectorBegin size).Gives d () d'
  vectorEnd (d : σ) : ∃ d', k.visitVectorEnd.Gives d () d'
  enum (name : String) (es : List EnumeratorDescriptor) (v : BitVec 32) (d : σ) :
    (k.visitEnum name es v).Succeeds (∃ e ∈ es, e.value = v) d fun _ _ => True
  fundamental (t : FundamentalType) (v : t.Value) (d : σ) :
    ∃ d', (k.visitFundamentalType t v).Gives d () d'

namespace TypeVisitor

variable {σ α : Type} {k : Visitor σ} {l : ℕ}

open Keep

/-- The counter stands at `l`. -/
def AtLevel (l : ℕ) (_ : α) (s : VisitorState σ) : Prop := s.constVisitingLevel = l

theorem succeeds_derived {m : Keep Exception σ α} {P : Prop} {Q : α → σ → Prop}
    {s : VisitorState σ} (h : m.Succeeds P s.derived Q) (hs : s.constVisitingLevel = l) :
    (derived m).Succeeds P s fun a s' => AtLevel l a s' ∧ Q a s'.derived := by
  subst hs
  obtain ⟨hP, a, d', hgives, ha⟩ | ⟨hP, e, d', hthrows⟩ := h
  · exact .inl ⟨hP, a, _, gives_derived hgives, rfl, ha⟩
  · refine .inr ⟨hP, e, ⟨s.constVisitingLevel, d'⟩, ?_⟩
    have hexec : m.exec s.derived = (.error e, d') := hthrows
    show (let (r, d) := m.exec s.derived
      ((r, ⟨s.constVisitingLevel, d⟩) : Except Exception α × VisitorState σ)) = _
    rw [hexec]

/-- A function that always returns. -/
theorem succeeds_derived_of {m : Keep Exception σ α} {s : VisitorState σ} {Q : α → Prop}
    (h : ∀ d, ∃ a d', m.Gives d a d' ∧ Q a) (hs : s.constVisitingLevel = l) :
    (derived m).Succeeds True s fun a s' => AtLevel l a s' ∧ Q a := by
  obtain ⟨a, d', hgives, ha⟩ := h s.derived
  exact succeeds_derived (Q := fun a _ => Q a) (hgives.succeeds ha) hs

theorem succeeds_derived_unit {m : Keep Exception σ Unit} {s : VisitorState σ}
    (h : ∀ d, ∃ d', m.Gives d () d') (hs : s.constVisitingLevel = l) :
    (derived m).Succeeds True s (AtLevel l) := by
  obtain ⟨d', hgives⟩ := h s.derived
  exact (succeeds_derived (Q := fun _ _ => True) (hgives.succeeds trivial) hs).mono fun _ _ h => h.1

theorem succeeds_increment {s : VisitorState σ} (hs : s.constVisitingLevel = l) :
    (incrementVisitingLevel : Visit σ Unit).Succeeds True s (AtLevel (l + 1)) :=
  (gives_change _ s).succeeds (congrArg (· + 1) hs)

theorem succeeds_decrement {s : VisitorState σ} (hs : s.constVisitingLevel = l + 1) :
    (decrementVisitingLevel : Visit σ Unit).Succeeds True s (AtLevel l) :=
  (gives_change _ s).succeeds (congrArg (· - 1) hs)

theorem succeeds_visitProperty (hk : k.ThrowsAtEnums) {included : PropertySet}
    {p : PropertyDescriptor} {d : TypeDescriptor} {v : Option (Value d)} {s : VisitorState σ}
    (hv : ∀ v' ∈ v, ∀ s : VisitorState σ, s.constVisitingLevel = l →
      (visitType k d v').Succeeds (Value.Enumerated d v') s (AtLevel l))
    (hs : s.constVisitingLevel = l) :
    (visitProperty k included p (v.map (visitType k d))).Succeeds
      (∀ v' ∈ (if p.tag ∈ included then v else none), Value.Enumerated d v') s (AtLevel l) := by
  rw [visitProperty]
  simp only [PropertyDescriptor.set_subset_iff]
  split_ifs with hp
  · have hget : (get : Visit σ (VisitorState σ)).Gives s s s := rfl
    refine (hget.succeeds (Q := fun a s' => a = s ∧ s' = s) ⟨rfl, rfl⟩).then ?_
    rintro _ _ ⟨rfl, rfl⟩
    refine (succeeds_derived_of (hk.propertyBegin _ p _) hs).then fun visits s' hvisits => ?_
    cases v with
    | none =>
      have hgives : (pure () : Visit σ Unit).Gives s' () s' := gives_pure () s'
      have hpure := hgives.succeeds (Q := AtLevel l) hvisits.1
      cases visits <;> exact hpure.congr (by simp)
    | some v =>
      rw [hvisits.2 rfl]
      exact (hv v rfl s' hvisits.1).congr (by simp)
  · exact ((gives_pure () s).succeeds (Q := AtLevel l) hs).congr (by simp)

theorem succeeds_visitStruct_of (hk : k.ThrowsAtEnums) {ps : PropertyDescriptors} {x : Instance ps}
    (included : PropertySet) {s : VisitorState σ} (hs : s.constVisitingLevel = l)
    (h : ∀ (included : PropertySet) (s : VisitorState σ), s.constVisitingLevel = l + 1 →
      (visitProperties k included ps x).Succeeds
        (Instance.Enumerated ps (Instance.restrict ps included x)) s (AtLevel (l + 1))) :
    (visitStruct k ps x included).Succeeds
      (Instance.Enumerated ps (Instance.restrict ps included x)) s (AtLevel l) := by
  refine (succeeds_derived_of (hk.structBegin ps x _) hs).then fun included' s hs => ?_
  refine (succeeds_increment hs.1).then fun _ s hs' => ?_
  refine ((h included' s hs').finally fun _ s hs => ?_).congr ?_
  · exact (succeeds_decrement hs).then fun _ s hs => succeeds_derived_unit hk.structEnd hs
  · rw [Instance.restrict_congr ps x hs.2]

mutual

/-- **A value is visited** exactly if its enum values have enumerators. -/
theorem succeeds_visitType (hk : k.ThrowsAtEnums) : (d : TypeDescriptor) → (v : Value d) →
    (l : ℕ) → (s : VisitorState σ) → s.constVisitingLevel = l →
    (visitType k d v).Succeeds (Value.Enumerated d v) s (AtLevel l)
  | .fundamental t, v, l, s, hs =>
    (succeeds_derived_unit (hk.fundamental t v) hs).congr (by simp [Value.Enumerated])
  | .enumeration name es, v, l, s, hs =>
    ((succeeds_derived (hk.enum name es v _) hs).mono fun _ _ h => h.1).congr
      (by simp [Value.Enumerated])
  | .vector d, vs, l, s, hs => by
    refine (succeeds_derived_unit (hk.vectorBegin _) hs).then fun _ s hs => ?_
    refine (succeeds_increment hs).then fun _ s hs => ?_
    have hitems : (vs.1.forM (visitType k d)).Succeeds (∀ v ∈ vs.1, Value.Enumerated d v) s
        (AtLevel (l + 1)) := succeeds_forM (I := fun s : VisitorState σ => s.constVisitingLevel = l + 1)
      (fun v _ s hs => succeeds_visitType hk d v (l + 1) s hs) s hs
    refine (hitems.finally fun _ s hs => ?_).congr (by simp [Value.Enumerated])
    exact (succeeds_decrement hs).then fun _ s hs => succeeds_derived_unit hk.vectorEnd hs
  | .struct ps, x, l, s, hs => by
    have hstruct := succeeds_visitStruct_of hk (x.validProperties ps) hs fun included s hs =>
      succeeds_visitProperties hk ps x included (l + 1) s hs
    have hvalid : Instance.Enumerated ps (Instance.restrict ps (x.validProperties ps) x) =
        Instance.Enumerated ps x := congrArg _ (Instance.restrict_validProperties ps x)
    exact hstruct.congr hvalid.symm.to_iff

theorem succeeds_visitProperties (hk : k.ThrowsAtEnums) : (ps : PropertyDescriptors) →
    (x : Instance ps) → (included : PropertySet) → (l : ℕ) → (s : VisitorState σ) →
    s.constVisitingLevel = l → (visitProperties k included ps x).Succeeds
      (Instance.Enumerated ps (Instance.restrict ps included x)) s (AtLevel l)
  | .nil, _, _, l, s, hs =>
    ((gives_pure () s).succeeds (Q := AtLevel l) hs).congr (by simp [Instance.Enumerated])
  | .cons p d ps, (v, x), included, l, s, hs =>
    (succeeds_visitProperty hk (fun v' _ s hs => succeeds_visitType hk d v' l s hs) hs).bind
      fun _ s hs => succeeds_visitProperties hk ps x included l s hs

end

/-- **A visit returns** exactly if the enum values of the included properties have enumerators. -/
theorem succeeds_visit (hk : k.ThrowsAtEnums) (ps : PropertyDescriptors) (x : Instance ps)
    (included : PropertySet) {s : VisitorState σ} (hs : s.constVisitingLevel = l) :
    (visit k ps x included).Succeeds (Instance.Enumerated ps (Instance.restrict ps included x)) s
      (AtLevel l) := by
  refine (succeeds_increment hs).then fun _ s hs => Succeeds.finally ?_ fun _ s hs =>
    succeeds_decrement hs
  exact succeeds_visitStruct_of hk included hs fun included s hs =>
    succeeds_visitProperties hk ps x included _ s hs

end TypeVisitor

end Dots

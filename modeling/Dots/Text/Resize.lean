import Dots.Text.RoundTrip

/-!
# Vectors that grow

A vector is read element by element, and `Descriptor<Vector<T>>::resize` makes room for each. For
elements that cannot be default-constructed it appends as many as the vector is to have.

* `mixedResize`: the vectors of a registry with static and dynamic structs.
* `Value.Spread`: a value as static vectors and as dynamic vectors hold it.
* **`together_deserialize`**: both are read from the same text, whatever the format.
* `Value.Flat`: no dynamic vector has two elements; **`Spread.flat`**, **`Flat.grown`**.
* **`TextSerializer.deserialize_dynamic`**: what a dynamic instance is read as, for every text.
* **`Json.deserialize_iff_flat`**: the JSON texts that are read as they were written.
-/

set_option autoImplicit false

namespace Dots

open Parse

/-! ## Static and dynamic structs -/

/-- Whether the elements of a vector are dynamic structs; `dynamic` tells it of each struct. -/
def TypeDescriptor.isDynamic (dynamic : PropertyDescriptors → Bool) : TypeDescriptor → Bool
  | .struct ps => dynamic ps
  | _ => false

/-- `Descriptor<Vector<T>>::resize`. A `DynamicStruct` cannot be default-constructed; in that case
`size` elements are appended. -/
def mixedResize (dynamic : PropertyDescriptors → Bool) : Resize := fun d vs size =>
  if d.isDynamic dynamic then vs ++ List.replicate size (Value.fresh d) else staticResize d vs size

variable {dynamic : PropertyDescriptors → Bool}

/-- What a vector has in front of the element that is read next. -/
def spare (dynamic : PropertyDescriptors → Bool) (d : TypeDescriptor) (vs : List (Value d)) :
    List (Value d) :=
  if d.isDynamic dynamic then vs ++ List.replicate vs.length (Value.fresh d) else vs

theorem mixedResize_succ {d : TypeDescriptor} (vs : List (Value d)) :
    mixedResize dynamic d vs (vs.length + 1) = spare dynamic d vs ++ [Value.fresh d] := by
  rw [mixedResize, spare]
  split_ifs
  · rw [List.replicate_succ', List.append_assoc]
  · exact staticResize_succ vs

/-! ## Spread vectors -/

/-- The elements of a vector that was grown by appending: in front of each there are as many fresh
elements as there were elements. -/
def spreadOut {α : Type} (fresh : α) (as : List α) : List α :=
  as.foldl (fun acc a => acc ++ List.replicate acc.length fresh ++ [a]) []

theorem spreadOut_append {α : Type} (fresh : α) (as : List α) (a : α) :
    spreadOut fresh (as ++ [a]) =
      spreadOut fresh as ++ List.replicate (spreadOut fresh as).length fresh ++ [a] := by
  rw [spreadOut, List.foldl_append]
  rfl

theorem length_spreadOut {α : Type} (fresh : α) (as : List α) :
    (spreadOut fresh as).length + 1 = 2 ^ as.length := by
  induction as using List.reverseRecOn with
  | nil => rfl
  | append_singleton as a ih =>
    rw [spreadOut_append, List.length_append, List.length_append, List.length_replicate,
      List.length_append, List.length_singleton, Nat.pow_succ, ← ih]
    omega

/-- Only a vector of at most one element keeps its length. -/
theorem length_le_one_of_spreadOut {α : Type} {fresh : α} {as : List α}
    (h : (spreadOut fresh as).length = as.length) : as.length ≤ 1 := by
  have hlength := length_spreadOut fresh as
  rw [h] at hlength
  by_contra hmany
  have hlt : as.length + 1 < 2 ^ as.length := by
    obtain ⟨n, hn⟩ := Nat.exists_eq_add_of_lt (not_le.mp hmany)
    rw [hn]
    have hpow : n + 1 ≤ 2 ^ n := Nat.lt_two_pow_self
    rw [show 1 + n + 1 = n + 2 by omega, Nat.pow_add]
    omega
  omega

theorem spreadOut_of_length_le_one {α : Type} {fresh : α} :
    ∀ {as : List α}, as.length ≤ 1 → spreadOut fresh as = as
  | [], _ => rfl
  | [_], _ => rfl

mutual

/-- How dynamic vectors hold a value. -/
def Value.Spread (dynamic : PropertyDescriptors → Bool) : (d : TypeDescriptor) → Value d → Value d → Prop
  | .fundamental _, v, v' => v = v'
  | .enumeration _ _, v, v' => v = v'
  | .vector d, vs, vs' => ∃ ws, List.Forall₂ (Value.Spread dynamic d) vs.1 ws ∧
      vs'.1 = if d.isDynamic dynamic then spreadOut (Value.fresh d) ws else ws
  | .struct ps, x, x' => Instance.Spread dynamic ps x x'

def Instance.Spread (dynamic : PropertyDescriptors → Bool) :
    (ps : PropertyDescriptors) → Instance ps → Instance ps → Prop
  | .nil, _, _ => True
  | .cons _ d ps, (v, x), (v', x') =>
    Option.Rel (Value.Spread dynamic d) v v' ∧ Instance.Spread dynamic ps x x'

end

mutual

theorem Value.spread_fresh : (d : TypeDescriptor) → Value.Spread dynamic d (Value.fresh d) (Value.fresh d)
  | .fundamental _ => rfl
  | .enumeration _ _ => rfl
  | .vector d => ⟨[], .nil, by split_ifs <;> rfl⟩
  | .struct ps => Instance.spread_fresh ps

theorem Instance.spread_fresh : (ps : PropertyDescriptors) →
    Instance.Spread dynamic ps (Instance.fresh ps) (Instance.fresh ps)
  | .nil => trivial
  | .cons _ _ ps => ⟨.none, Instance.spread_fresh ps⟩

end

theorem Instance.Spread.validProperties : ∀ {ps : PropertyDescriptors} {x x' : Instance ps},
    Instance.Spread dynamic ps x x' → x.validProperties ps = x'.validProperties ps
  | .nil, _, _, _ => rfl
  | .cons p d ps, (v, x), (v', x'), h => by
    have hsome : v.isSome = v'.isSome := by
      cases h.1 with
      | some _ => rfl
      | none => rfl
    rw [Instance.validProperties, Instance.validProperties, hsome, h.2.validProperties]

/-! ## Reading with both -/

namespace TextSerializer

open TextReader
open TextWriter (State)

variable (s : TextSerializer)

/-- Only that the vector becomes too long can stop the dynamic read earlier. -/
abbrev Alike {α β : Type} (R : α → β → Prop) (m : ReadText α) (m' : ReadText β) : Prop :=
  Together R (fun e => e = .length) m m'

theorem together_readElement {d : TypeDescriptor} {read read' : Value d → ReadText (Value d)}
    (h : ∀ v v', Value.Spread dynamic d v v' → Alike (Value.Spread dynamic d) (read v) (read' v'))
    (vs vs' : Value (.vector d)) (hvs : Value.Spread dynamic (.vector d) vs vs') :
    Alike (Value.Spread dynamic (.vector d)) (readElement staticResize read vs)
      (readElement (mixedResize dynamic) read' vs') := by
  obtain ⟨ws, hws, hspread⟩ := hvs
  have hlength := hws.length_eq
  have hmore : vs.1.length ≤ (spare dynamic d vs'.1).length := by
    rw [spare]
    split_ifs with hd
    · rw [if_pos hd] at hspread
      have hpow := length_spreadOut (Value.fresh d) ws
      have hlt : ws.length < 2 ^ ws.length := Nat.lt_two_pow_self
      rw [List.length_append, hspread, hlength]
      omega
    · rw [if_neg hd] at hspread
      rw [hspread, hlength]
  rw [readElement_eq read (staticResize_succ vs.1), readElement_eq read' (mixedResize_succ vs'.1)]
  by_cases hlimit' : (spare dynamic d vs'.1).length + 1 < sizeLimit
  · rw [dif_pos hlimit', dif_pos (by omega)]
    refine (h _ _ (Value.spread_fresh d)).bind fun v v' hv => .pure ⟨ws ++ [v'], ?_, ?_⟩
    · exact List.rel_append hws (.cons hv .nil)
    · show spare dynamic d vs'.1 ++ [v'] = _
      rw [spare]
      split_ifs with hd
      · rw [spreadOut_append, hspread, if_pos hd]
      · rw [hspread, if_neg hd]
  · rw [dif_neg hlimit']
    exact .stopped fun _ => rfl

/-- An object is read with both, if each of its properties is. -/
theorem together_readMembers {α : Type} {R : α → α → Prop} (nesting : List State)
    (objectTypeName : List UInt8) {property property' : List UInt8 → α → Option (ReadText α)}
    (h : ∀ name x x', R x x' → Option.Rel (Alike R) (property name x) (property' name x')) {x x' : α}
    (hx : R x x') :
    Alike R (readMembers s nesting objectTypeName property x)
      (readMembers s nesting objectTypeName property' x') := by
  refine .bind_left _ fun _ => .loop (fun x x' hx => .bind_left _ fun name => ?_) hx
  have hread := h name x x' hx
  generalize property name x = read, property' name x' = read' at hread ⊢
  cases hread with
  | none => exact .bind_left _ fun _ => .pure hx
  | some hread => exact hread

mutual

/-- **Static and dynamic values** are read from the same text. -/
theorem together_readType : (d : TypeDescriptor) → (level : ℕ) → (nesting : List State) →
    (v v' : Value d) → Value.Spread dynamic d v v' →
    Alike (Value.Spread dynamic d) (s.readType staticResize level nesting d v)
      (s.readType (mixedResize dynamic) level nesting d v')
  | .fundamental t, _, nesting, _, _, _ => .refl (fun _ => rfl) _
  | .enumeration name es, _, nesting, _, _, _ => .refl (fun _ => rfl) _
  | .vector d, level, nesting, vs, vs', hvs => by
    rw [readType, readType]
    refine .bind_left _ fun _ => .loop (fun vs vs' hvs => ?_) hvs
    exact together_readElement (fun v v' hv =>
      together_readType d (level + 1) (.array :: nesting) v v' hv) vs vs' hvs
  | .struct ps, level, nesting, x, x', hx => by
    have hvalid : Instance.validProperties ps x = Instance.validProperties ps x' :=
      Instance.Spread.validProperties hx
    rw [readType, readType]
    simp only [hvalid]
    exact together_readMembers s nesting _ (fun name x x' hx =>
      together_readProperty ps (level + 1) (.object :: nesting) _ name x x' hx) hx

theorem together_readProperty : (ps : PropertyDescriptors) → (level : ℕ) → (nesting : List State) →
    (included : PropertySet) → (name : List UInt8) → (x x' : Instance ps) →
    Instance.Spread dynamic ps x x' →
    Option.Rel (Alike (Instance.Spread dynamic ps))
      (s.readProperty staticResize level nesting included name ps x)
      (s.readProperty (mixedResize dynamic) level nesting included name ps x')
  | .nil, _, _, _, _, _, _, _ => .none
  | .cons p d ps, level, nesting, included, name, (v, x), (v', x'), h => by
    rw [readProperty, readProperty]
    split_ifs
    · refine .some (Together.bind (R := Option.Rel (Value.Spread dynamic d)) ?_ fun v v' hv =>
        .pure ⟨hv, h.2⟩)
      refine .bind_left _ fun isNull => ?_
      cases isNull with
      | true => exact .pure .none
      | false =>
        have hv : Value.Spread dynamic d (v.getD (Value.fresh d)) (v'.getD (Value.fresh d)) := by
          cases h.1 with
          | some hv => exact hv
          | none => exact Value.spread_fresh d
        exact (together_readType d level nesting _ _ hv).bind fun v v' hv => .pure (.some hv)
    · exact .none
    · have ih := together_readProperty ps level nesting included name x x' h.2
      generalize s.readProperty staticResize level nesting included name ps x = read,
        s.readProperty (mixedResize dynamic) level nesting included name ps x' = read' at ih ⊢
      cases ih with
      | none => exact .none
      | some ih => exact .some (ih.bind fun x x' hx => .pure ⟨h.1, hx⟩)

end

theorem together_deserializeAt (nesting : List State) (ps : PropertyDescriptors)
    (includedProperties : PropertySet) :
    Alike (Instance.Spread dynamic ps)
      (s.deserializeAt staticResize nesting ps (Instance.fresh ps) includedProperties)
      (s.deserializeAt (mixedResize dynamic) nesting ps (Instance.fresh ps) includedProperties) := by
  refine .bind_left _ fun data => ?_
  split_ifs
  · exact .fail _
  · exact together_readMembers s nesting _ (fun name x x' hx =>
      together_readProperty s ps 2 (.object :: nesting) _ name x x' hx) (Instance.spread_fresh ps)

/-- **What both read** from a text is the same value, as static and as dynamic vectors hold it. -/
theorem spread_of_deserialize {ps : PropertyDescriptors} {includedProperties : PropertySet}
    {data : List UInt8} {x x' : Instance ps} {n n' : ℕ}
    (h : s.deserialize staticResize ps (Instance.fresh ps) includedProperties data = .ok (x, n))
    (h' : s.deserialize (mixedResize dynamic) ps (Instance.fresh ps) includedProperties data =
      .ok (x', n')) :
    Instance.Spread dynamic ps x x' ∧ n = n' := by
  obtain ⟨⟨x, c⟩, hrun, h⟩ := bind_eq_ok h
  obtain ⟨⟨x', c'⟩, hrun', h'⟩ := bind_eq_ok h'
  cases h
  cases h'
  have htogether : Alike (Instance.Spread dynamic ps)
      (s.deserializeAt staticResize [] ps (Instance.fresh ps) includedProperties)
      (s.deserializeAt (mixedResize dynamic) [] ps (Instance.fresh ps) includedProperties) :=
    together_deserializeAt s [] ps includedProperties
  have htogether := htogether ⟨0, data⟩
  rw [hrun, hrun'] at htogether
  exact ⟨htogether.1, congrArg Cursor.offset htogether.2⟩

end TextSerializer

/-! ## Flat values -/

mutual

/-- No vector of dynamic structs has two elements. -/
def Value.Flat (dynamic : PropertyDescriptors → Bool) : (d : TypeDescriptor) → Value d → Prop
  | .fundamental _, _ => True
  | .enumeration _ _, _ => True
  | .vector d, vs => (d.isDynamic dynamic = true → vs.1.length ≤ 1) ∧ ∀ v ∈ vs.1, Value.Flat dynamic d v
  | .struct ps, x => Instance.Flat dynamic ps x

def Instance.Flat (dynamic : PropertyDescriptors → Bool) : (ps : PropertyDescriptors) → Instance ps → Prop
  | .nil, _ => True
  | .cons _ d ps, (v, x) => (∀ v' ∈ v, Value.Flat dynamic d v') ∧ Instance.Flat dynamic ps x

end

mutual

/-- A value that dynamic vectors hold as it is, is flat. -/
theorem Value.Spread.flat : (d : TypeDescriptor) → (v : Value d) → Value.Spread dynamic d v v →
    Value.Flat dynamic d v
  | .fundamental _, _, _ => trivial
  | .enumeration _ _, _, _ => trivial
  | .vector d, vs, h => by
    obtain ⟨ws, hws, hspread⟩ := h
    have hone : d.isDynamic dynamic = true → ws.length ≤ 1 := by
      intro hd
      rw [if_pos hd] at hspread
      exact length_le_one_of_spreadOut (hspread ▸ hws.length_eq)
    have hsame : vs.1 = ws := by
      rw [hspread]
      split_ifs with hd
      · exact spreadOut_of_length_le_one (hone hd)
      · rfl
    rw [← hsame] at hws hone
    exact ⟨hone, fun v hv => Value.Spread.flat d v (List.forall₂_same.mp hws v hv)⟩
  | .struct ps, x, h => Instance.Spread.flat ps x h

theorem Instance.Spread.flat : (ps : PropertyDescriptors) → (x : Instance ps) →
    Instance.Spread dynamic ps x x → Instance.Flat dynamic ps x
  | .nil, _, _ => trivial
  | .cons _ d ps, (v, x), h => by
    refine ⟨fun v' hv' => ?_, Instance.Spread.flat ps x h.2⟩
    cases hv'
    cases h.1 with
    | some hv => exact Value.Spread.flat d v' hv

end

mutual

/-- A flat value is held by dynamic vectors as it is. -/
theorem Value.Flat.eq_of_spread : (d : TypeDescriptor) → (v v' : Value d) →
    Value.Flat dynamic d v → Value.Spread dynamic d v v' → v' = v
  | .fundamental _, _, _, _, h => Eq.symm h
  | .enumeration _ _, _, _, _, h => Eq.symm h
  | .vector d, vs, vs', hflat, h => by
    obtain ⟨ws, hws, hspread⟩ := h
    have hboth : List.Forall₂ (fun v w => Value.Flat dynamic d v ∧ Value.Spread dynamic d v w) vs.1
        ws :=
      (List.forall₂_and_left _ _).mpr ⟨hflat.2, hws⟩
    have hsame : List.Forall₂ (fun v w => v = w) vs.1 ws :=
      hboth.imp fun v w h => (Value.Flat.eq_of_spread d v w h.1 h.2).symm
    rw [List.forall₂_eq_eq_eq] at hsame
    subst hsame
    refine Subtype.ext (hspread.trans ?_)
    split_ifs with hd
    · exact spreadOut_of_length_le_one (hflat.1 hd)
    · rfl
  | .struct ps, x, x', hflat, h => Instance.Flat.eq_of_spread ps x x' hflat h

theorem Instance.Flat.eq_of_spread : (ps : PropertyDescriptors) → (x x' : Instance ps) →
    Instance.Flat dynamic ps x → Instance.Spread dynamic ps x x' → x' = x
  | .nil, _, _, _, _ => rfl
  | .cons _ d ps, (v, x), (v', x'), hflat, h => by
    have hx : x' = x := Instance.Flat.eq_of_spread ps x x' hflat.2 h.2
    have hv : v' = v := by
      cases h.1 with
      | none => rfl
      | some hv => exact congrArg some (Value.Flat.eq_of_spread d _ _ (hflat.1 _ rfl) hv)
    rw [hx, hv]

end

mutual

theorem Value.Flat.grown : (d : TypeDescriptor) → (v : Value d) → Value.Flat dynamic d v →
    Value.Grown (mixedResize dynamic) d v
  | .fundamental _, _, _ => trivial
  | .enumeration _ _, _, _ => trivial
  | .vector d, vs, h => by
    refine ⟨fun acc hacc => ?_, fun v hv => Value.Flat.grown d v (h.2 v hv)⟩
    rw [mixedResize_succ, spare]
    split_ifs with hd
    · have hone := h.1 hd
      have hnil : acc = [] := List.length_eq_zero_iff.mp (by omega)
      rw [hnil]
      rfl
    · rfl
  | .struct ps, x, h => Instance.Flat.grown ps x h

theorem Instance.Flat.grown : (ps : PropertyDescriptors) → (x : Instance ps) →
    Instance.Flat dynamic ps x → Instance.Grown (mixedResize dynamic) ps x
  | .nil, _, _ => trivial
  | .cons _ d ps, (_, x), h => ⟨fun v' hv' => Value.Flat.grown d v' (h.1 v' hv'),
      Instance.Flat.grown ps x h.2⟩

end

namespace TextSerializer

/-- **Every text** is read as a dynamic instance as far as a static one, and as the same values
exactly if no vector of dynamic structs has got two elements; only the length of a vector can stop it
earlier. -/
theorem deserialize_dynamic (s : TextSerializer) (dynamic : PropertyDescriptors → Bool)
    (ps : PropertyDescriptors) (includedProperties : PropertySet) (data : List UInt8) :
    match s.deserialize staticResize ps (Instance.fresh ps) includedProperties data,
      s.deserialize (mixedResize dynamic) ps (Instance.fresh ps) includedProperties data with
    | .ok (x, n), .ok (x', n') => n' = n ∧ (x' = x ↔ Instance.Flat dynamic ps x)
    | .ok _, .error e => e = .length
    | .error e, .error e' => e' = e ∨ e' = .length
    | .error _, .ok _ => False := by
  have htogether : Alike (Instance.Spread dynamic ps)
      (s.deserializeAt staticResize [] ps (Instance.fresh ps) includedProperties)
      (s.deserializeAt (mixedResize dynamic) [] ps (Instance.fresh ps) includedProperties) :=
    together_deserializeAt s [] ps includedProperties
  have hrun := htogether ⟨0, data⟩
  rw [deserialize, deserialize]
  cases hstatic : (s.deserializeAt staticResize [] ps (Instance.fresh ps) includedProperties).run
      ⟨0, data⟩ with
  | error e =>
    cases hdynamic : (s.deserializeAt (mixedResize dynamic) [] ps (Instance.fresh ps)
        includedProperties).run ⟨0, data⟩ with
    | error e' =>
      rw [hstatic, hdynamic] at hrun
      exact hrun
    | ok r =>
      rw [hstatic, hdynamic] at hrun
      exact hrun
  | ok r =>
    cases hdynamic : (s.deserializeAt (mixedResize dynamic) [] ps (Instance.fresh ps)
        includedProperties).run ⟨0, data⟩ with
    | error e' =>
      rw [hstatic, hdynamic] at hrun
      exact hrun
    | ok r' =>
      rw [hstatic, hdynamic] at hrun
      obtain ⟨hspread, hend⟩ := hrun
      refine ⟨congrArg Cursor.offset hend.symm, fun hsame => ?_,
        fun hflat => hflat.eq_of_spread _ _ _ hspread⟩
      rw [hsame] at hspread
      exact hspread.flat

end TextSerializer

/-- **JSON texts** are read as they were written exactly if no vector of dynamic structs has two
elements. -/
theorem Json.deserialize_iff_flat (options options' : TextOptions) {converters : Converters}
    (huuid : converters.InvertsUuids) {ps : PropertyDescriptors} (hwf : ps.WellFormed)
    (hnamed : ps.Named) {x : Instance ps} (hx : x.Inverted converters) {included : PropertySet}
    {text : List UInt8}
    (h : (JsonSerializer options' converters).serialize ps x included = .ok text)
    (rest : List UInt8) :
    (JsonSerializer options converters).deserialize (mixedResize dynamic) ps (Instance.fresh ps)
        Finset.univ (text ++ rest) = .ok (Instance.restrict ps included x, text.length) ↔
      Instance.Flat dynamic ps (Instance.restrict ps included x) := by
  constructor
  · intro hread
    have hstatic := Json.deserialize_of_grown options options' huuid hwf hnamed hx
      (Json.instance_grown_static ps _) h rest
    exact (TextSerializer.spread_of_deserialize _ hstatic hread).1.flat
  · intro hflat
    exact Json.deserialize_of_grown options options' huuid hwf hnamed hx (hflat.grown ps _) h rest

end Dots

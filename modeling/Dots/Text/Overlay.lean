import Dots.Text.Skip

/-!
# Reading over an instance

What a reader makes of a text over an instance that has values already. In the text there may be
members that belong to no property.

* `Value.Extended`, `Instance.Extended`: the strings of a value, with members of other types.
* `overlay`, `overMembers`, `overInstance`: what is read over a value.
* **`behaves_readType`**: a value is read over another one.
* **`deserialize_extended`**: the outcome of a text, with the end that the reader comes to.
-/

set_option autoImplicit false

namespace Dots

open Parse TextReader TextWriter Json TextSerializer

/-! ## Members of other types -/

/-- The text of a value of any type, or of none. -/
inductive TextSerializer.ForeignValue (s : TextSerializer) : List UInt8 → Prop
  | null : s.ForeignValue s.format.nullValue
  | value {d : TypeDescriptor} {v : Value d} {options : TextOptions} {level : ℕ}
      {texts : List (List UInt8)} (hd : d.Spelled s)
      (h : (s.styled options).valueTexts level d v = .ok texts) : s.ForeignValue texts.flatten
  | object {ps : PropertyDescriptors} {x : Instance ps} {options : TextOptions}
      {included : PropertySet} {texts : List (List UInt8)} (hname : s.SpelledName ps)
      (hps : ps.Spelled s)
      (h : (s.styled options).structTexts included ps x = .ok texts) : s.ForeignValue texts.flatten

/-- A member with a name that no property has. -/
inductive TextSerializer.Foreign (s : TextSerializer) (names : List String) : List UInt8 → Prop
  | mk {name : String} {value : List UInt8} (hname : IsIdentifier name) (hnew : name ∉ names)
      (hvalue : s.ForeignValue value) : s.Foreign names (s.memberName (ascii name) ++ value)

/-- A list with additional elements, at any places. -/
inductive Inserts {α : Type} (p : α → Prop) : List α → List α → Prop
  | nil : Inserts p [] []
  | own (a : α) {as bs : List α} (h : Inserts p as bs) : Inserts p (a :: as) (a :: bs)
  | added {b : α} {as bs : List α} (hb : p b) (h : Inserts p as bs) : Inserts p as (b :: bs)

mutual

/-- The strings of a value, with members of other types in the objects. -/
def Value.Extended (s : TextSerializer) (level : ℕ) :
    (d : TypeDescriptor) → Value d → List (List UInt8) → Prop
  | .fundamental t, v, texts => texts = [s.fundamentalText t v]
  | .enumeration name es, v, texts =>
    ∃ e, enumeratorFromValue name es v = .ok e ∧ texts = [s.enumeratorText name e]
  | .vector d, vs, texts => ∃ items, List.Forall₂ (Value.Extended s (level + 1) d) vs.1 items ∧
      texts = [enclosed s.options level s.format.arrayBegin s.format.arrayEnd items.flatten]
  | .struct ps, x, texts => ∃ own members,
      Instance.Extended s (level + 1) (x.validProperties ps) ps x own ∧
      Inserts (s.Foreign ps.names) own members ∧
      texts = s.typeName false ps ++
        [enclosed s.options level s.format.objectBegin s.format.objectEnd members]

/-- The members of the included properties. -/
def Instance.Extended (s : TextSerializer) (level : ℕ) (included : PropertySet) :
    (ps : PropertyDescriptors) → Instance ps → List (List UInt8) → Prop
  | .nil, _, texts => texts = []
  | .cons p d ps, (v, x), texts =>
    if p.tag ∈ included then
      ∃ value rest, (match v with
        | some v => Value.Extended s level d v value
        | none => value = [s.format.nullValue]) ∧
        Instance.Extended s level included ps x rest ∧
        texts = (s.memberName (ascii p.name) ++ value.flatten) :: rest
    else Instance.Extended s level included ps x texts

end

namespace TextSerializer

/-! ## What is read over a value -/

variable (s : TextSerializer) (options : TextOptions) (resize : Resize)

/-- A strict reader asks for the name of the type of an object. -/
def LegibleObject (outermost : Bool) : Prop :=
  s.format.objectFormat = .withTypeName → s.options.policy = .strict →
    options.style = .multiLine ∨ (outermost ∧ options.style = .singleLine)

instance (outermost : Bool) : Decidable (s.LegibleObject options outermost) :=
  inferInstanceAs (Decidable (_ → _ → _))

/-- The elements of an array are strings of their own, as are the names of their types. -/
def Splits : TypeDescriptor → Prop
  | .struct _ => s.format.objectFormat = .withTypeName ∧ options.style = .multiLine
  | _ => False

instance : (d : TypeDescriptor) → Decidable (s.Splits options d)
  | .struct _ => inferInstanceAs (Decidable (_ ∧ _))
  | .fundamental _ | .enumeration _ _ | .vector _ => .isFalse id

/-- A vector with one element more, if it does not become too long. -/
def pushed {d : TypeDescriptor} (read : Value d → Option (Value d))
    (vs : {vs : List (Value d) // vs.length < sizeLimit}) :
    Option {vs : List (Value d) // vs.length < sizeLimit} :=
  let grown := resize d vs.1 (vs.1.length + 1)
  if h : grown.length < sizeLimit then
    (read (grown.getLastD (Value.fresh d))).map fun v =>
      ⟨grown.set (grown.length - 1) v, by rw [List.length_set]; exact h⟩
  else none

/-- A property with or without a value. -/
def overValue {d : TypeDescriptor} (read : Value d → Value d → Option (Value d)) :
    Option (Value d) → Option (Value d) → Option (Option (Value d))
  | some v, w => (read v (w.getD (Value.fresh d))).map some
  | none, _ => some none

mutual

/-- What is read from the text of a value over another one. -/
def overlay : (d : TypeDescriptor) → Value d → Value d → Option (Value d)
  | .fundamental t, v, _ => if s.LegibleFundamental options t then s.readBack t v else none
  | .enumeration name es, v, _ =>
    match enumeratorFromValue name es v with
    | .ok e => if s.LegibleEnumerator options name e then some v else none
    | .error _ => none
  | .vector d, vs, ws =>
    if s.Splits options d ∧ vs.1 ≠ [] then none
    else (vs.1.map fun v => pushed resize (overlay d v)).foldlM (fun ws f => f ws) ws
  | .struct ps, x, y =>
    if s.LegibleObject options false then overMembers (x.validProperties ps) ps x y else none

/-- What is read from the members of the included properties. -/
def overMembers (included : PropertySet) : (ps : PropertyDescriptors) → Instance ps → Instance ps →
    Option (Instance ps)
  | .nil, _, _ => some ()
  | .cons p d ps, (v, x), (w, y) => do
    let w ← (if p.tag ∈ included then overValue (overlay d) v w else some w)
    return (w, ← overMembers included ps x y)

end

/-- What is read from the text of an instance on a property set. -/
def overInstance (included : PropertySet) (ps : PropertyDescriptors) (x y : Instance ps) :
    Option (Instance ps) :=
  if s.LegibleObject options true then s.overMembers options resize included ps x y else none

/-- What is read from the member of the property with a name. -/
def overMember (name : String) : (ps : PropertyDescriptors) → Instance ps → Instance ps →
    Option (Instance ps)
  | .nil, _, y => some y
  | .cons p d ps, (v, x), (w, y) =>
    if p.name = name then do
      let w ← overValue (s.overlay options resize d) v w
      return (w, y)
    else (overMember name ps x y).map (Prod.mk w)

end TextSerializer

/-- The names of the included properties. -/
def PropertyDescriptors.includedNames (included : PropertySet) : PropertyDescriptors → List String
  | .nil => []
  | .cons p _ ps =>
    if p.tag ∈ included then p.name :: ps.includedNames included else ps.includedNames included

theorem PropertyDescriptors.includedNames_subset (included : PropertySet) :
    (ps : PropertyDescriptors) → ∀ name ∈ ps.includedNames included, name ∈ ps.names
  | .nil, _, h => h
  | .cons p d ps, name, h => by
    rw [includedNames] at h
    split_ifs at h
    · rcases List.mem_cons.mp h with rfl | h
      · exact List.mem_cons_self
      · exact List.mem_cons_of_mem _ (includedNames_subset included ps name h)
    · exact List.mem_cons_of_mem _ (includedNames_subset included ps name h)

namespace TextSerializer

variable {s : TextSerializer} {options : TextOptions} {resize : Resize} {state : State}
  {nesting : List State} {w text trail rest : List UInt8} {P : List UInt8 → Prop}

theorem overMember_of_ne {p : PropertyDescriptor} {d : TypeDescriptor} {ps : PropertyDescriptors}
    {name : String} (h : p.name ≠ name) (v w : Option (Value d)) (x y : Instance ps) :
    s.overMember options resize name (.cons p d ps) (v, x) (w, y) =
      (s.overMember options resize name ps x y).map (Prod.mk w) := by
  rw [overMember]
  exact if_neg h

theorem overMember_self {p : PropertyDescriptor} {d : TypeDescriptor} {ps : PropertyDescriptors}
    (v w : Option (Value d)) (x y : Instance ps) :
    s.overMember options resize p.name (.cons p d ps) (v, x) (w, y) =
      (overValue (s.overlay options resize d) v w).map fun w => (w, y) := by
  rw [overMember]
  exact (if_pos rfl).trans (Option.map_eq_bind ..).symm

theorem foldlM_overMember_cons {p : PropertyDescriptor} {d : TypeDescriptor}
    {ps : PropertyDescriptors} {v w : Option (Value d)} {x y : Instance ps}
    {names : List String} (h : p.name ∉ names) :
    names.foldlM (fun y name => s.overMember options resize name (.cons p d ps) (v, x) y) (w, y) =
      (names.foldlM (fun y name => s.overMember options resize name ps x y) y).map (Prod.mk w) := by
  induction names generalizing y with
  | nil => rfl
  | cons name names ih =>
    rw [List.mem_cons, not_or] at h
    have hother : s.overMember options resize name (.cons p d ps) (v, x) (w, y) =
        (s.overMember options resize name ps x y).map (Prod.mk w) := overMember_of_ne h.1 v w x y
    show (s.overMember options resize name (.cons p d ps) (v, x) (w, y)).bind _ =
      ((s.overMember options resize name ps x y).bind _).map _
    rw [hother]
    cases s.overMember options resize name ps x y with
    | none => rfl
    | some y => exact ih h.2

/-- The members are read one after the other. -/
theorem overMembers_eq (included : PropertySet) : (ps : PropertyDescriptors) → (x y : Instance ps) →
    ps.Spelled s → s.overMembers options resize included ps x y =
      (ps.includedNames included).foldlM (fun y name => s.overMember options resize name ps x y) y
  | .nil, _, _, _ => rfl
  | .cons p d ps, (v, x), (w, y), h => by
    have hnew : p.name ∉ ps.includedNames included :=
      fun hmem => h.2.1 (PropertyDescriptors.includedNames_subset included ps _ hmem)
    have ih := overMembers_eq included ps x y h.2.2.2
    have hrest (w : Option (Value d)) :
        (do return (w, ← s.overMembers options resize included ps x y)) =
        (ps.includedNames included).foldlM
          (fun y name => s.overMember options resize name (.cons p d ps) (v, x) y) (w, y) := by
      rw [foldlM_overMember_cons hnew, ← ih]
      cases s.overMembers options resize included ps x y <;> rfl
    simp only [overMembers, PropertyDescriptors.includedNames]
    split_ifs
    · have hfirst : s.overMember options resize p.name (.cons p d ps) (v, x) (w, y) = (do
          let w ← overValue (s.overlay options resize d) v w
          return (w, y)) := by
        rw [overMember]
        exact if_pos rfl
      show _ = (s.overMember options resize p.name (.cons p d ps) (v, x) (w, y)).bind _
      rw [hfirst]
      cases overValue (s.overlay options resize d) v w with
      | none => rfl
      | some w => exact hrest w
    · exact hrest w

/-! ## Objects -/

theorem behaves_no_tokenAfterWhitespace (hw : Blank w) (token : List UInt8) :
    Behaves (fun rest => NonBlank rest ∧ ¬token <+: rest) (consumeTokenAfterWhitespace token) w
      none := by
  have hnone : Behaves (fun rest => NonBlank rest ∧ ¬token <+: rest) (consumeToken token) [] none :=
    (behaves_no_token token).mono fun _ h => h.2
  have hread := (readsBefore_whitespace hw).then (f := fun _ => consumeToken token)
    (fun _ h => h.1) hnone
  rwa [List.append_nil] at hread

/-- Where the name of a type is written. -/
theorem typeName_eq (hformat : s.format.objectFormat = .withTypeName) (outermost : Bool)
    (ps : PropertyDescriptors) : (s.styled options).typeName outermost ps =
      if options.style = .multiLine ∨ (outermost ∧ options.style = .singleLine) then
        [ascii (s.structName ps)] else [] := by
  have hstyled : (s.styled options).format.objectFormat = .withTypeName := hformat
  have hoptions : (s.styled options).options = options := rfl
  rw [typeName, hstyled, hoptions]
  cases options.style <;> cases outermost <;> rfl

theorem typeName_nil (hformat : s.format.objectFormat = .withoutTypeName) (outermost : Bool)
    (ps : PropertyDescriptors) : (s.styled options).typeName outermost ps = [] := by
  have hstyled : (s.styled options).format.objectFormat = .withoutTypeName := hformat
  rw [typeName, hstyled]

/-- The beginning of an object. -/
theorem behaves_readObjectBegin (hs : s.Known) {ps : PropertyDescriptors} (hname : s.SpelledName ps)
    (outermost : Bool) : Behaves (fun _ => True) (readObjectBegin s (ascii (s.structName ps)))
      (((s.styled options).typeName outermost ps).flatten ++ [0x7B])
      (if s.LegibleObject options outermost then some () else none) := by
  obtain ⟨-, -, -, -, hbegin, -⟩ := hs.brackets
  have hobject : ReadsBefore (fun _ => True) (consumeTokenAfterWhitespace s.format.objectBegin)
      [0x7B] () := by
    rw [hbegin]
    exact (reads_consumeTokenAfterWhitespace blank_nil (by decide) []).before
  have hthen {β : Type} {m : ReadText β} {a : β} {u : List UInt8} {Q : List UInt8 → Prop}
      (hm : ReadsBefore Q m u a) (hQ : ∀ rest, Q ([0x7B] ++ rest)) : Behaves (fun _ => True) (do
        let _ ← m
        consumeTokenAfterWhitespace s.format.objectBegin) (u ++ [0x7B]) (some ()) :=
    (hm.bind (fun rest _ => hQ rest) hobject).behaves
  cases hformat : s.format.objectFormat with
  | withoutTypeName =>
    have hlegible : s.LegibleObject options outermost := fun h => by
      rw [hformat] at h
      cases h
    rw [typeName_nil hformat, if_pos hlegible, readObjectBegin, hformat]
    exact hobject.behaves
  | withTypeName =>
    obtain ⟨hidentifier, hne⟩ := hname hformat
    obtain ⟨b, t, htext, hsymbol⟩ := exists_identifier hidentifier hne
    have hnot (rest : List UInt8) : NonBlank ([0x7B] ++ rest) ∧
        ¬ascii (s.structName ps) <+: [0x7B] ++ rest := by
      refine ⟨?_, ?_⟩
      · rintro c hc
        cases hc
        rfl
      · rw [htext]
        rintro ⟨u, hu⟩
        obtain rfl : b = 0x7B := (List.cons.inj hu).1
        exact absurd hsymbol (by decide)
    have hblank : isWhitespace b = false := not_isWhitespace_of_identifier hsymbol
    rw [typeName_eq hformat, readObjectBegin, hformat]
    by_cases hwritten : options.style = .multiLine ∨ (outermost ∧ options.style = .singleLine)
    · have hlegible : s.LegibleObject options outermost := fun _ _ => hwritten
      rw [if_pos hwritten, if_pos hlegible, List.flatten_singleton, htext]
      cases s.options.policy with
      | strict =>
        exact hthen (Q := fun _ => True)
          (reads_consumeTokenAfterWhitespace (w := []) blank_nil hblank t).before fun _ => trivial
      | relaxed =>
        exact hthen (Q := fun _ => True)
          (reads_tokenAfterWhitespace (w := []) blank_nil hblank t).before fun _ => trivial
    · rw [if_neg hwritten]
      cases hpolicy : s.options.policy with
      | strict =>
        rw [if_neg fun h : s.LegibleObject options outermost => hwritten (h hformat hpolicy)]
        exact (behaves_no_tokenAfterWhitespace blank_nil (ascii (s.structName ps))).bind
          (Q := fun _ => True) (g := fun _ => none) (fun rest _ => hnot rest) nofun
      | relaxed =>
        have hlegible : s.LegibleObject options outermost := fun _ h => by
          rw [hpolicy] at h
          cases h
        rw [if_pos hlegible]
        exact hthen (Q := fun rest => NonBlank rest ∧ ¬ascii (s.structName ps) <+: rest)
          (readsBefore_skipped (w := []) blank_nil _) hnot

/-- **An object** is read as its members lead to a result. -/
theorem behaves_readMembers {α : Type} (hs : s.Known) {ps : PropertyDescriptors}
    (hname : s.SpelledName ps) (outermost : Bool)
    {property : List UInt8 → α → Option (ReadText α)} {a : α} {members : List (List UInt8)}
    {r : Option α}
    (h : StepsTo s 0x7D (readMember s nesting property) a members r)
    (hfinal : ReadsBefore P (finalizeRead s nesting) trail ()) (level : ℕ) :
    Behaves P (readMembers s nesting (ascii (s.structName ps)) property a)
      (((s.styled options).typeName outermost ps ++
        [enclosed options level s.format.objectBegin s.format.objectEnd members]).flatten ++ trail)
      (if s.LegibleObject options outermost then r else none) := by
  obtain ⟨-, -, -, -, hbegin, hend, -⟩ := hs.brackets
  have htry : tryReadObjectEnd s nesting = tryEnd s nesting [0x7D] := by
    rw [← hend]
    rfl
  have hword : ((s.styled options).typeName outermost ps ++
      [enclosed options level s.format.objectBegin s.format.objectEnd members]).flatten ++ trail =
        (((s.styled options).typeName outermost ps).flatten ++ [0x7B]) ++
          (separated options (level + 1) true members ++
            (newLine options level ++ ([0x7D] ++ trail))) := by
    simp [enclosed, hbegin, hend]
  have hloop : Behaves P (loop (tryReadObjectEnd s nesting) (readMember s nesting property)
      (fun _ => .hangs) a)
      (separated options (level + 1) true members ++
        (newLine options level ++ ([0x7D] ++ trail))) r := by
    rw [htry]
    exact (h.rounds hs (.inr hend) hfinal options (level + 1)
      (spaces_newLine options level)).behaves
  have hopen : Behaves (fun _ => True) (readObjectBegin s (ascii (s.structName ps)))
      (((s.styled options).typeName outermost ps).flatten ++ [0x7B])
      (if s.LegibleObject options outermost then some () else none) :=
    behaves_readObjectBegin hs hname outermost
  have hread := hopen.bind (Q := P) (g := fun _ => r) (fun _ _ => trivial) fun _ _ => hloop
  rw [hword]
  split_ifs at hread ⊢ <;> exact hread

/-! ## Elements and members -/

/-- An element is read over the one that a vector has grown by. -/
theorem behaves_readElement {d : TypeDescriptor} {read : Value d → ReadText (Value d)}
    {f : Value d → Option (Value d)} (h : ∀ w, Behaves P (read w) text (f w))
    (vs : {vs : List (Value d) // vs.length < sizeLimit}) :
    Behaves P (readElement resize read vs) text (pushed resize f vs) := by
  unfold readElement pushed
  dsimp only
  split_ifs
  · exact (h _).bind_pure
  · exact behaves_fail

/-- A member of a property. -/
theorem behaves_readMember {α : Type} (hs : s.Known)
    {property : List UInt8 → α → Option (ReadText α)} {a : α} {name : String}
    (hname : IsIdentifier name) {value : List UInt8} {r : Option α}
    (hbegins : ∀ rest, NonBlank (value ++ rest))
    (h : ∀ gap, Spaces gap → ∃ read, property (ascii name) a = some read ∧
      Behaves P read (gap ++ (value ++ trail)) r) :
    Behaves P (readMember s nesting property a)
      ((s.styled options).memberName (ascii name) ++ value ++ trail) r := by
  obtain ⟨init, gap, htext, hgap, hread⟩ := readsBefore_memberName hs options nesting hname
  obtain ⟨read, hfound, hbehaves⟩ := h gap hgap
  rw [htext, List.append_assoc, List.append_assoc, readMember]
  refine hread.then (fun rest _ => ⟨(value ++ trail) ++ rest, List.append_assoc .., ?_⟩) ?_
  · rw [List.append_assoc]
    exact hbegins _
  · rw [hfound]
    exact hbehaves

theorem run_skip (c : Cursor UInt8) :
    (skip s nesting).run c = (skipDepth s (c.rest.length + 1) nesting).run c := by
  unfold skip StateT.run
  rfl

/-- The text of a value is skipped, at any place in arrays and objects. -/
theorem readsBefore_skip (h : Skips s text) (hbegins : ∀ rest, NonBlank (text ++ rest))
    {gap : List UInt8} (hgap : Spaces gap) (hseparates : Separates s trail P) :
    ReadsBefore P (skip s (state :: nesting)) (gap ++ (text ++ trail)) () := by
  intro o rest hrest
  have hlength : text.length < (gap ++ (text ++ trail) ++ rest).length + 1 := by
    simp only [List.length_append]
    omega
  rw [run_skip]
  exact h.readsBefore hbegins hlength hgap hseparates o rest hrest

mutual

/-- The style of a text has no part in the names. -/
theorem spelled_styled : (d : TypeDescriptor) → d.Spelled (s.styled options) → d.Spelled s
  | .fundamental _, _ => trivial
  | .enumeration _ _, h => h
  | .vector d, h => spelled_styled d h
  | .struct ps, h => ⟨h.1, properties_spelled_styled ps h.2⟩

theorem properties_spelled_styled : (ps : PropertyDescriptors) → ps.Spelled (s.styled options) →
    ps.Spelled s
  | .nil, _ => trivial
  | .cons _ d ps, h => ⟨h.1, h.2.1, spelled_styled d h.2.2.1, properties_spelled_styled ps h.2.2.2⟩

end

theorem ForeignValue.skips (hs : s.Known) (hw : s.Converts)
    (h : (s.styled options).ForeignValue text) :
    (∀ rest, NonBlank (text ++ rest)) ∧ Skips s text := by
  cases h with
  | null => exact skips_null hs
  | @value d v options' level texts hd h =>
    exact (skips_valueTexts hs hw d v (spelled_styled d hd) level texts h).flatten hs
  | @object ps x options' included texts hname hps h =>
    obtain ⟨members, hmembers, h⟩ := bind_eq_ok h
    cases h
    obtain ⟨members, rfl, hskips⟩ :=
      skips_memberTexts hs hw ps x (properties_spelled_styled ps hps) 1 included members hmembers
    exact (skipsAll_struct hs hname true 0 hskips).flatten hs

/-- **A member of another type** is skipped. -/
theorem readsBefore_foreign {α : Type} (hs : s.Known) (hw : s.Converts)
    {property : List UInt8 → α → Option (ReadText α)} {a : α} {names : List String}
    (hproperty : ∀ name, IsIdentifier name → name ∉ names → property (ascii name) a = none)
    (h : (s.styled options).Foreign names text) (hseparates : Separates s trail P) :
    ReadsBefore P (readMember s nesting property a) (text ++ trail) a := by
  obtain ⟨hname, hnew, hvalue⟩ := h
  obtain ⟨hbegins, hskips⟩ := hvalue.skips hs hw
  obtain ⟨init, gap, htext, hgap, hread⟩ := readsBefore_memberName hs options nesting hname
  rw [htext, List.append_assoc, List.append_assoc, readMember]
  refine hread.bind (fun rest _ => ⟨_, List.append_assoc .., ?_⟩) ?_
  · rw [List.append_assoc]
    exact hbegins _
  · rw [hproperty _ hname hnew]
    exact (readsBefore_skip hskips hbegins hgap hseparates).bind_pure

theorem readProperty_eq_none {level : ℕ} : (ps : PropertyDescriptors) → ps.Spelled s →
    ∀ name, IsIdentifier name → name ∉ ps.names → ∀ y : Instance ps,
      s.readProperty resize level nesting Finset.univ (ascii name) ps y = none
  | .nil, _, _, _, _, _ => by rw [readProperty]
  | .cons p d ps, h, name, hname, hnew, (v, y) => by
    rw [PropertyDescriptors.names, List.mem_cons, not_or] at hnew
    have hother : ascii p.name ≠ ascii name := fun heq => hnew.1 (ascii_injOn h.1 hname heq).symm
    rw [readProperty, if_neg hother, readProperty_eq_none ps h.2.2.2 name hname hnew.2 y]
    rfl

/-! ## Arrays -/

/-- **An array** is read as its elements lead to a result. -/
theorem behaves_readElements {α : Type} (hs : s.Known) {b : UInt8} (hend : s.format.arrayEnd = [b])
    {body : α → ReadText α} {a : α} {texts : List (List UInt8)} {r : Option α}
    (h : StepsTo s b body a texts r) (hfinal : ReadsBefore P (finalizeRead s nesting) trail ())
    (level : ℕ) :
    Behaves P (do
        readArrayBegin s
        loop (tryReadArrayEnd s nesting) body (fun _ => .hangs) a)
      (enclosed options level s.format.arrayBegin s.format.arrayEnd texts ++ trail) r := by
  obtain ⟨c, -, hbegin, -, -, -, hc, -⟩ := hs.brackets
  have hblank : isWhitespace c = false := by rcases hc with rfl | rfl <;> rfl
  have htry : tryReadArrayEnd s nesting = tryEnd s nesting [b] := by
    rw [← hend]
    rfl
  have hword : enclosed options level s.format.arrayBegin s.format.arrayEnd texts ++ trail =
      [c] ++ (separated options (level + 1) true texts ++
        (newLine options level ++ ([b] ++ trail))) := by
    simp [enclosed, hbegin, hend]
  have hopen : ReadsBefore (fun _ => True) (readArrayBegin s) [c] () := by
    rw [readArrayBegin, hbegin]
    exact (reads_consumeTokenAfterWhitespace blank_nil hblank []).before
  rw [hword, htry]
  exact hopen.then (fun _ _ => trivial)
    (h.rounds hs (.inl hend) hfinal options (level + 1) (spaces_newLine options level)).behaves

/-- The strings of a value in an array: one, unless the name of its type is another one. -/
theorem extended_singleton : {d : TypeDescriptor} → {v : Value d} → {level : ℕ} →
    {texts : List (List UInt8)} → ¬s.Splits options d →
    Value.Extended (s.styled options) level d v texts → texts = [texts.flatten]
  | .fundamental _, _, _, _, _, h => by rw [h, List.flatten_singleton]
  | .enumeration _ _, _, _, _, _, h => by
    obtain ⟨e, -, rfl⟩ := h
    rw [List.flatten_singleton]
  | .vector _, _, _, _, _, h => by
    obtain ⟨items, -, rfl⟩ := h
    rw [List.flatten_singleton]
  | .struct ps, _, _, _, hsplits, h => by
    obtain ⟨own, members, -, -, rfl⟩ := h
    have hname : (s.styled options).typeName false ps = [] := by
      cases hformat : s.format.objectFormat with
      | withoutTypeName => exact typeName_nil hformat false ps
      | withTypeName =>
        rw [typeName_eq hformat]
        exact if_neg fun hstyle => hsplits ⟨hformat, by simpa using hstyle⟩
    rw [hname, List.nil_append, List.flatten_singleton]

theorem behaves_no_object (hs : s.Known) (h : Separates s trail P) :
    Behaves P (consumeTokenAfterWhitespace s.format.objectBegin) trail none := by
  obtain ⟨-, -, -, -, hbegin, -⟩ := hs.brackets
  have hnot {b : UInt8} (hb : b ≠ 0x7B) (hblank : isWhitespace b = false) (rest : List UInt8) :
      NonBlank (b :: rest) ∧ ¬s.format.objectBegin <+: b :: rest := by
    refine ⟨fun c hc => ?_, ?_⟩
    · cases hc
      exact hblank
    · rw [hbegin]
      rintro ⟨t, ht⟩
      exact hb (List.cons.inj ht).1.symm
  cases h with
  | comma =>
    exact (behaves_no_tokenAfterWhitespace blank_nil _).none_append fun rest _ =>
      hnot (by decide) (by decide) rest
  | @blank _ b hw hb =>
    refine (behaves_no_tokenAfterWhitespace hw.blank _).mono ?_
    rintro _ ⟨t, rfl⟩
    exact hnot (by rcases hb.mem hs with rfl | rfl <;> decide) (hb.nonBlank hs) t

theorem readMembers_none {α : Type} {name : List UInt8}
    {property : List UInt8 → α → Option (ReadText α)} {x : α}
    (h : Behaves P (readObjectBegin s name) text none) :
    Behaves P (readMembers s nesting name property x) text none := by
  have hread := h.bind (Q := P) (u := []) (g := fun _ => none)
    (f := fun _ => loop (tryReadObjectEnd s nesting) (readMember s nesting property)
      (fun _ => .hangs) x) (fun _ h => h) nofun
  rw [List.append_nil] at hread
  exact hread

/-- Where the name of the type is a string of its own, no object follows it. -/
theorem behaves_split (hs : s.Known) {ps : PropertyDescriptors} (hname : s.SpelledName ps)
    (hsplits : s.Splits options (.struct ps)) (h : Separates s trail P) (level : ℕ)
    (x : Value (.struct ps)) :
    Behaves P (s.readType resize level nesting (.struct ps) x)
      (ascii (s.structName ps) ++ trail) none := by
  obtain ⟨hformat, -⟩ := hsplits
  obtain ⟨hidentifier, hne⟩ := hname hformat
  obtain ⟨b, t, htext, hsymbol⟩ := exists_identifier hidentifier hne
  have hblank : isWhitespace b = false := not_isWhitespace_of_identifier hsymbol
  have hthen {β : Type} {m : ReadText β} {c : β}
      (hm : ReadsBefore (fun _ => True) m (ascii (s.structName ps)) c) : Behaves P (do
        let _ ← m
        consumeTokenAfterWhitespace s.format.objectBegin) (ascii (s.structName ps) ++ trail) none :=
    hm.then (fun _ _ => trivial) (behaves_no_object hs h)
  have hbegin : Behaves P (readObjectBegin s (ascii (s.structName ps)))
      (ascii (s.structName ps) ++ trail) none := by
    rw [readObjectBegin, hformat]
    cases s.options.policy with
    | strict =>
      refine hthen (c := ()) ?_
      rw [htext]
      exact (reads_consumeTokenAfterWhitespace (w := []) blank_nil hblank t).before
    | relaxed =>
      refine hthen (c := true) ?_
      rw [htext]
      exact (reads_tokenAfterWhitespace (w := []) blank_nil hblank t).before
  rw [readType]
  exact readMembers_none hbegin

/-! ## Members -/

/-- `fs` tells what is made of each element, and the inserted ones change nothing. -/
theorem stepsTo_inserts {α : Type} {b : UInt8} {body : α → ReadText α} {p : List UInt8 → Prop}
    {own members : List (List UInt8)} (hinserts : Inserts p own members)
    (hp : ∀ text, p text → Opens b text ∧ ∀ a trail P, Separates s trail P →
      ReadsBefore P (body a) (text ++ trail) a) :
    ∀ {fs : List (α → Option α)},
      List.Forall₂ (fun f text => Opens b text ∧ ∀ a trail P, Separates s trail P →
        Behaves P (body a) (text ++ trail) (f a)) fs own →
      ∀ a, StepsTo s b body a members (fs.foldlM (fun a f => f a) a) := by
  induction hinserts with
  | nil =>
    intro fs hown a
    obtain rfl := List.forall₂_nil_right_iff.mp hown
    exact .nil a
  | own text _ ih =>
    intro fs hown a
    obtain ⟨f, fs, hf, hrest, rfl⟩ := List.forall₂_cons_right_iff.mp hown
    have hread := hf.2 a
    rw [List.foldlM_cons]
    cases hr : f a with
    | none => exact .fails hf.1 (hr ▸ hread)
    | some a' => exact .cons hf.1 (hr ▸ hread) (ih hrest a')
  | added hb _ ih =>
    intro fs hown a
    obtain ⟨hopens, hread⟩ := hp _ hb
    exact .cons hopens (fun trail P h => (hread a trail P h).behaves) (ih hown a)

/-- The text of the value of a property is read over the value that is there. -/
structure PropertyReads (s : TextSerializer) (options : TextOptions) (resize : Resize)
    (included : PropertySet) (ps : PropertyDescriptors) (x : Instance ps) (name : String)
    (value : List UInt8) : Prop where
  identifier : IsIdentifier name
  mem : name ∈ ps.names
  nonBlank (rest : List UInt8) : NonBlank (value ++ rest)
  reads {level : ℕ} (hlevel : 2 ≤ level) (nesting : List State) (y : Instance ps)
    {gap trail : List UInt8} {P : List UInt8 → Prop} (hgap : Spaces gap)
    (h : Separates s trail P) :
    ∃ read, s.readProperty resize level (.object :: nesting) included (ascii name) ps y =
      some read ∧
        Behaves P read (gap ++ (value ++ trail)) (s.overMember options resize name ps x y)

/-- Another property in front changes nothing. -/
theorem PropertyReads.cons {included : PropertySet} {ps : PropertyDescriptors} {x : Instance ps}
    {name : String} {value : List UInt8}
    (h : PropertyReads s options resize included ps x name value) {p : PropertyDescriptor}
    (hidentifier : IsIdentifier p.name) (hnew : p.name ∉ ps.names)
    (d : TypeDescriptor) (v : Option (Value d)) :
    PropertyReads s options resize included (.cons p d ps) (v, x) name value where
  identifier := h.identifier
  mem := List.mem_cons_of_mem _ h.mem
  nonBlank := h.nonBlank
  reads {level} hlevel nesting y {gap trail P} hgap hseparates := by
    obtain ⟨w, y⟩ := y
    have hne : p.name ≠ name := fun heq => hnew (heq ▸ h.mem)
    have hother : ascii p.name ≠ ascii name :=
      fun heq => hne (ascii_injOn hidentifier h.identifier heq)
    obtain ⟨read, hread, hbehaves⟩ := h.reads hlevel nesting y hgap hseparates
    refine ⟨do return (w, ← read), ?_, ?_⟩
    · rw [readProperty, if_neg hother, hread]
      rfl
    · rw [overMember_of_ne hne]
      exact hbehaves.bind_pure

/-- The text of the value of the first property. -/
theorem propertyReads_self (hs : s.Known) {p : PropertyDescriptor} {d : TypeDescriptor}
    {ps : PropertyDescriptors} (hidentifier : IsIdentifier p.name) {included : PropertySet}
    (hp : p.tag ∈ included) {v : Option (Value d)} {x : Instance ps} {value : List UInt8}
    (h : match v with
      | some v => Begins s value ∧ ∀ {level : ℕ}, 2 ≤ level → ∀ (state : State)
          (nesting : List State) {trail : List UInt8} {P : List UInt8 → Prop} (w : Value d),
          Separates s trail P → Behaves P (s.readType resize level (state :: nesting) d w)
            (value ++ trail) (s.overlay options resize d v w)
      | none => value = s.format.nullValue) :
    PropertyReads s options resize included (.cons p d ps) (v, x) p.name value where
  identifier := hidentifier
  mem := List.mem_cons_self
  nonBlank := by
    cases v with
    | none => exact h ▸ (skips_null hs).1
    | some v => exact h.1.nonBlank
  reads {level} hlevel nesting y {gap trail P} hgap hseparates := by
    obtain ⟨w, y⟩ := y
    have hset : p.set ⊆ included := PropertyDescriptor.set_subset_iff.mpr hp
    refine ⟨do
      let v ← readValue s (.object :: nesting) w (s.readType resize level (.object :: nesting) d)
      return (v, y), ?_, ?_⟩
    · rw [readProperty, if_pos rfl, if_pos hset]
    · rw [overMember_self]
      refine Behaves.bind_pure ?_
      cases v with
      | none =>
        obtain rfl := h
        exact (readsBefore_null hs hseparates hgap _ w).behaves
      | some v =>
        exact behaves_readValue hs hseparates hgap h.1 (h.2 hlevel .object nesting _ hseparates)

/-- A member with the name of a property. -/
theorem PropertyReads.member (hs : s.Known) {included : PropertySet} {ps : PropertyDescriptors}
    {x : Instance ps} {name : String} {value : List UInt8}
    (h : PropertyReads s options resize included ps x name value) {level : ℕ} (hlevel : 2 ≤ level)
    (nesting : List State) :
    Opens 0x7D ((s.styled options).memberName (ascii name) ++ value) ∧
      ∀ (y : Instance ps) (trail : List UInt8) (P : List UInt8 → Prop), Separates s trail P →
        Behaves P (readMember s nesting
          (fun name y => s.readProperty resize level (.object :: nesting) included name ps y) y)
          ((s.styled options).memberName (ascii name) ++ value ++ trail)
          (s.overMember options resize name ps x y) :=
  ⟨opens_member hs _ _, fun y _ _ hseparates => behaves_readMember hs h.identifier h.nonBlank
    fun _ hgap => h.reads hlevel nesting y hgap hseparates⟩

theorem begins_struct (hs : s.Known) {ps : PropertyDescriptors} (hname : s.SpelledName ps)
    (outermost : Bool) (level : ℕ) (members : List (List UInt8)) :
    Begins s ((s.styled options).typeName outermost ps ++
      [enclosed options level s.format.objectBegin s.format.objectEnd members]).flatten := by
  have hobject := begins_enclosed_object hs options level members
  cases hformat : s.format.objectFormat with
  | withoutTypeName =>
    rw [typeName_nil hformat, List.nil_append, List.flatten_singleton]
    exact hobject
  | withTypeName =>
    have hstring : s.format = StringFormat := hs.resolve_left fun hjson => by
      rw [hjson] at hformat
      cases hformat
    obtain ⟨hidentifier, hne⟩ := hname hformat
    rw [typeName_eq hformat]
    split_ifs
    · exact begins_identifier hstring hidentifier hne _
    · rw [List.nil_append, List.flatten_singleton]
      exact hobject

theorem includedAt_eq_univ {level : ℕ} (hlevel : 2 ≤ level) (included : PropertySet) :
    CborSerializer.includedAt level included = Finset.univ := by
  have hvisiting : visitingLevel level > 0 := by
    rw [visitingLevel, if_neg (by omega)]
    omega
  exact if_pos hvisiting

/-- The members of an object, with the inserted ones, are read over an instance. -/
theorem stepsTo_members (hs : s.Known) {ps : PropertyDescriptors}
    (hps : ps.Spelled s) {included : PropertySet} {x : Instance ps}
    {written : PropertySet} {own members : List (List UInt8)}
    (hown : List.Forall₂ (fun name text => ∃ value,
      text = (s.styled options).memberName (ascii name) ++ value ∧
        PropertyReads s options resize included ps x name value) (ps.includedNames written) own)
    {p : List UInt8 → Prop} (hinserts : Inserts p own members) {level : ℕ} (hlevel : 2 ≤ level)
    (nesting : List State)
    (hp : ∀ text, p text → Opens 0x7D text ∧ ∀ a trail P, Separates s trail P →
      ReadsBefore P (readMember s nesting (fun name y =>
        s.readProperty resize level (.object :: nesting) included name ps y) a) (text ++ trail) a)
    (y : Instance ps) :
    StepsTo s 0x7D (readMember s nesting
      (fun name y => s.readProperty resize level (.object :: nesting) included name ps y)) y members
      (s.overMembers options resize written ps x y) := by
  have hfs : List.Forall₂ (fun f text => Opens 0x7D text ∧ ∀ a trail P, Separates s trail P →
      Behaves P (readMember s nesting (fun name y =>
        s.readProperty resize level (.object :: nesting) included name ps y) a)
        (text ++ trail) (f a))
      ((ps.includedNames written).map fun name y => s.overMember options resize name ps x y)
      own := by
    rw [List.forall₂_map_left_iff]
    refine hown.imp fun name text hmember => ?_
    obtain ⟨value, rfl, hreads⟩ := hmember
    exact hreads.member hs hlevel nesting
  have hsteps := stepsTo_inserts hinserts hp hfs y
  rw [List.foldlM_map] at hsteps
  rw [overMembers_eq written ps x y hps]
  exact hsteps

/-- A member of another type is passed. -/
theorem foreign_passes (hs : s.Known) (hw : s.Converts) {ps : PropertyDescriptors}
    (hps : ps.Spelled s) {level : ℕ} (nesting : List State)
    (h : (s.styled options).Foreign ps.names text) :
    Opens 0x7D text ∧ ∀ a trail P, Separates s trail P →
      ReadsBefore P (readMember s nesting (fun name y =>
        s.readProperty resize level (.object :: nesting) Finset.univ name ps y) a)
        (text ++ trail) a := by
  refine ⟨?_, fun a trail P hseparates => readsBefore_foreign hs hw
    (fun name hname hnew => readProperty_eq_none ps hps name hname hnew a) h hseparates⟩
  obtain ⟨-, -, -⟩ := h
  exact opens_member hs _ _

theorem overlay_enumeration {name : String} {es : List EnumeratorDescriptor}
    (v w : Value (.enumeration name es)) :
    s.overlay options resize (.enumeration name es) v w =
      match enumeratorFromValue name es v with
      | .ok e => if s.LegibleEnumerator options name e then some v else none
      | .error _ => none :=
  rfl

theorem overlay_vector {d : TypeDescriptor} (vs ws : Value (.vector d)) :
    s.overlay options resize (.vector d) vs ws =
      if s.Splits options d ∧ vs.1 ≠ [] then none
      else (vs.1.map fun v => pushed resize (s.overlay options resize d v)).foldlM
        (fun ws f => f ws) ws :=
  rfl

theorem overlay_struct {ps : PropertyDescriptors} (x y : Value (.struct ps)) :
    s.overlay options resize (.struct ps) x y =
      if s.LegibleObject options false then
        s.overMembers options resize (Instance.validProperties ps x) ps x y
      else none :=
  rfl

/-- No element is read where the name of its type is a string of its own. -/
theorem stepsTo_split (hs : s.Known) {b : UInt8} (hend : s.format.arrayEnd = [b])
    {d : TypeDescriptor} (hd : d.Spelled s) (hsplits : s.Splits options d) {level : ℕ}
    {readLevel : ℕ} {v : Value d} {vs : List (Value d)} {items : List (List (List UInt8))}
    (hitems : List.Forall₂ (Value.Extended (s.styled options) level d) (v :: vs) items)
    (ws : Value (.vector d)) :
    StepsTo s b (readElement resize (s.readType resize readLevel nesting d)) ws items.flatten
      none := by
  obtain ⟨item, items, hitem, -, rfl⟩ := List.forall₂_cons_left_iff.mp hitems
  cases d with
  | fundamental t => exact absurd hsplits id
  | enumeration name es => exact absurd hsplits id
  | vector d => exact absurd hsplits id
  | struct ps =>
    obtain ⟨own, members, -, -, rfl⟩ := hitem
    have hformat := hsplits.1
    have hstring : s.format = StringFormat := hs.resolve_left fun hjson => by
      rw [hjson] at hformat
      cases hformat
    obtain ⟨hidentifier, hne⟩ := hd.1 hformat
    have hbegins := begins_identifier hstring hidentifier hne []
    rw [List.append_nil] at hbegins
    rw [List.flatten_cons, typeName_eq hformat, if_pos (Or.inl hsplits.2)]
    refine .fails ⟨hbegins.ne_nil, hbegins.nonBlank, hend ▸ hbegins.not_end⟩
      fun trail P hseparates => ?_
    have hread : Behaves P
        (readElement resize (s.readType resize readLevel nesting (.struct ps)) ws)
        (ascii (s.structName ps) ++ trail) (pushed resize (fun _ => none) ws) :=
      behaves_readElement (fun w => behaves_split hs hd.1 hsplits hseparates readLevel w) ws
    have hnone : pushed resize (fun _ : Value (.struct ps) => none) ws = none := by
      unfold pushed
      dsimp only
      split_ifs <;> rfl
    rwa [hnone] at hread

theorem flatten_eq_map {α : Type} {f : List α → α} : ∀ {items : List (List α)},
    (∀ item ∈ items, item = [f item]) → items.flatten = items.map f
  | [], _ => rfl
  | item :: items, h => by
    have ih := flatten_eq_map fun item hitem => h item (List.mem_cons_of_mem _ hitem)
    have hitem : item ++ items.map f = [f item] ++ items.map f :=
      congrArg (· ++ items.map f) (h item List.mem_cons_self)
    rw [List.flatten_cons, ih, hitem]
    rfl

mutual

/-- **A value** is read over another one from its strings, whatever members of other types are in
them. -/
theorem behaves_readType (hs : s.Known) (hw : s.Converts) : (d : TypeDescriptor) → (v : Value d) →
    d.Spelled s → d.WellFormed → ∀ {level : ℕ} {texts : List (List UInt8)},
    Value.Extended (s.styled options) level d v texts →
    Begins s texts.flatten ∧ ∀ {readLevel : ℕ}, 2 ≤ readLevel → ∀ (state : State)
      (nesting : List State) {trail : List UInt8} {P : List UInt8 → Prop} (w : Value d),
      Separates s trail P → Behaves P (s.readType resize readLevel (state :: nesting) d w)
        (texts.flatten ++ trail) (s.overlay options resize d v w)
  | .fundamental t, v, _, _, level, texts, h => by
    obtain rfl := h
    rw [List.flatten_singleton]
    refine ⟨begins_fundamentalText hs t v (hw t v), fun _ state nesting trail P w hseparates => ?_⟩
    rw [readType, overlay]
    exact behaves_readFundamental hs hseparates t v (hw t v)
  | .enumeration name es, v, hd, hwf, level, texts, h => by
    obtain ⟨e, he, rfl⟩ := h
    obtain ⟨hmem, hvalue⟩ := CborSerializer.enumeratorFromValue_eq_ok he
    rw [List.flatten_singleton]
    refine ⟨begins_enumeratorText hs hd hmem, fun _ state nesting trail P w hseparates => ?_⟩
    rw [overlay_enumeration, he, readType]
    obtain rfl := hvalue
    exact behaves_readEnum hs hseparates hwf.1 hd hmem
  | .vector d, vs, hd, hwf, level, texts, h => by
    obtain ⟨items, hitems, rfl⟩ := h
    rw [List.flatten_singleton]
    refine ⟨begins_enclosed_array hs options level _,
      fun hlevel state nesting trail P ws hseparates => ?_⟩
    obtain ⟨-, b, -, hend, -⟩ := hs.brackets
    have hd' : d.Spelled s := hd
    rw [readType, overlay_vector]
    refine behaves_readElements hs hend ?_
      (readsBefore_finalizeRead hs hseparates state nesting) level
    by_cases hsplits : s.Splits options d
    · cases hvs : vs.1 with
      | nil =>
        rw [hvs] at hitems
        obtain rfl := List.forall₂_nil_left_iff.mp hitems
        rw [if_neg (by simp)]
        exact .nil ws
      | cons v vs' =>
        rw [hvs] at hitems
        rw [if_pos ⟨hsplits, List.cons_ne_nil v vs'⟩]
        exact stepsTo_split hs hend hd' hsplits hitems ws
    · have hflat : items.flatten = items.map List.flatten := by
        refine flatten_eq_map fun item hmem => ?_
        obtain ⟨v, -, hitem⟩ := exists_of_mem_right hitems hmem
        exact extended_singleton hsplits hitem
      rw [if_neg fun h => hsplits h.1, hflat]
      refine stepsTo_of_forall₂ (List.forall₂_map_left_iff.mpr (List.forall₂_map_right_iff.mpr
        (hitems.imp fun v item hitem => ?_))) ws
      obtain ⟨hbegins, hread⟩ := behaves_readType hs hw d v hd' hwf hitem
      exact ⟨⟨hbegins.ne_nil, hbegins.nonBlank, hend ▸ hbegins.not_end⟩,
        fun ws trail P hseparates => behaves_readElement (fun w =>
          hread (by omega) .array (state :: nesting) w hseparates) ws⟩
  | .struct ps, x, hd, hwf, level, texts, h => by
    obtain ⟨own, members, hown, hinserts, rfl⟩ := h
    refine ⟨begins_struct hs hd.1 false level members,
      fun hlevel state nesting trail P y hseparates => ?_⟩
    rw [readType, overlay_struct, includedAt_eq_univ hlevel]
    have hmembers := behaves_members hs hw ps x hd.2 hwf (Finset.subset_univ _) hown
    exact behaves_readMembers hs hd.1 false (stepsTo_members hs hd.2 hmembers hinserts (by omega)
      (state :: nesting) (fun text htext => foreign_passes hs hw hd.2 (state :: nesting) htext) y)
      (readsBefore_finalizeRead hs hseparates state nesting) level

theorem behaves_members (hs : s.Known) (hw : s.Converts) : (ps : PropertyDescriptors) →
    (x : Instance ps) → ps.Spelled s → ps.WellFormed →
    ∀ {level : ℕ} {written included : PropertySet} {texts : List (List UInt8)}, written ⊆ included →
    Instance.Extended (s.styled options) level written ps x texts →
    List.Forall₂ (fun name text => ∃ value,
      text = (s.styled options).memberName (ascii name) ++ value ∧
        PropertyReads s options resize included ps x name value) (ps.includedNames written) texts
  | .nil, _, _, _, level, written, included, texts, _, h => by
    obtain rfl := h
    exact .nil
  | .cons p d ps, (v, x), hps, hwf, level, written, included, texts, hsub, h => by
    rw [Instance.Extended] at h
    rw [PropertyDescriptors.includedNames]
    split_ifs at h ⊢ with hp
    · obtain ⟨value, rest, hvalue, hrest, rfl⟩ := h
      refine .cons ⟨value.flatten, rfl, propertyReads_self hs hps.1 (hsub hp) ?_⟩ ?_
      · cases v with
        | none => rw [hvalue, List.flatten_singleton]; rfl
        | some v => exact behaves_readType hs hw d v hps.2.2.1 hwf.2.1 hvalue
      · refine (behaves_members hs hw ps x hps.2.2.2 hwf.2.2 hsub hrest).imp
          fun name text hmember => ?_
        obtain ⟨value, htext, hreads⟩ := hmember
        exact ⟨value, htext, hreads.cons hps.1 hps.2.1 d v⟩
    · refine (behaves_members hs hw ps x hps.2.2.2 hwf.2.2 hsub h).imp fun name text hmember => ?_
      obtain ⟨value, htext, hreads⟩ := hmember
      exact ⟨value, htext, hreads.cons hps.1 hps.2.1 d v⟩

end

/-! ## Texts of instances -/

/-- The text of an instance on a property set, with members of other types in its objects. -/
def ExtendedText (s : TextSerializer) (included : PropertySet) (ps : PropertyDescriptors)
    (x : Instance ps) (text : List UInt8) : Prop :=
  ∃ own members, Instance.Extended s 1 included ps x own ∧
    Inserts (s.Foreign ps.names) own members ∧ text = (s.typeName true ps ++
      [enclosed s.options 0 s.format.objectBegin s.format.objectEnd members]).flatten

theorem Inserts.refl {α : Type} (p : α → Prop) : ∀ as : List α, Inserts p as as
  | [] => .nil
  | a :: as => .own a (Inserts.refl p as)

mutual

/-- What is written has no other members. -/
theorem extended_of_valueTexts : (d : TypeDescriptor) → (v : Value d) → ∀ {level : ℕ}
    {texts : List (List UInt8)}, s.valueTexts level d v = .ok texts →
    Value.Extended s level d v texts
  | .fundamental t, v, level, texts, h => by
    rw [valueTexts] at h
    exact (Except.ok.inj h).symm
  | .enumeration name es, v, level, texts, h => by
    rw [valueTexts] at h
    obtain ⟨e, he, h⟩ := bind_eq_ok h
    exact ⟨e, he, (Except.ok.inj h).symm⟩
  | .vector d, vs, level, texts, h => by
    rw [valueTexts] at h
    obtain ⟨items, hitems, h⟩ := bind_eq_ok h
    exact ⟨items, (forall₂_of_mapM hitems).imp fun v item hitem => extended_of_valueTexts d v hitem,
      (Except.ok.inj h).symm⟩
  | .struct ps, x, level, texts, h => by
    rw [valueTexts] at h
    obtain ⟨members, hmembers, h⟩ := bind_eq_ok h
    exact ⟨members, members, extended_of_memberTexts ps x hmembers, Inserts.refl _ members,
      (Except.ok.inj h).symm⟩

theorem extended_of_memberTexts : (ps : PropertyDescriptors) → (x : Instance ps) →
    ∀ {level : ℕ} {included : PropertySet} {texts : List (List UInt8)},
    s.memberTexts level included ps x = .ok texts → Instance.Extended s level included ps x texts
  | .nil, _, level, included, texts, h => by
    rw [memberTexts] at h
    exact (Except.ok.inj h).symm
  | .cons p d ps, (v, x), level, included, texts, h => by
    simp only [memberTexts] at h
    rw [Instance.Extended]
    split_ifs at h ⊢ with hp
    · obtain ⟨value, hvalue, h⟩ := bind_eq_ok h
      obtain ⟨rest, hrest, h⟩ := bind_eq_ok h
      refine ⟨value, rest, ?_, extended_of_memberTexts ps x hrest, (Except.ok.inj h).symm⟩
      cases v with
      | none => exact (Except.ok.inj hvalue).symm
      | some v => exact extended_of_valueTexts d v hvalue
    · exact extended_of_memberTexts ps x h

end

theorem extendedText_of_serialize (hs : s.format.Commas) {ps : PropertyDescriptors}
    {x : Instance ps} {included : PropertySet} (h : s.serialize ps x included = .ok text) :
    s.ExtendedText included ps x text := by
  obtain ⟨texts, htexts, rfl⟩ := (serialize_eq_ok_iff hs ps x included text).mp h
  obtain ⟨members, hmembers, h⟩ := bind_eq_ok htexts
  exact ⟨members, members, extended_of_memberTexts ps x hmembers, Inserts.refl _ members,
    congrArg List.flatten (Except.ok.inj h).symm⟩

/-- **The outcome of a text**, whatever members of other types are in it, with the end that the
reader comes to. -/
theorem deserialize_extended (hs : s.Known) (hw : s.Converts) {ps : PropertyDescriptors}
    (hname : s.SpelledName ps) (hps : ps.Spelled s) (hwf : ps.WellFormed) {x : Instance ps}
    {included : PropertySet} (h : (s.styled options).ExtendedText included ps x text)
    (y : Instance ps) (rest : List UInt8) :
    (s.deserialize resize ps y Finset.univ (text ++ rest)).toOption =
      (s.overInstance options resize included ps x y).map fun z => (z, text.length) := by
  obtain ⟨own, members, hown, hinserts, htext⟩ := h
  have htext' : ((s.styled options).typeName true ps ++
      [enclosed options 0 s.format.objectBegin s.format.objectEnd members]).flatten = text :=
    htext.symm
  have hfinal : ReadsBefore (fun _ => True) (finalizeRead s []) [] () := .pure ()
  have hread : Behaves (fun _ => True) (s.readStruct resize 1 [] Finset.univ ps y)
      (((s.styled options).typeName true ps ++
        [enclosed options 0 s.format.objectBegin s.format.objectEnd members]).flatten ++ [])
      (s.overInstance options resize included ps x y) := by
    have hincluded : CborSerializer.includedAt 1 Finset.univ = Finset.univ := ite_self _
    rw [readStruct, hincluded, overInstance]
    exact behaves_readMembers hs hname true (stepsTo_members hs hps
      (behaves_members hs hw ps x hps hwf (Finset.subset_univ _) hown) hinserts le_rfl []
      (fun text htext => foreign_passes hs hw hps [] htext) y) hfinal 0
  have hbegins : Begins s ((s.styled options).typeName true ps ++
      [enclosed options 0 s.format.objectBegin s.format.objectEnd members]).flatten :=
    begins_struct hs hname true 0 members
  have hne : text ≠ [] := htext' ▸ hbegins.ne_nil
  rw [htext', List.append_nil] at hread
  have hmap (e : Except TextFailure (Instance ps × Cursor UInt8)) :
      (e.map fun r => (r.1, r.2.offset)).toOption = e.toOption.map fun r => (r.1, r.2.offset) := by
    cases e <;> rfl
  rw [run_deserialize fun hnil => hne (List.append_eq_nil_iff.mp hnil).1, hmap,
    hread 0 rest trivial, Option.map_map]
  simp only [Function.comp_def, Nat.zero_add]

theorem mem_intercalate_hexadecimal {groups : List (List UInt8)} {b : UInt8}
    (h : b ∈ List.intercalate (ascii "-") (groups.map hexadecimal)) :
    b = 0x2D ∨ ∃ d < 16, b = digitSymbol d := by
  have hgroup {group : List UInt8} (hb : b ∈ hexadecimal group) : ∃ d < 16, b = digitSymbol d := by
    obtain ⟨c, -, hb⟩ := List.mem_flatMap.mp hb
    have hc := UInt8.toNat_lt c
    rcases List.mem_cons.mp hb with rfl | hb
    · exact ⟨_, by omega, rfl⟩
    · exact ⟨_, by omega, List.mem_singleton.mp hb⟩
  induction groups with
  | nil => cases h
  | cons group groups ih =>
    cases groups with
    | nil =>
      rw [List.map_cons, List.map_nil, List.intercalate_singleton] at h
      exact Or.inr (hgroup h)
    | cons next groups =>
      rw [List.map_cons, List.map_cons, List.intercalate_cons_cons, List.mem_append,
        List.mem_append] at h
      rcases h with (h | h) | h
      · exact Or.inr (hgroup h)
      · exact Or.inl (List.mem_singleton.mp h)
      · exact ih h

/-- What is written for uuids, times and floating-point values can stand in a JSON text. -/
theorem uuidConverters_converts (options : TextOptions) :
    (JsonSerializer options uuidConverters).Converts := by
  have hparsed {bits : ℕ} : ParsedBy (fun input => ((0 : BitVec bits),
      if (ascii "0.0").isPrefixOf input then 3 else 0)) (ascii "0.0") := by
    refine ⟨⟨by decide, by decide +kernel⟩, fun rest _ => ?_⟩
    show ((0 : BitVec bits), if (ascii "0.0").isPrefixOf (ascii "0.0" ++ rest) then 3 else 0) = _
    rw [if_pos (isPrefixOf_append _ rest)]
    rfl
  have hfloat32 (v : BitVec 32) :
      ParsedBy uuidConverters.strtof (float32Text uuidConverters v) := by
    have htext : float32Text uuidConverters v = ascii "0.0" := ite_self _
    rw [htext]
    exact hparsed
  have hfloat64 (v : BitVec 64) :
      ParsedBy uuidConverters.strtod (float64Text uuidConverters v) := by
    have htext : float64Text uuidConverters v = ascii "0.0" := ite_self _
    rw [htext]
    exact hparsed
  have hquotable (v : FundamentalType.Value .uuid) : Quotable (uuidConverters.uuidText v) := by
    constructor <;> intro h <;> rcases mem_intercalate_hexadecimal h with h | ⟨d, hd, h⟩
    · exact absurd h (by decide)
    · interval_cases d <;> exact absurd h (by decide)
    · exact absurd h (by decide)
    · interval_cases d <;> exact absurd h (by decide)
  intro t v
  cases t with
  | float32 => exact hfloat32 v
  | float64 | timepoint | steadyTimepoint | duration => exact hfloat64 v
  | uuid => exact hquotable v
  | _ => trivial

end TextSerializer

end Dots

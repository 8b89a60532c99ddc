import Dots.Text.Json

/-!
# The texts of both formats

* `StringSerializer`: the other text format, whose objects have the names of their types.
* `TextFormat.Commas`: what the formats have in common.
* `valueTexts`, `memberTexts`: a value is written as one or two strings, which are elements of their
  own in an array; the name of a type is one of them.
* **`gives_visitType`**: a value is written as its strings, one after the other.
* **`serialize_eq_ok_iff`**: the text of an instance.
-/

set_option autoImplicit false

namespace Dots

/-- `StringSerializer`. -/
def StringSerializer (options : TextOptions) (converters : Converters)
    (structName : PropertyDescriptors → String) : TextSerializer where
  format := StringFormat
  options := options
  converters := converters
  structName := structName

/-- Elements and members are separated by commas. -/
structure TextFormat.Commas (format : TextFormat) : Prop where
  element : format.arrayElementSeparator = ascii ","
  member : format.objectMemberValueEnd = ascii ","

theorem commas_json : JsonFormat.Commas := ⟨rfl, rfl⟩

theorem commas_string : StringFormat.Commas := ⟨rfl, rfl⟩

namespace TextSerializer

open TextWriter Json

variable (s : TextSerializer)

/-! ## Texts -/

/-- The suffix of a number inside of an array or object. -/
def suffixText (hasSuffix : Bool) (str : List UInt8) : List UInt8 :=
  if hasSuffix ∧ s.options.style ≠ .minified then str else []

def integerText (base : ℕ) (isUnsigned : Bool) (value : ℤ) : List UInt8 :=
  (if base = 2 then ascii "0b" else if base = 16 then ascii "0x" else []) ++ toChars base value ++
    s.suffixText (s.format.integerFormat = .withSignSuffix ∧ isUnsigned) (ascii "u")

/-- The text of a fundamental value inside of an array or object. -/
def fundamentalText : (t : FundamentalType) → t.Value → List UInt8
  | .boolean, (v : Bool) => if v then ascii "true" else ascii "false"
  | .int8, (v : BitVec 8) => s.integerText 10 false v.toInt
  | .uint8, (v : BitVec 8) => s.integerText 10 true v.toNat
  | .int16, (v : BitVec 16) => s.integerText 10 false v.toInt
  | .uint16, (v : BitVec 16) => s.integerText 10 true v.toNat
  | .int32, (v : BitVec 32) => s.integerText 10 false v.toInt
  | .uint32, (v : BitVec 32) => s.integerText 10 true v.toNat
  | .int64, (v : BitVec 64) => s.integerText 10 false v.toInt
  | .uint64, (v : BitVec 64) => s.integerText 10 true v.toNat
  | .float32, (v : BitVec 32) => float32Text s.converters v ++
      s.suffixText (s.format.floatFormat = .withSizeSuffix) (ascii "f")
  | .float64, (v : BitVec 64) => float64Text s.converters v
  | .propertySet, (v : BitVec 32) =>
    s.integerText (match s.format.propertySetFormat with | .decimalValue => 10 | .binaryValue => 2)
      true v.toNat
  | .timepoint, (v : BitVec 64) =>
    match s.format.timepointFormat with
    | .fractionalSeconds => float64Text s.converters v
    | .iso8601String => quoted (s.converters.timepointText v)
  | .steadyTimepoint, (v : BitVec 64) => float64Text s.converters v
  | .duration, (v : BitVec 64) => float64Text s.converters v
  | .uuid, v => quoted (s.converters.uuidText v)
  | .string, v => quoted (escape v.1)

def enumeratorText (name : String) (e : EnumeratorDescriptor) : List UInt8 :=
  match s.format.enumFormat with
  | .tag => s.integerText 10 true e.tag.toNat
  | .identifier =>
    if s.format.objectFormat = .withTypeName ∧ s.options.style = .multiLine then
      ascii name ++ ascii "::" ++ ascii e.name
    else ascii e.name

/-- The name of a type, if it is written; `outermost` is about an object in no other. -/
def typeName (outermost : Bool) (ps : PropertyDescriptors) : List (List UInt8) :=
  match s.format.objectFormat, s.options.style with
  | .withTypeName, .singleLine => if outermost then [ascii (s.structName ps)] else []
  | .withTypeName, .multiLine => [ascii (s.structName ps)]
  | _, _ => []

/-- The name of a member with what stands before the value. -/
def memberName (name : List UInt8) : List UInt8 :=
  s.format.objectMemberNameBegin ++ name ++ s.format.objectMemberNameEnd ++ memberValueBegin s

mutual

/-- The strings that are written for a value. -/
def valueTexts (level : ℕ) : (d : TypeDescriptor) → Value d → Except Exception (List (List UInt8))
  | .fundamental t, v => .ok [s.fundamentalText t v]
  | .enumeration name es, v => do
    let e ← enumeratorFromValue name es v
    return [s.enumeratorText name e]
  | .vector d, vs => do
    let items ← vs.1.mapM (valueTexts (level + 1) d)
    return [enclosed s.options level s.format.arrayBegin s.format.arrayEnd items.flatten]
  | .struct ps, x => do
    let members ← memberTexts (level + 1) (x.validProperties ps) ps x
    return s.typeName false ps ++
      [enclosed s.options level s.format.objectBegin s.format.objectEnd members]

/-- The members of the included properties. -/
def memberTexts (level : ℕ) (included : PropertySet) :
    (ps : PropertyDescriptors) → Instance ps → Except Exception (List (List UInt8))
  | .nil, _ => .ok []
  | .cons p d ps, (v, x) =>
    if p.tag ∈ included then do
      let value ← (match v with
        | some v => valueTexts level d v
        | none => .ok [s.format.nullValue])
      return (s.memberName (ascii p.name) ++ value.flatten) :: (← memberTexts level included ps x)
    else memberTexts level included ps x

end

/-- The strings that are written for an instance on a property set, in no array or object. -/
def structTexts (included : PropertySet) (ps : PropertyDescriptors) (x : Instance ps) :
    Except Exception (List (List UInt8)) := do
  let members ← s.memberTexts 1 included ps x
  return s.typeName true ps ++
    [enclosed s.options 0 s.format.objectBegin s.format.objectEnd members]

/-! ## The writer -/

variable {s} {w : TextWriter} {str : List UInt8}

/-- Strings one after the other. -/
def writeStrings (s : TextSerializer) (texts : List (List UInt8)) (w : TextWriter) : TextWriter :=
  texts.foldl (fun w text => w.writeString s text) w

theorem writeStrings_singleton (text : List UInt8) :
    writeStrings s [text] w = w.writeString s text := rfl

theorem writeStrings_append (texts texts' : List (List UInt8)) :
    writeStrings s (texts ++ texts') w = writeStrings s texts' (writeStrings s texts w) :=
  List.foldl_append

theorem length_nesting_writeStrings (texts : List (List UInt8)) : ∀ w : TextWriter,
    (writeStrings s texts w).nesting.length = w.nesting.length := by
  induction texts with
  | nil => exact fun _ => rfl
  | cons text texts ih => exact fun w => (ih _).trans length_nesting_initiateWrite

/-- In an object, or in nothing, strings are only appended. -/
theorem writeStrings_of_append (hw : ∀ str, (w.append str).initiateWrite s = w.append str)
    (texts : List (List UInt8)) : writeStrings s texts w = w.append texts.flatten := by
  induction texts using List.reverseRecOn with
  | nil => simp [writeStrings, append]
  | append_singleton texts text ih =>
    rw [writeStrings_append, ih, writeStrings_singleton, writeString, hw, append_append,
      List.flatten_concat]

theorem writeStrings_object {first : Bool} {nesting : List (State × Bool)}
    (h : w.nesting = (.object, first) :: nesting) (texts : List (List UInt8)) :
    writeStrings s texts w = w.append texts.flatten :=
  writeStrings_of_append (fun _ => initiateWrite_object h) texts

theorem initiateWrite_nil (h : w.nesting = []) : w.initiateWrite s = w := by
  unfold initiateWrite
  rw [h]

/-- An element of an array. -/
theorem writeString_element (hs : s.format.Commas) {first : Bool} {nesting : List (State × Bool)}
    (h : w.nesting = (.array, first) :: nesting) :
    w.writeString s str =
      ⟨w.output ++ separated s.options (nesting.length + 1) first [str], (.array, false) :: nesting⟩ := by
  have hlength : w.nesting.length = nesting.length + 1 := by rw [h]; rfl
  cases first with
  | true =>
    have hinitiate : w.initiateWrite s =
        ⟨w.output ++ newLine s.options w.nesting.length, (.array, false) :: nesting⟩ := by
      unfold initiateWrite
      rw [h]
    rw [writeString, hinitiate, hlength]
    simp [append, separated]
  | false =>
    have hinitiate : w.initiateWrite s =
        w.append (ascii "," ++ newLine s.options w.nesting.length) := by
      unfold initiateWrite
      rw [h, ← hs.element]
    rw [writeString, hinitiate, hlength]
    simp [append, separated, h]

/-- The elements of an array, one after the other. -/
theorem writeStrings_elements (hs : s.format.Commas) (texts : List (List UInt8)) :
    ∀ {w : TextWriter} {first : Bool} {nesting : List (State × Bool)},
    w.nesting = (.array, first) :: nesting →
    writeStrings s texts w = ⟨w.output ++ separated s.options (nesting.length + 1) first texts,
        (.array, first && texts.isEmpty) :: nesting⟩ := by
  induction texts with
  | nil =>
    intro w first nesting h
    cases w
    simp_all [separated, writeStrings]
  | cons text texts ih =>
    intro w first nesting h
    show writeStrings s texts (w.writeString s text) = _
    rw [writeString_element hs h, ih rfl]
    simp [separated]

/-- An array between its brackets. -/
theorem writeStrings_array (hs : s.format.Commas) (texts : List (List UInt8)) :
    (writeStrings s texts (w.writeArrayBegin s)).writeArrayEnd s =
      w.writeString s (enclosed s.options w.nesting.length s.format.arrayBegin s.format.arrayEnd texts) := by
  have hbegin : (w.writeArrayBegin s).nesting =
      (.array, true) :: (w.writeString s s.format.arrayBegin).nesting := rfl
  rw [writeStrings_elements hs texts hbegin]
  have hlength : (w.writeString s s.format.arrayBegin).nesting.length = w.nesting.length :=
    length_nesting_initiateWrite
  rw [hlength, writeArrayEnd, enclosed, ← writeString_append]
  simp only [List.tail_cons, hlength, append, List.append_assoc]
  rfl

/-- The name of a member and its value. -/
theorem writeMemberName (hs : s.format.Commas) {first : Bool} {nesting : List (State × Bool)}
    {name : List UInt8} (h : w.nesting = (.object, first) :: nesting) :
    (w.writeObjectMemberName s name).append str =
      ⟨w.output ++ separated s.options (nesting.length + 1) first [s.memberName name ++ str],
        (.object, false) :: nesting⟩ := by
  have hlength : w.nesting.length = nesting.length + 1 := by rw [h]; rfl
  cases first with
  | true =>
    rw [writeObjectMemberName, h]
    simp [append, separated, memberName]
  | false =>
    rw [writeObjectMemberName, h]
    simp [append, separated, memberName, hs.member, h]

theorem writeObjectBegin_eq (ps : PropertyDescriptors) :
    w.writeObjectBegin s (ascii (s.structName ps)) =
      { (writeStrings s (s.typeName (w.nesting = []) ps) w).writeString s s.format.objectBegin with
        nesting := (.object, true) ::
          ((writeStrings s (s.typeName (w.nesting = []) ps) w).writeString s
            s.format.objectBegin).nesting } := by
  rw [writeObjectBegin, typeName]
  cases s.format.objectFormat with
  | withoutTypeName => cases s.options.style <;> rfl
  | withTypeName =>
    cases s.options.style with
    | minified => rfl
    | singleLine =>
      simp only [decide_eq_true_eq]
      split_ifs <;> rfl
    | multiLine => rfl

/-- An object between its brackets. -/
theorem writeStrings_members {ps : PropertyDescriptors} (texts : List (List UInt8)) {w' : TextWriter}
    (h : w' = ⟨(w.writeObjectBegin s (ascii (s.structName ps))).output ++
        separated s.options (w.nesting.length + 1) true texts,
      (.object, texts.isEmpty) :: (w.writeObjectBegin s (ascii (s.structName ps))).nesting.tail⟩) :
    w'.writeObjectEnd s = writeStrings s (s.typeName (w.nesting = []) ps ++
        [enclosed s.options w.nesting.length s.format.objectBegin s.format.objectEnd texts]) w := by
  subst h
  rw [writeStrings_append, writeStrings_singleton, enclosed, ← writeString_append, writeObjectEnd,
    writeObjectBegin_eq]
  simp only [List.tail_cons, writeString, length_nesting_initiateWrite, length_nesting_writeStrings,
    append, List.append_assoc]

theorem writeFundamental_eq (hw : w.nesting ≠ []) (t : FundamentalType) (v : t.Value) :
    s.writeFundamental t v w = w.writeString s (s.fundamentalText t v) := by
  have hnesting : (w.initiateWrite s).nesting ≠ [] := by
    rw [← List.length_pos_iff, length_nesting_initiateWrite]
    exact List.length_pos_iff.mpr hw
  have hsuffix (hasSuffix : Bool) (str : List UInt8) :
      (w.initiateWrite s).suffix s hasSuffix str = s.suffixText hasSuffix str := by
    rw [suffix, suffixText]
    simp only [hnesting, ne_eq, not_false_eq_true, true_and]
  have hinteger (base : ℕ) (isUnsigned : Bool) (v : ℤ) :
      w.writeInteger s base isUnsigned v = w.writeString s (s.integerText base isUnsigned v) := by
    rw [writeInteger, hsuffix]
    rfl
  have hquoted (str : List UInt8) : w.writeQuotedString s str = w.writeString s (quoted str) :=
    if_neg hnesting
  have hfloat (v : BitVec 32) : w.writeFloat32 s v = w.writeString s
      (float32Text s.converters v ++ s.suffixText (s.format.floatFormat = .withSizeSuffix) (ascii "f")) := by
    rw [TextWriter.writeFloat32, hsuffix]
    rfl
  cases t with
  | boolean => rfl
  | int8 | int16 | int32 | int64 => exact hinteger 10 false _
  | uint8 | uint16 | uint32 | uint64 => exact hinteger 10 true _
  | propertySet => exact hinteger _ true _
  | float32 => exact hfloat v
  | float64 | steadyTimepoint | duration => rfl
  | timepoint =>
    cases hformat : s.format.timepointFormat with
    | fractionalSeconds =>
      simp only [TextSerializer.writeFundamental, fundamentalText, hformat]
      rfl
    | iso8601String =>
      simp only [TextSerializer.writeFundamental, fundamentalText, hformat]
      exact hquoted _
  | uuid => exact hquoted _
  | string => exact if_neg hnesting

open TypeVisitor Keep

theorem gives_fundamental (hw : w.nesting ≠ []) (t : FundamentalType) (v : t.Value) (l : ℕ) :
    Gives (derived (s.visitor.visitFundamentalType t v)) ⟨l, w⟩ ()
      ⟨l, w.writeString s (s.fundamentalText t v)⟩ := by
  rw [← writeFundamental_eq hw]
  exact gives_derived (gives_change _ _)

theorem gives_enum (hw : w.nesting ≠ []) {name : String} {es : List EnumeratorDescriptor}
    {v : BitVec 32} {e : EnumeratorDescriptor} (he : enumeratorFromValue name es v = .ok e) (l : ℕ) :
    Gives (derived (s.visitor.visitEnum name es v)) ⟨l, w⟩ ()
      ⟨l, w.writeString s (s.enumeratorText name e)⟩ := by
  refine gives_derived ?_
  show Gives (s.writeEnum name es v) _ _ _
  rw [writeEnum, he, enumeratorText]
  cases s.format.enumFormat with
  | tag =>
    have htag : w.writeInteger s 10 true e.tag.toNat = w.writeString s (s.integerText 10 true e.tag.toNat) :=
      writeFundamental_eq hw .uint32 e.tag
    dsimp only
    rw [← htag]
    exact gives_change _ _
  | identifier =>
    have hnesting : (w.initiateWrite s).nesting ≠ [] := by
      rw [← List.length_pos_iff, length_nesting_initiateWrite]
      exact List.length_pos_iff.mpr hw
    have hname : w.writeIdentifierString s (ascii name ++ ascii "::") (ascii e.name) =
        w.writeString s (if s.format.objectFormat = .withTypeName ∧ s.options.style = .multiLine then
          ascii name ++ ascii "::" ++ ascii e.name else ascii e.name) := by
      rw [writeIdentifierString]
      simp only [hnesting, ne_eq, not_false_eq_true, true_and]
      split_ifs <;> rfl
    dsimp only
    rw [← hname]
    exact gives_change _ _

/-- A property that is included is a member. -/
theorem gives_visitProperty (hs : s.format.Commas) {p : PropertyDescriptor} {d : TypeDescriptor}
    {v : Option (Value d)} {included : PropertySet} {first : Bool} {nesting : List (State × Bool)}
    {l : ℕ} {texts : List (List UInt8)} (hp : p.tag ∈ included)
    (hw : w.nesting = (.object, first) :: nesting)
    (hvalue : ∀ v' ∈ v, ∀ w : TextWriter, w.nesting = (.object, false) :: nesting →
      Gives (visitType s.visitor d v') ⟨l, w⟩ () ⟨l, writeStrings s texts w⟩)
    (hnull : v = none → texts = [s.format.nullValue]) :
    Gives (visitProperty s.visitor included p (v.map (visitType s.visitor d))) ⟨l, w⟩ ()
      ⟨l, ⟨w.output ++ separated s.options (nesting.length + 1) first
        [s.memberName (ascii p.name) ++ texts.flatten], (.object, false) :: nesting⟩⟩ := by
  have hnesting : (w.writeObjectMemberName s (ascii p.name)).nesting = (.object, false) :: nesting := by
    have hmember : (w.writeObjectMemberName s (ascii p.name)).append [] =
        ⟨w.output ++ separated s.options (nesting.length + 1) first [s.memberName (ascii p.name) ++ []],
          (.object, false) :: nesting⟩ := writeMemberName hs hw
    exact congrArg TextWriter.nesting hmember
  have hname (texts : List (List UInt8)) :
      writeStrings s texts (w.writeObjectMemberName s (ascii p.name)) =
        ⟨w.output ++ separated s.options (nesting.length + 1) first
          [s.memberName (ascii p.name) ++ texts.flatten], (.object, false) :: nesting⟩ := by
    rw [← writeMemberName hs hw, writeStrings_object hnesting]
  have hpos : w.nesting.length > 0 := by rw [hw]; exact Nat.succ_pos _
  rw [visitProperty, if_pos (PropertyDescriptor.set_subset_iff.mpr hp), ← hname]
  have hbegin : Gives (derived (s.visitor.visitPropertyBegin (visitingLevel l) p v.isSome)) ⟨l, w⟩
      v.isSome ⟨l, s.writePropertyBegin p v.isSome w⟩ :=
    gives_derived ((gives_change _ _).bind (gives_pure _ _))
  rw [writePropertyBegin, if_pos hpos] at hbegin
  refine Gives.bind (a := (⟨l, w⟩ : VisitorState TextWriter)) rfl ?_
  cases v with
  | none =>
    rw [hnull rfl]
    exact hbegin.bind (gives_pure _ _)
  | some v => exact hbegin.bind (hvalue v rfl _ hnesting)

/-- An object is written as its strings, if its members are. -/
theorem gives_visitStruct_of {ps : PropertyDescriptors} {x : Instance ps} (included : PropertySet)
    {texts : List (List UInt8)} {l : ℕ}
    (h : ∀ w' : TextWriter, ∀ nesting, w'.nesting = (.object, true) :: nesting →
      nesting.length = w.nesting.length →
      Gives (visitProperties s.visitor included ps x) ⟨l + 1, w'⟩ ()
        ⟨l + 1, ⟨w'.output ++ separated s.options (w.nesting.length + 1) true texts,
          (.object, texts.isEmpty) :: nesting⟩⟩) :
    Gives (visitStruct s.visitor ps x included) ⟨l, w⟩ ()
      ⟨l, writeStrings s (s.typeName (w.nesting = []) ps ++
        [enclosed s.options w.nesting.length s.format.objectBegin s.format.objectEnd texts]) w⟩ := by
  have hlength : (w.writeObjectBegin s (ascii (s.structName ps))).nesting.tail.length =
      w.nesting.length := by
    rw [writeObjectBegin_eq]
    exact length_nesting_initiateWrite.trans (length_nesting_writeStrings _ w)
  have hbegin := h (w.writeObjectBegin s (ascii (s.structName ps)))
    (w.writeObjectBegin s (ascii (s.structName ps))).nesting.tail rfl hlength
  rw [← writeStrings_members texts rfl]
  refine Gives.bind (gives_derived ((gives_change _ _).bind (gives_pure _ _)))
    ((gives_change _ _).bind (hbegin.bind ((gives_change _ _).bind ?_)))
  exact gives_derived (gives_change _ _)

theorem foldl_strings (l : ℕ) (items : List (List (List UInt8))) : ∀ w : TextWriter,
    items.foldl (fun (r : VisitorState TextWriter) texts =>
      ⟨r.constVisitingLevel, writeStrings s texts r.derived⟩) ⟨l, w⟩ =
        ⟨l, writeStrings s items.flatten w⟩ := by
  induction items with
  | nil => exact fun _ => rfl
  | cons texts items ih =>
    intro w
    rw [List.flatten_cons, writeStrings_append]
    exact ih _

mutual

/-- **A value is written as its strings**, one after the other. -/
theorem gives_visitType (hs : s.format.Commas) : (d : TypeDescriptor) → (v : Value d) →
    (texts : List (List UInt8)) → (w : TextWriter) → w.nesting ≠ [] →
    s.valueTexts w.nesting.length d v = .ok texts →
    ∀ l, Gives (visitType s.visitor d v) ⟨l, w⟩ () ⟨l, writeStrings s texts w⟩
  | .fundamental t, v, texts, w, hw, h, l => by
    rw [valueTexts] at h
    cases h
    exact gives_fundamental hw t v l
  | .enumeration name es, v, texts, w, hw, h, l => by
    rw [valueTexts] at h
    obtain ⟨e, he, h⟩ := bind_eq_ok h
    cases h
    exact gives_enum hw he l
  | .vector d, vs, texts, w, hw, h, l => by
    rw [valueTexts] at h
    obtain ⟨items, hitems, h⟩ := bind_eq_ok h
    cases h
    rw [writeStrings_singleton, ← writeStrings_array hs]
    have hbegin : (w.writeArrayBegin s).nesting.length = w.nesting.length + 1 :=
      congrArg (· + 1) length_nesting_initiateWrite
    refine (gives_derived (gives_change _ _)).bind ((gives_change _ _).bind ?_)
    have hitem : List.Forall₂ (fun v texts => ∀ r : VisitorState TextWriter,
        r.derived.nesting.length = w.nesting.length + 1 →
        Gives (visitType s.visitor d v) r ()
          ⟨r.constVisitingLevel, writeStrings s texts r.derived⟩ ∧
        (writeStrings s texts r.derived).nesting.length = w.nesting.length + 1) vs.1 items :=
      (forall₂_of_mapM hitems).imp fun v texts hv r hr =>
        ⟨gives_visitType hs d v texts r.derived (List.length_pos_iff.mp (by omega)) (hr ▸ hv) _,
          (length_nesting_writeStrings texts _).trans hr⟩
    refine (gives_forM hitem _ hbegin).bind ?_
    rw [foldl_strings]
    exact (gives_change _ _).bind (gives_derived (gives_change _ _))
  | .struct ps, x, texts, w, hw, h, l => by
    rw [valueTexts] at h
    obtain ⟨members, hmembers, h⟩ := bind_eq_ok h
    cases h
    have hstruct := gives_visitStruct_of (x := x) (w := w) (l := l) (x.validProperties ps)
      fun w' nesting hw' hlength => by
        rw [← hlength] at hmembers ⊢
        exact gives_visitProperties hs ps x _ members w' true nesting hw' hmembers (l + 1)
    rwa [decide_eq_false hw] at hstruct

/-- Included properties are written as members. -/
theorem gives_visitProperties (hs : s.format.Commas) : (ps : PropertyDescriptors) →
    (x : Instance ps) → (included : PropertySet) → (texts : List (List UInt8)) → (w : TextWriter) →
    (first : Bool) → (nesting : List (State × Bool)) → w.nesting = (.object, first) :: nesting →
    s.memberTexts (nesting.length + 1) included ps x = .ok texts →
    ∀ l, Gives (visitProperties s.visitor included ps x) ⟨l, w⟩ ()
      ⟨l, ⟨w.output ++ separated s.options (nesting.length + 1) first texts,
        (.object, first && texts.isEmpty) :: nesting⟩⟩
  | .nil, _, _, texts, w, first, nesting, hw, h, l => by
    rw [memberTexts] at h
    cases h
    have hsame : (⟨w.output ++ separated s.options (nesting.length + 1) first [],
        (.object, first && ([] : List (List UInt8)).isEmpty) :: nesting⟩ : TextWriter) = w := by
      cases w
      simp_all [separated]
    rw [hsame]
    exact gives_pure _ _
  | .cons p d ps, (v, x), included, texts, w, first, nesting, hw, h, l => by
    simp only [memberTexts] at h
    split_ifs at h with hp
    · obtain ⟨value, htext, h⟩ := bind_eq_ok h
      obtain ⟨rest, hrest, h⟩ := bind_eq_ok h
      cases h
      have hvalue : ∀ v' ∈ v, ∀ w' : TextWriter, w'.nesting = (.object, false) :: nesting →
          Gives (visitType s.visitor d v') ⟨l, w'⟩ () ⟨l, writeStrings s value w'⟩ := by
        rintro v' rfl w' hw'
        exact gives_visitType hs d v' value w' (by rw [hw']; exact List.cons_ne_nil _ _)
          (by rw [hw']; exact htext) l
      have hnull : v = none → value = [s.format.nullValue] := by
        rintro rfl
        cases htext
        rfl
      have hfirst := gives_visitProperty hs hp hw hvalue hnull
      have hothers := gives_visitProperties hs ps x included rest
        ⟨w.output ++ separated s.options (nesting.length + 1) first
          [s.memberName (ascii p.name) ++ value.flatten], (.object, false) :: nesting⟩ false nesting rfl
          hrest l
      have hsame : (⟨(w.output ++ separated s.options (nesting.length + 1) first
          [s.memberName (ascii p.name) ++ value.flatten]) ++
            separated s.options (nesting.length + 1) false rest,
            (.object, false && rest.isEmpty) :: nesting⟩ : TextWriter) =
          ⟨w.output ++ separated s.options (nesting.length + 1) first
            ((s.memberName (ascii p.name) ++ value.flatten) :: rest),
              (.object, first && false) :: nesting⟩ := by
        simp [separated]
      rw [hsame] at hothers
      exact hfirst.bind hothers
    · exact gives_visitProperties_of_notMem hp
        (gives_visitProperties hs ps x included texts w first nesting hw h l)

end

/-! ## The serializer -/

mutual

theorem exists_valueTexts : (d : TypeDescriptor) → (v : Value d) → Value.Enumerated d v →
    ∀ level, ∃ texts, s.valueTexts level d v = .ok texts
  | .fundamental t, v, _, level => ⟨_, by rw [valueTexts]⟩
  | .enumeration name es, v, h, level => by
    obtain ⟨e, he⟩ : ∃ e, enumeratorFromValue name es v = .ok e :=
      CborSerializer.exists_enumeratorFromValue h
    exact ⟨_, by rw [valueTexts, he]; rfl⟩
  | .vector d, vs, h, level => by
    obtain ⟨items, hitems⟩ := exists_mapM fun v hv => exists_valueTexts d v (h v hv) (level + 1)
    exact ⟨_, by rw [valueTexts, hitems]; rfl⟩
  | .struct ps, x, h, level => by
    have hvalid : Instance.Enumerated ps (Instance.restrict ps (x.validProperties ps) x) =
        Instance.Enumerated ps x := congrArg _ (Instance.restrict_validProperties ps x)
    obtain ⟨texts, htexts⟩ := exists_memberTexts ps x (x.validProperties ps)
      (hvalid.mpr h) (level + 1)
    exact ⟨_, by rw [valueTexts, htexts]; rfl⟩

theorem exists_memberTexts : (ps : PropertyDescriptors) → (x : Instance ps) →
    (included : PropertySet) → Instance.Enumerated ps (Instance.restrict ps included x) →
    ∀ level, ∃ texts, s.memberTexts level included ps x = .ok texts
  | .nil, _, _, _, _ => ⟨[], rfl⟩
  | .cons p d ps, (v, x), included, h, level => by
    obtain ⟨rest, hrest⟩ := exists_memberTexts ps x included h.2 level
    simp only [memberTexts]
    split_ifs with hp
    · have hv := h.1
      rw [if_pos hp] at hv
      cases v with
      | none => exact ⟨_, by rw [hrest]; rfl⟩
      | some v =>
        obtain ⟨texts, htexts⟩ := exists_valueTexts d v (hv v rfl) level
        exact ⟨_, by dsimp only; rw [htexts, hrest]; rfl⟩
    · exact ⟨rest, hrest⟩

end

theorem gives_visit (hs : s.format.Commas) {ps : PropertyDescriptors} {x : Instance ps}
    {included : PropertySet} {texts : List (List UInt8)} (h : s.structTexts included ps x = .ok texts)
    (l : ℕ) : Gives (visit s.visitor ps x included) ⟨l, {}⟩ () ⟨l, ⟨texts.flatten, []⟩⟩ := by
  obtain ⟨members, hmembers, h⟩ := bind_eq_ok h
  cases h
  have hstruct := gives_visitStruct_of (x := x) (w := {}) (l := l + 1) included
    fun w' nesting hw' hlength => by
      obtain rfl := List.length_eq_zero_iff.mp hlength
      exact gives_visitProperties hs ps x _ members w' true [] hw' hmembers (l + 2)
  rw [writeStrings_of_append fun _ => initiateWrite_nil rfl] at hstruct
  exact (gives_change _ _).bind (hstruct.bind (gives_change _ _))

/-- **The text of an instance** on a property set are its strings, one behind the other. -/
theorem serialize_eq_ok_iff (hs : s.format.Commas) (ps : PropertyDescriptors) (x : Instance ps)
    (included : PropertySet) (text : List UInt8) :
    s.serialize ps x included = .ok text ↔
      ∃ texts, s.structTexts included ps x = .ok texts ∧ text = texts.flatten := by
  have hserialize {texts : List (List UInt8)} (h : s.structTexts included ps x = .ok texts) :
      s.serialize ps x included = .ok texts.flatten := by
    have hvisit : Gives (visit s.visitor ps x included) ⟨0, {}⟩ () ⟨0, ⟨texts.flatten, []⟩⟩ :=
      gives_visit hs h 0
    rw [serialize, hvisit]
    rfl
  constructor
  · intro h
    obtain ⟨henumerated, -⟩ | ⟨-, e, s', hthrows⟩ :=
      succeeds_visit (l := 0) s.throwsAtEnums ps x included (s := ⟨0, {}⟩) rfl
    · obtain ⟨members, hmembers⟩ : ∃ members, s.memberTexts 1 included ps x = .ok members :=
        exists_memberTexts ps x included henumerated 1
      have htexts : s.structTexts included ps x = .ok (s.typeName true ps ++
          [enclosed s.options 0 s.format.objectBegin s.format.objectEnd members]) := by
        rw [structTexts, hmembers]
        rfl
      rw [hserialize htexts] at h
      cases h
      exact ⟨_, htexts, rfl⟩
    · rw [serialize, hthrows] at h
      cases h
  · rintro ⟨texts, htexts, rfl⟩
    exact hserialize htexts

end TextSerializer

end Dots

import Dots.Cbor.Encoding
import Dots.Text.Writer

/-!
# JSON texts

* `valueText`, `memberTexts`: the text of a value, and of the members of an object, at a depth.
* **`gives_visitType`**: a value is written as its text, like a string.
* **`serialize_eq`**: `JsonSerializer` writes the text of an instance.
-/

set_option autoImplicit false

namespace Dots

namespace Json

open TextWriter

variable (options : TextOptions) (converters : Converters)

/-! ## Texts -/

/-- `0.0` is a zero of either sign. -/
def float32Text (v : BitVec 32) : List UInt8 :=
  if v <<< 1 = 0 then ascii "0.0" else converters.float32Text v

def float64Text (v : BitVec 64) : List UInt8 :=
  if v <<< 1 = 0 then ascii "0.0" else converters.float64Text v

/-- A string between delimiters. -/
def quoted (str : List UInt8) : List UInt8 := stringDelimiter ++ str ++ stringDelimiter

def fundamentalText : (t : FundamentalType) → t.Value → List UInt8
  | .boolean, (v : Bool) => if v then ascii "true" else ascii "false"
  | .int8, (v : BitVec 8) => toChars 10 v.toInt
  | .uint8, (v : BitVec 8) => toChars 10 v.toNat
  | .int16, (v : BitVec 16) => toChars 10 v.toInt
  | .uint16, (v : BitVec 16) => toChars 10 v.toNat
  | .int32, (v : BitVec 32) => toChars 10 v.toInt
  | .uint32, (v : BitVec 32) => toChars 10 v.toNat
  | .int64, (v : BitVec 64) => toChars 10 v.toInt
  | .uint64, (v : BitVec 64) => toChars 10 v.toNat
  | .float32, (v : BitVec 32) => float32Text converters v
  | .float64, (v : BitVec 64) => float64Text converters v
  | .propertySet, (v : BitVec 32) => toChars 10 v.toNat
  | .timepoint, (v : BitVec 64) => float64Text converters v
  | .steadyTimepoint, (v : BitVec 64) => float64Text converters v
  | .duration, (v : BitVec 64) => float64Text converters v
  | .uuid, v => quoted (converters.uuidText v)
  | .string, v => quoted (escape v.1)

/-- The elements at a depth, the first one of all with a line break only. -/
def separated (level : ℕ) : Bool → List (List UInt8) → List UInt8
  | _, [] => []
  | first, text :: texts =>
    (if first then [] else ascii ",") ++ (newLine options level ++ (text ++
      separated level false texts))

/-- The elements between their brackets. -/
def enclosed (level : ℕ) (opening closing : List UInt8) (texts : List (List UInt8)) : List UInt8 :=
  opening ++ (separated options (level + 1) true texts ++ (newLine options level ++ closing))

/-- A name of a member with what stands before the value. -/
def memberName (p : PropertyDescriptor) : List UInt8 :=
  ascii "\"" ++ (ascii p.name ++ (ascii "\":" ++
    if options.style = .minified then [] else ascii " "))

mutual

def valueText (level : ℕ) : (d : TypeDescriptor) → Value d → Except Exception (List UInt8)
  | .fundamental t, v => .ok (fundamentalText converters t v)
  | .enumeration name es, v => do
    let e ← enumeratorFromValue name es v
    return toChars 10 e.tag.toNat
  | .vector d, vs => do
    let items ← vs.1.mapM (valueText (level + 1) d)
    return enclosed options level (ascii "[") (ascii "]") items
  | .struct ps, x => do
    let members ← memberTexts (level + 1) (x.validProperties ps) ps x
    return enclosed options level (ascii "\x7b") (ascii "\x7d") members

/-- The members of the included properties. -/
def memberTexts (level : ℕ) (included : PropertySet) :
    (ps : PropertyDescriptors) → Instance ps → Except Exception (List (List UInt8))
  | .nil, _ => .ok []
  | .cons p d ps, (v, x) =>
    if p.tag ∈ included then do
      let value ← (match v with
        | some v => valueText level d v
        | none => .ok (ascii "null"))
      return (memberName options p ++ value) :: (← memberTexts level included ps x)
    else memberTexts level included ps x

end

/-- The text of an instance on a property set. -/
def structText (level : ℕ) (included : PropertySet) (ps : PropertyDescriptors) (x : Instance ps) :
    Except Exception (List UInt8) := do
  let members ← memberTexts options converters (level + 1) included ps x
  return enclosed options level (ascii "\x7b") (ascii "\x7d") members

/-! ## The writer -/

variable {options converters} {w : TextWriter} {str str' : List UInt8}

theorem append_append : (w.append str).append str' = w.append (str ++ str') := by
  simp only [append, List.append_assoc]

theorem writeString_append {s : TextSerializer} :
    (w.writeString s str).append str' = w.writeString s (str ++ str') := append_append

theorem length_nesting_initiateWrite {s : TextSerializer} :
    (w.initiateWrite s).nesting.length = w.nesting.length := by
  unfold initiateWrite
  split
  · next h => rw [h]; rfl
  · rfl
  · rfl

theorem initiateWrite_object {s : TextSerializer} {first : Bool} {nesting : List (State × Bool)}
    (h : w.nesting = (.object, first) :: nesting) : w.initiateWrite s = w := by
  unfold initiateWrite
  rw [h]

/-- An element of an array. -/
theorem writeString_array {first : Bool} {nesting : List (State × Bool)}
    (h : w.nesting = (.array, first) :: nesting) :
    w.writeString (JsonSerializer options converters) str =
      ⟨w.output ++ separated options (nesting.length + 1) first [str], (.array, false) :: nesting⟩ := by
  have hlength : w.nesting.length = nesting.length + 1 := by rw [h]; rfl
  cases first with
  | true =>
    have hinitiate : w.initiateWrite (JsonSerializer options converters) =
        ⟨w.output ++ newLine options w.nesting.length, (.array, false) :: nesting⟩ := by
      unfold initiateWrite
      rw [h]
      rfl
    rw [writeString, hinitiate, hlength]
    simp [append, separated]
  | false =>
    have hinitiate : w.initiateWrite (JsonSerializer options converters) =
        w.append (ascii "," ++ newLine options w.nesting.length) := by
      unfold initiateWrite
      rw [h]
      rfl
    rw [writeString, hinitiate, hlength]
    simp [append, separated, h]

/-- The elements of an array, one after the other. -/
theorem foldl_writeString (texts : List (List UInt8)) : ∀ {w : TextWriter} {first : Bool}
    {nesting : List (State × Bool)}, w.nesting = (.array, first) :: nesting →
    texts.foldl (fun w text => w.writeString (JsonSerializer options converters) text) w =
      ⟨w.output ++ separated options (nesting.length + 1) first texts,
        (.array, first && texts.isEmpty) :: nesting⟩ := by
  induction texts with
  | nil =>
    intro w first nesting h
    cases w
    simp_all [separated]
  | cons text texts ih =>
    intro w first nesting h
    rw [List.foldl_cons, writeString_array h, ih rfl]
    simp [separated]

/-- The name of a member and its value. -/
theorem writeMember {first : Bool} {nesting : List (State × Bool)} {p : PropertyDescriptor}
    (h : w.nesting = (.object, first) :: nesting) :
    (w.writeObjectMemberName (JsonSerializer options converters) (ascii p.name)).append str =
      ⟨w.output ++ separated options (nesting.length + 1) first [memberName options p ++ str],
        (.object, false) :: nesting⟩ := by
  have hlength : w.nesting.length = nesting.length + 1 := by rw [h]; rfl
  have hvalue : memberValueBegin (JsonSerializer options converters) =
      if options.style = .minified then [] else ascii " " := by
    rw [memberValueBegin, if_neg fun h => h rfl]
    exact ite_not ..
  have hname (w : TextWriter) : (w.append ((JsonSerializer options converters).format.objectMemberNameBegin ++
      ascii p.name ++ (JsonSerializer options converters).format.objectMemberNameEnd ++
        memberValueBegin (JsonSerializer options converters))) = w.append (memberName options p) := by
    rw [hvalue, memberName, List.append_assoc, List.append_assoc]
    rfl
  cases first with
  | true =>
    rw [writeObjectMemberName, h]
    dsimp only
    rw [hname]
    simp [append, separated, JsonSerializer]
  | false =>
    rw [writeObjectMemberName, h]
    dsimp only
    rw [hname]
    simp [append, separated, JsonSerializer, JsonFormat, h]

theorem suffix_false {s : TextSerializer} : w.suffix s false str = [] := if_neg fun h => by simp at h

theorem writeFundamental_eq (hw : w.nesting ≠ []) (t : FundamentalType) (v : t.Value) :
    (JsonSerializer options converters).writeFundamental t v w =
      w.writeString (JsonSerializer options converters) (fundamentalText converters t v) := by
  have hnesting : (w.initiateWrite (JsonSerializer options converters)).nesting ≠ [] := by
    rw [← List.length_pos_iff, length_nesting_initiateWrite]
    exact List.length_pos_iff.mpr hw
  have hinteger (isUnsigned : Bool) (v : ℤ) :
      w.writeInteger (JsonSerializer options converters) 10 isUnsigned v =
        w.writeString (JsonSerializer options converters) (toChars 10 v) := by
    have hsuffix : decide ((JsonSerializer options converters).format.integerFormat =
        .withSignSuffix ∧ isUnsigned = true) = false := by simp [JsonSerializer, JsonFormat]
    rw [writeInteger, hsuffix, suffix_false, List.append_nil, if_neg (by decide), if_neg (by decide),
      List.nil_append]
    rfl
  have hquoted (str : List UInt8) : w.writeQuotedString (JsonSerializer options converters) str =
      w.writeString (JsonSerializer options converters) (quoted str) := if_neg hnesting
  have hfloat (v : BitVec 32) : w.writeFloat32 (JsonSerializer options converters) v =
      w.writeString (JsonSerializer options converters) (float32Text converters v) := by
    have hsuffix : decide ((JsonSerializer options converters).format.floatFormat =
        .withSizeSuffix) = false := rfl
    rw [TextWriter.writeFloat32, hsuffix, suffix_false, List.append_nil]
    rfl
  cases t with
  | boolean => rfl
  | int8 | int16 | int32 | int64 => exact hinteger false _
  | uint8 | uint16 | uint32 | uint64 | propertySet => exact hinteger true _
  | float32 => exact hfloat v
  | float64 | timepoint | steadyTimepoint | duration => rfl
  | uuid => exact hquoted _
  | string => exact if_neg hnesting

open TypeVisitor Keep

theorem foldl_derived {g : List UInt8 → TextWriter → TextWriter} {l : ℕ} (texts : List (List UInt8)) :
    ∀ w : TextWriter, texts.foldl (fun (s : VisitorState TextWriter) text =>
      ⟨s.constVisitingLevel, g text s.derived⟩) ⟨l, w⟩ = ⟨l, texts.foldl (fun w text => g text w) w⟩ := by
  induction texts with
  | nil => exact fun _ => rfl
  | cons text texts ih => exact fun w => ih _

/-- An array between its brackets. -/
theorem writeArray (texts : List (List UInt8)) :
    ((texts.foldl (fun w text => w.writeString (JsonSerializer options converters) text)
      (w.writeArrayBegin (JsonSerializer options converters))).writeArrayEnd
        (JsonSerializer options converters)) =
      w.writeString (JsonSerializer options converters)
        (enclosed options w.nesting.length (ascii "[") (ascii "]") texts) := by
  have hbegin : (w.writeArrayBegin (JsonSerializer options converters)).nesting =
      (.array, true) :: (w.writeString (JsonSerializer options converters) (ascii "[")).nesting := rfl
  rw [foldl_writeString texts hbegin]
  have hlength : (w.writeString (JsonSerializer options converters) (ascii "[")).nesting.length =
      w.nesting.length := length_nesting_initiateWrite
  rw [hlength, writeArrayEnd, enclosed, ← writeString_append]
  simp only [List.tail_cons, hlength, append, List.append_assoc]
  rfl

/-- An object between its brackets. -/
theorem writeObject (texts : List (List UInt8)) (name : List UInt8) {w' : TextWriter}
    (h : w' = ⟨(w.writeObjectBegin (JsonSerializer options converters) name).output ++
        separated options (w.nesting.length + 1) true texts,
      (.object, texts.isEmpty) :: (w.initiateWrite (JsonSerializer options converters)).nesting⟩) :
    w'.writeObjectEnd (JsonSerializer options converters) =
      w.writeString (JsonSerializer options converters)
        (enclosed options w.nesting.length (ascii "\x7b") (ascii "\x7d") texts) := by
  subst h
  rw [writeObjectEnd, enclosed, ← writeString_append]
  simp only [List.tail_cons, length_nesting_initiateWrite, append, List.append_assoc]
  rfl

theorem gives_fundamental (hw : w.nesting ≠ []) (t : FundamentalType) (v : t.Value) (l : ℕ) :
    Gives (derived ((JsonSerializer options converters).visitor.visitFundamentalType t v)) ⟨l, w⟩ ()
      ⟨l, w.writeString (JsonSerializer options converters) (fundamentalText converters t v)⟩ := by
  rw [← writeFundamental_eq hw]
  exact gives_derived (gives_change _ _)

theorem gives_enum (hw : w.nesting ≠ []) {name : String} {es : List EnumeratorDescriptor}
    {v : BitVec 32} {e : EnumeratorDescriptor} (he : enumeratorFromValue name es v = .ok e) (l : ℕ) :
    Gives (derived ((JsonSerializer options converters).visitor.visitEnum name es v)) ⟨l, w⟩ ()
      ⟨l, w.writeString (JsonSerializer options converters) (toChars 10 e.tag.toNat)⟩ := by
  have henum : (JsonSerializer options converters).writeEnum name es v = Keep.change
      (writeInteger (JsonSerializer options converters) 10 true e.tag.toNat) := by
    rw [TextSerializer.writeEnum, he]
    rfl
  have htag : w.writeInteger (JsonSerializer options converters) 10 true e.tag.toNat =
      w.writeString (JsonSerializer options converters) (toChars 10 e.tag.toNat) :=
    writeFundamental_eq hw .uint32 e.tag
  refine gives_derived ?_
  show Gives ((JsonSerializer options converters).writeEnum name es v) _ _ _
  rw [henum, ← htag]
  exact gives_change _ _

/-- A property that is included is a member. -/
theorem gives_visitProperty {p : PropertyDescriptor} {d : TypeDescriptor} {v : Option (Value d)}
    {included : PropertySet} {first : Bool} {nesting : List (State × Bool)} {l : ℕ}
    (hp : p.tag ∈ included) (hw : w.nesting = (.object, first) :: nesting)
    (hvalue : ∀ v' ∈ v, ∀ w : TextWriter, w.nesting = (.object, false) :: nesting →
      Gives (visitType (JsonSerializer options converters).visitor d v') ⟨l, w⟩ ()
        ⟨l, w.writeString (JsonSerializer options converters) str⟩)
    (hnull : v = none → str = ascii "null") :
    Gives (visitProperty (JsonSerializer options converters).visitor included p
      (v.map (visitType (JsonSerializer options converters).visitor d))) ⟨l, w⟩ ()
      ⟨l, ⟨w.output ++ separated options (nesting.length + 1) first [memberName options p ++ str],
        (.object, false) :: nesting⟩⟩ := by
  have hnesting : (w.writeObjectMemberName (JsonSerializer options converters)
      (ascii p.name)).nesting = (.object, false) :: nesting := by
    have hmember : (w.writeObjectMemberName (JsonSerializer options converters) (ascii p.name)).append [] =
        ⟨w.output ++ separated options (nesting.length + 1) first [memberName options p ++ []],
          (.object, false) :: nesting⟩ := writeMember hw
    exact congrArg TextWriter.nesting hmember
  have hname (str : List UInt8) : ((w.writeObjectMemberName (JsonSerializer options converters)
      (ascii p.name)).writeString (JsonSerializer options converters) str) =
        ⟨w.output ++ separated options (nesting.length + 1) first [memberName options p ++ str],
          (.object, false) :: nesting⟩ := by
    rw [← writeMember hw, writeString, initiateWrite_object hnesting]
  have hpos : w.nesting.length > 0 := by rw [hw]; exact Nat.succ_pos _
  rw [visitProperty, if_pos (PropertyDescriptor.set_subset_iff.mpr hp), ← hname]
  have hbegin : Gives (derived ((JsonSerializer options converters).visitor.visitPropertyBegin
      (visitingLevel l) p v.isSome)) ⟨l, w⟩ v.isSome ⟨l, (JsonSerializer options converters).writePropertyBegin
        p v.isSome w⟩ := gives_derived ((gives_change _ _).bind (gives_pure _ _))
  rw [TextSerializer.writePropertyBegin, if_pos hpos] at hbegin
  refine Gives.bind (a := (⟨l, w⟩ : VisitorState TextWriter)) rfl ?_
  cases v with
  | none =>
    rw [hnull rfl]
    exact hbegin.bind (gives_pure _ _)
  | some v => exact hbegin.bind (hvalue v rfl _ hnesting)

/-- An object is written as its text, if its members are. -/
theorem gives_visitStruct_of {ps : PropertyDescriptors} {x : Instance ps} {included : PropertySet}
    {texts : List (List UInt8)} {l : ℕ}
    (h : ∀ w' : TextWriter, ∀ nesting, w'.nesting = (.object, true) :: nesting →
      nesting.length = w.nesting.length →
      Gives (visitProperties (JsonSerializer options converters).visitor included ps x) ⟨l + 1, w'⟩ ()
        ⟨l + 1, ⟨w'.output ++ separated options (w.nesting.length + 1) true texts,
          (.object, texts.isEmpty) :: nesting⟩⟩) :
    Gives (visitStruct (JsonSerializer options converters).visitor ps x included) ⟨l, w⟩ ()
      ⟨l, w.writeString (JsonSerializer options converters)
        (enclosed options w.nesting.length (ascii "\x7b") (ascii "\x7d") texts)⟩ := by
  have hbegin := h (w.writeObjectBegin (JsonSerializer options converters) (ascii ""))
    (w.initiateWrite (JsonSerializer options converters)).nesting rfl length_nesting_initiateWrite
  rw [← writeObject texts (ascii "") rfl]
  refine Gives.bind (gives_derived ((gives_change _ _).bind (gives_pure _ _)))
    ((gives_change _ _).bind (hbegin.bind ((gives_change _ _).bind ?_)))
  exact gives_derived (gives_change _ _)

mutual

/-- **A value is written as its text**, like a string. -/
theorem gives_visitType : (d : TypeDescriptor) → (v : Value d) → (text : List UInt8) →
    (w : TextWriter) → w.nesting ≠ [] → valueText options converters w.nesting.length d v = .ok text →
    ∀ l, Gives (visitType (JsonSerializer options converters).visitor d v) ⟨l, w⟩ ()
      ⟨l, w.writeString (JsonSerializer options converters) text⟩
  | .fundamental t, v, text, w, hw, h, l => by
    rw [valueText] at h
    cases h
    exact gives_fundamental hw t v l
  | .enumeration name es, v, text, w, hw, h, l => by
    rw [valueText] at h
    obtain ⟨e, he, h⟩ := bind_eq_ok h
    cases h
    exact gives_enum hw he l
  | .vector d, vs, text, w, hw, h, l => by
    rw [valueText] at h
    obtain ⟨items, hitems, h⟩ := bind_eq_ok h
    cases h
    rw [← writeArray]
    have hbegin : (w.writeArrayBegin (JsonSerializer options converters)).nesting.length =
        w.nesting.length + 1 := congrArg (· + 1) length_nesting_initiateWrite
    refine (gives_derived (gives_change _ _)).bind ((gives_change _ _).bind ?_)
    have hitem : List.Forall₂ (fun v text => ∀ s : VisitorState TextWriter,
        s.derived.nesting.length = w.nesting.length + 1 →
        Gives (visitType (JsonSerializer options converters).visitor d v) s ()
          ⟨s.constVisitingLevel, s.derived.writeString (JsonSerializer options converters) text⟩ ∧
        (s.derived.writeString (JsonSerializer options converters) text).nesting.length =
          w.nesting.length + 1) vs.1 items :=
      (forall₂_of_mapM hitems).imp fun v text hv s hs =>
        ⟨gives_visitType d v text s.derived (List.length_pos_iff.mp (by omega)) (hs ▸ hv) _,
          length_nesting_initiateWrite.trans hs⟩
    refine (gives_forM hitem _ hbegin).bind ?_
    rw [foldl_derived (g := fun text w => w.writeString (JsonSerializer options converters) text)]
    exact (gives_change _ _).bind (gives_derived (gives_change _ _))
  | .struct ps, x, text, w, _, h, l => by
    rw [valueText] at h
    obtain ⟨texts, htexts, h⟩ := bind_eq_ok h
    cases h
    refine gives_visitStruct_of fun w' nesting hw' hlength => ?_
    rw [← hlength] at htexts ⊢
    exact gives_visitProperties ps x _ texts w' true nesting hw' htexts (l + 1)

/-- Included properties are written as members. -/
theorem gives_visitProperties : (ps : PropertyDescriptors) → (x : Instance ps) →
    (included : PropertySet) → (texts : List (List UInt8)) → (w : TextWriter) → (first : Bool) →
    (nesting : List (State × Bool)) → w.nesting = (.object, first) :: nesting →
    memberTexts options converters (nesting.length + 1) included ps x = .ok texts →
    ∀ l, Gives (visitProperties (JsonSerializer options converters).visitor included ps x) ⟨l, w⟩ ()
      ⟨l, ⟨w.output ++ separated options (nesting.length + 1) first texts,
        (.object, first && texts.isEmpty) :: nesting⟩⟩
  | .nil, _, _, texts, w, first, nesting, hw, h, l => by
    rw [memberTexts] at h
    cases h
    have hsame : (⟨w.output ++ separated options (nesting.length + 1) first [],
        (.object, first && ([] : List (List UInt8)).isEmpty) :: nesting⟩ : TextWriter) = w := by
      cases w
      simp_all [separated]
    rw [hsame]
    exact gives_pure _ _
  | .cons p d ps, (v, x), included, texts, w, first, nesting, hw, h, l => by
    simp only [memberTexts] at h
    split_ifs at h with hp
    · obtain ⟨text, htext, h⟩ := bind_eq_ok h
      obtain ⟨rest, hrest, h⟩ := bind_eq_ok h
      cases h
      have hvalue : ∀ v' ∈ v, ∀ w' : TextWriter, w'.nesting = (.object, false) :: nesting →
          Gives (visitType (JsonSerializer options converters).visitor d v') ⟨l, w'⟩ ()
            ⟨l, w'.writeString (JsonSerializer options converters) text⟩ := by
        rintro v' rfl w' hw'
        exact gives_visitType d v' text w' (by rw [hw']; exact List.cons_ne_nil _ _)
          (by rw [hw']; exact htext) l
      have hnull : v = none → text = ascii "null" := by
        rintro rfl
        cases htext
        rfl
      have hfirst := gives_visitProperty hp hw hvalue hnull
      have hothers := gives_visitProperties ps x included rest
        ⟨w.output ++ separated options (nesting.length + 1) first [memberName options p ++ text],
          (.object, false) :: nesting⟩ false nesting rfl hrest l
      have hsame : (⟨(w.output ++ separated options (nesting.length + 1) first
          [memberName options p ++ text]) ++ separated options (nesting.length + 1) false rest,
            (.object, false && rest.isEmpty) :: nesting⟩ : TextWriter) =
          ⟨w.output ++ separated options (nesting.length + 1) first
            ((memberName options p ++ text) :: rest), (.object, first && false) :: nesting⟩ := by
        simp [separated]
      rw [hsame] at hothers
      exact hfirst.bind hothers
    · exact gives_visitProperties_of_notMem hp
        (gives_visitProperties ps x included texts w first nesting hw h l)

end

/-! ## The serializer -/

theorem gives_visitStruct (ps : PropertyDescriptors) (x : Instance ps) (included : PropertySet)
    (text : List UInt8) (w : TextWriter)
    (h : structText options converters w.nesting.length included ps x = .ok text) (l : ℕ) :
    Gives (visitStruct (JsonSerializer options converters).visitor ps x included) ⟨l, w⟩ ()
      ⟨l, w.writeString (JsonSerializer options converters) text⟩ := by
  obtain ⟨texts, htexts, h⟩ := bind_eq_ok h
  cases h
  refine gives_visitStruct_of fun w' nesting hw' hlength => ?_
  rw [← hlength] at htexts ⊢
  exact gives_visitProperties ps x _ texts w' true nesting hw' htexts (l + 1)

theorem gives_visit {ps : PropertyDescriptors} {x : Instance ps} {included : PropertySet}
    {text : List UInt8} {w : TextWriter}
    (h : structText options converters w.nesting.length included ps x = .ok text) (l : ℕ) :
    Gives (visit (JsonSerializer options converters).visitor ps x included) ⟨l, w⟩ ()
      ⟨l, w.writeString (JsonSerializer options converters) text⟩ :=
  (gives_change _ _).bind ((gives_visitStruct ps x included text w h (l + 1)).bind
    (gives_change _ _))

mutual

theorem exists_valueText : (d : TypeDescriptor) → (v : Value d) → Value.Enumerated d v →
    ∀ level, ∃ text, valueText options converters level d v = .ok text
  | .fundamental t, v, _, level => ⟨_, by rw [valueText]⟩
  | .enumeration name es, v, h, level => by
    obtain ⟨e, he⟩ : ∃ e, enumeratorFromValue name es v = .ok e :=
      CborSerializer.exists_enumeratorFromValue h
    exact ⟨toChars 10 e.tag.toNat, by rw [valueText, he]; rfl⟩
  | .vector d, vs, h, level => by
    obtain ⟨items, hitems⟩ := exists_mapM fun v hv =>
      exists_valueText d v (h v hv) (level + 1)
    exact ⟨enclosed options level (ascii "[") (ascii "]") items, by rw [valueText, hitems]; rfl⟩
  | .struct ps, x, h, level => by
    have hvalid : Instance.Enumerated ps (Instance.restrict ps (x.validProperties ps) x) =
        Instance.Enumerated ps x := congrArg _ (Instance.restrict_validProperties ps x)
    obtain ⟨texts, htexts⟩ := exists_memberTexts ps x (x.validProperties ps)
      (hvalid.mpr h) (level + 1)
    exact ⟨enclosed options level (ascii "\x7b") (ascii "\x7d") texts, by
      rw [valueText, htexts]
      rfl⟩

theorem exists_memberTexts : (ps : PropertyDescriptors) → (x : Instance ps) →
    (included : PropertySet) → Instance.Enumerated ps (Instance.restrict ps included x) →
    ∀ level, ∃ texts, memberTexts options converters level included ps x = .ok texts
  | .nil, _, _, _, _ => ⟨[], rfl⟩
  | .cons p d ps, (v, x), included, h, level => by
    obtain ⟨rest, hrest⟩ := exists_memberTexts ps x included h.2 level
    simp only [memberTexts]
    split_ifs with hp
    · have hv := h.1
      rw [if_pos hp] at hv
      cases v with
      | none => exact ⟨_, by rw [hrest]; rfl⟩
      | some v =>
        obtain ⟨text, htext⟩ := exists_valueText d v (hv v rfl) level
        exact ⟨_, by dsimp only; rw [htext, hrest]; rfl⟩
    · exact ⟨rest, hrest⟩

end

theorem exists_structText {ps : PropertyDescriptors} {x : Instance ps} {included : PropertySet}
    (h : Instance.Enumerated ps (Instance.restrict ps included x)) (level : ℕ) :
    ∃ text, structText options converters level included ps x = .ok text := by
  obtain ⟨texts, htexts⟩ : ∃ texts, memberTexts options converters (level + 1) included ps x = .ok texts :=
    exists_memberTexts ps x included h (level + 1)
  exact ⟨_, by rw [structText, htexts]; rfl⟩

/-- **`JsonSerializer` writes the text** of an instance on a property set. -/
theorem serialize_eq_ok_iff (ps : PropertyDescriptors) (x : Instance ps) (included : PropertySet)
    (text : List UInt8) :
    (JsonSerializer options converters).serialize ps x included = .ok text ↔
      structText options converters 0 included ps x = .ok text := by
  have hserialize {text : List UInt8} (h : structText options converters 0 included ps x = .ok text) :
      (JsonSerializer options converters).serialize ps x included = .ok text := by
    have hvisit : Gives (visit (JsonSerializer options converters).visitor ps x included) ⟨0, {}⟩ ()
        ⟨0, (⟨[], []⟩ : TextWriter).writeString (JsonSerializer options converters) text⟩ :=
      gives_visit h 0
    rw [TextSerializer.serialize, hvisit]
    rfl
  refine ⟨fun h => ?_, hserialize⟩
  obtain ⟨henumerated, -⟩ | ⟨-, e, s', hthrows⟩ :=
    succeeds_visit (l := 0) (JsonSerializer options converters).throwsAtEnums ps x included
      (s := ⟨0, {}⟩) rfl
  · obtain ⟨text', htext⟩ : ∃ text, structText options converters 0 included ps x = .ok text :=
      exists_structText henumerated 0
    rw [htext, ← hserialize htext, h]
  · rw [TextSerializer.serialize, hthrows] at h
    cases h

end Json

end Dots

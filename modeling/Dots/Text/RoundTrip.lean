import Dots.Cbor.RoundTrip
import Dots.Text.Json
import Dots.Text.Scan

/-!
# Reading a JSON text

* `PropertyDescriptors.Named`, `Instance.Inverted`: the names of properties are distinct identifiers;
  the conversions invert the texts of the floating-point values and times of an instance.
* `Closes`, `Steps`: what is behind a value; the elements of an array or the members of an object.
* **`readsBefore_readType`**: a value is read from its text.
* **`deserialize_text`**: the round trip.
-/

set_option autoImplicit false

namespace Dots

open Parse TextReader TextSerializer TextWriter Json

/-! ## Names and conversions -/

def PropertyDescriptors.names : PropertyDescriptors → List String
  | .nil => []
  | .cons p _ ps => p.name :: ps.names

mutual

/-- The names of the properties of a struct are distinct identifiers, at every level. -/
def TypeDescriptor.Named : TypeDescriptor → Prop
  | .fundamental _ => True
  | .enumeration _ _ => True
  | .vector d => d.Named
  | .struct ps => ps.Named

def PropertyDescriptors.Named : PropertyDescriptors → Prop
  | .nil => True
  | .cons p d ps => IsIdentifier p.name ∧ p.name ∉ ps.names ∧ d.Named ∧ ps.Named

end

mutual

instance TypeDescriptor.decidableNamed : (d : TypeDescriptor) → Decidable d.Named
  | .fundamental _ | .enumeration _ _ => .isTrue trivial
  | .vector d => d.decidableNamed
  | .struct ps => ps.decidableNamed

instance PropertyDescriptors.decidableNamed : (ps : PropertyDescriptors) → Decidable ps.Named
  | .nil => .isTrue trivial
  | .cons p d ps =>
    have := d.decidableNamed
    have := ps.decidableNamed
    inferInstanceAs (Decidable (IsIdentifier p.name ∧ p.name ∉ ps.names ∧ d.Named ∧ ps.Named))

end

/-- A value is read from its text, wherever a number can end. -/
def InvertedBy {w : ℕ} (parse : List UInt8 → BitVec w × ℕ) (text : List UInt8) (v : BitVec w) : Prop :=
  NumberText text ∧ ∀ rest, Delimited rest → parse (text ++ rest) = (v, text.length)

/-- The conversions of `float` and `double` invert the text of a value. -/
def FundamentalType.Inverted (converters : Converters) : (t : FundamentalType) → t.Value → Prop
  | .float32, v => InvertedBy converters.strtof (float32Text converters v) v
  | .float64, v | .timepoint, v | .steadyTimepoint, v | .duration, v =>
    InvertedBy converters.strtod (float64Text converters v) v
  | _, _ => True

mutual

def Value.Inverted (converters : Converters) : (d : TypeDescriptor) → Value d → Prop
  | .fundamental t, v => t.Inverted converters v
  | .enumeration _ _, _ => True
  | .vector d, vs => ∀ v ∈ vs.1, Value.Inverted converters d v
  | .struct ps, x => Instance.Inverted converters ps x

/-- The conversions invert the texts of all floating-point values and times of an instance. -/
def Instance.Inverted (converters : Converters) : (ps : PropertyDescriptors) → Instance ps → Prop
  | .nil, _ => True
  | .cons _ d ps, (v, x) => (∀ v' ∈ v, Value.Inverted converters d v') ∧ Instance.Inverted converters ps x

end

/-- In front of element after element of a vector, a fresh element is put behind the others. -/
def GrowsTo (resize : Resize) (d : TypeDescriptor) (length : ℕ) : Prop :=
  ∀ vs : List (Value d), vs.length < length → resize d vs (vs.length + 1) = vs ++ [Value.fresh d]

mutual

def Value.Grown (resize : Resize) : (d : TypeDescriptor) → Value d → Prop
  | .fundamental _, _ => True
  | .enumeration _ _, _ => True
  | .vector d, vs => GrowsTo resize d vs.1.length ∧ ∀ v ∈ vs.1, Value.Grown resize d v
  | .struct ps, x => Instance.Grown resize ps x

/-- All vectors of an instance can be grown element by element. -/
def Instance.Grown (resize : Resize) : (ps : PropertyDescriptors) → Instance ps → Prop
  | .nil, _ => True
  | .cons _ d ps, (v, x) => (∀ v' ∈ v, Value.Grown resize d v') ∧ Instance.Grown resize ps x

end

/-- The conversions of uuids: the text of each is without a quotation mark, and is that of no other. -/
def Converters.InvertsUuids (converters : Converters) : Prop :=
  ∀ v, 0x22 ∉ converters.uuidText v ∧ converters.uuidFromString (converters.uuidText v) = some v

theorem staticResize_succ {d : TypeDescriptor} (vs : List (Value d)) :
    staticResize d vs (vs.length + 1) = vs ++ [Value.fresh d] := by
  rw [staticResize, List.take_of_length_le (by omega), Nat.add_sub_cancel_left]
  rfl

/-- What is appended for an element ends with a fresh one, which is read over. -/
theorem TextSerializer.readElement_eq {resize : Resize} {d : TypeDescriptor} (read : Value d → ReadText (Value d))
    {vs : {vs : List (Value d) // vs.length < sizeLimit}} {init : List (Value d)}
    (hgrown : resize d vs.1 (vs.1.length + 1) = init ++ [Value.fresh d]) :
    readElement resize read vs =
      if h : init.length + 1 < sizeLimit then do
        let v ← read (Value.fresh d)
        return ⟨init ++ [v], by rw [List.length_append]; exact h⟩
      else Parse.fail fun _ => .length := by
  have hlength : (init ++ [Value.fresh d]).length = init.length + 1 := by
    rw [List.length_append, List.length_singleton]
  have hlast : (init ++ [Value.fresh d]).getLastD (Value.fresh d) = Value.fresh d := by simp
  have hset (v : Value d) : (init ++ [Value.fresh d]).set (init.length + 1 - 1) v = init ++ [v] := by simp
  unfold readElement
  simp only [hgrown, hlength, hlast, hset]

namespace Json

variable {options options' : TextOptions} {converters : Converters} {nesting : List State}
  {trail text : List UInt8} {P : List UInt8 → Prop} {α : Type} {resize : Resize}

/-! ## What is behind a value -/

/-- `trail` is what is taken behind a value, if what follows satisfies `P`. -/
structure Closes (options : TextOptions) (converters : Converters) (nesting : List State)
    (trail : List UInt8) (P : List UInt8 → Prop) : Prop where
  reads : ReadsBefore P (finalizeRead (JsonSerializer options converters) nesting) trail ()
  delimited (rest : List UInt8) (h : P rest) : Delimited (trail ++ rest)

theorem blank_newLine (options : TextOptions) (level : ℕ) : Blank (newLine options level) := by
  intro b hb
  rw [newLine] at hb
  split at hb
  · rcases List.mem_cons.mp hb with rfl | hb
    · rfl
    · obtain rfl := List.eq_of_mem_replicate hb
      rfl
  · obtain rfl := List.mem_singleton.mp hb
    rfl
  · cases hb

theorem finalizeRead_cons (state : State) :
    finalizeRead (JsonSerializer options converters) (state :: nesting) =
      (do let _ ← tryConsumeTokenAfterWhitespace (ascii ",")) := by
  cases state <;> rfl

/-- A separator is taken. -/
theorem closes_separator (state : State) :
    Closes options converters (state :: nesting) (ascii ",") fun _ => True where
  reads := by
    rw [finalizeRead_cons]
    have hread : Reads (tryConsumeTokenAfterWhitespace (ascii ",")) (ascii ",") true :=
      reads_tokenAfterWhitespace blank_nil (by decide) []
    exact hread.bind_pure.before
  delimited rest _ := by
    rintro b hb
    cases hb
    right
    decide

/-- The whitespace before a closing bracket is taken. -/
theorem closes_blank (state : State) {w : List UInt8} (hw : Blank w) {b : UInt8}
    (hb : b ∈ ascii "]\x7d") :
    Closes options converters (state :: nesting) w fun rest => ∃ t, rest = b :: t where
  reads := by
    rw [finalizeRead_cons]
    refine ((readsBefore_skipped hw (ascii ",")).mono ?_).bind_pure
    have hall : ∀ b ∈ ascii "]\x7d", isWhitespace b = false ∧ b ≠ 0x2C := by
      decide +kernel
    rintro _ ⟨t, rfl⟩
    refine ⟨?_, ?_⟩
    · rintro c hc
      cases hc
      exact (hall b hb).1
    · rintro ⟨u, hu⟩
      exact (hall b hb).2 (List.cons.inj hu).1.symm
  delimited := by
    rintro _ ⟨t, rfl⟩ c hc
    cases w with
    | nil =>
      cases hc
      right
      have hall : ∀ b ∈ ascii "]\x7d", b ∈ ascii ",]\x7d" := by decide +kernel
      exact hall b hb
    | cons d w =>
      cases hc
      exact .inl (hw _ List.mem_cons_self)

/-! ## Elements and members -/

/-- The end of an array or object. -/
def tryEnd (options : TextOptions) (converters : Converters) (nesting : List State)
    (closing : List UInt8) : ReadText Bool := do
  if ← tryConsumeTokenAfterWhitespace closing then
    finalizeRead (JsonSerializer options converters) nesting
    return true
  else return false

/-- The elements of an array, or the members of an object, that lead from one value to another. -/
inductive Steps (options : TextOptions) (converters : Converters) (nesting : List State)
    (closing : List UInt8) (body : α → ReadText α) : α → List (List UInt8) → α → Prop
  | nil (a : α) : Steps options converters nesting closing body a [] a
  | cons {a b c : α} {text : List UInt8} {texts : List (List UInt8)} (ne_nil : text ≠ [])
      (starts : ∀ rest, NonBlank (text ++ rest) ∧ ¬closing <+: text ++ rest)
      (h : ∀ trail P, Closes options converters nesting trail P →
        ReadsBefore P (body a) (text ++ trail) b)
      (r : Steps options converters nesting closing body b texts c) :
      Steps options converters nesting closing body a (text :: texts) c

theorem readsBefore_tryEnd
    (h : ReadsBefore P (finalizeRead (JsonSerializer options converters) nesting) trail ()) {w : List UInt8}
    (hw : Blank w) {b : UInt8} (hb : isWhitespace b = false) :
    ReadsBefore P (tryEnd options converters nesting [b]) (w ++ ([b] ++ trail)) true := by
  rw [← List.append_assoc]
  exact ReadsBefore.bind (P := fun _ => True) (reads_tokenAfterWhitespace hw hb []).before
    (fun _ _ => trivial) h.bind_pure

/-- **The elements** between the brackets are read one after the other. -/
theorem Steps.rounds {state : State} {b : UInt8} (hb : b ∈ ascii "]\x7d")
    {body : α → ReadText α} {a a' : α} {texts : List (List UInt8)}
    (h : Steps options converters (state :: nesting) [b] body a texts a')
    (hcloses : ReadsBefore P (finalizeRead (JsonSerializer options converters) nesting) trail ())
    (level : ℕ) {w : List UInt8} (hw : Blank w) :
    Rounds P (tryEnd options converters nesting [b]) body a
      (separated options' level true texts ++ (w ++ ([b] ++ trail))) a' := by
  have hblank : isWhitespace b = false := by
    have hall : ∀ b ∈ ascii "]\x7d", isWhitespace b = false := by decide +kernel
    exact hall b hb
  induction h with
  | nil a => exact .stop (readsBefore_tryEnd hcloses hw hblank)
  | @cons a a₁ a₂ text texts ne_nil starts h r ih =>
    have hstop : ReadsBefore (fun rest => NonBlank rest ∧ ¬[b] <+: rest)
        (tryEnd options converters nesting [b]) (newLine options' level) false := by
      have hskip := (readsBefore_skipped (blank_newLine options' level) [b]).bind
        (f := fun found => if found = true then do
            finalizeRead (JsonSerializer options converters) nesting
            return true
          else pure false) (u := []) (Q := fun rest => NonBlank rest ∧ ¬[b] <+: rest)
        (fun _ h => h) (.pure false)
      rwa [List.append_nil] at hskip
    cases r with
    | nil =>
      have hword : separated options' level true [text] ++ (w ++ ([b] ++ trail)) =
          newLine options' level ++ ((text ++ w) ++ ([b] ++ trail)) := by simp [separated]
      rw [hword]
      refine .round hstop (fun rest _ => ?_) (h w _ (closes_blank state hw hb))
        (fun rest _ => ⟨trail ++ rest, by simp⟩) (by simp [ne_nil])
        (.stop (readsBefore_tryEnd (w := []) hcloses (by simp [Blank]) hblank))
      rw [List.append_assoc]
      exact starts _
    | @cons _ a₃ _ text' texts' =>
      have hword : separated options' level true (text :: text' :: texts') ++ (w ++ ([b] ++ trail)) =
          newLine options' level ++ ((text ++ ascii ",") ++
            (separated options' level true (text' :: texts') ++ (w ++ ([b] ++ trail)))) := by
        simp [separated]
      rw [hword]
      refine .round hstop (fun rest _ => ?_) (h _ _ (closes_separator state)) (fun _ _ => trivial)
        (by simp [ne_nil]) ih
      rw [List.append_assoc]
      exact starts _

/-! ## Values -/

theorem readsBefore_finalized (hcloses : Closes options converters nesting trail P) {read : ReadText α}
    {a : α} (h : ReadsBefore Delimited read text a) :
    ReadsBefore P (finalized (JsonSerializer options converters) nesting read) (text ++ trail) a :=
  h.bind hcloses.delimited hcloses.reads.bind_pure

theorem quoted_eq (str : List UInt8) :
    quoted str = stringDelimiter ++ (str ++ stringDelimiter) := List.append_assoc ..

/-- A string is read from what is written for its symbols. -/
theorem readsBefore_readString (hnesting : nesting ≠ [])
    (hcloses : Closes options converters nesting trail P)
    (v : {bytes : List UInt8 // bytes.length < sizeLimit}) :
    ReadsBefore P ((JsonSerializer options converters).readString nesting)
      (quoted (escape v.1) ++ trail) v := by
  have hread : ReadsBefore P (readEscapedString (JsonSerializer options converters) nesting)
      (quoted (escape v.1) ++ trail) v.1 := by
    rw [readEscapedString, if_neg hnesting, quoted_eq]
    exact readsBefore_finalized hcloses (reads_escaped v.1).before
  have hstring : ReadsBefore P ((JsonSerializer options converters).readString nesting)
      ((quoted (escape v.1) ++ trail) ++ []) v := by
    refine hread.bind (fun _ h => h) ?_
    have hlength : (if h : v.1.length < sizeLimit then pure ⟨v.1, h⟩
        else Parse.fail fun _ => .length : ReadText {bytes : List UInt8 // bytes.length < sizeLimit}) =
          pure v := dif_pos v.2
    exact fun o rest _ => congrArg (fun m => StateT.run m (⟨o, rest⟩ : Cursor UInt8)) hlength
  rwa [List.append_nil] at hstring

/-- **A fundamental value** is read from its text. -/
theorem readsBefore_readFundamental (huuid : converters.InvertsUuids) (hnesting : nesting ≠ [])
    (hcloses : Closes options converters nesting trail P) (t : FundamentalType) (v : t.Value)
    (h : t.Inverted converters v) :
    ReadsBefore P ((JsonSerializer options converters).readFundamental nesting t)
      (fundamentalText converters t v ++ trail) v := by
  have hfloat64 (v : BitVec 64) (h : InvertedBy converters.strtod (float64Text converters v) v) :
      ReadsBefore P (readFloat64 (JsonSerializer options converters) nesting)
        (float64Text converters v ++ trail) v :=
    readsBefore_finalized hcloses (readsBefore_float h.1 h.2)
  cases t with
  | boolean => exact readsBefore_finalized hcloses (reads_bool v).before
  | int8 => exact readsBefore_finalized hcloses (readsBefore_signed (w := 8) (by omega) (by omega) v)
  | uint8 => exact readsBefore_finalized hcloses (readsBefore_unsigned (w := 8) (by omega) v)
  | int16 => exact readsBefore_finalized hcloses (readsBefore_signed (w := 16) (by omega) (by omega) v)
  | uint16 => exact readsBefore_finalized hcloses (readsBefore_unsigned (w := 16) (by omega) v)
  | int32 => exact readsBefore_finalized hcloses (readsBefore_signed (w := 32) (by omega) (by omega) v)
  | uint32 | propertySet =>
    exact readsBefore_finalized hcloses (readsBefore_unsigned (w := 32) (by omega) v)
  | int64 => exact readsBefore_finalized hcloses (readsBefore_signed (w := 64) (by omega) (by omega) v)
  | uint64 => exact readsBefore_finalized hcloses (readsBefore_unsigned (w := 64) (by omega) v)
  | float32 =>
    have hread : ReadsBefore Delimited (do
        let value ← readFloat converters.strtof
        readSuffix (JsonSerializer options converters) nesting false (ascii "f")
        return value) (float32Text converters v) v := (readsBefore_float h.1 h.2).bind_pure
    exact readsBefore_finalized hcloses hread
  | float64 | timepoint | steadyTimepoint | duration => exact hfloat64 v h
  | uuid =>
    obtain ⟨hquote, hinverse⟩ := huuid v
    have hread : ReadsBefore P (readQuotedString (JsonSerializer options converters) nesting)
        (quoted (converters.uuidText v) ++ trail) (converters.uuidText v) := by
      rw [readQuotedString, if_neg hnesting, quoted_eq]
      exact readsBefore_finalized hcloses (reads_quoted hquote).before
    have hconverted : ReadsBefore P ((JsonSerializer options converters).readFundamental nesting .uuid)
        ((quoted (converters.uuidText v) ++ trail) ++ []) v := by
      refine hread.bind (fun _ h => h) ?_
      show ReadsBefore P (converted (converters.uuidFromString (converters.uuidText v))) [] v
      rw [hinverse]
      exact .pure v
    rwa [List.append_nil] at hconverted
  | string => exact readsBefore_readString hnesting hcloses v

/-- An enumerator is read from its tag. -/
theorem readsBefore_readEnum (hcloses : Closes options converters nesting trail P) {name : String}
    {es : List EnumeratorDescriptor} (htags : (es.map EnumeratorDescriptor.tag).Nodup)
    {e : EnumeratorDescriptor} (he : e ∈ es) :
    ReadsBefore P ((JsonSerializer options converters).readEnum nesting name es)
      (toChars 10 e.tag.toNat ++ trail) e.value := by
  have hread : ReadsBefore P (readUnsigned (JsonSerializer options converters) 32 nesting)
      (toChars 10 e.tag.toNat ++ trail) e.tag :=
    readsBefore_finalized hcloses (readsBefore_unsigned (w := 32) (by omega) e.tag)
  have henum : ReadsBefore P ((JsonSerializer options converters).readEnum nesting name es)
      ((toChars 10 e.tag.toNat ++ trail) ++ []) e.value := by
    refine ReadsBefore.bind hread.bind_pure (fun _ h => h) ?_
    rw [CborSerializer.enumeratorFromTag_of_mem htags he]
    exact .pure e.value
  rwa [List.append_nil] at henum

theorem starts_fundamentalText (t : FundamentalType) (v : t.Value) (h : t.Inverted converters v) :
    Starts (fundamentalText converters t v) := by
  cases t with
  | boolean => cases v <;> exact starts_of_head (by decide) (by decide) (by decide) _
  | int8 | uint8 | int16 | uint16 | int32 | uint32 | int64 | uint64 | propertySet =>
    exact (numberText_toChars _).starts
  | float32 | float64 | timepoint | steadyTimepoint | duration => exact h.1.starts
  | uuid | string => exact starts_of_head (by decide) (by decide) (by decide) _

theorem starts_valueText {level : ℕ} (d : TypeDescriptor) (v : Value d)
    (h : Value.Inverted converters d v) (htext : valueText options converters level d v = .ok text) :
    Starts text := by
  cases d with
  | fundamental t =>
    rw [valueText] at htext
    cases htext
    exact starts_fundamentalText t v h
  | enumeration name es =>
    rw [valueText] at htext
    obtain ⟨e, -, htext⟩ := bind_eq_ok htext
    cases htext
    exact (numberText_toChars _).starts
  | vector d =>
    rw [valueText] at htext
    obtain ⟨items, -, htext⟩ := bind_eq_ok htext
    cases htext
    exact starts_of_head (by decide) (by decide) (by decide) _
  | struct ps =>
    rw [valueText] at htext
    obtain ⟨texts, -, htext⟩ := bind_eq_ok htext
    cases htext
    exact starts_of_head (by decide) (by decide) (by decide) _

/-! ## Vectors -/

/-- An element is read behind the others. -/
theorem readsBefore_readElement {d : TypeDescriptor} {read : Value d → ReadText (Value d)}
    {vs : {vs : List (Value d) // vs.length < sizeLimit}} {v : Value d}
    (hgrows : resize d vs.1 (vs.1.length + 1) = vs.1 ++ [Value.fresh d])
    (h : ReadsBefore P (read (Value.fresh d)) text v) (hlength : (vs.1 ++ [v]).length < sizeLimit) :
    ReadsBefore P (readElement resize read vs) text ⟨vs.1 ++ [v], hlength⟩ := by
  have hgrown : vs.1.length + 1 < sizeLimit := by simpa using hlength
  rw [readElement_eq read hgrows, dif_pos hgrown]
  exact h.bind_pure (g := fun v => (⟨vs.1 ++ [v], by rw [List.length_append]; exact hgrown⟩ :
    {vs : List (Value d) // vs.length < sizeLimit}))

/-- The elements of a vector. -/
theorem steps_elements {d : TypeDescriptor} {read : Value d → ReadText (Value d)} {vs : List (Value d)}
    {items : List (List UInt8)}
    (h : List.Forall₂ (fun v text => Starts text ∧ ∀ trail P,
      Closes options converters (.array :: nesting) trail P →
        ReadsBefore P (read (Value.fresh d)) (text ++ trail) v) vs items) :
    ∀ (acc : {vs : List (Value d) // vs.length < sizeLimit})
      (hlength : (acc.1 ++ vs).length < sizeLimit), GrowsTo resize d (acc.1 ++ vs).length →
      Steps options converters (.array :: nesting) [0x5D] (readElement resize read) acc items
        ⟨acc.1 ++ vs, hlength⟩ := by
  induction h with
  | nil =>
    intro acc hlength _
    have hsame : (⟨acc.1 ++ [], hlength⟩ : {vs : List (Value d) // vs.length < sizeLimit}) = acc :=
      Subtype.ext (List.append_nil _)
    rw [hsame]
    exact .nil acc
  | @cons v text vs items hv _ ih =>
    intro acc hlength hgrows
    have hfirst : (acc.1 ++ [v]).length < sizeLimit := by
      rw [List.length_append] at hlength ⊢
      rw [List.length_cons] at hlength
      rw [List.length_singleton]
      omega
    have hrest := ih ⟨acc.1 ++ [v], hfirst⟩ (by simpa using hlength)
      (by rw [List.append_assoc]; exact hgrows)
    have hsame : (⟨(acc.1 ++ [v]) ++ vs, by simpa using hlength⟩ :
        {vs : List (Value d) // vs.length < sizeLimit}) = ⟨acc.1 ++ v :: vs, hlength⟩ :=
      Subtype.ext (by simp)
    rw [hsame] at hrest
    exact .cons hv.1.ne_nil (fun rest => ⟨hv.1.nonBlank rest, hv.1.not_end rest⟩)
      (fun trail P hcloses => readsBefore_readElement (hgrows acc.1 (by simp)) (hv.2 trail P hcloses)
        hfirst) hrest

/-! ## Members -/

/-- The name of a member with what stands before the value. -/
theorem readsBefore_memberName {p : PropertyDescriptor} (hp : IsIdentifier p.name) :
    ReadsBefore NonBlank (readObjectMemberName (JsonSerializer options converters) (.object :: nesting))
      (memberName options' p) (ascii p.name) := by
  have hend : ascii "\":" = 0x22 :: [0x3A] := rfl
  have hidentifier : ReadsBefore (fun rest => ∃ t, rest = 0x22 :: t)
      (readIdentifierString (JsonSerializer options converters) (.object :: nesting))
      (ascii p.name ++ []) (ascii p.name) := by
    refine (readsBefore_identifier hp).bind ?_ (ReadsBefore.bind_pure (a := ()) ?_)
    · rintro _ ⟨t, rfl⟩ b hb
      cases hb
      decide
    rw [finalizeRead_cons]
    refine ((readsBefore_skipped (w := []) (by simp [Blank]) (ascii ",")).mono ?_).bind_pure
    rintro _ ⟨t, rfl⟩
    refine ⟨?_, ?_⟩
    · rintro c hc
      cases hc
      decide
    · rintro ⟨u, hu⟩
      exact absurd (List.cons.inj hu).1 (by decide)
  rw [List.append_nil] at hidentifier
  have hgap : Blank (if options'.style = .minified then [] else ascii " ") := by
    split_ifs
    · simp [Blank]
    · intro b hb
      obtain rfl := List.mem_singleton.mp hb
      decide
  refine ReadsBefore.bind (P := fun _ => True)
    (reads_consumeTokenAfterWhitespace blank_nil (by decide) []).before (fun _ _ => trivial) ?_
  refine hidentifier.bind (fun rest _ => by
    rw [hend, List.append_assoc]
    exact ⟨_, rfl⟩) ?_
  refine ReadsBefore.bind (P := fun _ => True)
    (reads_consumeTokenAfterWhitespace blank_nil (by decide) [0x3A]).before (fun _ _ => trivial) ?_
  have hvalue : ReadsBefore NonBlank (consumeTokenAfterWhitespace (ascii ""))
      (if options'.style = .minified then [] else ascii " ") () := by
    have hread := (readsBefore_whitespace hgap).bind (f := fun _ => consumeToken (ascii ""))
      (u := []) (Q := NonBlank) (fun _ h => h) (reads_consumeToken []).before
    rwa [List.append_nil] at hread
  exact hvalue.bind_pure

theorem nullValue_ne_nil : ¬(JsonSerializer options converters).format.nullValue = [] := by
  show ¬ascii "null" = []
  decide

/-- A property without a value. -/
theorem readsBefore_null {d : TypeDescriptor} {read : Value d → ReadText (Value d)}
    (hcloses : Closes options converters nesting trail P) (v : Option (Value d)) :
    ReadsBefore P (readValue (JsonSerializer options converters) nesting v read)
      (ascii "null" ++ trail) none := by
  have hnull : ReadsBefore P (tryReadNull (JsonSerializer options converters) nesting)
      (ascii "null" ++ trail) true := by
    rw [tryReadNull, if_neg nullValue_ne_nil]
    exact ReadsBefore.bind (P := fun _ => True) (reads_tokenAfterWhitespace blank_nil
      (by decide) _).before (fun _ _ => trivial) hcloses.reads.bind_pure
  have hread := hnull.bind (u := []) (Q := P) (f := fun isNull => if isNull = true then
    (pure none : ReadText (Option (Value d))) else do return some (← read (v.getD (Value.fresh d))))
    (fun _ h => by simpa using h) (.pure none)
  rwa [List.append_nil] at hread

/-- A property with a value. -/
theorem readsBefore_some {d : TypeDescriptor} {read : Value d → ReadText (Value d)} {v : Value d}
    (hstart : Starts text) (hdelimited : ∀ rest, P rest → Delimited (trail ++ rest))
    (h : ReadsBefore P (read (Value.fresh d)) (text ++ trail) v) :
    ReadsBefore P (readValue (JsonSerializer options converters) nesting none read)
      (text ++ trail) (some v) := by
  have hnull : ReadsBefore (fun rest => NonBlank rest ∧ ¬ascii "null" <+: rest)
      (tryReadNull (JsonSerializer options converters) nesting) [] false := by
    rw [tryReadNull, if_neg nullValue_ne_nil]
    exact ReadsBefore.bind_nil (readsBefore_skipped (w := []) (by simp [Blank]) (ascii "null"))
      (fun _ h => h) (.pure false)
  refine hnull.bind_nil (fun rest hrest => ?_) h.bind_pure
  rw [List.append_assoc]
  exact ⟨hstart.nonBlank _, hstart.not_null _ (hdelimited rest hrest)⟩

/-- A member is read over an instance. -/
theorem readsBefore_readMember {p : PropertyDescriptor} (hp : IsIdentifier p.name)
    {property : List UInt8 → α → Option (ReadText α)} {x y : α} {read : ReadText α}
    (hfound : property (ascii p.name) x = some read) (h : ReadsBefore P read (text ++ trail) y)
    (hstart : ∀ rest, NonBlank (text ++ rest)) :
    ReadsBefore P (readMember (JsonSerializer options converters) nesting property x)
      (memberName options' p ++ text ++ trail) y := by
  rw [List.append_assoc]
  refine (readsBefore_memberName hp).bind (fun rest _ => ?_) ?_
  · rw [List.append_assoc]
    exact hstart _
  · rw [hfound]
    exact h

theorem isIdentifier_of_mem_names : (ps : PropertyDescriptors) → ps.Named →
    ∀ name ∈ ps.names, IsIdentifier name
  | .cons p _ ps, h, name, hname => by
    rcases List.mem_cons.mp hname with rfl | hname
    · exact h.1
    · exact isIdentifier_of_mem_names ps h.2.2.2 name hname

theorem readProperty_head {level : ℕ} {p : PropertyDescriptor} {d : TypeDescriptor}
    {ps : PropertyDescriptors} :
    readProperty (JsonSerializer options converters) resize level nesting Finset.univ
      (ascii p.name) (.cons p d ps) (Instance.fresh _) = some do
        let v ← readValue (JsonSerializer options converters) nesting none
          (readType (JsonSerializer options converters) resize level nesting d)
        return (v, Instance.fresh ps) := by
  rw [Instance.fresh, readProperty, if_pos rfl, if_pos (Finset.subset_univ _)]

/-- A property that is not first is read into the rest of the instance. -/
theorem readProperty_cons {level : ℕ} {included : PropertySet} {p : PropertyDescriptor}
    {d : TypeDescriptor} {ps : PropertyDescriptors} {name : List UInt8} (hp : ascii p.name ≠ name)
    (v : Option (Value d)) (x : Instance ps) :
    readProperty (JsonSerializer options converters) resize level nesting included name
      (.cons p d ps) (v, x) =
        (readProperty (JsonSerializer options converters) resize level nesting included name ps
          x).map fun read => do return (v, ← read) := by
  rw [readProperty, if_neg hp]

theorem map_bind_return {α β γ : Type} (m : ReadText α) (f : α → β) (g : β → γ) :
    (g <$> do return f (← m)) = (fun a => g (f a)) <$> m := by
  simp only [bind_pure_comp, Functor.map_map]

theorem map_id_read (read : Option (ReadText α)) : read = read.map fun read => id <$> read := by
  cases read <;> simp

/-- A member begins with a quotation mark. -/
theorem starts_memberName {p : PropertyDescriptor} (rest : List UInt8) :
    NonBlank ((memberName options p ++ text) ++ rest) ∧
      ¬([0x7D] : List UInt8) <+: (memberName options p ++ text) ++ rest := by
  refine ⟨?_, ?_⟩
  · rintro b hb
    cases hb
    decide
  · rintro ⟨t, ht⟩
    exact absurd (List.cons.inj ht).1 (by decide)

theorem nonBlank_null (rest : List UInt8) : NonBlank (ascii "null" ++ rest) := by
  rintro b hb
  cases hb
  decide

/-! ## Values and instances -/

/-- An object is read from its text behind whitespace, if its members are. -/
theorem readsBefore_members (options' : TextOptions) {level : ℕ} {ps : PropertyDescriptors}
    {included : PropertySet} {x : Instance ps} {texts : List (List UInt8)}
    (hincluded : CborSerializer.includedAt level included = Finset.univ)
    (hcloses : ReadsBefore P (finalizeRead (JsonSerializer options converters) nesting) trail ())
    (h : Steps options converters (.object :: nesting) [0x7D]
      (readMember (JsonSerializer options converters) nesting fun name x =>
        readProperty (JsonSerializer options converters) resize (level + 1) (.object :: nesting)
          Finset.univ name ps x) (Instance.fresh ps) texts x) (depth : ℕ) {w : List UInt8}
    (hw : Blank w) :
    ReadsBefore P (readStruct (JsonSerializer options converters) resize level nesting included
      ps (Instance.fresh ps)) (w ++ (enclosed options' depth (ascii "\x7b") (ascii "\x7d") texts ++ trail))
        x := by
  have hword : w ++ (enclosed options' depth (ascii "\x7b") (ascii "\x7d") texts ++ trail) =
      (w ++ ascii "\x7b") ++ (separated options' (depth + 1) true texts ++
        (newLine options' depth ++ ([0x7D] ++ trail))) := by
    simp [enclosed, ascii]
  rw [hword, readStruct, hincluded]
  refine ReadsBefore.bind (P := fun _ => True) (reads_consumeTokenAfterWhitespace hw (by decide)
    []).before (fun _ _ => trivial) ?_
  exact (h.rounds (by decide) hcloses (depth + 1) (blank_newLine options' depth)).readsBefore

mutual

/-- **A value is read** from its text, whatever its style. -/
theorem readsBefore_readType (huuid : converters.InvertsUuids) (level : ℕ) (hlevel : 2 ≤ level) :
    (d : TypeDescriptor) → (v : Value d) → d.WellFormed → d.Named → Value.Inverted converters d v →
    Value.Grown resize d v → (depth : ℕ) → (text : List UInt8) → valueText options' converters depth d v = .ok text →
    (nesting : List State) → nesting ≠ [] → (trail : List UInt8) → (P : List UInt8 → Prop) →
    Closes options converters nesting trail P →
    ReadsBefore P (readType (JsonSerializer options converters) resize level nesting d
      (Value.fresh d)) (text ++ trail) v
  | .fundamental t, v, _, _, hv, _, depth, text, h, nesting, hnesting, trail, P, hcloses => by
    rw [valueText] at h
    cases h
    exact readsBefore_readFundamental huuid hnesting hcloses t v hv
  | .enumeration name es, v, hwf, _, _, _, depth, text, h, nesting, _, trail, P, hcloses => by
    rw [valueText] at h
    obtain ⟨e, he, h⟩ := bind_eq_ok h
    cases h
    obtain ⟨hmem, rfl⟩ := CborSerializer.enumeratorFromValue_eq_ok he
    exact readsBefore_readEnum hcloses hwf.1 hmem
  | .vector d, vs, hwf, hnamed, hv, hgrown, depth, text, h, nesting, _, trail, P, hcloses => by
    rw [valueText] at h
    obtain ⟨items, hitems, h⟩ := bind_eq_ok h
    cases h
    have hitem : ∀ v ∈ vs.1, Value.Inverted converters d v ∧ Value.Grown resize d v :=
      fun v hmem => ⟨hv v hmem, hgrown.2 v hmem⟩
    have hall := (List.forall₂_and_left _ _).mpr ⟨hitem, forall₂_of_mapM hitems⟩
    have hsteps : Steps options converters (.array :: nesting) [0x5D] (readElement resize
        (readType (JsonSerializer options converters) resize (level + 1) (.array :: nesting) d))
        ⟨[], Nat.two_pow_pos 64⟩ items vs :=
      steps_elements (hall.imp fun v text hv => ⟨starts_valueText d v hv.1.1 hv.2,
        readsBefore_readType huuid (level + 1) (by omega) d v hwf hnamed hv.1.1 hv.1.2 (depth + 1) text
          hv.2 (.array :: nesting) (List.cons_ne_nil _ _)⟩) ⟨[], Nat.two_pow_pos 64⟩ vs.2 hgrown.1
    have hword : enclosed options' depth (ascii "[") (ascii "]") items ++ trail = ascii "[" ++
        (separated options' (depth + 1) true items ++
          (newLine options' depth ++ ([0x5D] ++ trail))) := by
      simp [enclosed, ascii]
    rw [hword, readType]
    exact ReadsBefore.bind (P := fun _ => True) (reads_consumeTokenAfterWhitespace blank_nil (by decide)
      []).before (fun _ _ => trivial)
      (hsteps.rounds (by decide) hcloses.reads (depth + 1) (blank_newLine options' depth)).readsBefore
  | .struct ps, x, hwf, hnamed, hv, hgrown, depth, text, h, nesting, _, trail, P, hcloses => by
    rw [valueText] at h
    obtain ⟨texts, htexts, h⟩ := bind_eq_ok h
    cases h
    have hvalid : Instance.restrict ps (Instance.validProperties ps x) x = x :=
      Instance.restrict_validProperties ps x
    have hgrown' : Instance.Grown resize ps (Instance.restrict ps (Instance.validProperties ps x) x) :=
      (congrArg (Instance.Grown resize ps) hvalid).mpr hgrown
    have hsteps := steps_members huuid (level + 1) (by omega) (x.validProperties ps) ps nesting
      (depth + 1) ps x hwf hnamed hv hgrown' id (fun _ _ _ => map_id_read _) texts htexts
    rw [hvalid] at hsteps
    exact readsBefore_members options' (if_pos (by unfold visitingLevel; split_ifs <;> omega))
      hcloses.reads hsteps depth blank_nil

/-- The members of an object are read one after the other. The properties of the list are part of a
longer list `full`, whose other values `E` holds. -/
theorem steps_members (huuid : converters.InvertsUuids) (level : ℕ) (hlevel : 2 ≤ level)
    (included : PropertySet) (full : PropertyDescriptors) (nesting : List State) (depth : ℕ) :
    (ps : PropertyDescriptors) → (x : Instance ps) → ps.WellFormed → ps.Named →
    Instance.Inverted converters ps x → Instance.Grown resize ps (Instance.restrict ps included x) →
    (E : Instance ps → Instance full) →
    (∀ name ∈ ps.names, ∀ y, readProperty (JsonSerializer options converters) resize level
        (.object :: nesting) Finset.univ (ascii name) full (E y) =
      (readProperty (JsonSerializer options converters) resize level
        (.object :: nesting) Finset.univ (ascii name) ps y).map fun read => E <$> read) →
    (texts : List (List UInt8)) → memberTexts options' converters depth included ps x = .ok texts →
    Steps options converters (.object :: nesting) [0x7D]
      (readMember (JsonSerializer options converters) nesting fun name x =>
        readProperty (JsonSerializer options converters) resize level (.object :: nesting)
          Finset.univ name full x) (E (Instance.fresh ps)) texts (E (Instance.restrict ps included x))
  | .nil, x, _, _, _, _, E, _, texts, h => by
    cases h
    exact .nil _
  | .cons p d ps, (v, x), hwf, hnamed, hv, hgrown, E, hE, texts, h => by
    obtain ⟨hp, hd, hps⟩ := hwf
    obtain ⟨hname, hnew, hd', hps'⟩ := hnamed
    -- the other members do not touch the value of this property
    have ih (v : Option (Value d)) := steps_members huuid level hlevel included full nesting depth ps x
      hps hps' hv.2 hgrown.2 (fun y => E (v, y)) (fun name hname' y => by
        refine (hE name (List.mem_cons_of_mem _ hname') (v, y)).trans ?_
        rw [readProperty_cons fun h => hnew (ascii_injOn hname
          (isIdentifier_of_mem_names ps hps' name hname') h ▸ hname')]
        cases readProperty (JsonSerializer options converters) resize level (.object :: nesting)
          Finset.univ (ascii name) ps y with
        | none => rfl
        | some read => exact congrArg some (map_bind_return read (Prod.mk v) E))
    simp only [memberTexts] at h
    split_ifs at h with hi
    · obtain ⟨text, htext, h⟩ := bind_eq_ok h
      obtain ⟨rest, hrest, h⟩ := bind_eq_ok h
      cases h
      have hrestrict : Instance.restrict (.cons p d ps) included (v, x) =
          (v, Instance.restrict ps included x) := by rw [Instance.restrict, if_pos hi]
      rw [hrestrict]
      refine .cons (by simp [memberName, ascii]) starts_memberName (fun trail P hcloses => ?_)
        (ih v rest hrest)
      have hfound := hE p.name List.mem_cons_self (Instance.fresh (.cons p d ps))
      rw [readProperty_head] at hfound
      have hvalue : ReadsBefore P (readValue (JsonSerializer options converters) (.object :: nesting) none
          (readType (JsonSerializer options converters) resize level (.object :: nesting) d))
            (text ++ trail) v ∧ ∀ rest, NonBlank (text ++ rest) := by
        cases v with
        | none =>
          cases htext
          exact ⟨readsBefore_null hcloses none, fun rest => nonBlank_null rest⟩
        | some v =>
          have hstart := starts_valueText d v (hv.1 v rfl) htext
          have hgrown := hgrown.1 v (by rw [if_pos hi]; rfl)
          exact ⟨readsBefore_some hstart hcloses.delimited (readsBefore_readType huuid level hlevel d v hd
            hd' (hv.1 v rfl) hgrown depth text htext _ (List.cons_ne_nil _ _) trail P hcloses),
            hstart.nonBlank⟩
      have hread := hvalue.1.bind_pure (g := fun v => (v, Instance.fresh ps))
      exact readsBefore_readMember hname hfound (ReadsBefore.map E hread) hvalue.2
    · have hrestrict : Instance.restrict (.cons p d ps) included (v, x) =
          (none, Instance.restrict ps included x) := by rw [Instance.restrict, if_neg hi]
      rw [hrestrict]
      exact ih none texts h

end

/-- An instance is read from its text behind whitespace, at a place in arrays and objects. -/
theorem readsBefore_deserializeAt (huuid : converters.InvertsUuids) {ps : PropertyDescriptors}
    (hwf : ps.WellFormed) (hnamed : ps.Named) {x : Instance ps} (hx : x.Inverted converters)
    {included : PropertySet} (hgrown : Instance.Grown resize ps (Instance.restrict ps included x))
    {depth : ℕ} {text : List UInt8} (h : structText options' converters depth included ps x = .ok text)
    (hcloses : ReadsBefore P (finalizeRead (JsonSerializer options converters) nesting) trail ())
    {w : List UInt8} (hw : Blank w) :
    ReadsBefore P (deserializeAt (JsonSerializer options converters) resize nesting ps
      (Instance.fresh ps) Finset.univ) (w ++ (text ++ trail)) (Instance.restrict ps included x) := by
  obtain ⟨texts, htexts, h⟩ := bind_eq_ok h
  cases h
  have hsteps : Steps options converters (.object :: nesting) [0x7D]
      (readMember (JsonSerializer options converters) nesting fun name x =>
        readProperty (JsonSerializer options converters) resize 2 (.object :: nesting)
          Finset.univ name ps x) (Instance.fresh ps) texts (Instance.restrict ps included x) :=
    steps_members huuid 2 le_rfl included ps nesting (depth + 1) ps x hwf hnamed hx hgrown id
      (fun _ _ _ => map_id_read _) texts htexts
  have hincluded : CborSerializer.includedAt 1 Finset.univ = Finset.univ := ite_self _
  have hread := readsBefore_members options' hincluded hcloses hsteps depth hw
  intro o rest hrest
  rw [← hread o rest hrest]
  show (if _ = [] then _ else _ : ReadText (Instance ps)).run _ = _
  rw [if_neg (by simp [enclosed, ascii])]

/-- What is written is read, whatever follows it, if the vectors can be grown. -/
theorem deserialize_of_grown (options options' : TextOptions) (huuid : converters.InvertsUuids)
    {ps : PropertyDescriptors} (hwf : ps.WellFormed) (hnamed : ps.Named) {x : Instance ps}
    (hx : x.Inverted converters) {included : PropertySet}
    (hgrown : Instance.Grown resize ps (Instance.restrict ps included x)) {text : List UInt8}
    (h : (JsonSerializer options' converters).serialize ps x included = .ok text)
    (rest : List UInt8) :
    (JsonSerializer options converters).deserialize resize ps (Instance.fresh ps) Finset.univ
      (text ++ rest) = .ok (Instance.restrict ps included x, text.length) := by
  have hread : ReadsBefore (fun _ => True) (deserializeAt (JsonSerializer options converters)
      resize [] ps (Instance.fresh ps) Finset.univ) ([] ++ (text ++ [])) (Instance.restrict ps included x) :=
    readsBefore_deserializeAt huuid hwf hnamed hx hgrown
      ((serialize_eq_ok_iff ps x included text).mp h) (.pure ()) blank_nil
  rw [List.nil_append, List.append_nil] at hread
  rw [deserialize, hread 0 rest trivial]
  show Except.ok (_, 0 + text.length) = _
  rw [Nat.zero_add]

mutual

theorem grown_static : (d : TypeDescriptor) → (v : Value d) → Value.Grown staticResize d v
  | .fundamental _, _ => trivial
  | .enumeration _ _, _ => trivial
  | .vector d, _ => ⟨fun _ _ => staticResize_succ _, fun v _ => grown_static d v⟩
  | .struct ps, x => instance_grown_static ps x

theorem instance_grown_static : (ps : PropertyDescriptors) → (x : Instance ps) →
    Instance.Grown staticResize ps x
  | .nil, _ => trivial
  | .cons _ d ps, (_, x) => ⟨fun v' _ => grown_static d v', instance_grown_static ps x⟩

end

/-- **The round trip.** The text that is written for an instance on a property set is read, whatever
follows it, as the valid properties of the instance in the set, and the reader stops at its end. -/
theorem deserialize_text (options options' : TextOptions) {converters : Converters}
    (huuid : converters.InvertsUuids) {ps : PropertyDescriptors} (hwf : ps.WellFormed)
    (hnamed : ps.Named) {x : Instance ps} (hx : x.Inverted converters) {included : PropertySet}
    {text : List UInt8}
    (h : (JsonSerializer options' converters).serialize ps x included = .ok text)
    (rest : List UInt8) :
    (JsonSerializer options converters).deserialize staticResize ps (Instance.fresh ps) Finset.univ
      (text ++ rest) = .ok (Instance.restrict ps included x, text.length) :=
  deserialize_of_grown options options' huuid hwf hnamed hx (instance_grown_static ps _) h rest

/-- The two hexadecimal digits of each byte. -/
def hexadecimal (bytes : List UInt8) : List UInt8 :=
  bytes.flatMap fun b => [digitSymbol (b.toNat / 16), digitSymbol (b.toNat % 16)]

def bytesOfHexadecimal : List UInt8 → Option (List UInt8)
  | b :: c :: w => do
    let high ← symbolDigit 16 b
    let low ← symbolDigit 16 c
    return UInt8.ofNat (high * 16 + low) :: (← bytesOfHexadecimal w)
  | [_] => none
  | [] => some []

theorem symbolDigit_hexadecimal {d : ℕ} (h : d < 16) :
    symbolDigit 16 (digitSymbol d) = some d ∧ digitSymbol d ≠ 0x2D ∧ digitSymbol d ≠ 0x22 := by
  interval_cases d <;> decide

theorem bytesOfHexadecimal_hexadecimal (bytes : List UInt8) :
    bytesOfHexadecimal (hexadecimal bytes) = some bytes := by
  induction bytes with
  | nil => rfl
  | cons b bytes ih =>
    have hb := UInt8.toNat_lt b
    have hhigh := (symbolDigit_hexadecimal (d := b.toNat / 16) (by omega)).1
    have hlow := (symbolDigit_hexadecimal (d := b.toNat % 16) (by omega)).1
    have hsum : b.toNat / 16 * 16 + b.toNat % 16 = b.toNat := by omega
    show bytesOfHexadecimal (digitSymbol (b.toNat / 16) :: digitSymbol (b.toNat % 16) ::
      hexadecimal bytes) = _
    rw [bytesOfHexadecimal, hhigh, hlow, ih]
    simp only [Option.bind_eq_bind, Option.bind_some, hsum, UInt8.ofNat_toNat]
    rfl

theorem ne_of_mem_hexadecimal {bytes : List UInt8} {c : UInt8} (h : c ∈ hexadecimal bytes) :
    c ≠ 0x2D ∧ c ≠ 0x22 := by
  obtain ⟨b, -, hc⟩ := List.mem_flatMap.mp h
  have hb := UInt8.toNat_lt b
  rcases List.mem_cons.mp hc with rfl | hc
  · exact (symbolDigit_hexadecimal (by omega)).2
  · obtain rfl := List.mem_singleton.mp hc
    exact (symbolDigit_hexadecimal (by omega)).2

/-- The groups of digits of a uuid. -/
def uuidGroups (bytes : List UInt8) : List (List UInt8) :=
  [bytes.take 4, (bytes.drop 4).take 2, (bytes.drop 6).take 2, (bytes.drop 8).take 2, bytes.drop 10]

def uuidOfBytes (bytes : List UInt8) : Option (FundamentalType.Value .uuid) :=
  if h : bytes.length = 16 then some ⟨bytes, h⟩ else none

/-- Uuids as groups of digits between hyphens, and no other floating-point value than 0. -/
def uuidConverters : Converters where
  float32Text _ := ascii "0.0"
  float64Text _ := ascii "0.0"
  strtof input := (0, if (ascii "0.0").isPrefixOf input then 3 else 0)
  strtod input := (0, if (ascii "0.0").isPrefixOf input then 3 else 0)
  timepointText _ := []
  timepointFromString _ := none
  uuidText v := List.intercalate (ascii "-") ((uuidGroups v.1).map hexadecimal)
  uuidFromString text := (bytesOfHexadecimal (text.filter (· ≠ 0x2D))).bind uuidOfBytes

theorem intercalate_hexadecimal (groups : List (List UInt8)) :
    (List.intercalate (ascii "-") (groups.map hexadecimal)).filter (· ≠ 0x2D) =
        hexadecimal groups.flatten ∧
      0x22 ∉ List.intercalate (ascii "-") (groups.map hexadecimal) := by
  have hfilter (group : List UInt8) : (hexadecimal group).filter (· ≠ 0x2D) = hexadecimal group :=
    List.filter_eq_self.mpr fun c hc => by simpa using (ne_of_mem_hexadecimal hc).1
  have hquote (group : List UInt8) : ¬(0x22 : UInt8) ∈ hexadecimal group :=
    fun h => (ne_of_mem_hexadecimal h).2 rfl
  induction groups with
  | nil => exact ⟨rfl, List.not_mem_nil⟩
  | cons group groups ih =>
    cases groups with
    | nil =>
      simp only [List.map_cons, List.map_nil, List.intercalate_singleton, List.flatten_cons,
        List.flatten_nil, List.append_nil]
      exact ⟨hfilter group, hquote group⟩
    | cons next groups =>
      have happend : hexadecimal (group :: next :: groups).flatten =
          hexadecimal group ++ hexadecimal (next :: groups).flatten := List.flatMap_append
      simp only [List.map_cons, List.intercalate_cons_cons] at ih ⊢
      rw [List.filter_append, List.filter_append, hfilter, ih.1, happend]
      refine ⟨by simp [ascii], ?_⟩
      simp only [List.mem_append, hquote, ih.2, or_false, false_or]
      decide

theorem uuidConverters_invertsUuids : uuidConverters.InvertsUuids := by
  rintro ⟨bytes, hbytes⟩
  have hgroups : (uuidGroups bytes).flatten = bytes := by
    simp only [uuidGroups, List.flatten_cons, List.flatten_nil, List.append_nil]
    have hjoin (n : ℕ) : (bytes.drop n).take 2 ++ bytes.drop (n + 2) = bytes.drop n := by
      rw [← List.drop_drop, List.take_append_drop]
    rw [hjoin 8, hjoin 6, hjoin 4, List.take_append_drop]
  obtain ⟨hfilter, hquote⟩ := intercalate_hexadecimal (uuidGroups bytes)
  refine ⟨hquote, ?_⟩
  show (bytesOfHexadecimal ((List.intercalate (ascii "-")
    ((uuidGroups bytes).map hexadecimal)).filter (· ≠ 0x2D))).bind uuidOfBytes = _
  rw [hfilter, hgroups, bytesOfHexadecimal_hexadecimal]
  exact dif_pos hbytes

def markProperties : PropertyDescriptors :=
  .cons ⟨"value", 1, false⟩ (.fundamental .int64)
    (.cons ⟨"state", 2, false⟩ (.enumeration "State" [⟨1, "off", 0⟩, ⟨5, "on", 1⟩]) .nil)

/-- A sensor with a uuid, a name, a level and marks that are structs. -/
def sensorProperties : PropertyDescriptors :=
  .cons ⟨"uuid", 1, true⟩ (.fundamental .uuid)
    (.cons ⟨"name", 2, false⟩ (.fundamental .string)
      (.cons ⟨"level", 3, false⟩ (.fundamental .float64)
        (.cons ⟨"marks", 7, false⟩ (.vector (.struct markProperties)) .nil)))

/-- The name has a quotation mark, a backslash, a control character and a byte above 0x7F. -/
def sensor : Instance sensorProperties :=
  (some ⟨List.replicate 16 0xA7, rfl⟩, some ⟨[0x22, 0x5C, 0x0A, 0x01, 0xFF], by decide⟩,
    some (0 : BitVec 64), some ⟨[(some (-9223372036854775808 : BitVec 64), some (1 : BitVec 32), ()),
      (none, none, ())], by decide⟩, ())

def sensorText : List UInt8 :=
  ascii "\x7b\"uuid\":\"a7a7a7a7-a7a7-a7a7-a7a7-a7a7a7a7a7a7\",\"name\":\"\\\"\\\\\\n" ++ [0x01, 0xFF] ++
    ascii "\",\"marks\":[\x7b\"value\":-9223372036854775808,\"state\":5\x7d,\x7b\x7d]\x7d"

theorem deserialize_text_sensor :
    (JsonSerializer { style := .minified } uuidConverters).serialize sensorProperties sensor {1, 2, 7} =
        .ok sensorText ∧
      ∀ rest, (JsonSerializer {} uuidConverters).deserialize staticResize sensorProperties
        (Instance.fresh sensorProperties) Finset.univ (sensorText ++ rest) =
          .ok (Instance.restrict sensorProperties {1, 2, 7} sensor, sensorText.length) := by
  have hserialize : (JsonSerializer { style := .minified } uuidConverters).serialize sensorProperties
      sensor {1, 2, 7} = .ok sensorText := by decide +kernel
  refine ⟨hserialize, fun rest => ?_⟩
  have hwf : sensorProperties.WellFormed := by decide +kernel
  have hnamed : sensorProperties.Named := by decide +kernel
  have hsensor : sensor.Inverted uuidConverters := by
    have hmark (mark : Instance markProperties) : mark.Inverted uuidConverters :=
      ⟨fun _ _ => trivial, fun _ _ => trivial, trivial⟩
    refine ⟨fun _ _ => trivial, fun _ _ => trivial, ?_, fun _ _ mark _ => hmark mark, trivial⟩
    rintro _ ⟨⟩
    refine ⟨⟨by decide, by decide +kernel⟩, fun rest _ => ?_⟩
    show ((0 : BitVec 64), if (ascii "0.0").isPrefixOf (ascii "0.0" ++ rest) then 3 else 0) = _
    rw [if_pos (isPrefixOf_append _ rest)]
    rfl
  exact deserialize_text {} { style := .minified } uuidConverters_invertsUuids hwf hnamed hsensor
    hserialize rest

end Json

end Dots

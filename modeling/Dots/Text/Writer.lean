import Dots.Cbor.Encoding
import Dots.Text.Format
import Dots.Type.Visitor

/-!
# Writing text

* `TextWriter`: the output and the stack of the arrays and objects that are open; its functions put
  separators and line breaks before an element.
* `TextSerializer`: a format with its options; `TextSerializer.visitor` is what it writes at the
  parts of a value, `serialize` the text of an instance on a property set.
-/

set_option autoImplicit false

namespace Dots

namespace TextWriter

/-- `State`. -/
inductive State
  | array
  | object
  deriving DecidableEq

end TextWriter

/-- The stack holds for each open array or object whether its next element is the first. -/
structure TextWriter where
  output : List UInt8 := []
  nesting : List (TextWriter.State × Bool) := []
  deriving DecidableEq

/-- A serializer of a format. The names of the types are those of the descriptors of its structs. -/
structure TextSerializer where
  format : TextFormat
  options : TextOptions
  converters : Converters
  structName : PropertyDescriptors → String

namespace TextWriter

variable (s : TextSerializer)

def append (str : List UInt8) (w : TextWriter) : TextWriter := { w with output := w.output ++ str }

/-- `appendNewLine`. -/
def newLine (options : TextOptions) (level : ℕ) : List UInt8 :=
  match options.style with
  | .multiLine => 0x0A :: List.replicate (level * options.indentSize) 0x20
  | .singleLine => [0x20]
  | .minified => []

def initiateWrite (w : TextWriter) : TextWriter :=
  match w.nesting with
  | (.array, true) :: nesting =>
    { w with
      output := w.output ++ newLine s.options w.nesting.length
      nesting := (.array, false) :: nesting }
  | (.array, false) :: _ =>
    w.append (s.format.arrayElementSeparator ++ newLine s.options w.nesting.length)
  | _ => w

def writeString (str : List UInt8) (w : TextWriter) : TextWriter := (w.initiateWrite s).append str

def writeArrayBegin (w : TextWriter) : TextWriter :=
  let w := w.writeString s s.format.arrayBegin
  { w with nesting := (.array, true) :: w.nesting }

def writeArrayEnd (w : TextWriter) : TextWriter :=
  let nesting := w.nesting.tail
  { output := w.output ++ newLine s.options nesting.length ++ s.format.arrayEnd, nesting }

/-- `writeObjectBegin`. The name of the type is an element of its own. -/
def writeObjectBegin (objectTypeName : List UInt8) (w : TextWriter) : TextWriter :=
  let w :=
    match s.format.objectFormat, s.options.style with
    | .withTypeName, .singleLine => if w.nesting = [] then w.writeString s objectTypeName else w
    | .withTypeName, .multiLine => w.writeString s objectTypeName
    | _, _ => w
  let w := w.writeString s s.format.objectBegin
  { w with nesting := (.object, true) :: w.nesting }

def writeObjectEnd (w : TextWriter) : TextWriter :=
  let nesting := w.nesting.tail
  { output := w.output ++ newLine s.options nesting.length ++ s.format.objectEnd, nesting }

/-- What stands between the name of a member and its value. -/
def memberValueBegin : List UInt8 :=
  if s.format.objectMemberValueBegin ≠ [] then
    if s.options.style = .minified then s.format.objectMemberValueBegin
    else ascii " " ++ s.format.objectMemberValueBegin ++ ascii " "
  else if s.options.style ≠ .minified then ascii " " else []

def writeObjectMemberName (name : List UInt8) (w : TextWriter) : TextWriter :=
  let w :=
    match w.nesting with
    | (state, true) :: nesting =>
      { w with
        output := w.output ++ newLine s.options w.nesting.length
        nesting := (state, false) :: nesting }
    | _ => w.append (s.format.objectMemberValueEnd ++ newLine s.options w.nesting.length)
  w.append (s.format.objectMemberNameBegin ++ name ++ s.format.objectMemberNameEnd ++
    memberValueBegin s)

def writeNull (w : TextWriter) : TextWriter := w.writeString s s.format.nullValue

/-- `write` of a `bool`, in the format `Literal`. -/
def writeBool (value : Bool) (w : TextWriter) : TextWriter :=
  w.writeString s (if value then ascii "true" else ascii "false")

/-- The suffix of an unsigned integer, or of a `float`. -/
def suffix (hasSuffix : Bool) (str : List UInt8) (w : TextWriter) : List UInt8 :=
  if hasSuffix ∧ w.nesting ≠ [] ∧ s.options.style ≠ .minified then str else []

/-- `write` of an integer. -/
def writeInteger (base : ℕ) (isUnsigned : Bool) (value : ℤ) (w : TextWriter) : TextWriter :=
  let w := w.initiateWrite s
  let radix := if base = 2 then ascii "0b" else if base = 16 then ascii "0x" else []
  w.append (radix ++ toChars base value ++
    w.suffix s (s.format.integerFormat = .withSignSuffix ∧ isUnsigned) (ascii "u"))

/-- `write` of a `float`; a zero of either sign is `0.0`. -/
def writeFloat32 (value : BitVec 32) (w : TextWriter) : TextWriter :=
  let w := w.initiateWrite s
  w.append ((if value <<< 1 = 0 then ascii "0.0" else s.converters.float32Text value) ++
    w.suffix s (s.format.floatFormat = .withSizeSuffix) (ascii "f"))

/-- `write` of a `double`. -/
def writeFloat64 (value : BitVec 64) (w : TextWriter) : TextWriter :=
  w.writeString s (if value <<< 1 = 0 then ascii "0.0" else s.converters.float64Text value)

/-- `writeIdentifierString` of a prefix and an identifier. -/
def writeIdentifierString (qualifier identifier : List UInt8) (w : TextWriter) : TextWriter :=
  let w := w.initiateWrite s
  if s.format.objectFormat = .withTypeName ∧ w.nesting ≠ [] ∧ s.options.style = .multiLine then
    w.append (qualifier ++ identifier)
  else w.append identifier

def writeQuotedString (str : List UInt8) (w : TextWriter) : TextWriter :=
  let w := w.initiateWrite s
  if w.nesting = [] then w.append str else w.append (stringDelimiter ++ str ++ stringDelimiter)

/-- The loop of `writeEscapedString`. What is escaped is one symbol each time. -/
def escape : List UInt8 → List UInt8
  | [] => []
  | b :: str =>
    match StringEscapeMapping.find? fun m => m.1.isPrefixOf (b :: str) with
    | some m => m.2 ++ escape str
    | none => b :: escape str

def writeEscapedString (str : List UInt8) (w : TextWriter) : TextWriter :=
  let w := w.initiateWrite s
  if w.nesting = [] then w.append str
  else w.append (stringDelimiter ++ escape str ++ stringDelimiter)

end TextWriter

namespace TextSerializer

open TextWriter CborSerializer

variable (s : TextSerializer)

/-- `visitFundamentalTypeDerived` of the writing side. -/
def writeFundamental : (t : FundamentalType) → t.Value → TextWriter → TextWriter
  | .boolean, (v : Bool) => writeBool s v
  | .int8, (v : BitVec 8) => writeInteger s 10 false v.toInt
  | .uint8, (v : BitVec 8) => writeInteger s 10 true v.toNat
  | .int16, (v : BitVec 16) => writeInteger s 10 false v.toInt
  | .uint16, (v : BitVec 16) => writeInteger s 10 true v.toNat
  | .int32, (v : BitVec 32) => writeInteger s 10 false v.toInt
  | .uint32, (v : BitVec 32) => writeInteger s 10 true v.toNat
  | .int64, (v : BitVec 64) => writeInteger s 10 false v.toInt
  | .uint64, (v : BitVec 64) => writeInteger s 10 true v.toNat
  | .float32, (v : BitVec 32) => TextWriter.writeFloat32 s v
  | .float64, (v : BitVec 64) => TextWriter.writeFloat64 s v
  | .propertySet, (v : BitVec 32) =>
    writeInteger s (match s.format.propertySetFormat with | .decimalValue => 10 | .binaryValue => 2)
      true v.toNat
  | .timepoint, (v : BitVec 64) =>
    match s.format.timepointFormat with
    | .fractionalSeconds => TextWriter.writeFloat64 s v
    | .iso8601String => writeQuotedString s (s.converters.timepointText v)
  | .steadyTimepoint, (v : BitVec 64) => TextWriter.writeFloat64 s v
  | .duration, (v : BitVec 64) => TextWriter.writeFloat64 s v
  | .uuid, v => writeQuotedString s (s.converters.uuidText v)
  | .string, v => writeEscapedString s v.1

/-- `visitEnumDerived` of the writing side. -/
def writeEnum (name : String) (enumerators : List EnumeratorDescriptor) (value : BitVec 32) :
    Keep Exception TextWriter Unit :=
  match enumeratorFromValue name enumerators value with
  | .error e => Keep.throws e
  | .ok e =>
    match s.format.enumFormat with
    | .tag => Keep.change (writeInteger s 10 true e.tag.toNat)
    | .identifier =>
      Keep.change (writeIdentifierString s (ascii name ++ ascii "::") (ascii e.name))

/-- `visitPropertyBeginDerived` of the writing side. -/
def writePropertyBegin (p : PropertyDescriptor) (isValid : Bool) (w : TextWriter) : TextWriter :=
  let w := if w.nesting.length > 0 then w.writeObjectMemberName s (ascii p.name) else w
  if isValid then w else w.writeNull s

/-- What a text serializer does at the parts of a value. -/
def visitor : Visitor TextWriter where
  visitStructBegin ps _ included := do
    Keep.change (writeObjectBegin s (ascii (s.structName ps)))
    return included
  visitStructEnd := Keep.change (writeObjectEnd s)
  visitPropertyBegin _ p isValid := do
    Keep.change (s.writePropertyBegin p isValid)
    return isValid
  visitVectorBegin _ := Keep.change (writeArrayBegin s)
  visitVectorEnd := Keep.change (writeArrayEnd s)
  visitEnum := s.writeEnum
  visitFundamentalType t v := Keep.change (s.writeFundamental t v)

/-- `Serialize` of an instance with included properties. -/
def serialize (ps : PropertyDescriptors) (x : Instance ps) (includedProperties : PropertySet) :
    Except Exception (List UInt8) :=
  let (r, state) := (TypeVisitor.visit s.visitor ps x includedProperties).exec ⟨0, {}⟩
  r.map fun _ => state.derived.output

open Keep in
theorem throwsAtEnums : s.visitor.ThrowsAtEnums where
  structBegin _ _ included w := ⟨included, _, (gives_change _ w).bind (gives_pure _ _), fun _ _ =>
    Iff.rfl⟩
  structEnd w := ⟨_, gives_change _ w⟩
  propertyBegin _ _ isValid w := ⟨isValid, _, (gives_change _ w).bind (gives_pure _ _), id⟩
  vectorBegin _ w := ⟨_, gives_change _ w⟩
  vectorEnd w := ⟨_, gives_change _ w⟩
  enum name es v w := by
    show (s.writeEnum name es v).Succeeds _ w _
    rw [writeEnum]
    cases h : enumeratorFromValue name es v with
    | error e =>
      refine .inr ⟨fun hv => ?_, e, w, throws_throws e w⟩
      obtain ⟨e', he'⟩ : ∃ e', enumeratorFromValue name es v = .ok e' :=
        exists_enumeratorFromValue hv
      rw [h] at he'
      cases he'
    | ok e =>
      refine .inl ⟨⟨e, enumeratorFromValue_eq_ok h⟩, ?_⟩
      cases s.format.enumFormat with
      | tag => exact ⟨(), _, gives_change _ w, trivial⟩
      | identifier => exact ⟨(), _, gives_change _ w, trivial⟩
  fundamental _ _ w := ⟨_, gives_change _ w⟩

end TextSerializer

/-- `JsonSerializer`. The names of types are not written. -/
def JsonSerializer (options : TextOptions) (converters : Converters) : TextSerializer where
  format := JsonFormat
  options := options
  converters := converters
  structName := fun _ => ""

end Dots

import Dots.Lib.Parse
import Dots.Text.Writer

/-!
# Reading text

* `TextFailure`: what ends a read. A loop that makes no progress does not end, and an identifier
  that is followed by a symbol above `0x7F` is looked up outside of a table.
* `TextReader`: the `read` functions and `skip`. Each value takes the separator behind it.
* `readStruct`, `readType`, `deserialize`: values are read over those that are there; a vector grows
  by one element at a time, as the function `resize` of its descriptor does it.
-/

set_option autoImplicit false

namespace Dots

inductive TextFailure
  /-- `makeTokenError`. -/
  | token (position : ℕ) (expected got : List UInt8)
  | thrown (e : Exception)
  /-- A text is refused by the conversion of a time or of a uuid. -/
  | conversion
  /-- `std::length_error`. -/
  | length
  | outside (offset : ℕ)
  | hangs
  deriving DecidableEq

/-- A computation on the input of a text reader. -/
abbrev ReadText := Parse UInt8 TextFailure

/-- How the descriptor of a vector changes its size. -/
abbrev Resize := (d : TypeDescriptor) → List (Value d) → ℕ → List (Value d)

namespace TextReader

open TextWriter (State)

variable {α : Type} (s : TextSerializer)

def tokenError (expected : List UInt8) : ReadText α :=
  Parse.fail fun c => .token c.offset expected (c.rest.take 10)

def input : ReadText (List UInt8) := fun c => .ok (c.rest, c)

def inputAdvance (n : ℕ) : ReadText Unit := fun c => .ok ((), c.advance n)

/-- `c < '!'` for a signed `char`. -/
def isWhitespace (b : UInt8) : Bool := b < 0x21 ∨ 0x80 ≤ b

def consumeWhitespace : ReadText Unit := fun c =>
  .ok ((), c.advance (c.rest.takeWhile isWhitespace).length)

def tryConsumeToken (token : List UInt8) : ReadText Bool := fun c =>
  if token.isPrefixOf c.rest then .ok (true, c.advance token.length) else .ok (false, c)

def consumeToken (token : List UInt8) : ReadText Unit := do
  if ← tryConsumeToken token then return () else tokenError token

def consumeTokenAfterWhitespace (token : List UInt8) : ReadText Unit := do
  consumeWhitespace
  consumeToken token

def tryConsumeTokenAfterWhitespace (token : List UInt8) : ReadText Bool := do
  consumeWhitespace
  tryConsumeToken token

/-- The whitespace and the separator behind a value. -/
def finalizeRead : List State → ReadText Unit
  | [] => return ()
  | .array :: _ => do
    let _ ← tryConsumeTokenAfterWhitespace s.format.arrayElementSeparator
  | .object :: _ => do
    let _ ← tryConsumeTokenAfterWhitespace s.format.objectMemberValueEnd

/-- A value and what is behind it. -/
def finalized (nesting : List State) (read : ReadText α) : ReadText α := do
  let value ← read
  finalizeRead s nesting
  return value

/-! ## Arrays and objects -/

def readArrayBegin : ReadText Unit := consumeTokenAfterWhitespace s.format.arrayBegin

/-- `tryReadArrayEnd`; `nesting` is the stack without the array. -/
def tryReadArrayEnd (nesting : List State) : ReadText Bool := do
  if ← tryConsumeTokenAfterWhitespace s.format.arrayEnd then
    finalizeRead s nesting
    return true
  else return false

/-- `readObjectBegin`. -/
def readObjectBegin (objectTypeName : List UInt8) : ReadText Unit := do
  match s.format.objectFormat, s.options.policy with
  | .withTypeName, .strict => consumeTokenAfterWhitespace objectTypeName
  | .withTypeName, .relaxed => let _ ← tryConsumeTokenAfterWhitespace objectTypeName
  | .withoutTypeName, _ => pure ()
  consumeTokenAfterWhitespace s.format.objectBegin

def tryReadObjectEnd (nesting : List State) : ReadText Bool := do
  if ← tryConsumeTokenAfterWhitespace s.format.objectEnd then
    finalizeRead s nesting
    return true
  else return false

/-- `IdentifierSymbols`. -/
def isIdentifierSymbol (b : UInt8) : Bool :=
  (0x30 ≤ b ∧ b ≤ 0x39) ∨ (0x41 ≤ b ∧ b ≤ 0x5A) ∨ (0x61 ≤ b ∧ b ≤ 0x7A) ∨ b = 0x5F

/-- The identifier at the front of the input. The table has 256 entries, and a signed `char` that is
negative is an index outside of them. -/
def identifier : ReadText (List UInt8) := fun c =>
  let name := c.rest.takeWhile isIdentifierSymbol
  match c.rest.drop name.length with
  | [] => .ok (name, c.advance name.length)
  | b :: _ =>
    if 0x80 ≤ b then .error (.outside (c.offset + name.length))
    else .ok (name, c.advance name.length)

def readIdentifierString (nesting : List State) : ReadText (List UInt8) :=
  finalized s nesting identifier

/-- `readIdentifierString` of an identifier behind a prefix of two parts. -/
def readQualifiedIdentifierString (nesting : List State) (head tail : List UInt8) :
    ReadText (List UInt8) := do
  consumeWhitespace
  if nesting ≠ [] ∧ s.options.policy = .strict then
    consumeToken head
    consumeToken tail
  else if ← tryConsumeToken head then
    consumeToken tail
  readIdentifierString s nesting

def readObjectMemberName (nesting : List State) : ReadText (List UInt8) := do
  consumeTokenAfterWhitespace s.format.objectMemberNameBegin
  let propertyName ← readIdentifierString s nesting
  if s.format.objectMemberNameEnd ≠ [] then
    consumeTokenAfterWhitespace s.format.objectMemberNameEnd
  consumeTokenAfterWhitespace s.format.objectMemberValueBegin
  return propertyName

def tryReadNull (nesting : List State) : ReadText Bool := do
  if s.format.nullValue = [] then return false
  else if ← tryConsumeTokenAfterWhitespace s.format.nullValue then
    finalizeRead s nesting
    return true
  else return false

/-! ## Fundamental types -/

/-- `read` of a `bool`, in the format `Literal`. -/
def readBool : ReadText Bool := do
  consumeWhitespace
  if ← tryConsumeToken (ascii "true") then return true
  else if ← tryConsumeToken (ascii "false") then return false
  else tokenError (ascii "<boolean-string>")

/-- The suffix of an unsigned integer, or of a `float`. -/
def readSuffix (nesting : List State) (hasSuffix : Bool) (str : List UInt8) : ReadText Unit := do
  if hasSuffix then
    if nesting ≠ [] ∧ s.options.policy = .strict then consumeToken str
    else let _ ← tryConsumeToken str

/-- `read` of an integer. -/
def readInteger {w : ℕ} (nesting : List State) (isUnsigned : Bool)
    (fromChars : (base : ℕ) → List UInt8 → Option (BitVec w × ℕ)) : ReadText (BitVec w) := do
  consumeWhitespace
  let base ← (do
    if ← tryConsumeToken (ascii "0b") then return 2
    else if ← tryConsumeToken (ascii "0x") then return 16
    else return 10)
  match fromChars base (← input) with
  | none => tokenError (ascii "<integer-value>")
  | some (value, n) => do
    inputAdvance n
    readSuffix s nesting (s.format.integerFormat = .withSignSuffix ∧ isUnsigned) (ascii "u")
    return value

def readUnsigned (w : ℕ) (nesting : List State) : ReadText (BitVec w) :=
  finalized s nesting (readInteger s nesting true (fromCharsUnsigned w))

def readSigned (w : ℕ) (nesting : List State) : ReadText (BitVec w) :=
  finalized s nesting (readInteger s nesting false (fromCharsSigned w))

/-- `read` of a floating-point value. -/
def readFloat {w : ℕ} (parse : List UInt8 → BitVec w × ℕ) : ReadText (BitVec w) := do
  let (value, n) := parse (← input)
  if n = 0 then tokenError (ascii "<floating point value>")
  else do
    inputAdvance n
    return value

def readFloat32 (nesting : List State) : ReadText (BitVec 32) :=
  finalized s nesting do
    let value ← readFloat s.converters.strtof
    readSuffix s nesting (s.format.floatFormat = .withSizeSuffix) (ascii "f")
    return value

def readFloat64 (nesting : List State) : ReadText (BitVec 64) :=
  finalized s nesting (readFloat s.converters.strtod)

/-- The whole input. -/
def readAll : ReadText (List UInt8) := do
  consumeWhitespace
  let token ← input
  inputAdvance token.length
  return token

/-- One round of the loop of `readEscapedString`. -/
def readEscapedSymbol (token : List UInt8) : ReadText (List UInt8) := do
  let str ← input
  match str with
  | [] => tokenError stringDelimiter
  | b :: _ =>
    if stringEscape.isPrefixOf str then
      match StringEscapeMapping.find? fun m => m.2.isPrefixOf str with
      | none => tokenError (ascii "<valid-escape-sequence>")
      | some m => do
        inputAdvance m.2.length
        return token ++ m.1
    else do
      inputAdvance 1
      return token ++ [b]

/-- A string between delimiters; `symbol` reads a part of it. -/
def readDelimited (symbol : List UInt8 → ReadText (List UInt8)) : ReadText (List UInt8) := do
  consumeTokenAfterWhitespace stringDelimiter
  Parse.loop (tryConsumeToken stringDelimiter) symbol (fun _ => .hangs) []

def readEscapedString (nesting : List State) : ReadText (List UInt8) :=
  finalized s nesting (if nesting = [] then readAll else readDelimited readEscapedSymbol)

/-- The loop of `readQuotedString`: what lies before the next delimiter. -/
def beforeDelimiter : (tokenInput : List UInt8) → Option (List UInt8)
  | [] => none
  | b :: tokenInput =>
    if stringDelimiter.isPrefixOf (b :: tokenInput) then some []
    else (beforeDelimiter tokenInput).map (b :: ·)

/-- A string between delimiters. The input moves only when its end is found. -/
def readQuoted : ReadText (List UInt8) := do
  consumeTokenAfterWhitespace stringDelimiter
  match beforeDelimiter (← input) with
  | none => tokenError stringDelimiter
  | some value => do
    inputAdvance (value.length + stringDelimiter.length)
    return value

def readQuotedString (nesting : List State) : ReadText (List UInt8) :=
  finalized s nesting (if nesting = [] then readAll else readQuoted)

/-- The value of a text. -/
def converted (value : Option α) : ReadText α :=
  match value with
  | none => Parse.fail fun _ => .conversion
  | some v => return v

/-! ## Skipping -/

/-- Whether a value, a separator or an end was skipped, or a symbol is to be passed; `skip` skips
inside of an array or object. -/
def trySkip (skip : List State → ReadText Unit) (nesting : List State) : ReadText Bool := do
  let str ← input
  if str = [] then return true
  else if stringDelimiter.isPrefixOf str then
    let _ ← readEscapedString s nesting
    return true
  else if s.format.arrayBegin.isPrefixOf str then
    readArrayBegin s
    Parse.loop (tryReadArrayEnd s nesting) (fun _ => skip (.array :: nesting)) (fun _ => .hangs) ()
    return true
  else if s.format.objectBegin.isPrefixOf str then
    consumeTokenAfterWhitespace s.format.objectBegin
    Parse.loop (tryReadObjectEnd s nesting) (fun _ => do
      let _ ← readObjectMemberName s (.object :: nesting)
      skip (.object :: nesting)) (fun _ => .hangs) ()
    return true
  else if s.format.arrayElementSeparator.isPrefixOf str then
    consumeToken s.format.arrayElementSeparator
    return true
  else if s.format.objectMemberValueEnd.isPrefixOf str then
    consumeToken s.format.objectMemberValueEnd
    return true
  else return s.format.arrayEnd.isPrefixOf str ∨ s.format.objectEnd.isPrefixOf str

/-- `skip`, in at most as many arrays and objects inside of one another. -/
def skipDepth : (depth : ℕ) → List State → ReadText Unit
  | 0, _ => Parse.fail fun _ => .hangs
  | depth + 1, nesting => do
    consumeWhitespace
    Parse.loop (trySkip s (skipDepth depth) nesting) (fun _ => inputAdvance 1) (fun _ => .hangs) ()

/-- Each array or object inside of another takes a symbol. -/
def skip (nesting : List State) : ReadText Unit := fun c =>
  (skipDepth s (c.rest.length + 1) nesting).run c

end TextReader

namespace TextSerializer

open TextReader
open TextWriter (State)

variable (s : TextSerializer)

/-- The string of a text. -/
def readString (nesting : List State) : ReadText (FundamentalType.Value .string) := do
  let token ← readEscapedString s nesting
  if h : token.length < sizeLimit then return ⟨token, h⟩ else Parse.fail fun _ => .length

/-- `visitFundamentalTypeDerived` of the reading side. -/
def readFundamental (nesting : List State) : (t : FundamentalType) → ReadText t.Value
  | .boolean => (finalized s nesting readBool : ReadText Bool)
  | .int8 => (readSigned s 8 nesting : ReadText (BitVec 8))
  | .uint8 => (readUnsigned s 8 nesting : ReadText (BitVec 8))
  | .int16 => (readSigned s 16 nesting : ReadText (BitVec 16))
  | .uint16 => (readUnsigned s 16 nesting : ReadText (BitVec 16))
  | .int32 => (readSigned s 32 nesting : ReadText (BitVec 32))
  | .uint32 => (readUnsigned s 32 nesting : ReadText (BitVec 32))
  | .int64 => (readSigned s 64 nesting : ReadText (BitVec 64))
  | .uint64 => (readUnsigned s 64 nesting : ReadText (BitVec 64))
  | .float32 => readFloat32 s nesting
  | .float64 => readFloat64 s nesting
  | .propertySet => (readUnsigned s 32 nesting : ReadText (BitVec 32))
  | .timepoint =>
    match s.format.timepointFormat with
    | .fractionalSeconds => readFloat64 s nesting
    | .iso8601String => do converted (s.converters.timepointFromString (← readQuotedString s nesting))
  | .steadyTimepoint => readFloat64 s nesting
  | .duration => readFloat64 s nesting
  | .uuid => do converted (s.converters.uuidFromString (← readQuotedString s nesting))
  | .string => s.readString nesting

/-- `enumeratorFromName`. -/
def enumeratorFromName (name : String) (enumerators : List EnumeratorDescriptor)
    (enumerator : List UInt8) : Except Exception EnumeratorDescriptor :=
  match enumerators.find? fun e => ascii e.name = enumerator with
  | some e => .ok e
  | none => .error (.logicError s!"Enum '{name}' does not have enumerator with given name")

/-- `visitEnumDerived` of the reading side. -/
def readEnum (nesting : List State) (name : String) (enumerators : List EnumeratorDescriptor) :
    ReadText (BitVec 32) := do
  let e ← (match s.format.enumFormat with
    | .tag => do
      let tag ← readUnsigned s 32 nesting
      return enumeratorFromTag name enumerators tag
    | .identifier => do
      let identifier ← readQualifiedIdentifierString s nesting (ascii name) (ascii "::")
      return enumeratorFromName name enumerators identifier)
  match e with
  | .ok e => return e.value
  | .error e => Parse.fail fun _ => .thrown e

/-- A round of the loop of `visitVectorBeginDerived`: the vector grows, and `read` reads its last
element. -/
def readElement {d : TypeDescriptor} (resize : Resize) (read : Value d → ReadText (Value d))
    (vs : {vs : List (Value d) // vs.length < sizeLimit}) :
    ReadText {vs : List (Value d) // vs.length < sizeLimit} := do
  let grown := resize d vs.1 (vs.1.length + 1)
  if h : grown.length < sizeLimit then do
    let v ← read (grown.getLastD (Value.fresh d))
    return ⟨grown.set (grown.length - 1) v, by rw [List.length_set]; exact h⟩
  else Parse.fail fun _ => .length

/-- `visitPropertyBeginDerived` and the visit of the value, which is read over the one that is
there. -/
def readValue {d : TypeDescriptor} (nesting : List State) (v : Option (Value d))
    (read : Value d → ReadText (Value d)) : ReadText (Option (Value d)) := do
  if ← tryReadNull s nesting then return none
  else return some (← read (v.getD (Value.fresh d)))

/-- A member of an object; `property` is the read of the property with a name, if there is one and
it is included. -/
def readMember {α : Type} (nesting : List State)
    (property : List UInt8 → α → Option (ReadText α)) (x : α) : ReadText α := do
  let propertyName ← readObjectMemberName s (.object :: nesting)
  match property propertyName x with
  | some read => read
  | none => do
    skip s (.object :: nesting)
    return x

/-- The loop over the members of an object. -/
def readMembers {α : Type} (nesting : List State) (objectTypeName : List UInt8)
    (property : List UInt8 → α → Option (ReadText α)) (x : α) : ReadText α := do
  readObjectBegin s objectTypeName
  Parse.loop (tryReadObjectEnd s nesting) (readMember s nesting property) (fun _ => .hangs) x

mutual

/-- `visitTypeInternal<false>`. -/
def readType (resize : Resize) (level : ℕ) (nesting : List State) :
    (d : TypeDescriptor) → Value d → ReadText (Value d)
  | .fundamental t, _ => s.readFundamental nesting t
  | .enumeration name es, _ => s.readEnum nesting name es
  | .vector d, vs => do
    readArrayBegin s
    Parse.loop (tryReadArrayEnd s nesting)
      (readElement resize (readType resize (level + 1) (.array :: nesting) d)) (fun _ => .hangs) vs
  | .struct ps, x =>
    let included := CborSerializer.includedAt level (x.validProperties ps)
    readMembers s nesting (ascii (s.structName ps))
      (fun name x => readProperty resize (level + 1) (.object :: nesting) included name ps x) x

/-- The property that `find_property` finds, if it is included, is read over its value. -/
def readProperty (resize : Resize) (level : ℕ) (nesting : List State) (included : PropertySet)
    (name : List UInt8) :
    (ps : PropertyDescriptors) → Instance ps → Option (ReadText (Instance ps))
  | .nil, _ => none
  | .cons p d ps, (v, x) =>
    if ascii p.name = name then
      if p.set ⊆ included then
        some do
          let v ← readValue s nesting v (readType resize level nesting d)
          return (v, x)
      else none
    else (readProperty resize level nesting included name ps x).map fun read => do return (v, ← read)

end

/-- `visitStructBeginDerived` of the reading side. -/
def readStruct (resize : Resize) (level : ℕ) (nesting : List State)
    (includedProperties : PropertySet) (ps : PropertyDescriptors) :
    Instance ps → ReadText (Instance ps) :=
  let included := CborSerializer.includedAt level includedProperties
  readMembers s nesting (ascii (s.structName ps)) fun name x =>
    readProperty s resize (level + 1) (.object :: nesting) included name ps x

/-- `deserialize` at a place in arrays and objects, with what remains of the input. -/
def deserializeAt (resize : Resize) (nesting : List State) (ps : PropertyDescriptors)
    (x : Instance ps) (includedProperties : PropertySet) : ReadText (Instance ps) := do
  if (← input) = [] then
    Parse.fail fun _ => .thrown (.logicError
      "attempt to deserialize from invalid or empty input buffer")
  else readStruct s resize 1 nesting includedProperties ps x

/-- `Deserialize`, with the number of symbols consumed. -/
def deserialize (resize : Resize) (ps : PropertyDescriptors) (x : Instance ps)
    (includedProperties : PropertySet) (data : List UInt8) : Except TextFailure (Instance ps × ℕ) := do
  let (x, c) ← (deserializeAt s resize [] ps x includedProperties).run ⟨0, data⟩
  return (x, c.offset)

variable {s}

theorem run_deserialize {resize : Resize} {ps : PropertyDescriptors} {x : Instance ps}
    {included : PropertySet} {data : List UInt8} (hdata : data ≠ []) :
    deserialize s resize ps x included data =
      ((s.readStruct resize 1 [] included ps x).run ⟨0, data⟩).map fun r => (r.1, r.2.offset) := by
  have hrun : (s.deserializeAt resize [] ps x included).run ⟨0, data⟩ =
      (s.readStruct resize 1 [] included ps x).run ⟨0, data⟩ := by
    show (if data = [] then _ else s.readStruct resize 1 [] included ps x : ReadText _).run _ = _
    rw [if_neg hdata]
  rw [deserialize, hrun]
  cases (s.readStruct resize 1 [] included ps x).run ⟨0, data⟩ <;> rfl

end TextSerializer

/-- `std::vector::resize`, of elements that can be default-constructed. -/
def staticResize : Resize := fun d vs size =>
  vs.take size ++ List.replicate (size - vs.length) (Value.fresh d)

end Dots

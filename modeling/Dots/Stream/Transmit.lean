import Dots.Cbor.Visitor
import Dots.Stream.Framing

/-!
# Transmitting through a stream channel

`Dots.Stream.Model` computes the frame of a transmission, or an exception. The channel itself
serializes into the buffer in which the frames wait for the next write.

* `Sender`, `transmit`: the write buffers, the payload cache and the serializer of a channel.
* `Sender.outcome`: one transmission, or the completion of a write.
* `Sender.Encodable`: the transmissions that are not serialized in the format v2, or whose attributes
  are valid and whose enum values have enumerators.
* **`gives_serializeTransmission`**: the frame of `serializeTransmission` is appended.
-/

set_option autoImplicit false

namespace Dots

namespace AsyncStreamChannel

open CborSerializer TypeVisitor Keep

/-- What a channel writes. The bytes of `asio::async_write` are on the wire when the write starts. -/
structure Sender where
  /-- The output of `m_serializer`, and its visiting level. -/
  serializer : VisitorState (List UInt8) := ⟨0, []⟩
  writeBuffer : List UInt8 := []
  asyncWriting : Bool := false
  payloadCache : Option (ℕ × List UInt8) := none
  wire : List UInt8 := []

namespace Sender

def output (c : Sender) : List UInt8 := c.serializer.derived

def setOutput (output : List UInt8) (c : Sender) : Sender :=
  { c with serializer := { c.serializer with derived := output } }

end Sender

abbrev Transmit := Keep Exception Sender

/-- A function of `m_serializer`. -/
def onSerializer {α : Type} (m : Visit (List UInt8) α) : Transmit α :=
  Keep.within Sender.serializer (fun serializer c => { c with serializer := serializer }) m

def ofExcept {α : Type} : Except Exception α → Transmit α
  | .ok a => pure a
  | .error e => throws e

/-- `WriteBufferMaxSize`. -/
def writeBufferMaxSize : ℕ := 10 * 1024 * 1024

/-- The frame of a header and an instance. The format v1 uses a serializer of its own; v2 puts the
size into an area that is created before. -/
def writeFrame (now : BitVec 64) (t : Transmission) (beginIndex : ℕ) : TransmissionFormat → Transmit Unit
  | .v1 => do
    let frame ← ofExcept (serializeTransmissionV1 now t)
    change fun c => c.setOutput (c.output ++ frame)
  | .v2 => do
    change fun c => c.setOutput (c.output ++ List.replicate 5 0)
    onSerializer (visit visitor dotsHeaderProperties t.header
      (Instance.validProperties dotsHeaderProperties t.header))
    let attributes ← ofExcept (value "attributes" t.header.attributes)
    onSerializer (visit visitor t.type.properties t.payload (PropertySet.ofValue attributes))
    change fun c =>
      let transmissionSize := BitVec.ofNat 32 (c.output.length - beginIndex - 5)
      c.setOutput (c.output.take beginIndex ++
        (0x1A :: CborWriter.writeContingentBytes transmissionSize.toNat 4) ++
          c.output.drop (beginIndex + 5))

/-- `serializeTransmission` of a header and an instance, with the index at which the frame begins. -/
def serializeInstanceTransmission (format : TransmissionFormat) (now : BitVec 64) (t : Transmission) :
    Transmit ℕ := do
  let c ← get
  let beginIndex := c.output.length
  if beginIndex > writeBufferMaxSize then
    throws (.runtimeError "async write buffer exceeded maximum size")
  else do
    writeFrame now t beginIndex format
    return beginIndex

/-- `serializeTransmission` of a transmission, through the payload cache. -/
def serializeCachedTransmission (format : TransmissionFormat) (now : BitVec 64) (id : ℕ)
    (t : Transmission) : Transmit Unit := do
  let c ← get
  match c.payloadCache with
  | none => do
    let _ ← serializeInstanceTransmission format now t
  | some (cacheId, cacheBuffer) =>
    if id = cacheId then change fun c => c.setOutput (c.output ++ cacheBuffer)
    else do
      let beginIndex ← serializeInstanceTransmission format now t
      change fun c => { c with payloadCache := some (id, c.output.drop beginIndex) }

/-- `asyncWrite`. -/
def asyncWrite (c : Sender) : Sender :=
  let writeBuffer := c.output
  let c := { c.setOutput [] with writeBuffer := writeBuffer }
  if writeBuffer = [] then { c with asyncWriting := false }
  else { c with asyncWriting := true, wire := c.wire ++ writeBuffer }

/-- `transmitImpl`. -/
def transmit (serialize : Transmit Unit) : Transmit Unit := do
  serialize
  change fun c => if c.asyncWriting then c else asyncWrite c

namespace Sender

inductive Label
  /-- `transmit` of a header and an instance, or of a transmission with an id. -/
  | transmitInstance (now : BitVec 64) (t : Transmission)
  | transmit (now : BitVec 64) (id : ℕ) (t : Transmission)
  /-- Another channel of the listener puts a payload into the cache. -/
  | share (id : ℕ) (payload : List UInt8)
  /-- The write in progress completes. -/
  | written

def outcome (format : TransmissionFormat) (c : Sender) : Label → Option (Except Exception Unit × Sender)
  | .transmitInstance now t =>
    some ((transmit do let _ ← serializeInstanceTransmission format now t).exec c)
  | .transmit now id t => some ((transmit (serializeCachedTransmission format now id t)).exec c)
  | .share id payload =>
    if c.payloadCache = none then none
    else some (.ok (), { c with payloadCache := some (id, payload) })
  | .written => if c.asyncWriting then some (.ok (), asyncWrite c) else none

/-- The serializer is in its initial state; what is in its output waits for the end of a write. -/
structure AtRest (c : Sender) : Prop where
  level : c.serializer.constVisitingLevel = 0
  waits : c.asyncWriting = false → c.output = []

/-- A transmission is not serialized in the format v2, or it is serialized to its end. -/
def Encodable (format : TransmissionFormat) (c : Sender) (t : Transmission) : Prop :=
  format = .v1 ∨ c.output.length > writeBufferMaxSize ∨
    ∃ attributes, t.header.attributes = some attributes ∧
      Instance.Enumerated t.type.properties
        (Instance.restrict t.type.properties (PropertySet.ofValue attributes) t.payload)

def EncodableLabel (format : TransmissionFormat) (c : Sender) : Label → Prop
  | .transmitInstance _ t => c.Encodable format t
  | .transmit _ id t => c.payloadCache.map Prod.fst = some id ∨ c.Encodable format t
  | .share _ _ | .written => True

end Sender

/-! ## The frame of a transmission -/

theorem gives_onSerializer {α : Type} {m : Visit (List UInt8) α} {a : α} {c : Sender}
    {s : VisitorState (List UInt8)} (h : m.Gives c.serializer a s) :
    (onSerializer m).Gives c a { c with serializer := s } := h.within

theorem gives_get (c : Sender) : (get : Transmit Sender).Gives c c c := rfl

theorem gives_ofExcept {α : Type} {r : Except Exception α} {a : α} (h : r = .ok a) (c : Sender) :
    (ofExcept r).Gives c a c := by
  rw [h]
  exact gives_pure a c

theorem atRest_asyncWrite {c : Sender} (hlevel : c.serializer.constVisitingLevel = 0) :
    (asyncWrite c).AtRest := by
  rw [asyncWrite]
  split_ifs
  · exact ⟨hlevel, fun _ => rfl⟩
  · exact ⟨hlevel, fun _ => rfl⟩

/-- The size is put into the area before the bytes of the header and the instance. -/
theorem patched_frame (output size bytes : List UInt8) :
    (output ++ List.replicate 5 0 ++ bytes).take output.length ++ size ++
        (output ++ List.replicate 5 0 ++ bytes).drop (output.length + 5) =
      output ++ (size ++ bytes) := by
  have hdrop : (output ++ List.replicate 5 0 ++ bytes).drop (output.length + 5) = bytes :=
    List.drop_left' (by simp)
  rw [hdrop, List.append_assoc output, List.take_left, List.append_assoc]

/-- **The frame is appended** to what is in the output. -/
theorem gives_writeFrame {format : TransmissionFormat} {now : BitVec 64} {t : Transmission}
    {frame : List UInt8} {c : Sender} (h : serializeTransmission format now t = .ok frame) :
    (writeFrame now t c.output.length format).Gives c () (c.setOutput (c.output ++ frame)) := by
  cases format with
  | v1 =>
    have hframe : serializeTransmissionV1 now t = .ok frame := h
    exact (gives_ofExcept hframe c).bind (gives_change _ c)
  | v2 =>
    have hframe : serializeTransmissionV2 t = .ok frame := h
    obtain ⟨header, hheader, hframe⟩ := bind_eq_ok hframe
    obtain ⟨payload, hpayload, hframe⟩ := bind_eq_ok hframe
    obtain ⟨attributes, hattributes, hpayload⟩ := bind_eq_ok hpayload
    cases hframe
    refine (gives_change _ c).bind ?_
    refine (gives_onSerializer (gives_visit hheader _ (c.output ++ List.replicate 5 0))).bind ?_
    refine (gives_ofExcept hattributes _).bind ?_
    refine (gives_onSerializer (gives_visit hpayload _ _)).bind ?_
    have hlength : (c.output ++ List.replicate 5 0 ++ header ++ payload).length - c.output.length - 5 =
        (header ++ payload).length := by
      simp only [List.length_append, List.length_replicate]
      omega
    refine (gives_change _ _).trans (congrArg (Prod.mk _) ?_)
    simp only [Sender.setOutput, Sender.output] at hlength ⊢
    rw [hlength, List.append_assoc _ header, patched_frame]

theorem gives_serializeTransmission {format : TransmissionFormat} {now : BitVec 64} {t : Transmission}
    {frame : List UInt8} {c : Sender} (hsize : c.output.length ≤ writeBufferMaxSize)
    (h : serializeTransmission format now t = .ok frame) :
    (serializeInstanceTransmission format now t).Gives c c.output.length
      (c.setOutput (c.output ++ frame)) := by
  refine (gives_get c).bind ?_
  rw [if_neg (not_lt.mpr hsize)]
  exact (gives_writeFrame h).bind (gives_pure _ _)

/-! ## Exceptions -/

theorem exists_frame (now : BitVec 64) {t : Transmission} {attributes : BitVec 32}
    (hattributes : t.header.attributes = some attributes)
    (h : Instance.Enumerated t.type.properties
      (Instance.restrict t.type.properties (PropertySet.ofValue attributes) t.payload)) :
    ∃ frame, serializeTransmission .v2 now t = .ok frame := by
  obtain ⟨header, hheader⟩ := exists_serialize ((dotsHeader_enumerated t.header).restrict
    (s := Instance.validProperties dotsHeaderProperties t.header))
  obtain ⟨payload, hpayload⟩ := exists_serialize h
  have hinstance : serializeInstance t = .ok payload := by
    rw [serializeInstance, hattributes]
    exact hpayload
  have hstruct : serializeStruct dotsHeaderProperties t.header = .ok header := hheader
  exact ⟨_, by rw [serializeTransmission, serializeTransmissionV2, hstruct, hinstance]; rfl⟩

/-- A transmission that can be encoded is appended, or throws before anything is changed. -/
theorem frame_or_throws {format : TransmissionFormat} (now : BitVec 64) {t : Transmission} {c : Sender}
    (h : c.Encodable format t) :
    (∃ frame, serializeTransmission format now t = .ok frame ∧
      (serializeInstanceTransmission format now t).Gives c c.output.length
        (c.setOutput (c.output ++ frame))) ∨
      ∃ e, (serializeInstanceTransmission format now t).Throws c e c := by
  by_cases hsize : c.output.length > writeBufferMaxSize
  · right
    refine ⟨.runtimeError "async write buffer exceeded maximum size", (gives_get c).then_throws ?_⟩
    rw [if_pos hsize]
    exact throws_throws _ c
  · cases hframe : serializeTransmission format now t with
    | ok frame => exact .inl ⟨frame, rfl, gives_serializeTransmission (not_lt.mp hsize) hframe⟩
    | error e =>
      right
      cases format with
      | v1 =>
        refine ⟨e, (gives_get c).then_throws ?_⟩
        rw [if_neg hsize]
        have hthrows : (ofExcept (serializeTransmissionV1 now t)).Throws c e c := by
          have herror : serializeTransmissionV1 now t = .error e := hframe
          rw [herror]
          exact throws_throws e c
        exact hthrows.bind.bind
      | v2 =>
        obtain h | h | ⟨attributes, hattributes, henumerated⟩ := h
        · cases h
        · exact absurd h hsize
        · obtain ⟨frame, hframe'⟩ := exists_frame now hattributes henumerated
          rw [hframe] at hframe'
          cases hframe'

/-- A computation that leaves the serializer at rest, or throws and changes nothing. -/
def Traceless {α : Type} (m : Transmit α) (c : Sender) : Prop :=
  (∃ a c', m.Gives c a c' ∧ c'.serializer.constVisitingLevel = 0) ∨ ∃ e, m.Throws c e c

theorem Traceless.then {α β : Type} {m : Transmit α} {f : α → Transmit β} {c : Sender}
    (h : Traceless m c) (hf : ∀ a c', c'.serializer.constVisitingLevel = 0 →
      ∃ b c'', (f a).Gives c' b c'' ∧ c''.serializer.constVisitingLevel = 0) :
    Traceless (m >>= f) c := by
  obtain ⟨a, c', hgives, hlevel⟩ | ⟨e, hthrows⟩ := h
  · obtain ⟨b, c'', hgives', hlevel'⟩ := hf a c' hlevel
    exact .inl ⟨b, c'', hgives.bind hgives', hlevel'⟩
  · exact .inr ⟨e, hthrows.bind⟩

theorem traceless_serializeInstance {format : TransmissionFormat} (now : BitVec 64) {t : Transmission}
    {c : Sender} (hlevel : c.serializer.constVisitingLevel = 0) (h : c.Encodable format t) :
    Traceless (serializeInstanceTransmission format now t) c := by
  obtain ⟨frame, -, hgives⟩ | hthrows := frame_or_throws now h
  · exact .inl ⟨_, _, hgives, hlevel⟩
  · exact .inr hthrows

theorem traceless_get {α : Type} {f : Sender → Transmit α} {c : Sender} (h : Traceless (f c) c) :
    Traceless (get >>= f) c := by
  obtain ⟨a, c', hgives, hlevel⟩ | ⟨e, hthrows⟩ := h
  · exact .inl ⟨a, c', (gives_get c).bind hgives, hlevel⟩
  · exact .inr ⟨e, (gives_get c).then_throws hthrows⟩

theorem traceless_serializeCached {format : TransmissionFormat} (now : BitVec 64) {id : ℕ}
    {t : Transmission} {c : Sender} (hlevel : c.serializer.constVisitingLevel = 0)
    (h : c.payloadCache.map Prod.fst = some id ∨ c.Encodable format t) :
    Traceless (serializeCachedTransmission format now id t) c := by
  refine traceless_get ?_
  cases hcache : c.payloadCache with
  | none =>
    rw [hcache] at h
    have hencodable := h.resolve_left (by simp)
    exact (traceless_serializeInstance now hlevel hencodable).then fun _ c' hlevel =>
      ⟨(), c', gives_pure _ _, hlevel⟩
  | some cache =>
    obtain ⟨cacheId, cacheBuffer⟩ := cache
    dsimp only
    split_ifs with hid
    · exact .inl ⟨(), _, gives_change _ _, hlevel⟩
    · have hencodable := h.resolve_left (by
        rw [hcache]
        exact fun h => hid (Option.some.inj h).symm)
      exact (traceless_serializeInstance now hlevel hencodable).then fun _ c' hlevel =>
        ⟨(), _, gives_change _ _, hlevel⟩

/-- Behind a transmission that returns, the serializer is at rest. -/
theorem transmit_traceless {serialize : Transmit Unit} {c : Sender} (h : Traceless serialize c) :
    (∃ c', (transmit serialize).Gives c () c' ∧ c'.AtRest) ∨ ∃ e, (transmit serialize).Throws c e c := by
  obtain ⟨_, c', hgives, hlevel⟩ | ⟨e, hthrows⟩ := h
  · refine .inl ⟨_, hgives.bind (gives_change _ c'), ?_⟩
    split_ifs with hwriting
    · exact ⟨hlevel, fun h => absurd h (by simp [hwriting])⟩
    · exact atRest_asyncWrite hlevel
  · exact .inr ⟨e, hthrows.bind⟩

/-- **One step.** In a channel at rest, a transmission that can be encoded leaves the channel at rest;
if it throws, it changes nothing. -/
theorem outcome_of_encodable {format : TransmissionFormat} {c c' : Sender} {l : Sender.Label}
    {r : Except Exception Unit} (hrest : c.AtRest) (h : c.EncodableLabel format l)
    (hstep : c.outcome format l = some (r, c')) : c'.AtRest ∧ ∀ e, r = .error e → c' = c := by
  have htransmit {serialize : Transmit Unit} (h : Traceless serialize c)
      (hstep : some ((transmit serialize).exec c) = some (r, c')) :
      c'.AtRest ∧ ∀ e, r = .error e → c' = c := by
    obtain ⟨c₁, hgives, hc₁⟩ | ⟨e, hthrows⟩ := transmit_traceless h
    · have hexec : (transmit serialize).exec c = (.ok (), c₁) := hgives
      rw [hexec] at hstep
      cases hstep
      exact ⟨hc₁, fun e he => by cases he⟩
    · have hexec : (transmit serialize).exec c = (.error e, c) := hthrows
      rw [hexec] at hstep
      cases hstep
      exact ⟨hrest, fun _ _ => rfl⟩
  cases l with
  | transmitInstance now t =>
    refine htransmit (Traceless.then ?_ fun _ c' hlevel => ⟨(), c', gives_pure _ _, hlevel⟩) hstep
    exact traceless_serializeInstance now hrest.level h
  | transmit now id t => exact htransmit (traceless_serializeCached now hrest.level h) hstep
  | share id payload =>
    rw [Sender.outcome] at hstep
    split_ifs at hstep
    cases hstep
    exact ⟨⟨hrest.level, hrest.waits⟩, fun e he => by cases he⟩
  | written =>
    rw [Sender.outcome] at hstep
    split_ifs at hstep
    cases hstep
    exact ⟨atRest_asyncWrite hrest.level, fun e he => by cases he⟩

end AsyncStreamChannel

end Dots

import Dots.Cbor.Local
import Dots.Stream.Exact
import Dots.Stream.Trace
import Dots.Text.Resize

/-!
# What the channels deliver

* `WebSocketChannel.receive`, `LocalChannel.transmitImpl`, `LocalChannel.receive`: the messages of a
  WebSocket channel are read; a local channel posts the CBOR bytes of an instance to its peer.
* `Delivers`, `Refuses`: the receiver of a channel gets an instance; a channel throws at a
  transmission.
* **`receive_message`**, **`spread_of_receive`**: what a WebSocket channel delivers.
* **`fails_of_truncated`**: a frame whose size was cut ends with an error.
* **`alike_iff`**: the transmissions that every channel delivers alike.
-/

set_option autoImplicit false

namespace Dots

open Parse Keep Lts
open AsyncStreamChannel (Header StructType Types TransmissionFormat
  dotsHeaderProperties value)

namespace TextReader

open TextWriter (State)

/-- `readArrayEnd`; `nesting` is the stack without the array. -/
def readArrayEnd (s : TextSerializer) (nesting : List State) : ReadText Unit := do
  consumeTokenAfterWhitespace s.format.arrayEnd
  finalizeRead s nesting

end TextReader

/-! ## The channels -/

namespace WebSocketChannel

open TextReader TextSerializer

variable (s : TextSerializer) (resize : Resize) (types : Types)

def ofExcept {α : Type} : Except Exception α → ReadText α
  | .ok a => return a
  | .error e => Parse.fail fun _ => .thrown e

/-- The instance of the type that the header names, and the end of the message. -/
def receiveInstance (header : Header) : ReadText AsyncStreamChannel.Transmission := do
  let typeName ← ofExcept (value "typeName" header.typeName)
  match types [] typeName.1 with
  | none => Parse.fail fun _ => .thrown (.logicError "no type registered with name")
  | some type => do
    let x ← deserializeAt s resize [.array] type.properties (Instance.fresh _) Finset.univ
    readArrayEnd s []
    return ⟨header, type, x⟩

def readMessage : ReadText AsyncStreamChannel.Transmission := do
  readArrayBegin s
  let header ← deserializeAt s staticResize [.array] dotsHeaderProperties (Instance.fresh _)
    Finset.univ
  receiveInstance s resize types header

/-- The handler of `asyncReceiveImpl`, up to `processReceive`. -/
def receive (data : List UInt8) : Except TextFailure AsyncStreamChannel.Transmission := do
  let (t, _) ← (readMessage s resize types).run ⟨0, data⟩
  return t

/-- The receiver of the message of a transmission gets the instance `x`. -/
def Delivers (s' : TextSerializer) (t : AsyncStreamChannel.Transmission)
    (x : Instance t.type.properties) : Prop :=
  ∃ c message header, (transmitImpl s' t).Gives {} () c ∧ c.wire = [message] ∧
    receive s resize types message = .ok ⟨header, t.type, x⟩

def Refuses (s' : TextSerializer) (t : AsyncStreamChannel.Transmission) : Prop :=
  ∃ e c, (transmitImpl s' t).Throws {} e c

end WebSocketChannel

namespace LocalChannel

open AsyncStreamChannel (serializeInstance)

variable (casts : FloatCasts) (types : Types)

/-- `transmitImpl`: the header and the bytes that are posted to the peer. -/
def transmitImpl (t : AsyncStreamChannel.Transmission) :
    Except Exception (Header × List UInt8) := do
  let data ← serializeInstance t
  return (t.header, data)

/-- The handler that was posted, up to `processReceive`. -/
def receive : Header × List UInt8 → Except Failure AsyncStreamChannel.Transmission
  | (header, data) => do
    let typeName ← (value "typeName" header.typeName).mapError .thrown
    match types [] typeName.1 with
    | none => .error (.thrown (.runtimeError "encountered unknown type"))
    | some type => do
      let (x, _) ←
        CborSerializer.deserialize casts type.properties (Instance.fresh _) Finset.univ data
      return ⟨header, type, x⟩

def Delivers (t : AsyncStreamChannel.Transmission) (x : Instance t.type.properties) : Prop :=
  ∃ posted header, transmitImpl t = .ok posted ∧
    receive casts types posted = .ok ⟨header, t.type, x⟩

def Refuses (t : AsyncStreamChannel.Transmission) : Prop := ∃ e, transmitImpl t = .error e

end LocalChannel

namespace AsyncStreamChannel

variable (casts : FloatCasts) (types : Types) (format : TransmissionFormat) (now : BitVec 64)

/-- Whatever the pieces in which the frame of a transmission arrives, there is no error, the loop
comes to rest and can take the next piece, and when all of the frame has arrived, the receiver has
got the instance `x`. -/
def Delivers (t : Transmission) (x : Instance t.type.properties) : Prop :=
  ∃ frame header steps, serializeTransmission format now t = .ok frame ∧
    ∀ ls c, Run (ofPartial (step casts types format)) initial ls c → arrived ls <+: frame →
      c.error = none ∧ ls.length ≤ steps ∧
        (step casts types format c (.call true) = none →
          step casts types format c .dispatch = none →
          (∀ b, (step casts types format c (.read [b])).isSome) ∧
            (arrived ls = frame → c.received = [⟨header, t.type, x⟩]))

def Refuses (t : Transmission) : Prop := ∃ e, serializeTransmission format now t = .error e

end AsyncStreamChannel

/-! ## Messages -/

namespace WebSocketChannel

open TextReader TextSerializer TextWriter Json

variable {options options' : TextOptions} {converters : Converters} {types : Types}
  {t : AsyncStreamChannel.Transmission} {text : List UInt8} {dynamic : PropertyDescriptors → Bool}

/-- What a WebSocket channel reads and writes: the names of properties are distinct identifiers, and
the conversions invert the texts of the floating-point values and times. -/
structure Legible (converters : Converters) (t : AsyncStreamChannel.Transmission) : Prop where
  wellFormed : t.type.properties.WellFormed
  named : t.type.properties.Named
  uuids : converters.InvertsUuids
  header : Instance.Inverted converters dotsHeaderProperties t.header
  payload : Instance.Inverted converters t.type.properties t.payload

theorem dotsHeaderProperties_named : dotsHeaderProperties.Named := by decide +kernel

theorem reads_bracket {w : List UInt8} (hw : Blank w) (b : UInt8) (hb : isWhitespace b = false) :
    Reads (consumeTokenAfterWhitespace [b]) (w ++ [b]) () :=
  reads_consumeTokenAfterWhitespace hw hb []

/-- **A message is read** as it was written, if the vectors can be grown. -/
theorem receive_message (options : TextOptions) {resize : Resize} (hlegible : Legible converters t)
    (hknown : AsyncStreamChannel.Known types [] t)
    (hgrown : Instance.Grown resize t.type.properties t.payload)
    (h : message options' converters t = .ok text) :
    receive (JsonSerializer options converters) resize types text = .ok t := by
  obtain ⟨header, hheader, h⟩ := bind_eq_ok h
  obtain ⟨payload, hpayload, h⟩ := bind_eq_ok h
  cases h
  obtain ⟨typeName, hname, htype⟩ := hknown
  have hbegin : Reads (readArrayBegin (JsonSerializer options converters)) ([] ++ ascii "[") () :=
    reads_bracket blank_nil 0x5B rfl
  have hfirst : ReadsBefore (fun _ => True) (deserializeAt (JsonSerializer options converters)
      staticResize [.array] dotsHeaderProperties (Instance.fresh _) Finset.univ)
      (newLine options' 1 ++ (header ++ ascii ",")) t.header := by
    have hcloses : Closes options converters [.array] (ascii ",") fun _ => True :=
      closes_separator .array
    have hread := readsBefore_deserializeAt hlegible.uuids
      AsyncStreamChannel.dotsHeaderProperties_wellFormed dotsHeaderProperties_named hlegible.header
      (instance_grown_static _ _) hheader hcloses.reads (blank_newLine options' 1)
    rwa [Instance.restrict_validProperties] at hread
  have hsecond : ReadsBefore (fun rest => ∃ t, rest = 0x5D :: t)
      (deserializeAt (JsonSerializer options converters) resize [.array] t.type.properties
        (Instance.fresh _) Finset.univ)
      (newLine options' 1 ++ (payload ++ newLine options' 0)) t.payload := by
    have hbracket : (0x5D : UInt8) ∈ ascii "]\x7d" := by decide
    have hcloses : Closes options converters [.array] (newLine options' 0)
        fun rest => ∃ t, rest = 0x5D :: t :=
      closes_blank .array (blank_newLine options' 0) hbracket
    have hread := readsBefore_deserializeAt hlegible.uuids hlegible.wellFormed hlegible.named
      hlegible.payload (by rwa [Instance.restrict_validProperties]) hpayload hcloses.reads
      (blank_newLine options' 1)
    rwa [Instance.restrict_validProperties] at hread
  have hend : ReadsBefore (fun _ => True)
      (do
        readArrayEnd (JsonSerializer options converters) []
        return t : ReadText AsyncStreamChannel.Transmission) ([] ++ ascii "]") t := by
    have hclose : Reads (readArrayEnd (JsonSerializer options converters) [])
        ([] ++ ascii "]") () :=
      (reads_bracket blank_nil 0x5D rfl).bind_pure (g := fun _ => ())
    exact hclose.before.bind_pure
  have hinstance : ReadsBefore (fun _ => True)
      (receiveInstance (JsonSerializer options converters) resize types t.header)
      ((newLine options' 1 ++ (payload ++ newLine options' 0)) ++ ([] ++ ascii "]")) t := by
    have htypeName : value "typeName" t.header.typeName = .ok typeName := by rw [hname]; rfl
    rw [receiveInstance, htypeName]
    refine ReadsBefore.bind_nil (P := fun _ => True) (.pure typeName) (fun _ _ => trivial) ?_
    rw [htype]
    exact hsecond.bind (fun rest _ => ⟨rest, rfl⟩) hend
  have hmessage : ReadsBefore (fun _ => True)
      (readMessage (JsonSerializer options converters) resize types)
      (([] ++ ascii "[") ++ ((newLine options' 1 ++ (header ++ ascii ",")) ++
        ((newLine options' 1 ++ (payload ++ newLine options' 0)) ++ ([] ++ ascii "]")))) t :=
    ReadsBefore.bind (P := fun _ => True) hbegin.before (fun _ _ => trivial)
      (hfirst.bind (fun _ _ => trivial) hinstance)
  have hword : enclosed options' 0 (ascii "[") (ascii "]") [header, payload] =
      (([] ++ ascii "[") ++ ((newLine options' 1 ++ (header ++ ascii ",")) ++
        ((newLine options' 1 ++ (payload ++ newLine options' 0)) ++ ([] ++ ascii "]")))) ++ [] := by
    simp [enclosed, separated]
  rw [hword, receive, hmessage 0 [] trivial]
  rfl

/-- Transmissions whose instances are a value as static vectors and as dynamic vectors hold it. -/
inductive Spread (dynamic : PropertyDescriptors → Bool) :
    AsyncStreamChannel.Transmission → AsyncStreamChannel.Transmission → Prop
  | mk (header : Header) (type : StructType) {x x' : Instance type.properties}
      (h : Instance.Spread dynamic type.properties x x') :
      Spread dynamic ⟨header, type, x⟩ ⟨header, type, x'⟩

/-- **Static and dynamic instances** are read from the same message. -/
theorem together_readMessage (s : TextSerializer) :
    Alike (Spread dynamic) (readMessage s staticResize types)
      (readMessage s (mixedResize dynamic) types) := by
  refine .bind_left _ fun _ => .bind_left _ fun header => .bind_left _ fun typeName => ?_
  cases htype : types [] typeName.1 with
  | none => exact .fail _
  | some type =>
    refine (together_deserializeAt s [.array] type.properties Finset.univ).bind fun x x' hx => ?_
    exact .bind_left _ fun _ => .pure (.mk header type hx)

/-- **What is received** of a message is the instance that was sent, as dynamic vectors hold it. -/
theorem spread_of_receive (hlegible : Legible converters t)
    (hknown : AsyncStreamChannel.Known types [] t) (h : message options' converters t = .ok text)
    {header : Header} {x : Instance t.type.properties}
    (hreceive : receive (JsonSerializer options converters) (mixedResize dynamic) types text =
      .ok ⟨header, t.type, x⟩) :
    Instance.Spread dynamic t.type.properties t.payload x := by
  have hstatic := receive_message options hlegible hknown
    (instance_grown_static t.type.properties t.payload) h
  obtain ⟨⟨t', c⟩, hrun, h⟩ := bind_eq_ok hstatic
  obtain ⟨⟨t'', c'⟩, hrun', h'⟩ := bind_eq_ok hreceive
  cases h
  cases h'
  have htogether : Alike (Spread dynamic)
      (readMessage (JsonSerializer options converters) staticResize types)
      (readMessage (JsonSerializer options converters) (mixedResize dynamic) types) :=
    together_readMessage _
  have htogether := htogether ⟨0, text⟩
  rw [hrun, hrun'] at htogether
  obtain ⟨hspread, -⟩ := htogether
  obtain ⟨header', type, payload⟩ := t
  cases hspread with
  | mk _ _ hx => exact hx

theorem exists_headerText (options' : TextOptions) (converters : Converters)
    (t : AsyncStreamChannel.Transmission) :
    ∃ header, structText options' converters 1
      (Instance.validProperties dotsHeaderProperties t.header) dotsHeaderProperties t.header =
        .ok header :=
  exists_structText (AsyncStreamChannel.dotsHeader_enumerated t.header).restrict 1

theorem throws_onSerializer {α : Type} {m : TypeVisitor.Visit TextWriter α} {e : Exception}
    {c : Sender} {v : VisitorState TextWriter} (h : m.Throws c.serializer e v) :
    (onSerializer m).Throws c e { c with serializer := v } := h.within

/-- **A channel throws** if an enum value of a valid property has no enumerator. -/
theorem refuses_iff : Refuses (JsonSerializer options' converters) t ↔
    ¬Instance.Enumerated t.type.properties t.payload := by
  constructor
  · rintro ⟨e, c, hthrows⟩ henumerated
    obtain ⟨text, htext⟩ : ∃ text, message options' converters t = .ok text :=
      exists_message henumerated
    exact (gives_transmitImpl ⟨rfl, rfl, rfl⟩ htext).not_throws hthrows
  · intro h
    obtain ⟨header, hheader⟩ := exists_headerText options' converters t
    let w : TextWriter := writeArrayBegin (JsonSerializer options' converters) ⟨[], []⟩
    have hbegin : (TypeVisitor.derived
        (Keep.change (writeArrayBegin (JsonSerializer options' converters)))).Gives ⟨0, ⟨[], []⟩⟩ ()
          ⟨0, w⟩ := TypeVisitor.gives_derived (gives_change _ _)
    have hheader' := gives_visit (w := w) hheader 0
    obtain ⟨hpayload, -⟩ | ⟨-, e, v, hthrows⟩ :=
      TypeVisitor.succeeds_visit (l := 0) (JsonSerializer options' converters).throwsAtEnums
        t.type.properties t.payload (t.payload.validProperties t.type.properties)
        (s := ⟨0, w.writeString (JsonSerializer options' converters) header⟩) rfl
    · rw [Instance.restrict_validProperties] at hpayload
      exact absurd hpayload h
    · exact ⟨e, _, (gives_onSerializer hbegin).then_throws
        ((gives_onSerializer hheader').then_throws (throws_onSerializer hthrows).bind)⟩

/-- **What a WebSocket channel delivers** is the part of an instance in a property set exactly if
this is the whole instance, and no vector of dynamic structs has two elements. -/
theorem delivers_restrict_iff (hlegible : Legible converters t)
    (hknown : AsyncStreamChannel.Known types [] t) (s : PropertySet) :
    Delivers (JsonSerializer options converters) (mixedResize dynamic) types
        (JsonSerializer options' converters) t (t.payload.restrict t.type.properties s) ↔
      Instance.Enumerated t.type.properties t.payload ∧
        t.payload.validProperties t.type.properties ⊆ s ∧
        Instance.Flat dynamic t.type.properties t.payload := by
  constructor
  · rintro ⟨c, text, header, hgives, hwire, hreceive⟩
    have henumerated : Instance.Enumerated t.type.properties t.payload := by
      by_contra h
      obtain ⟨e, c', hthrows⟩ := refuses_iff.mpr h
      exact hgives.not_throws hthrows
    obtain ⟨text', htext⟩ : ∃ text, message options' converters t = .ok text :=
      exists_message henumerated
    have hgives' := gives_transmitImpl (c := {}) ⟨rfl, rfl, rfl⟩ htext
    have hsame := (Prod.mk.inj (hgives.symm.trans hgives')).2
    have htexts : text' = text := by
      rw [hsame] at hwire
      exact List.singleton_inj.mp hwire
    rw [htexts] at htext
    have hspread := spread_of_receive hlegible hknown htext hreceive
    have hvalid := hspread.validProperties
    rw [Instance.validProperties_restrict] at hvalid
    have hsubset : t.payload.validProperties t.type.properties ⊆ s :=
      hvalid.subset.trans Finset.inter_subset_left
    rw [Instance.restrict_eq_self_iff.mpr hsubset] at hspread
    exact ⟨henumerated, hsubset, hspread.flat⟩
  · rintro ⟨henumerated, hsubset, hflat⟩
    obtain ⟨text, htext⟩ : ∃ text, message options' converters t = .ok text :=
      exists_message henumerated
    rw [Instance.restrict_eq_self_iff.mpr hsubset]
    exact ⟨_, text, t.header, gives_transmitImpl ⟨rfl, rfl, rfl⟩ htext, rfl,
      receive_message options hlegible hknown hflat.grown htext⟩

end WebSocketChannel

/-! ## Bytes -/

namespace CborSerializer

variable {casts : FloatCasts} {ps : PropertyDescriptors} {x : Instance ps} {s : PropertySet}
  {bytes : List UInt8}

theorem serialize_eq_ok_iff : (∃ bytes, serialize ps x s = .ok bytes) ↔
    Instance.Enumerated ps (Instance.restrict ps s x) := by
  refine ⟨?_, exists_serialize⟩
  rintro ⟨bytes, hbytes⟩
  obtain ⟨h, -⟩ | ⟨-, e, v, hthrows⟩ :=
    TypeVisitor.succeeds_visit (l := 0) throwsAtEnums ps x s (s := ⟨0, []⟩) rfl
  · exact h
  · exact absurd hthrows (gives_visit hbytes 0 []).not_throws

variable (casts) in
/-- **A part of the bytes** of an instance is not read as an instance. -/
theorem deserialize_strict_prefix (hwf : ps.WellFormed) (h : serialize ps x s = .ok bytes)
    {part rest : List UInt8} (hpart : bytes = part ++ rest) (hrest : rest ≠ []) :
    ∃ e, deserialize casts ps (Instance.fresh ps) Finset.univ part = .error e := by
  by_cases hnil : part = []
  · exact ⟨_, if_pos hnil⟩
  have hread : Reads (readStruct casts 1 Finset.univ ps (Instance.fresh ps)) bytes _ :=
    reads_readStruct (Deletions.refl ps) hwf (Deletions.short_refl ps s x) h
  have hlocal := local_readStruct casts 1 Finset.univ ps (Instance.fresh ps) ⟨0, part⟩ rest
  rw [deserialize, if_neg hnil]
  cases hrun : (readStruct casts 1 Finset.univ ps (Instance.fresh ps)).run ⟨0, part⟩ with
  | error e => exact ⟨e, rfl⟩
  | ok r =>
    -- all of the bytes would be read before the rest
    rw [hrun] at hlocal
    have hall := hread 0 []
    rw [List.append_nil, hpart] at hall
    have hcursor := (Prod.mk.inj (Except.ok.inj (hlocal.symm.trans hall))).2
    have hnone := (Cursor.mk.inj hcursor).2
    exact absurd (List.append_eq_nil_iff.mp hnone).2 hrest

end CborSerializer

section Bytes

variable {casts : FloatCasts} {types : Types} {t : AsyncStreamChannel.Transmission}
  {attributes : BitVec 32}

open AsyncStreamChannel (serializeInstance serializeInstance_eq_ok Known)

theorem serializeInstance_eq_ok_iff (hattributes : t.header.attributes = some attributes) :
    (∃ payload, serializeInstance t = .ok payload) ↔ Instance.Enumerated t.type.properties
      (t.payload.restrict t.type.properties t.attributes) := by
  have hvalue : t.attributes = PropertySet.ofValue attributes := by
    rw [AsyncStreamChannel.Transmission.attributes, hattributes]
    rfl
  have hinstance : serializeInstance t =
      CborSerializer.serialize t.type.properties t.payload t.attributes := by
    rw [serializeInstance, hattributes, hvalue]
    rfl
  rw [hinstance]
  exact CborSerializer.serialize_eq_ok_iff

namespace LocalChannel

theorem refuses_iff (hattributes : t.header.attributes = some attributes) :
    Refuses t ↔ ¬Instance.Enumerated t.type.properties
      (t.payload.restrict t.type.properties t.attributes) := by
  rw [← serializeInstance_eq_ok_iff hattributes, Refuses, transmitImpl]
  cases serializeInstance t with
  | error e => exact iff_of_true ⟨e, rfl⟩ fun ⟨_, h⟩ => nomatch h
  | ok payload => exact iff_of_false (fun ⟨_, h⟩ => nomatch h) fun h => h ⟨payload, rfl⟩

/-- **A local channel delivers** what it does not throw at. -/
theorem delivers_restrict (hwf : t.type.properties.WellFormed) (hknown : Known types [] t)
    {payload : List UInt8} (h : serializeInstance t = .ok payload) :
    Delivers casts types t (t.payload.restrict t.type.properties t.attributes) := by
  obtain ⟨typeName, hname, htype⟩ := hknown
  refine ⟨(t.header, payload), t.header, by rw [transmitImpl, h]; rfl, ?_⟩
  have hread := CborSerializer.deserialize_of_serialize casts hwf (serializeInstance_eq_ok h) []
  rw [List.append_nil] at hread
  simp only [receive, value, Except.mapError, bind, Except.bind, hname, htype]
  rw [hread]
  rfl

end LocalChannel

end Bytes

/-! ## Frames whose size was cut -/

namespace AsyncStreamChannel

open CborSerializer Channel

variable {casts : FloatCasts} {types : Types} {format : TransmissionFormat} {now : BitVec 64}
  {t : Transmission} {c : Channel} {handler next : Handler} {n : ℕ} {part rest : List UInt8}

/-- A channel has consumed what has arrived, and goes on to wait for `n` bytes with a handler. -/
structure Ready (c : Channel) (handler : Handler) (n : ℕ) : Prop where
  bounded : c.Bounded
  input : c.input = []
  flag : c.readDispatching = false
  calls : c.calls = if n = 0 then [.handle handler] else [.asyncRead n handler]

/-- A handler is called with the bytes it waited for. -/
structure Called (c : Channel) (handler : Handler) (part : List UInt8) : Prop where
  bounded : c.Bounded
  input : c.input = part
  flag : c.readDispatching = false
  calls : c.calls = [.handle handler]

theorem ready_initial (casts : FloatCasts) (types : Types) (format : TransmissionFormat) : ∃ c,
    Run (ofPartial (step casts types format)) initial [.call true] c ∧
      Ready c (firstHandler format) (transmissionSizeSize format) ∧ c.received = [] ∧
      c.transportHeader = Instance.fresh _ := by
  refine ⟨_, .cons rfl (.nil _), ⟨⟨le_rfl, le_rfl⟩, rfl, rfl, ?_⟩, rfl, rfl⟩
  cases format <;> rfl

variable (casts types format) in
/-- The bytes arrive in one read. -/
theorem Ready.read (h : Ready c handler part.length) : ∃ ls c',
    Run (ofPartial (step casts types format)) c ls c' ∧ arrived ls = part ∧ Called c' handler part ∧
      c'.received = c.received ∧ c'.transportHeader = c.transportHeader := by
  obtain ⟨hbounded, hinput, hflag, hcalls⟩ := h
  have havailable : c.inputAvailable = 0 := by rw [← length_input hbounded, hinput, List.length_nil]
  cases part with
  | nil => exact ⟨[], c, .nil c, rfl, ⟨hbounded, hinput, hflag, hcalls⟩, rfl, rfl⟩
  | cons b w =>
    have hpos : 0 < (b :: w).length := Nat.zero_lt_succ _
    have hshort : c.inputAvailable < (b :: w).length := by omega
    obtain ⟨c₁, hc₁⟩ : ∃ c₁, c₁ = startRead (b :: w).length handler { c with calls := [] } :=
      ⟨_, rfl⟩
    obtain ⟨hcalls₁, hpending, hend, hsame⟩ : c₁.calls = [] ∧
        c₁.pending = some (.read (b :: w).length handler) ∧ c₁.inputDataEnd = c.inputAvailable ∧
        c₁.readDispatching = c.readDispatching ∧ c₁.received = c.received ∧
          c₁.transportHeader = c.transportHeader := by
      rw [hc₁]
      exact ⟨rfl, rfl, rfl, rfl, rfl, rfl⟩
    have hspec : c₁.Bounded ∧ c₁.input = c.input ∧ c₁.inputDataEnd < c₁.readBuffer.length :=
      hc₁ ▸ startRead_spec (c := { c with calls := [] }) handler hbounded hshort
    have hroom : (b :: w).length ≤ c₁.readBuffer.length - c₁.inputDataEnd := by
      have hlength : c₁.readBuffer.length = max readBufferMinSize (b :: w).length := by
        rw [hc₁]
        exact length_resize _ _
      rw [hlength, hend, havailable]
      exact le_max_right _ _
    obtain ⟨hbounded', hinput', havailable'⟩ :=
      completeRead_spec (c := { c₁ with pending := none }) hspec.1 hroom
    have hstart : step casts types format c (.call true) = some c₁ := by
      rw [if_neg hpos.ne'] at hcalls
      simp only [step, hcalls, stepCall]
      rw [if_neg (not_le.mpr hshort), hc₁]
    have hread : step casts types format c₁ (.read (b :: w)) = some
        { completeRead (b :: w) { c₁ with pending := none } with calls := [.handle handler] } := by
      have hlong : ¬(completeRead (b :: w) { c₁ with pending := none }).inputAvailable <
          (b :: w).length := by
        rw [havailable']
        exact not_lt.mpr (Nat.le_add_left _ _)
      simp only [step, hcalls₁, hpending]
      rw [if_pos ⟨hpos, hroom⟩]
      exact if_neg hlong
    refine ⟨[.call true, .read (b :: w)], _, .cons hstart (.cons hread (.nil _)),
      List.append_nil _, ⟨hbounded', ?_, hsame.1.trans hflag, rfl⟩, hsame.2.1, hsame.2.2⟩
    have hinput₁ : ({ c₁ with pending := none } : Channel).input = [] := hspec.2.1.trans hinput
    rw [hinput₁] at hinput'
    exact hinput'

/-- A handler that finds a size consumes the bytes. -/
theorem Called.found (h : Called c handler part) {header : TransportHeader}
    (hhandle : handle casts types format c handler = .ok (.size n next,
      { c with inputData := c.inputData + part.length, transportHeader := header })) : ∃ c',
    Run (ofPartial (step casts types format)) c [.call true] c' ∧ Ready c' next n ∧
      c'.received = c.received ∧ c'.transportHeader = header := by
  obtain ⟨hbounded, hinput, hflag, hcalls⟩ := h
  have havailable : part.length = c.inputAvailable := by rw [← length_input hbounded, hinput]
  have hconsumed : c.inputDataEnd - (c.inputData + part.length) = 0 := by
    rw [inputAvailable] at havailable
    omega
  have hbounded' := hbounded.consumed havailable.le
  have hinput' : ({ c with inputData := c.inputData + part.length } : Channel).input = [] := by
    rw [input_consumed, hinput, List.drop_length]
  have hstep : step casts types format c (.call true) = some
      { c with
        inputData := c.inputData + part.length
        transportHeader := header
        calls := if n = 0 then [.handle next] else [.asyncRead n next] } := by
    simp only [step, hcalls, stepCall, hhandle]
    by_cases hn : n = 0
    · rw [if_pos (by rw [hn]; exact Nat.zero_le _), if_pos hn]
    · have hlacking : ¬n ≤ c.inputDataEnd - (c.inputData + part.length) := by omega
      rw [if_neg hn]
      exact congrArg some (if_neg hlacking)
  exact ⟨_, .cons hstep (.nil _), ⟨hbounded', hinput', hflag, rfl⟩, rfl, rfl⟩

/-- A handler that throws ends with an error. -/
theorem Called.fails (h : Called c handler part)
    (hhandle : ∃ e, handle casts types format c handler = .error e) : ∃ c',
    Run (ofPartial (step casts types format)) c [.call true] c' ∧ c'.error ≠ none := by
  obtain ⟨e, he⟩ := hhandle
  have hstep : step casts types format c (.call true) =
      some { c with error := some e, calls := [] } := by
    simp only [step, h.calls, stepCall, he]
  exact ⟨_, .cons hstep (.nil _), Option.some_ne_none e⟩

theorem arrived_append (ls ls' : List Label) : arrived (ls ++ ls') = arrived ls ++ arrived ls' := by
  induction ls with
  | nil => rfl
  | cons l ls ih =>
    cases l with
    | call _ => exact ih
    | dispatch => exact ih
    | read bytes =>
      rw [List.cons_append, arrived, arrived, ih, List.append_assoc]

/-- **A part with a size** leads to the next part. -/
theorem Ready.size (h : Ready c handler part.length) {header : TransportHeader}
    (hfinds : Finds casts types format c.received c.transportHeader handler part (.size n next)
      header) :
    ∃ ls c', Run (ofPartial (step casts types format)) c ls c' ∧ arrived ls = part ∧
      Ready c' next n ∧ c'.received = c.received ∧ c'.transportHeader = header := by
  obtain ⟨ls, c₁, hread, harrived, hcalled, hreceived, hheader⟩ := h.read casts types format
  obtain ⟨c₂, hfound, hready, hreceived', hheader'⟩ :=
    hcalled.found (hfinds c₁ hreceived hheader (hcalled.input ▸ List.prefix_refl part))
  refine ⟨_, c₂, hread.append hfound, ?_, hready, hreceived'.trans hreceived, hheader'⟩
  rw [arrived_append, harrived]
  exact List.append_nil part

variable (casts types format) in
/-- **A part that is not understood** ends with an error. -/
theorem Ready.fails (h : Ready c handler part.length)
    (hhandle : ∀ c', c'.input = part → c'.received = c.received →
      c'.transportHeader = c.transportHeader →
      ∃ e, handle casts types format c' handler = .error e) :
    ∃ ls c', Run (ofPartial (step casts types format)) c ls c' ∧ arrived ls = part ∧
      c'.error ≠ none := by
  obtain ⟨ls, c₁, hread, harrived, hcalled, hreceived, hheader⟩ := h.read casts types format
  obtain ⟨c₂, hfails, herror⟩ := hcalled.fails (hhandle c₁ hcalled.input hreceived hheader)
  refine ⟨_, c₂, hread.append hfails, ?_, herror⟩
  rw [arrived_append, harrived]
  exact List.append_nil part

/-- A part of the bytes of an instance is not received as an instance. -/
theorem deserializeInstance_strict_prefix (casts : FloatCasts) (header : Header)
    {payload : List UInt8}
    {typeName : {bytes : List UInt8 // bytes.length < sizeLimit}}
    (hwf : t.type.properties.WellFormed) (h : serializeInstance t = .ok payload)
    (hname : header.typeName = some typeName) (htype : types c.received typeName.1 = some t.type)
    (hinput : payload = c.input ++ rest) (hrest : rest ≠ []) :
    ∃ e, deserializeInstance casts types (some header) c = .error e := by
  obtain ⟨e, he⟩ := deserialize_strict_prefix casts hwf (serializeInstance_eq_ok h) hinput hrest
  refine ⟨e, ?_⟩
  simp only [deserializeInstance, value, Except.mapError, bind, Except.bind, hname, htype]
  rw [Channel.deserialize, he]
  rfl

/-- A part of the header and the instance of the format v2. -/
theorem handle_strict_prefix {header payload : List UInt8}
    {typeName : {bytes : List UInt8 // bytes.length < sizeLimit}}
    (hwf : t.type.properties.WellFormed)
    (hheader : serializeStruct dotsHeaderProperties t.header = .ok header)
    (h : serializeInstance t = .ok payload) (hname : t.header.typeName = some typeName)
    (htype : types c.received typeName.1 = some t.type)
    (hinput : header ++ payload = c.input ++ rest) (hrest : rest ≠ []) :
    ∃ e, handle casts types .v2 c .processTransmission = .error e := by
  by_cases hwhole : header <+: c.input
  · obtain ⟨part, hpart⟩ := hwhole
    rw [← hpart, List.append_assoc] at hinput
    have hread := deserialize_of_serialize casts dotsHeaderProperties_wellFormed hheader
    rw [Instance.restrict_validProperties] at hread
    obtain ⟨e, he⟩ := deserializeInstance_strict_prefix casts t.header
      (c := { c with inputData := c.inputData + header.length }) hwf h hname htype
      (by rw [input_consumed, ← hpart, List.drop_left]; exact List.append_cancel_left hinput) hrest
    refine ⟨e, ?_⟩
    rw [handle, deserializeTransmission, Channel.deserialize_part hread ⟨part, hpart⟩]
    simp only [bind, Except.bind] at he ⊢
    rw [he]
  · obtain ⟨part, hpart, -⟩ | ⟨part, hpart, -⟩ := List.append_eq_append_iff.mp hinput
    · exact absurd ⟨part, hpart.symm⟩ hwhole
    · have hne : part ≠ [] := by
        rintro rfl
        exact hwhole (by rw [hpart, List.append_nil])
      obtain ⟨e, he⟩ :=
        deserialize_strict_prefix casts dotsHeaderProperties_wellFormed hheader hpart hne
      refine ⟨e, ?_⟩
      rw [handle, deserializeTransmission, Channel.deserialize, he]
      rfl

/-- A size that does not fit announces a part of what follows. -/
theorem take_cut {w : ℕ} {bytes : List UInt8} (h : ¬bytes.length < 2 ^ w) :
    (bytes.take (BitVec.ofNat w bytes.length).toNat).length = (BitVec.ofNat w bytes.length).toNat ∧
      bytes.drop (BitVec.ofNat w bytes.length).toNat ≠ [] := by
  have hlt : (BitVec.ofNat w bytes.length).toNat < bytes.length :=
    (BitVec.isLt _).trans_le (not_lt.mp h)
  refine ⟨List.length_take_of_le hlt.le, ?_⟩
  rw [ne_eq, List.drop_eq_nil_iff]
  exact not_le.mpr hlt

/-- The frame of the format v1 with a size that was cut. -/
theorem fails_of_cut_v1 {frame : List UInt8} (hwf : t.type.properties.WellFormed)
    (hknown : Known types [] t) (h : serializeTransmission .v1 now t = .ok frame)
    (hcut : ¬(t.HeaderFits .v1 now ∧ t.PayloadFits .v1)) : ∃ ls c,
    Run (ofPartial (step casts types .v1)) initial ls c ∧ arrived ls <+: frame ∧
      c.error ≠ none := by
  obtain ⟨payload, hp, h⟩ := bind_eq_ok h
  obtain ⟨header, hh, h⟩ := bind_eq_ok h
  cases h
  obtain ⟨typeName, hname, htype⟩ := hknown
  obtain ⟨c₀, hinitial, hready₀, hreceived₀, hheader₀⟩ :=
    ready_initial casts types .v1
  have hsize : Finds casts types .v1 c₀.received c₀.transportHeader .processHeaderSize
      [UInt8.ofNat (BitVec.ofNat 16 header.length).toNat,
        UInt8.ofNat ((BitVec.ofNat 16 header.length).toNat >>> 8)]
      (.size (BitVec.ofNat 16 header.length).toNat .processHeader) c₀.transportHeader := by
    have hfinds : Finds casts types .v1 c₀.received c₀.transportHeader .processHeaderSize _
        (.size (BitVec.ofNat 16 header.length).toNat .processHeader) c₀.transportHeader :=
      finds_processHeaderSize (BitVec.ofNat 16 header.length).isLt
    rwa [BitVec.ofNat_toNat, BitVec.setWidth_eq] at hfinds
  obtain ⟨ls₁, c₁, hrun₁, harrived₁, hready₁, hreceived₁, hheader₁⟩ := hready₀.size hsize
  by_cases hheader : header.length < 2 ^ 16
  · -- the header is whole, so the size of the instance is cut
    have hpayload : ¬payload.length < 2 ^ 32 := by
      intro hlt
      refine hcut ⟨fun header' payload' hp' hh' => ?_, fun payload' hp' => ?_⟩
      · cases hp.symm.trans hp'
        cases hh.symm.trans hh'
        exact hheader
      · cases hp.symm.trans hp'
        exact hlt
    obtain ⟨hlength, hrest⟩ := take_cut hpayload
    rw [(toNat_ofNat_eq_iff 16 header.length).mpr hheader] at hready₁
    have hfinds : Finds casts types .v1 c₁.received c₁.transportHeader .processHeader header
        (.size (BitVec.ofNat 32 payload.length).toNat .processTransmission)
        (transportHeader now t payload.length) := finds_processHeader hh rfl
    obtain ⟨ls₂, c₂, hrun₂, harrived₂, hready₂, hreceived₂, hheader₂⟩ := hready₁.size hfinds
    rw [← hlength] at hready₂
    obtain ⟨ls₃, c₃, hrun₃, harrived₃, herror⟩ := hready₂.fails casts types .v1
      fun c' hinput hreceived hheader' => by
        have hdots : c'.transportHeader.dotsHeader = some (adjustHeader now t.header) := by
          rw [hheader', hheader₂]
          rfl
        have htype' : types c'.received typeName.1 = some t.type := by
          rw [hreceived, hreceived₂, hreceived₁, hreceived₀]
          exact htype
        obtain ⟨e, he⟩ := deserializeInstance_strict_prefix casts (adjustHeader now t.header) hwf hp
          hname htype'
          ((List.take_append_drop _ payload).symm.trans (by rw [hinput])) hrest
        refine ⟨e, ?_⟩
        rw [handle, deserializeTransmission, hdots, he]
        rfl
    refine ⟨_, c₃, hinitial.append (hrun₁.append (hrun₂.append hrun₃)), ?_, herror⟩
    rw [arrived_append, arrived_append, arrived_append, harrived₁, harrived₂, harrived₃]
    refine ⟨payload.drop (BitVec.ofNat 32 payload.length).toNat, ?_⟩
    simp only [arrived, List.nil_append, List.append_assoc, List.take_append_drop]
  · obtain ⟨hlength, hrest⟩ := take_cut hheader
    rw [← hlength] at hready₁
    obtain ⟨ls₂, c₂, hrun₂, harrived₂, herror⟩ := hready₁.fails casts types .v1
      fun c' hinput _ _ => by
        obtain ⟨e, he⟩ := deserialize_strict_prefix casts
          dotsTransportHeaderProperties_wellFormed hh (List.take_append_drop _ header).symm hrest
        refine ⟨e, ?_⟩
        rw [handle, Channel.deserialize, hinput, he]
        rfl
    refine ⟨_, c₂, hinitial.append (hrun₁.append hrun₂), ?_, herror⟩
    rw [arrived_append, arrived_append, harrived₁, harrived₂]
    have hwhole : header.take (BitVec.ofNat 16 header.length).toNat ++
        (header.drop (BitVec.ofNat 16 header.length).toNat ++ payload) = header ++ payload := by
      rw [← List.append_assoc, List.take_append_drop]
    refine ⟨header.drop (BitVec.ofNat 16 header.length).toNat ++ payload, ?_⟩
    simp only [arrived, List.nil_append, List.append_assoc, hwhole]

/-- The frame of the format v2 with a size that was cut. -/
theorem fails_of_cut_v2 {frame : List UInt8} (hwf : t.type.properties.WellFormed)
    (hknown : Known types [] t) (h : serializeTransmission .v2 now t = .ok frame)
    (hcut : ¬t.PayloadFits .v2) : ∃ ls c,
    Run (ofPartial (step casts types .v2)) initial ls c ∧ arrived ls <+: frame ∧
      c.error ≠ none := by
  obtain ⟨header, hh, h⟩ := bind_eq_ok h
  obtain ⟨payload, hp, h⟩ := bind_eq_ok h
  cases h
  obtain ⟨typeName, hname, htype⟩ := hknown
  have hpayload : ¬(header ++ payload).length < 2 ^ 32 := by
    intro hlt
    refine hcut fun header' payload' hh' hp' => ?_
    cases hp.symm.trans hp'
    cases hh.symm.trans hh'
    exact hlt
  obtain ⟨hlength, hrest⟩ := take_cut hpayload
  obtain ⟨c₀, hinitial, hready₀, hreceived₀, hheader₀⟩ :=
    ready_initial casts types .v2
  have hsize : Finds casts types .v2 c₀.received c₀.transportHeader .processTransmissionSize
      (0x1A :: CborWriter.writeContingentBytes (BitVec.ofNat 32 (header ++ payload).length).toNat 4)
      (.size (BitVec.ofNat 32 (header ++ payload).length).toNat .processTransmission)
      c₀.transportHeader := finds_processTransmissionSize _
  obtain ⟨ls₁, c₁, hrun₁, harrived₁, hready₁, hreceived₁, hheader₁⟩ := hready₀.size hsize
  rw [← hlength] at hready₁
  obtain ⟨ls₂, c₂, hrun₂, harrived₂, herror⟩ := hready₁.fails casts types .v2
    fun c' hinput hreceived _ => by
      have htype' : types c'.received typeName.1 = some t.type := by
        rw [hreceived, hreceived₁, hreceived₀]
        exact htype
      exact handle_strict_prefix hwf hh hp hname htype'
        ((List.take_append_drop _ (header ++ payload)).symm.trans (by rw [hinput])) hrest
  refine ⟨_, c₂, hinitial.append (hrun₁.append hrun₂), ?_, herror⟩
  rw [arrived_append, arrived_append, harrived₁, harrived₂]
  refine ⟨(header ++ payload).drop (BitVec.ofNat 32 (header ++ payload).length).toNat, ?_⟩
  simp only [arrived, List.nil_append, List.append_assoc _ (List.take _ _), List.take_append_drop]

/-- **What a stream channel delivers** is the part of an instance in the attributes exactly if the
sizes fit. -/
theorem delivers_iff_fits {frame : List UInt8} (hwf : t.type.properties.WellFormed)
    (hknown : Known types [] t) (h : serializeTransmission format now t = .ok frame) :
    Delivers casts types format now t (t.payload.restrict t.type.properties t.attributes) ↔
      t.HeaderFits format now ∧ t.PayloadFits format := by
  constructor
  · rintro ⟨frame', header, steps, hframe, hruns⟩
    cases h.symm.trans hframe
    by_contra hcut
    obtain ⟨ls, c, hrun, harrived, herror⟩ : ∃ ls c,
        Run (ofPartial (step casts types format)) initial ls c ∧ arrived ls <+: frame ∧
          c.error ≠ none := by
      cases format with
      | v1 => exact fails_of_cut_v1 hwf hknown h hcut
      | v2 =>
        refine fails_of_cut_v2 hwf hknown h fun hfits => hcut ⟨fun header hh => ?_, hfits⟩
        obtain ⟨header', hh', hbytes⟩ := bind_eq_ok h
        obtain ⟨payload, hp, -⟩ := bind_eq_ok hbytes
        have hle := hfits header payload hh hp
        rw [List.length_append] at hle
        omega
    exact herror (hruns ls c hrun harrived).1
  · rintro ⟨hheader, hpayload⟩
    have hframes : List.Forall₂ (fun s frame => serializeTransmission format s.1 s.2 = .ok frame)
        [(now, t)] [frame] := .cons h .nil
    refine ⟨frame, (t.sent format now).header, 8 + 18 * frame.length, h,
      fun ls c hrun harrived => ?_⟩
    have hall : [frame].flatten = frame := List.append_nil frame
    have hknown' (before : List (BitVec 64 × Transmission)) (s : BitVec 64 × Transmission)
        (after : List (BitVec 64 × Transmission)) (heq : [(now, t)] = before ++ s :: after) :
        Known types (before.map fun s => s.2.sent format s.1) s.2 := by
      obtain ⟨rfl, hs⟩ | ⟨-, hs⟩ := List.singleton_eq_append_iff.mp heq
      · obtain ⟨rfl, -⟩ := List.cons.inj hs
        exact hknown
      · exact absurd hs (List.cons_ne_nil _ _)
    obtain ⟨hnoError, -, hsteps, hrest⟩ := receives_sent casts types format hframes
      (List.forall_mem_singleton.mpr hwf) hknown' (List.forall_mem_singleton.mpr hheader)
      (List.forall_mem_singleton.mpr hpayload) hrun (by rwa [hall])
    rw [hall] at hrest
    have hlength : (arrived ls).length ≤ frame.length := harrived.length_le
    exact ⟨hnoError, by omega, hrest⟩

/-- The transport header has no enums. -/
theorem transportHeader_enumerated (now : BitVec 64) (t : Transmission) (n : ℕ) :
    Instance.Enumerated dotsTransportHeaderProperties (transportHeader now t n) := by
  have hheader : ∀ header ∈ some (adjustHeader now t.header),
      Instance.Enumerated dotsHeaderProperties header :=
    fun header _ => dotsHeader_enumerated header
  exact ⟨fun _ _ => trivial, fun _ _ => trivial, hheader, fun _ _ => trivial, fun _ _ => trivial,
    trivial⟩

variable (format now) in
theorem exists_frame_iff {attributes : BitVec 32}
    (hattributes : t.header.attributes = some attributes) :
    (∃ frame, serializeTransmission format now t = .ok frame) ↔
      Instance.Enumerated t.type.properties
        (t.payload.restrict t.type.properties t.attributes) := by
  rw [← serializeInstance_eq_ok_iff hattributes]
  constructor
  · rintro ⟨frame, h⟩
    cases format with
    | v1 =>
      obtain ⟨payload, hp, -⟩ := bind_eq_ok h
      exact ⟨payload, hp⟩
    | v2 =>
      obtain ⟨header, -, hbytes⟩ := bind_eq_ok h
      obtain ⟨payload, hp, -⟩ := bind_eq_ok hbytes
      exact ⟨payload, hp⟩
  · rintro ⟨payload, hp⟩
    cases format with
    | v1 =>
      obtain ⟨header, hh⟩ : ∃ header, serializeStruct dotsTransportHeaderProperties
          (transportHeader now t payload.length) = .ok header :=
        exists_serialize (transportHeader_enumerated now t payload.length).restrict
      exact ⟨_, by
        rw [serializeTransmission, serializeTransmissionV1, hp]
        simp only [bind, Except.bind, hh]
        rfl⟩
    | v2 =>
      obtain ⟨header, hh⟩ : ∃ header, serializeStruct dotsHeaderProperties t.header = .ok header :=
        exists_serialize (dotsHeader_enumerated t.header).restrict
      exact ⟨_, by rw [serializeTransmission, serializeTransmissionV2, hh, hp]; rfl⟩

theorem refuses_iff {attributes : BitVec 32} (hattributes : t.header.attributes = some attributes) :
    Refuses format now t ↔ ¬Instance.Enumerated t.type.properties
      (t.payload.restrict t.type.properties t.attributes) := by
  rw [← exists_frame_iff format now hattributes, Refuses]
  cases serializeTransmission format now t with
  | error e => exact iff_of_true ⟨e, rfl⟩ fun ⟨_, h⟩ => nomatch h
  | ok frame => exact iff_of_false (fun ⟨_, h⟩ => nomatch h) fun h => h ⟨frame, rfl⟩

end AsyncStreamChannel

/-! ## All channels -/

open TextSerializer in
/-- Every channel delivers the part of the instance in the attributes of the header, or every
channel throws. The vectors of the receiver are those of a registry with dynamic structs. -/
def DeliveredAlike (casts : FloatCasts) (types : Types) (dynamic : PropertyDescriptors → Bool)
    (options options' : TextOptions) (converters : Converters) (format : TransmissionFormat)
    (now : BitVec 64) (t : AsyncStreamChannel.Transmission) : Prop :=
  (WebSocketChannel.Delivers (JsonSerializer options converters) (mixedResize dynamic) types
      (JsonSerializer options' converters) t (t.payload.restrict t.type.properties t.attributes) ∧
    AsyncStreamChannel.Delivers casts types format now t
      (t.payload.restrict t.type.properties t.attributes) ∧
    LocalChannel.Delivers casts types t (t.payload.restrict t.type.properties t.attributes)) ∨
  (WebSocketChannel.Refuses (JsonSerializer options' converters) t ∧
    AsyncStreamChannel.Refuses format now t ∧ LocalChannel.Refuses t)

namespace AsyncStreamChannel

def labelType : StructType where
  name := ascii "Label"
  internal := false
  properties := CborSerializer.labelProperties

def labelTypes : Types := fun _ name => if name = ascii "Label" then some labelType else none

/-- A label with a text and a count, of which the text is to be sent. -/
def partialLabel : Transmission where
  header :=
    (some ⟨ascii "Label", by decide⟩, none, none, some (2 : BitVec 32), none, none, none, none, ())
  type := labelType
  payload := CborSerializer.label ⟨3, by decide⟩

end AsyncStreamChannel

open AsyncStreamChannel in
/-- **The attributes of the header** are not what a WebSocket channel sends: the count arrives as
well. -/
example :
    WebSocketChannel.Legible Json.uuidConverters partialLabel ∧ Known labelTypes [] partialLabel ∧
      partialLabel.attributes = {1} ∧
      ¬DeliveredAlike CborSerializer.noCasts labelTypes (fun _ => false) {} { style := .minified }
        Json.uuidConverters .v2 0 partialLabel := by
  have hlegible : WebSocketChannel.Legible Json.uuidConverters partialLabel :=
    ⟨CborSerializer.labelProperties_wellFormed, by decide +kernel, Json.uuidConverters_invertsUuids,
      ⟨fun _ _ => trivial, nofun, nofun, fun _ _ => trivial, fun _ _ => trivial, fun _ _ => trivial,
        fun _ _ => trivial, fun _ _ => trivial, trivial⟩,
      ⟨fun _ _ => trivial, fun _ _ => trivial, trivial⟩⟩
  have hknown : Known labelTypes [] partialLabel := ⟨⟨ascii "Label", by decide⟩, rfl, if_pos rfl⟩
  refine ⟨hlegible, hknown, by decide +kernel, ?_⟩
  rintro (⟨hweb, -⟩ | ⟨-, -, hlocal⟩)
  · have hsubset := ((WebSocketChannel.delivers_restrict_iff hlegible hknown _).mp hweb).2.1
    revert hsubset
    decide +kernel
  · have hattributes : partialLabel.header.attributes = some (2 : BitVec 32) := rfl
    exact (LocalChannel.refuses_iff hattributes).mp hlocal
      ⟨fun _ _ => trivial, fun _ _ => trivial, trivial⟩

end Dots

import Dots.Cbor.RoundTrip
import Dots.Stream.Loop

/-!
# Frames arrive whole

* `Transmission.sent`: what a frame carries of a transmission.
* `finds_processHeaderSize`, `finds_processHeader`, `finds_processTransmissionSize`,
  `finds_processTransmission`: the handlers on the parts of a frame.
* **`receives_sent`**: however the stream is cut, the transmissions are received in order.
* **`not_receives_large`**: a transmission of four gigabytes is not.
-/

set_option autoImplicit false

namespace Dots

namespace AsyncStreamChannel

open CborSerializer Channel Lts Parse

/-! ## What is sent -/

namespace Transmission

def attributes (t : Transmission) : PropertySet :=
  (t.header.attributes.map PropertySet.ofValue).getD ∅

/-- The transmission that a frame carries: the header that is written and the properties in its
attributes. -/
def sent (format : TransmissionFormat) (now : BitVec 64) (t : Transmission) : Transmission where
  header := match format with
    | .v1 => adjustHeader now t.header
    | .v2 => t.header
  type := t.type
  payload := t.payload.restrict t.type.properties t.attributes

/-- The header is below the limit of the format. -/
def HeaderFits : TransmissionFormat → BitVec 64 → Transmission → Prop
  | .v1, now, t => ∀ header payload, serializeInstance t = .ok payload →
      serializeStruct dotsTransportHeaderProperties (transportHeader now t payload.length) =
        .ok header → header.length < 2 ^ 16
  | .v2, _, t => ∀ header, serializeStruct dotsHeaderProperties t.header = .ok header →
      header.length < 2 ^ 32

/-- What the size of a transmission counts is below its limit. -/
def PayloadFits : TransmissionFormat → Transmission → Prop
  | .v1, t => ∀ payload, serializeInstance t = .ok payload → payload.length < 2 ^ 32
  | .v2, t => ∀ header payload, serializeStruct dotsHeaderProperties t.header = .ok header →
      serializeInstance t = .ok payload → (header ++ payload).length < 2 ^ 32

end Transmission

theorem dotsHeaderProperties_wellFormed : dotsHeaderProperties.WellFormed :=
  ⟨by decide, trivial, by decide, trivial, by decide, trivial, by decide, trivial, by decide,
    trivial, by decide, trivial, by decide, trivial, by decide, trivial, trivial⟩

/-- The headers have no enums. -/
theorem dotsHeader_enumerated (header : Header) :
    Instance.Enumerated dotsHeaderProperties header :=
  ⟨fun _ _ => trivial, fun _ _ => trivial, fun _ _ => trivial, fun _ _ => trivial,
    fun _ _ => trivial, fun _ _ => trivial, fun _ _ => trivial, fun _ _ => trivial, trivial⟩

theorem dotsTransportHeaderProperties_wellFormed : dotsTransportHeaderProperties.WellFormed :=
  ⟨by decide, trivial, by decide, trivial, by decide, dotsHeaderProperties_wellFormed, by decide,
    trivial, by decide, trivial, trivial⟩

theorem serializeInstance_eq_ok {t : Transmission} {payload : List UInt8}
    (h : serializeInstance t = .ok payload) :
    serialize t.type.properties t.payload t.attributes = .ok payload := by
  obtain ⟨attributes, hattributes, h⟩ := bind_eq_ok h
  rw [Transmission.attributes]
  cases ha : t.header.attributes with
  | none => rw [ha] at hattributes; cases hattributes
  | some a =>
    rw [ha] at hattributes
    cases hattributes
    exact h

/-! ## The handlers -/

variable {casts : FloatCasts} {types : Types} {format : TransmissionFormat}

/-- A part that is read whatever follows it is read from the input. -/
theorem Channel.deserialize_part {α : Type} {f : List UInt8 → Except Failure (α × ℕ)} {a : α}
    {part : List UInt8} {c : Channel} (hf : ∀ rest, f (part ++ rest) = .ok (a, part.length))
    (h : part <+: c.input) :
    c.deserialize f = .ok (a, { c with inputData := c.inputData + part.length }) := by
  obtain ⟨rest, hrest⟩ := h
  rw [Channel.deserialize, ← hrest, hf]
  rfl

/-- The two bytes of a size of 16 bits. -/
theorem deserializeHeaderSize_append (size : BitVec 16) (rest : List UInt8) :
    deserializeHeaderSize ([UInt8.ofNat size.toNat, UInt8.ofNat (size.toNat >>> 8)] ++ rest) =
      .ok (size.toNat, 2) := by
  have hlt := size.isLt
  simp only [List.cons_append, List.nil_append, deserializeHeaderSize, UInt8.toNat_ofNat',
    Nat.shiftRight_eq_div_pow, Nat.shiftLeft_eq]
  congr 2
  omega

/-- The size of the header in 16 bits. -/
theorem finds_processHeaderSize {received : List Transmission} {header : TransportHeader} {n : ℕ}
    (hn : n < 2 ^ 16) :
    Finds casts types format received header .processHeaderSize
      [UInt8.ofNat (BitVec.ofNat 16 n).toNat, UInt8.ofNat ((BitVec.ofNat 16 n).toNat >>> 8)]
      (.size n .processHeader) header := by
  rintro c rfl rfl h
  have hread := deserializeHeaderSize_append (BitVec.ofNat 16 n)
  have hsize : (BitVec.ofNat 16 n).toNat = n := (BitVec.toNat_ofNat ..).trans (Nat.mod_eq_of_lt hn)
  rw [handle, Channel.deserialize_part hread h, hsize]
  rfl

/-- The transport header of the format v1. -/
theorem finds_processHeader {received : List Transmission} {header header' : TransportHeader}
    {bytes : List UInt8} {size : BitVec 32}
    (h : serializeStruct dotsTransportHeaderProperties header' = .ok bytes)
    (hsize : header'.payloadSize = some size) :
    Finds casts types format received header .processHeader bytes
      (.size size.toNat .processTransmission) header' := by
  rintro c rfl rfl hpart
  have hread := deserialize_of_serialize casts dotsTransportHeaderProperties_wellFormed h
  rw [Instance.restrict_validProperties] at hread
  rw [handle, Channel.deserialize_part hread hpart]
  simp only [bind, Except.bind, hsize]
  rfl

/-- An unsigned item of fixed size. -/
theorem deserializeUnsigned_append (size : BitVec 32) (rest : List UInt8) :
    deserializeUnsigned ((0x1A :: CborWriter.writeContingentBytes size.toNat 4) ++ rest) =
      .ok (size, 5) := by
  have hread : Reads (CborReader.readUnsigned 4)
      ((CborFormat.MajorType.unsignedInt ||| UInt8.ofNat (24 + 2)) ::
        CborWriter.writeContingentBytes size.toNat 4) size := by
    refine CborReader.reads_readInitialByte_following (e := 2) (by decide) (by omega) (le_refl 4)
      ?_ ?_
    · rw [CborWriter.length_writeContingentBytes]
      exact le_refl 4
    · have hbytes := CborReader.reads_readContingentBytes (8 * 4) size.toNat 4 0
      have hzero : (0 : BitVec (8 * 4)) ||| size = size := BitVec.zero_or
      rw [Nat.mod_eq_of_lt size.isLt, BitVec.ofNat_toNat, BitVec.setWidth_eq, hzero] at hbytes
      simp only [if_neg (CborReader.following ⟨2, by omega⟩).1]
      exact hbytes
  have hrun := hread 0 rest
  rw [Nat.zero_add] at hrun
  rw [deserializeUnsigned, if_neg (by simp)]
  exact congrArg (fun r : Except Failure (BitVec 32 × Cursor UInt8) => do
    let (v, c) ← r
    return (v, c.offset)) hrun

/-- The size of a transmission. -/
theorem finds_processTransmissionSize {received : List Transmission} {header : TransportHeader}
    (size : BitVec 32) :
    Finds casts types format received header .processTransmissionSize
      (0x1A :: CborWriter.writeContingentBytes size.toNat 4)
      (.size size.toNat .processTransmission) header := by
  rintro c rfl rfl h
  rw [handle, Channel.deserialize_part (deserializeUnsigned_append size) h]
  rfl

variable (casts) in
/-- **The instance of a transmission**, behind a header that names its type. -/
theorem deserializeInstance_part (header : Header) {c : Channel} {t : Transmission}
    {payload : List UInt8}
    {typeName : {bytes : List UInt8 // bytes.length < sizeLimit}}
    (hwf : t.type.properties.WellFormed) (h : serializeInstance t = .ok payload)
    (hname : header.typeName = some typeName) (htype : types c.received typeName.1 = some t.type)
    (hpart : payload <+: c.input) :
    deserializeInstance casts types (some header) c = .ok
      (⟨header, t.type, t.payload.restrict t.type.properties t.attributes⟩,
        { c with inputData := c.inputData + payload.length }) := by
  have hread := deserialize_of_serialize casts hwf (serializeInstance_eq_ok h)
  simp only [deserializeInstance, value, Except.mapError, bind, Except.bind, hname, htype]
  rw [Channel.deserialize_part hread hpart]
  rfl

/-- The receiver knows the type that the header names. -/
def Known (types : Types) (received : List Transmission) (t : Transmission) : Prop :=
  ∃ typeName, t.header.typeName = some typeName ∧ types received typeName.1 = some t.type

/-- The instance of the format v1. -/
theorem finds_processTransmission_v1 {received : List Transmission} {now : BitVec 64}
    {t : Transmission} {payload : List UInt8} (hwf : t.type.properties.WellFormed)
    (h : serializeInstance t = .ok payload) (hknown : Known types received t) :
    Finds casts types .v1 received (transportHeader now t payload.length) .processTransmission payload
      (.transmission (t.sent .v1 now)) (transportHeader now t payload.length) := by
  obtain ⟨typeName, hname, htype⟩ := hknown
  rintro c rfl hheader hpart
  have hdots : c.transportHeader.dotsHeader = some (adjustHeader now t.header) := by rw [hheader]; rfl
  have hread := deserializeInstance_part casts (adjustHeader now t.header) hwf h hname htype hpart
  rw [handle, deserializeTransmission, hdots, hread, ← hheader]
  rfl

/-- The header and the instance of the format v2. -/
theorem finds_processTransmission_v2 {received : List Transmission} {header' : TransportHeader}
    {now : BitVec 64} {t : Transmission} {header payload : List UInt8}
    (hwf : t.type.properties.WellFormed)
    (hheader : serializeStruct dotsHeaderProperties t.header = .ok header)
    (h : serializeInstance t = .ok payload) (hknown : Known types received t) :
    Finds casts types .v2 received header' .processTransmission (header ++ payload)
      (.transmission (t.sent .v2 now)) header' := by
  obtain ⟨typeName, hname, htype⟩ := hknown
  rintro c rfl rfl hpart
  have hread := deserialize_of_serialize casts dotsHeaderProperties_wellFormed hheader
  rw [Instance.restrict_validProperties] at hread
  have hrest : payload <+: ({ c with inputData := c.inputData + header.length } : Channel).input := by
    obtain ⟨rest, hrest⟩ := hpart
    rw [input_consumed, ← hrest, List.append_assoc, List.drop_left]
    exact List.prefix_append payload rest
  have hinstance := deserializeInstance_part casts t.header hwf h
    (c := { c with inputData := c.inputData + header.length }) hname htype hrest
  rw [handle, deserializeTransmission,
    Channel.deserialize_part hread ((List.prefix_append header payload).trans hpart)]
  simp only [bind, Except.bind] at hinstance ⊢
  rw [hinstance, List.length_append, ← Nat.add_assoc]
  rfl

/-! ## Frames -/

/-- **A frame** is waited for part by part. -/
theorem awaits_frame {received : List Transmission} {header : TransportHeader} {now : BitVec 64}
    {t : Transmission} {frame rest : List UInt8} {ts : List Transmission}
    (hframe : serializeTransmission format now t = .ok frame) (hheader : t.HeaderFits format now)
    (hpayload : t.PayloadFits format) (hwf : t.type.properties.WellFormed)
    (hknown : Known types received t)
    (hrest : ∀ header, Awaits casts types format (received ++ [t.sent format now]) header
      (firstHandler format) (transmissionSizeSize format) rest ts) :
    Awaits casts types format received header (firstHandler format) (transmissionSizeSize format)
      (frame ++ rest) (t.sent format now :: ts) := by
  cases format with
  | v1 =>
    obtain ⟨payload, hp, hframe⟩ := bind_eq_ok hframe
    obtain ⟨header', hh, hframe⟩ := bind_eq_ok hframe
    cases hframe
    have hbody : Awaits casts types .v1 received (transportHeader now t payload.length)
        .processTransmission payload.length (payload ++ rest) (t.sent .v1 now :: ts) :=
      .transmission (serialize_ne_nil (serializeInstance_eq_ok hp))
        (finds_processTransmission_v1 hwf hp hknown) (hrest _)
    have hsize : (BitVec.ofNat 32 payload.length).toNat = payload.length :=
      (BitVec.toNat_ofNat ..).trans (Nat.mod_eq_of_lt (hpayload payload hp))
    have hfinds : Finds casts types .v1 received header .processHeader header'
        (.size (BitVec.ofNat 32 payload.length).toNat .processTransmission)
        (transportHeader now t payload.length) := finds_processHeader hh rfl
    rw [hsize] at hfinds
    have hmiddle : Awaits casts types .v1 received header .processHeader header'.length
        (header' ++ (payload ++ rest)) (t.sent .v1 now :: ts) :=
      .size (serialize_ne_nil hh) hfinds hbody
    rw [List.append_assoc, List.append_assoc]
    exact .size (List.cons_ne_nil _ _) (finds_processHeaderSize (hheader header' payload hp hh)) hmiddle
  | v2 =>
    obtain ⟨header', hh, hframe⟩ := bind_eq_ok hframe
    obtain ⟨payload, hp, hframe⟩ := bind_eq_ok hframe
    cases hframe
    have hbody : Awaits casts types .v2 received header .processTransmission
        (header' ++ payload).length (header' ++ payload ++ rest) (t.sent .v2 now :: ts) :=
      .transmission (List.append_ne_nil_of_left_ne_nil (serialize_ne_nil hh) _)
        (finds_processTransmission_v2 hwf hh hp hknown) (hrest _)
    have hsize : (BitVec.ofNat 32 (header' ++ payload).length).toNat = (header' ++ payload).length :=
      (BitVec.toNat_ofNat ..).trans (Nat.mod_eq_of_lt (hpayload header' payload hh hp))
    have hfinds : Finds casts types .v2 received header .processTransmissionSize _ _ header :=
      finds_processTransmissionSize (BitVec.ofNat 32 (header' ++ payload).length)
    rw [hsize] at hfinds
    rw [hsize, List.append_assoc]
    exact .size (List.cons_ne_nil _ _) hfinds hbody

/-- A sequence of frames. -/
theorem awaits_frames {sent : List (BitVec 64 × Transmission)} {frames : List (List UInt8)}
    (h : List.Forall₂ (fun s frame => serializeTransmission format s.1 s.2 = .ok frame) sent frames)
    (hheader : ∀ s ∈ sent, s.2.HeaderFits format s.1) (hpayload : ∀ s ∈ sent, s.2.PayloadFits format)
    (hwf : ∀ s ∈ sent, s.2.type.properties.WellFormed) :
    ∀ (received : List Transmission) (header : TransportHeader),
      (∀ before s after, sent = before ++ s :: after →
        Known types (received ++ before.map fun s => s.2.sent format s.1) s.2) →
      Awaits casts types format received header (firstHandler format) (transmissionSizeSize format)
        frames.flatten (sent.map fun s => s.2.sent format s.1) := by
  induction h with
  | nil => exact fun received header _ => .finish received header
  | @cons s frame sent frames hframe _ ih =>
    intro received header hknown
    refine awaits_frame hframe (hheader s List.mem_cons_self) (hpayload s List.mem_cons_self)
      (hwf s List.mem_cons_self) ?_ fun header' => ?_
    · simpa using hknown [] s sent rfl
    · refine ih (fun s hs => hheader s (List.mem_cons_of_mem _ hs))
        (fun s hs => hpayload s (List.mem_cons_of_mem _ hs))
        (fun s hs => hwf s (List.mem_cons_of_mem _ hs)) _ header' fun before s' after heq => ?_
      rw [List.append_assoc]
      exact hknown (s :: before) s' after (by rw [heq, List.cons_append])

/-- **Frames arrive whole.** Let the frames of a sequence of transmissions arrive in any pieces, the
handlers being dispatched inline or later: there is no error, what was received are the first
transmissions in their order, the loop comes to rest after finitely many steps and can always go
on, and when all bytes have arrived and it rests, all transmissions were received. -/
theorem receives_sent (casts : FloatCasts) (types : Types) (format : TransmissionFormat)
    {sent : List (BitVec 64 × Transmission)} {frames : List (List UInt8)}
    (hframes : List.Forall₂ (fun s frame => serializeTransmission format s.1 s.2 = .ok frame) sent
      frames)
    (hwf : ∀ s ∈ sent, s.2.type.properties.WellFormed)
    (hknown : ∀ before s after, sent = before ++ s :: after →
      Known types (before.map fun s => s.2.sent format s.1) s.2)
    (hheader : ∀ s ∈ sent, s.2.HeaderFits format s.1) (hpayload : ∀ s ∈ sent, s.2.PayloadFits format)
    {ls : List Label} {c : Channel} (r : Run (ofPartial (step casts types format)) initial ls c)
    (hw : arrived ls <+: frames.flatten) :
    c.error = none ∧ c.received <+: sent.map (fun s => s.2.sent format s.1) ∧
      ls.length ≤ 8 + 18 * (arrived ls).length ∧
      (step casts types format c (.call true) = none → step casts types format c .dispatch = none →
        (∀ b, (step casts types format c (.read [b])).isSome) ∧
        (arrived ls = frames.flatten → c.received = sent.map fun s => s.2.sent format s.1)) := by
  have hawaits : Awaits casts types format [] (Instance.fresh _) _ _ frames.flatten _ :=
    awaits_frames hframes hheader hpayload hwf [] _ (by simpa using hknown)
  obtain ⟨hinv, hle⟩ := Invariant.run r (by simpa using hw) (invariant_initial hawaits)
  rw [List.nil_append] at hinv
  refine ⟨hinv.noError, ?_, ?_, hinv.at_rest⟩
  · obtain ⟨-, -, -, -, ts, hall, -⟩ := hinv.state
    exact hall ▸ List.prefix_append _ _
  · have hinitial : potential initial = 8 := rfl
    omega

def noteType : StructType where
  name := ascii "Note"
  internal := false
  properties := .cons ⟨"text", 1, false⟩ (.fundamental .string) .nil

def noteHeader : Header :=
  (some ⟨ascii "Note", by decide⟩, none, none, some (2 : BitVec 32), none, none, none, none, ())

/-- A transmission of a text. -/
def note (text : {bytes : List UInt8 // bytes.length < sizeLimit}) : Transmission where
  header := noteHeader
  type := noteType
  payload := (some text, ())

def noteTypes : Types := fun _ name => if name = ascii "Note" then some noteType else none

theorem note_wellFormed (text : {bytes : List UInt8 // bytes.length < sizeLimit}) :
    (note text).type.properties.WellFormed := ⟨by decide, trivial, trivial⟩

theorem note_known (received : List Transmission)
    (text : {bytes : List UInt8 // bytes.length < sizeLimit}) :
    Known noteTypes received (note text) := ⟨⟨ascii "Note", by decide⟩, rfl, if_pos rfl⟩

theorem serializeStruct_noteHeader : serializeStruct dotsHeaderProperties noteHeader =
    .ok [0xA2, 0x01, 0x64, 78, 111, 116, 101, 0x03, 0x02] := rfl

theorem serializeInstance_note (text : {bytes : List UInt8 // bytes.length < sizeLimit}) :
    serializeInstance (note text) = .ok ([0xA1, 0x01] ++ CborWriter.writeString text.1) := by
  have hstruct (x : Instance noteType.properties) (hvalid : x.validProperties _ = {1})
      (hx : writeProperties 2 {1} _ x = .ok ([0x01] ++ CborWriter.writeString text.1 ++ [])) :
      serialize noteType.properties x (PropertySet.ofValue 2) =
        .ok ([0xA1, 0x01] ++ CborWriter.writeString text.1) := by
    have hincluded : PropertySet.ofValue 2 ∩ x.validProperties _ = {1} := by
      rw [hvalid]
      decide
    rw [serialize, writeStruct, hincluded, hx, List.append_nil]
    rfl
  exact hstruct (note text).payload rfl rfl

/-- The frame of a note. -/
theorem serializeTransmission_note (text : {bytes : List UInt8 // bytes.length < sizeLimit}) :
    serializeTransmission .v2 0 (note text) = .ok
      (0x1A :: CborWriter.writeContingentBytes
          (BitVec.ofNat 32 (11 + (CborWriter.writeString text.1).length)).toNat 4 ++
        ([0xA2, 0x01, 0x64, 78, 111, 116, 101, 0x03, 0x02] ++
          ([0xA1, 0x01] ++ CborWriter.writeString text.1))) := by
  have hlength : 11 + (CborWriter.writeString text.1).length =
      ([0xA2, 0x01, 0x64, 78, 111, 116, 101, 0x03, 0x02] ++
        ([0xA1, 0x01] ++ CborWriter.writeString text.1)).length := by
    simp only [List.length_append, List.length_cons, List.length_nil]
    omega
  rw [hlength, serializeTransmission, serializeTransmissionV2, serializeInstance_note, note,
    serializeStruct_noteHeader]
  rfl

theorem note_payloadFits {text : {bytes : List UInt8 // bytes.length < sizeLimit}}
    (h : (CborWriter.writeString text.1).length < 2 ^ 32 - 11) :
    (note text).PayloadFits .v2 := by
  intro header payload hh hp
  rw [note, serializeStruct_noteHeader] at hh
  rw [serializeInstance_note] at hp
  cases hh
  cases hp
  simp only [List.length_append, List.length_cons, List.length_nil]
  omega

theorem note_headerFits (now : BitVec 64)
    (text : {bytes : List UInt8 // bytes.length < sizeLimit}) : (note text).HeaderFits .v2 now := by
  intro header h
  rw [note, serializeStruct_noteHeader] at h
  cases h
  decide

def shortNote : Transmission := note ⟨[33], by decide⟩

/-- A note whose frame arrives in two reads; the second handler runs later. -/
theorem receives_sent_shortNote :
    ∃ c, Run (ofPartial (step noCasts noteTypes .v2)) initial
        [.call true, .call true, .read [0x1A, 0, 0, 0, 13, 0xA2, 0x01], .call true, .call true,
          .read [0x64, 78, 111, 116, 101, 0x03, 0x02, 0xA1, 0x01, 0x61, 33], .call true, .call false,
          .call false] c ∧
      c.error = none ∧ c.received <+: [shortNote.sent .v2 0] := by
  have hrun : (exec (step noCasts noteTypes .v2) initial
      [.call true, .call true, .read [0x1A, 0, 0, 0, 13, 0xA2, 0x01], .call true, .call true,
        .read [0x64, 78, 111, 116, 101, 0x03, 0x02, 0xA1, 0x01, 0x61, 33], .call true, .call false,
        .call false]).isSome = true := by decide +kernel
  obtain ⟨c, hc⟩ := Option.isSome_iff_exists.mp hrun
  have hlength : (CborWriter.writeString [33]).length = 2 := rfl
  have hfits : shortNote.PayloadFits .v2 := note_payloadFits (by rw [hlength]; norm_num)
  have hknown : ∀ before (s : BitVec 64 × Transmission) after,
      [(0, shortNote)] = before ++ s :: after →
        Known noteTypes (before.map fun s => s.2.sent .v2 s.1) s.2 := by
    intro before s after h
    obtain ⟨-, hs⟩ | ⟨-, hs⟩ := List.singleton_eq_append_iff.mp h
    · obtain ⟨rfl, -⟩ := List.cons.inj hs
      exact note_known _ _
    · exact absurd hs (List.cons_ne_nil _ _)
  have hwf : ∀ s ∈ [((0 : BitVec 64), shortNote)], s.2.type.properties.WellFormed :=
    List.forall_mem_singleton.mpr (note_wellFormed _)
  have hheader : ∀ s ∈ [((0 : BitVec 64), shortNote)], s.2.HeaderFits .v2 s.1 :=
    List.forall_mem_singleton.mpr (note_headerFits 0 _)
  have hpayload : ∀ s ∈ [((0 : BitVec 64), shortNote)], s.2.PayloadFits .v2 :=
    List.forall_mem_singleton.mpr hfits
  have hframes := List.Forall₂.cons
    (R := fun (s : BitVec 64 × Transmission) frame => serializeTransmission .v2 s.1 s.2 = .ok frame)
    (a := (0, shortNote)) (serializeTransmission_note _) .nil
  have h := receives_sent noCasts noteTypes .v2 hframes hwf hknown hheader hpayload
    (run_of_exec hc) ⟨[], rfl⟩
  exact ⟨c, run_of_exec hc, h.1, h.2.1⟩

/-- A text that makes the header and the instance of its note 4294967296 bytes. -/
@[irreducible] def largeText : {bytes : List UInt8 // bytes.length < sizeLimit} :=
  ⟨List.replicate (2 ^ 32 - 16) 33, by rw [List.length_replicate]; norm_num⟩

theorem length_largeText : largeText.1.length = 2 ^ 32 - 16 := by
  rw [largeText]
  exact List.length_replicate ..

theorem length_writeString_large {text : List UInt8} (h : text.length = 2 ^ 32 - 16) :
    11 + (CborWriter.writeString text).length = 2 ^ 32 := by
  have hhead : (CborWriter.writeHead CborFormat.MajorType.textString
    (BitVec.ofNat 64 (2 ^ 32 - 16))).length = 5 := rfl
  rw [CborWriter.writeString, h, List.length_append, h, hhead]
  norm_num

/-- The size of a note of four gigabytes is cut to 0. -/
theorem serializeTransmission_large {text : {bytes : List UInt8 // bytes.length < sizeLimit}}
    (h : text.1.length = 2 ^ 32 - 16) : ∃ rest,
      serializeTransmission .v2 0 (note text) = .ok ([0x1A, 0, 0, 0, 0] ++ rest) := by
  have hsize : CborWriter.writeContingentBytes (BitVec.ofNat 32 (2 ^ 32)).toNat 4 = [0, 0, 0, 0] :=
    rfl
  have hframe := serializeTransmission_note text
  rw [length_writeString_large h, hsize] at hframe
  exact ⟨_, hframe⟩

/-- **A note of four gigabytes** is written with the size 0. Of its frame, no more than that size
arrives in the first read, and the receiver ends with an error. -/
theorem not_receives_large :
    ∃ frame ls c, serializeTransmission .v2 0 (note largeText) = .ok frame ∧
      (note largeText).type.properties.WellFormed ∧ Known noteTypes [] (note largeText) ∧
      (note largeText).HeaderFits .v2 0 ∧
      Run (ofPartial (step noCasts noteTypes .v2)) initial ls c ∧ arrived ls <+: frame ∧
      c.error ≠ none := by
  have hrun : ((exec (step noCasts noteTypes .v2) initial
      [.call true, .call true, .read [0x1A, 0, 0, 0, 0], .call true, .call true]).bind
        Channel.error).isSome = true := by decide +kernel
  obtain ⟨e, he⟩ := Option.isSome_iff_exists.mp hrun
  obtain ⟨c, hc, herror⟩ := Option.bind_eq_some_iff.mp he
  obtain ⟨rest, hframe⟩ := serializeTransmission_large length_largeText
  exact ⟨_, _, c, hframe, note_wellFormed _, note_known _ _, note_headerFits 0 _, run_of_exec hc,
    List.prefix_append _ _, by simp [herror]⟩

end AsyncStreamChannel

end Dots

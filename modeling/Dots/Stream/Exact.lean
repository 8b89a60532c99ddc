import Dots.Cbor.Extent
import Dots.Stream.Framing

/-!
# Frames are consumed exactly

The decoders of a frame see all of the input, not only the bytes that its sizes announce.

* `headerMap`, `transportHeaderMap`, `instanceMap`: the maps of a frame, as a condition on its bytes.
* `EndsAt`: the maps that a handler reads, if they can be read, end with the bytes it is called for.
* **`consumes_iff`**: that is exact for each call of a handler.
* `Ledger`: a channel, with the place where the next part starts by the announced sizes alone.
* **`Ledger.step_iff`**, **`Ledger.run_iff`**: in a run the input starts at that place as long as the
  maps end with their parts, and only as long.
* `Announces`: the sizes in a frame are those of what follows.
* **`frames_exact`**: what is read, and what is written.
* **`frames_not_exact`**: a frame that announces a byte too many, and one of four gigabytes.
-/

set_option autoImplicit false

namespace Dots.AsyncStreamChannel

open CborSerializer Channel CborFormat Inside Lts Parse

/-! ## The maps of a frame -/

/-- An entry of a header, with the name of the type that is known behind it. -/
def headerEntry (tag : BitVec 32) (typeName : Option (List UInt8)) : Telling (Option (List UInt8)) :=
  fun k =>
    if tag = 1 then text fun bytes => k (some bytes)
    else entryOf dotsHeaderProperties tag (k typeName)

/-- The map of a header; it tells the name of the type, if there is one. -/
def headerMap : Telling (Option (List UInt8)) := entriesWith headerEntry none

/-- An entry of a transport header; the one with the tag 4 is the payload size. -/
def transportHeaderEntry (tag : BitVec 32) (found : Bool) : Telling Bool := fun k =>
  entryOf dotsTransportHeaderProperties tag (k (found || tag = 4))

/-- The map of a transport header; it tells whether there is a payload size. -/
def transportHeaderMap : Telling Bool := entriesWith transportHeaderEntry false

/-- The map of an instance of the named type. Without a type nothing is read. -/
def instanceMap (type : Option StructType) : Demand := fun k bytes =>
  ∀ τ ∈ type, entries (fun tag => property Finset.univ tag τ.properties) k bytes

variable (casts : FloatCasts) (types : Types) (format : TransmissionFormat)

/-- What is asked of the bytes that a handler reads, given what is asked of the bytes behind them. -/
def maps (c : Channel) : Handler → Demand
  | .processHeaderSize => fun k bytes => 2 ≤ bytes.length ∧ k (bytes.drop 2)
  | .processHeader => fun k => transportHeaderMap fun found bytes => found = true → k bytes
  | .processTransmissionSize => unsigned 4
  | .processTransmission =>
    match format with
    | .v1 => instanceMap ((c.transportHeader.dotsHeader.bind Header.typeName).bind fun name =>
        types c.received name.1)
    | .v2 => fun k => headerMap fun typeName =>
        instanceMap (typeName.bind fun name => types c.received name) k

/-- If the maps that a handler reads can be read, they end `n` bytes further on. -/
def EndsAt (n : ℕ) (handler : Handler) (c : Channel) : Prop :=
  maps types format c handler (fun _ => True) c.input →
    maps types format c handler (fun rest => rest.length + n = c.input.length) c.input

/-- A handler consumes `n` bytes, or fails. -/
def Consumes (n : ℕ) (handler : Handler) (c : Channel) : Prop :=
  ∀ found c', handle casts types format c handler = .ok (found, c') →
    c'.inputData = c.inputData + n

/-! ## What the decoders read -/

section Told

variable {casts types format} {α β : Type} {c : Channel} {handler : Handler}

theorem preconditionOf_headerEntry (tag : BitVec 32) (header : Header) :
    PreconditionOf Failure.Inside (fun header : Header => header.typeName.map fun name => name.1)
      ((readProperty casts 2 Finset.univ tag dotsHeaderProperties header).getD
        (do CborReader.skip; return header))
      (headerEntry tag (header.typeName.map fun name => name.1)) := by
  obtain ⟨typeName, rest⟩ := header
  unfold headerEntry
  split_ifs with htag
  · subst htag
    exact preconditionOf_readString.bind fun typeName => .pure rfl
  · have hleaves : Leaves casts tag (fun header : Header => header.typeName.map fun name => name.1)
        (typeName.map fun name => name.1) (typeName, rest) :=
      leaves_next (fun h => htag h.symm) (leaves_of_forall (fun _ => rfl) rest)
    exact hleaves.entry fun _ => rfl

theorem told_header (data : List UInt8) :
    Told (fun header : Header => header.typeName.map fun name => name.1) headerMap data
      (CborSerializer.deserialize casts dotsHeaderProperties (Instance.fresh _) Finset.univ data) :=
  told_deserialize (preconditionOf_readStruct preconditionOf_headerEntry (Instance.fresh _))
    (fun _ => trivial) data

theorem preconditionOf_transportHeaderEntry (tag : BitVec 32) (header : TransportHeader) :
    PreconditionOf Failure.Inside (fun header : TransportHeader => header.payloadSize.isSome)
      ((readProperty casts 2 Finset.univ tag dotsTransportHeaderProperties header).getD
        (do CborReader.skip; return header))
      (transportHeaderEntry tag header.payloadSize.isSome) := by
  obtain ⟨nameSpace, destinationGroup, dotsHeader, payloadSize, rest⟩ := header
  by_cases hsize : tag = 4
  · subst hsize
    have hleaves : Leaves casts 4 (fun header : TransportHeader => header.payloadSize.isSome) true
        (nameSpace, destinationGroup, dotsHeader, payloadSize, rest) :=
      leaves_next (by decide) (leaves_next (by decide) (leaves_next (by decide)
        (leaves_here rfl (fun _ => rfl) payloadSize)))
    refine (hleaves.entry fun h => by cases h).congr fun k w => ?_
    show entryOf _ _ (k (payloadSize.isSome || true)) w ↔ _
    rw [Bool.or_true]
  · have hleaves : Leaves casts tag (fun header : TransportHeader => header.payloadSize.isSome)
        payloadSize.isSome (nameSpace, destinationGroup, dotsHeader, payloadSize, rest) := by
      by_cases hnameSpace : BitVec.ofNat 32 1 = tag
      · exact leaves_here hnameSpace (fun _ => rfl) nameSpace
      by_cases hgroup : BitVec.ofNat 32 2 = tag
      · exact leaves_next hnameSpace (leaves_here hgroup (fun _ => rfl) destinationGroup)
      by_cases hheader : BitVec.ofNat 32 3 = tag
      · exact leaves_next hnameSpace (leaves_next hgroup
          (leaves_here hheader (fun _ => rfl) dotsHeader))
      · exact leaves_next hnameSpace (leaves_next hgroup (leaves_next hheader
          (leaves_next (fun h => hsize h.symm) (leaves_of_forall (fun _ => rfl) rest))))
    refine (hleaves.entry fun _ => rfl).congr fun k w => ?_
    show entryOf _ _ (k (payloadSize.isSome || decide (tag = 4))) w ↔ _
    rw [decide_eq_false hsize, Bool.or_false]

theorem told_transportHeader (data : List UInt8) :
    Told (fun header : TransportHeader => header.payloadSize.isSome) transportHeaderMap data
      (CborSerializer.deserialize casts dotsTransportHeaderProperties (Instance.fresh _) Finset.univ
        data) :=
  told_deserialize (preconditionOf_readStruct preconditionOf_transportHeaderEntry (Instance.fresh _))
    (fun _ => trivial) data

/-- The same as `Told` for a computation that leaves a channel behind what it has consumed. -/
def Leads (g : Demand) (c : Channel) : Except Failure (α × Channel) → Prop
  | .ok (_, c') => ∃ n header, n ≤ c.input.length ∧
      c' = { c with inputData := c.inputData + n, transportHeader := header } ∧
      ∀ k, g k c.input ↔ k (c.input.drop n)
  | .error _ => ∃ P : Prop, ∀ k, g k c.input ↔ P

theorem leads_pure (a : α) (header : TransportHeader) :
    Leads (fun k => k) c (.ok (a, { c with transportHeader := header })) :=
  ⟨0, header, Nat.zero_le _, rfl, fun _ => Iff.rfl⟩

theorem leads_error (e : Failure) {g : Demand} (h : ∀ k, g k c.input) :
    Leads g c (.error e : Except Failure (α × Channel)) := ⟨True, fun k => iff_true_intro (h k)⟩

theorem Leads.congr {g g' : Demand} {r : Except Failure (α × Channel)} (h : Leads g c r)
    (hg : ∀ k, g' k c.input ↔ g k c.input) : Leads g' c r := by
  cases r with
  | error e =>
    obtain ⟨P, hP⟩ := h
    exact ⟨P, fun k => (hg k).trans (hP k)⟩
  | ok r =>
    obtain ⟨n, header, hn, hc, hk⟩ := h
    exact ⟨n, header, hn, hc, fun k => (hg k).trans (hk k)⟩

theorem Leads.map {g : Demand} {r : Except Failure (α × Channel)} (h : Leads g c r) (b : α → β) :
    Leads g c (r >>= fun x => .ok (b x.1, x.2)) := by
  cases r with
  | error e => exact h
  | ok r => exact h

/-- **What follows a decoder** starts behind what it has read. -/
theorem leads_bind {γ : Type} {part : β → γ} {g : Telling γ} (g' : γ → Demand)
    {f : List UInt8 → Except Failure (β × ℕ)} {h : β × Channel → Except Failure (α × Channel)}
    (hf : Told part g c.input (f c.input))
    (hh : ∀ b n, Leads (g' (part b)) { c with inputData := c.inputData + n }
      (h (b, { c with inputData := c.inputData + n }))) :
    Leads (fun k => g fun s => g' s k) c (c.deserialize f >>= h) := by
  unfold Channel.deserialize
  cases hrun : f c.input with
  | error e =>
    rw [hrun] at hf
    obtain ⟨P, hP⟩ := hf
    exact ⟨P, fun k => hP _⟩
  | ok r =>
    obtain ⟨b, n⟩ := r
    rw [hrun] at hf
    obtain ⟨hn, hg⟩ := hf
    have hrest := hh b n
    show Leads _ c (h (b, { c with inputData := c.inputData + n }))
    cases hlast : h (b, { c with inputData := c.inputData + n }) with
    | error e =>
      rw [hlast] at hrest
      obtain ⟨P, hP⟩ := hrest
      refine ⟨P, fun k => (hg _).trans ?_⟩
      rw [← hP k, input_consumed]
    | ok r =>
      rw [hlast] at hrest
      obtain ⟨m, header, hm, hc, hk⟩ := hrest
      rw [input_consumed, List.length_drop] at hm
      refine ⟨n + m, header, by omega, ?_, fun k => (hg _).trans ?_⟩
      · rw [hc]
        simp only [Nat.add_assoc]
      · rw [← List.drop_drop, ← input_consumed n, ← hk k]

theorem instanceMap_some {type : StructType} {k : List UInt8 → Prop} {bytes : List UInt8} :
    instanceMap (some type) k bytes ↔
      entries (fun tag => property Finset.univ tag type.properties) k bytes :=
  ⟨fun h => h type rfl, fun h _ hτ => Option.some.inj hτ ▸ h⟩

theorem leads_deserializeInstance (header : Option Header) (c : Channel) :
    Leads (instanceMap ((header.bind Header.typeName).bind fun name => types c.received name.1)) c
      (deserializeInstance casts types header c) := by
  have hnone (e : Failure) :
      Leads (instanceMap none) c (.error e : Except Failure (Transmission × Channel)) :=
    leads_error e fun _ _ h => by cases h
  cases header with
  | none => exact hnone _
  | some header =>
    rw [Option.bind_some]
    cases hname : header.typeName with
    | none =>
      have hvalue : value "typeName" header.typeName = .error (.runtimeError
          "property is expected to be valid but it is not: typeName") := by rw [hname]; rfl
      show Leads _ c ((value "typeName" header.typeName).mapError Failure.thrown >>= _)
      rw [hvalue]
      exact hnone _
    | some typeName =>
      have hvalue : value "typeName" header.typeName = .ok typeName := by rw [hname]; rfl
      show Leads _ c ((value "typeName" header.typeName).mapError Failure.thrown >>= _)
      rw [hvalue, Option.bind_some]
      show Leads _ c (pure typeName >>= _ : Except Failure (Transmission × Channel))
      rw [pure_bind]
      cases types c.received typeName.1 with
      | none => exact hnone _
      | some type =>
        have hentries : Leads (entries fun tag => property Finset.univ tag type.properties) c
            (c.deserialize (CborSerializer.deserialize casts type.properties (Instance.fresh _)
              Finset.univ) >>= fun r => .ok ((⟨header, type, r.1⟩ : Transmission), r.2)) :=
          leads_bind (fun _ k => k) (told_entries casts type.properties (Instance.fresh _) c.input)
            fun x n => leads_pure (⟨header, type, x⟩ : Transmission) c.transportHeader
        exact hentries.congr fun k => instanceMap_some

theorem told_deserializeHeaderSize (data : List UInt8) :
    Told (fun _ => ()) (fun k bytes => 2 ≤ bytes.length ∧ k () (bytes.drop 2)) data
      (deserializeHeaderSize data) := by
  obtain _ | ⟨a, _ | ⟨b, rest⟩⟩ := data
  · exact ⟨False, fun k => iff_of_false (fun h => absurd h.1 (by decide)) id⟩
  · exact ⟨False, fun k => iff_of_false (fun h => absurd h.1 (by simp)) id⟩
  · exact ⟨by simp, fun k => and_iff_right (by simp)⟩

theorem told_deserializeUnsigned (data : List UInt8) :
    Told (fun _ => ()) (fun k => unsigned 4 (k ())) data (deserializeUnsigned data) := by
  unfold deserializeUnsigned
  split_ifs with hdata
  · subst hdata
    exact ⟨True, fun _ => Iff.rfl⟩
  · exact told_run (fun k => passes_readUnsigned 4 (k ())) data

variable (casts types format) in
/-- **A handler** comes as far as the maps tell. -/
theorem leads_handle (c : Channel) (handler : Handler) :
    Leads (maps types format c handler) c (handle casts types format c handler) := by
  cases handler with
  | processHeaderSize =>
    exact leads_bind (fun _ k => k) (told_deserializeHeaderSize c.input) fun size n =>
      leads_pure (Found.size size .processHeader) c.transportHeader
  | processHeader =>
    refine leads_bind (fun found k bytes => found = true → k bytes) (told_transportHeader c.input)
      fun header n => ?_
    dsimp only
    cases header.payloadSize with
    | none => exact leads_error _ fun k h => by cases h
    | some size =>
      exact (leads_pure (Found.size size.toNat .processTransmission) header).congr fun k =>
        forall_prop_of_true rfl
  | processTransmissionSize =>
    exact leads_bind (fun _ k => k) (told_deserializeUnsigned c.input) fun size n =>
      leads_pure (Found.size size.toNat .processTransmission) c.transportHeader
  | processTransmission =>
    have htransmission : Leads (maps types format c .processTransmission) c
        (deserializeTransmission casts types format c) := by
      cases format with
      | v1 => exact leads_deserializeInstance c.transportHeader.dotsHeader c
      | v2 =>
        refine leads_bind (fun typeName => instanceMap (typeName.bind fun name => types c.received name))
          (told_header c.input) fun header n => ?_
        dsimp only
        rw [Option.bind_map]
        exact leads_deserializeInstance (some header) { c with inputData := c.inputData + n }
    exact htransmission.map Found.transmission

variable (casts) in
/-- **A handler consumes** what it is called for, or fails, exactly if the maps that it reads end
there. -/
theorem consumes_iff (n : ℕ) (handler : Handler) (c : Channel) :
    Consumes casts types format n handler c ↔ EndsAt types format n handler c := by
  have hleads := leads_handle casts types format c handler
  unfold Consumes EndsAt
  cases hrun : handle casts types format c handler with
  | error e =>
    rw [hrun] at hleads
    obtain ⟨P, hP⟩ := hleads
    refine iff_of_true (fun found c' h => by cases h) fun h => (hP _).mpr ((hP _).mp h)
  | ok r =>
    obtain ⟨found, c'⟩ := r
    rw [hrun] at hleads
    obtain ⟨m, header, hm, rfl, hk⟩ := hleads
    rw [hk, hk, true_implies, List.length_drop]
    constructor
    · intro h
      have hn := h found _ rfl
      dsimp only at hn
      omega
    · intro h found' c' hc
      cases hc
      dsimp only
      omega

end Told

/-! ## Runs -/

/-- The handlers of the parts whose size was announced. -/
def Handler.Announced (handler : Handler) : Prop :=
  handler = .processHeader ∨ handler = .processTransmission

/-- The number of bytes that a handler is called for: those that were announced, or those of a size.
The size of the format v2 is an item, whose initial byte tells how long it is. -/
def extent (announced : ℕ) (input : List UInt8) : Handler → ℕ
  | .processHeaderSize => 2
  | .processTransmissionSize => 1 + (input.head?.map fun b => numBytes (info b)).getD 0
  | .processHeader | .processTransmission => announced

/-- A channel, the bytes that have arrived, and where the next part lies in them by the sizes that
were announced. -/
structure Ledger where
  channel : Channel
  bytes : List UInt8
  start : ℕ
  announced : ℕ

namespace Ledger

/-- A ledger when `asyncReceive` is called. -/
def initial : Ledger := ⟨AsyncStreamChannel.initial, [], 0, 0⟩

/-- Behind a handler the next part starts where the one it was called for ends. -/
def next (s : Ledger) : ℕ × ℕ :=
  match s.channel.calls with
  | .handle handler :: _ =>
    let stop := s.start + extent s.announced s.channel.input handler
    match handle casts types format s.channel handler with
    | .ok (.size size _, _) => (stop, size)
    | .ok (.transmission _, _) => (stop, 0)
    | .error _ => (s.start, s.announced)
  | _ => (s.start, s.announced)

def step (s : Ledger) (l : Label) : Option Ledger :=
  (AsyncStreamChannel.step casts types format s.channel l).map fun channel =>
    ⟨channel, s.bytes ++ arrived [l], (s.next casts types format).1, (s.next casts types format).2⟩

/-- The input starts with the next part. -/
def Aligned (s : Ledger) : Prop :=
  s.start ≤ s.bytes.length ∧ s.channel.input = s.bytes.drop s.start

/-- The maps that are read next end with their part. -/
def Meets (s : Ledger) : Prop :=
  ∀ handler calls, s.channel.calls = .handle handler :: calls → handler.Announced →
    EndsAt types format s.announced handler s.channel

instance (s : Ledger) : Decidable s.Aligned := inferInstanceAs (Decidable (_ ∧ _))

variable {casts types format} {s t : Ledger} {l : Label} {handler : Handler} {calls : List Call}

/-- The size of a part ends where its initial byte says. -/
theorem endsAt_size {announced : ℕ} {c : Channel} (h : ¬handler.Announced) :
    EndsAt types format (extent announced c.input handler) handler c := by
  cases handler with
  | processHeaderSize =>
    rintro ⟨hlength, -⟩
    refine ⟨hlength, ?_⟩
    show (c.input.drop 2).length + 2 = c.input.length
    rw [List.length_drop]
    exact Nat.sub_add_cancel hlength
  | processHeader => exact absurd (.inl rfl) h
  | processTransmission => exact absurd (.inr rfl) h
  | processTransmissionSize =>
    unfold EndsAt maps unsigned head extent
    cases c.input with
    | nil => exact id
    | cons b bytes =>
      rintro ⟨hmajor, hinfo, hsize, -⟩
      refine ⟨hmajor, hinfo, hsize, fun hlength => ?_⟩
      show (bytes.drop (numBytes (info b))).length + (1 + numBytes (info b)) = bytes.length + 1
      rw [List.length_drop]
      omega

theorem meets_iff (h : s.channel.calls = .handle handler :: calls) : s.Meets types format ↔
    EndsAt types format (extent s.announced s.channel.input handler) handler s.channel := by
  by_cases hannounced : handler.Announced
  · have hextent : extent s.announced s.channel.input handler = s.announced := by
      obtain rfl | rfl := hannounced <;> rfl
    rw [hextent]
    refine ⟨fun hs => hs handler calls h hannounced, fun hs handler' calls' h' _ => ?_⟩
    cases h.symm.trans h'
    exact hs
  · refine iff_of_true (fun handler' calls' h' hannounced' => ?_) (endsAt_size hannounced)
    cases h.symm.trans h'
    exact absurd hannounced' hannounced

/-- Without a handler only a read changes the input: it appends. -/
theorem input_step {c c' : Channel} (hb : c.Bounded)
    (h : AsyncStreamChannel.step casts types format c l = some c')
    (hhandle : ∀ handler calls, c.calls ≠ .handle handler :: calls) :
    c'.Bounded ∧ c'.input = c.input ++ arrived [l] := by
  have hsame {d : Channel} (hd : d.readBuffer = c.readBuffer ∧ d.inputData = c.inputData ∧
      d.inputDataEnd = c.inputDataEnd) : d.Bounded ∧ d.input = c.input ++ [] := by
    obtain ⟨hbuffer, hdata, hend⟩ := hd
    rw [Bounded, input, inputAvailable, hbuffer, hdata, hend, List.append_nil]
    exact ⟨hb, rfl⟩
  cases l with
  | call inline =>
    cases hcalls : c.calls with
    | nil => simp [AsyncStreamChannel.step, hcalls] at h
    | cons call calls =>
      simp only [AsyncStreamChannel.step, hcalls, Option.some.injEq] at h
      subst h
      cases call with
      | asyncReceive =>
        rw [stepCall]
        split_ifs
        · exact hsame ⟨rfl, rfl, rfl⟩
        · exact hsame ⟨rfl, rfl, rfl⟩
      | asyncRead requiredBytes handler =>
        rw [stepCall]
        split_ifs with havailable
        · exact hsame ⟨rfl, rfl, rfl⟩
        · exact hsame ⟨rfl, rfl, rfl⟩
        · obtain ⟨hbounded, hinput, -⟩ := startRead_spec (c := { c with calls }) handler hb
            (Nat.lt_of_not_le havailable)
          exact ⟨hbounded, by rw [hinput]; exact (List.append_nil _).symm⟩
      | handle handler => exact absurd hcalls (hhandle handler calls)
      | afterDispatch =>
        rw [stepCall]
        split_ifs
        · exact hsame ⟨rfl, rfl, rfl⟩
        · exact hsame ⟨rfl, rfl, rfl⟩
  | read bytes =>
    simp only [AsyncStreamChannel.step] at h
    split at h
    · split_ifs at h with hroom hshort
      · obtain rfl := Option.some.inj h
        obtain ⟨hbounded, hinput, -⟩ := completeRead_spec (c := { c with pending := none }) hb hroom.2
        exact ⟨hbounded, hinput.trans (congrArg _ (List.append_nil bytes).symm)⟩
      · obtain rfl := Option.some.inj h
        obtain ⟨hbounded, hinput, -⟩ := completeRead_spec (c := { c with pending := none }) hb hroom.2
        exact ⟨hbounded, hinput.trans (congrArg _ (List.append_nil bytes).symm)⟩
    · cases h
  | dispatch =>
    simp only [AsyncStreamChannel.step] at h
    split at h
    · obtain rfl := Option.some.inj h
      exact hsame ⟨rfl, rfl, rfl⟩
    · cases h

theorem eq_stepCall {c c' : Channel} {call : Call} (hcalls : c.calls = call :: calls)
    (h : AsyncStreamChannel.step casts types format c l = some c') :
    ∃ inline, l = .call inline ∧ c' = stepCall casts types format inline c calls call := by
  cases l with
  | call inline =>
    simp only [AsyncStreamChannel.step, hcalls, Option.some.injEq] at h
    exact ⟨inline, rfl, h.symm⟩
  | read bytes => simp [AsyncStreamChannel.step, hcalls] at h
  | dispatch => simp [AsyncStreamChannel.step, hcalls] at h

/-- A handler that fails consumes nothing. -/
theorem error_step {c c' : Channel} {e : Failure} (hb : c.Bounded)
    (hcalls : c.calls = .handle handler :: calls)
    (hrun : handle casts types format c handler = .error e)
    (h : AsyncStreamChannel.step casts types format c l = some c') :
    c'.Bounded ∧ c'.input = c.input ∧ arrived [l] = [] := by
  obtain ⟨inline, rfl, rfl⟩ := eq_stepCall hcalls h
  rw [stepCall, hrun]
  exact ⟨hb, rfl, rfl⟩

/-- A handler leaves the input behind what it has consumed. -/
theorem ok_step {c c₁ c' : Channel} {found : Found} (hb : c.Bounded)
    (hcalls : c.calls = .handle handler :: calls)
    (hrun : handle casts types format c handler = .ok (found, c₁))
    (h : AsyncStreamChannel.step casts types format c l = some c') :
    ∃ n, c₁.inputData = c.inputData + n ∧ n ≤ c.input.length ∧ c'.Bounded ∧
      c'.input = c.input.drop n ∧ arrived [l] = [] := by
  obtain ⟨inline, rfl, rfl⟩ := eq_stepCall hcalls h
  have hleads := leads_handle casts types format c handler
  rw [hrun] at hleads
  obtain ⟨n, header, hn, rfl, -⟩ := hleads
  have hbounded : ({ c with inputData := c.inputData + n } : Channel).Bounded :=
    hb.consumed (by rwa [← length_input hb])
  refine ⟨n, rfl, hn, ?_⟩
  rw [stepCall, hrun]
  cases found with
  | size size next =>
    dsimp only
    split_ifs
    · exact ⟨hbounded, input_consumed n, rfl⟩
    · exact ⟨hbounded, input_consumed n, rfl⟩
  | transmission t =>
    dsimp only
    exact ⟨hbounded, input_consumed n, rfl⟩

theorem next_ok {found : Found} {c₁ : Channel} (hcalls : s.channel.calls = .handle handler :: calls)
    (hrun : handle casts types format s.channel handler = .ok (found, c₁)) :
    (s.next casts types format).1 = s.start + extent s.announced s.channel.input handler := by
  rw [next, hcalls]
  dsimp only
  rw [hrun]
  cases found with
  | size size next => rfl
  | transmission t => rfl

/-- **Step lemma.** A step keeps the input where the next part starts exactly if it meets the
condition. -/
theorem step_iff (hb : s.channel.Bounded) (ha : s.Aligned) (h : s.step casts types format l = some t) :
    t.channel.Bounded ∧ (t.Aligned ↔ s.Meets types format) := by
  obtain ⟨c, hc, rfl⟩ := Option.map_eq_some_iff.mp h
  obtain ⟨hle, hinput⟩ := ha
  by_cases hhandle : ∃ handler calls, s.channel.calls = .handle handler :: calls
  · obtain ⟨handler, calls, hcalls⟩ := hhandle
    rw [meets_iff hcalls, ← consumes_iff casts]
    cases hrun : handle casts types format s.channel handler with
    | error e =>
      obtain ⟨hbounded, hsame, harrived⟩ := error_step hb hcalls hrun hc
      have hnext : (s.next casts types format).1 = s.start := by
        rw [next, hcalls]
        dsimp only
        rw [hrun]
      refine ⟨hbounded, iff_of_true ?_ fun found c₁ h => ?_⟩
      · rw [Aligned, hnext, hsame, harrived, List.append_nil]
        exact ⟨hle, hinput⟩
      · rw [hrun] at h
        cases h
    | ok r =>
      obtain ⟨found, c₁⟩ := r
      obtain ⟨n, hconsumed, hn, hbounded, hrest, harrived⟩ := ok_step hb hcalls hrun hc
      refine ⟨hbounded, ?_⟩
      rw [Aligned, next_ok hcalls hrun, hrest, harrived, List.append_nil]
      dsimp only
      rw [hinput, List.length_drop] at hn
      rw [hinput, List.drop_drop]
      constructor
      · rintro ⟨hstart, hdrop⟩ found' c' h
        cases hrun.symm.trans h
        have hlength := congrArg List.length hdrop
        rw [List.length_drop, List.length_drop] at hlength
        rw [hconsumed]
        omega
      · intro h
        have hextent := h found c₁ hrun
        rw [hconsumed, Nat.add_left_cancel_iff] at hextent
        rw [← hextent]
        exact ⟨by omega, rfl⟩
  · push Not at hhandle
    obtain ⟨hbounded, hrest⟩ := input_step hb hc hhandle
    have hnext : (s.next casts types format).1 = s.start := by
      rw [next]
      split
      · rename_i handler calls hcalls
        exact absurd hcalls (hhandle handler calls)
      · rfl
    refine ⟨hbounded, iff_of_true ?_ fun handler calls hcalls _ =>
      absurd hcalls (hhandle handler calls)⟩
    rw [Aligned, hnext, hrest, hinput]
    dsimp only
    rw [List.drop_append_of_le_length hle, List.length_append]
    exact ⟨hle.trans (Nat.le_add_right _ _), rfl⟩

/-- **Run lemma.** The runs that meet the condition are those in which the input starts with the next
part, in every state. -/
theorem run_iff {ls : List Label} (hb : s.channel.Bounded) (ha : s.Aligned) :
    Run (Guarded (ofPartial (step casts types format)) fun s _ => s.Meets types format) s ls t ↔
      Run (fun s l t => ofPartial (step casts types format) s l t ∧ t.Aligned) s ls t := by
  constructor
  · intro r
    induction r with
    | nil s => exact .nil s
    | cons h _ ih =>
      obtain ⟨hb', hiff⟩ := step_iff hb ha h.1
      exact .cons ⟨h.1, hiff.mpr h.2⟩ (ih hb' (hiff.mpr h.2))
  · intro r
    induction r with
    | nil s => exact .nil s
    | cons h _ ih =>
      obtain ⟨hb', hiff⟩ := step_iff hb ha h.1
      exact .cons ⟨h.1, hiff.mp h.2⟩ (ih hb' h.2)

end Ledger

/-! ## Sizes -/

/-- The sizes at the front of a frame are those of what follows. -/
def Announces : TransmissionFormat → List UInt8 → Prop
  | .v1, frame => ∃ size header payloadSize, deserializeHeaderSize frame = .ok (size, 2) ∧
      CborSerializer.deserialize casts dotsTransportHeaderProperties (Instance.fresh _) Finset.univ
        (frame.drop 2) = .ok (header, size) ∧
      TransportHeader.payloadSize header = some payloadSize ∧
      payloadSize.toNat = (frame.drop (2 + size)).length
  | .v2, frame => ∃ size, deserializeUnsigned frame = .ok (size, 5) ∧
      size.toNat = (frame.drop 5).length

variable {casts}

theorem toNat_ofNat_eq_iff (w n : ℕ) : (BitVec.ofNat w n).toNat = n ↔ n < 2 ^ w := by
  rw [BitVec.toNat_ofNat]
  exact ⟨fun h => h ▸ Nat.mod_lt _ (Nat.two_pow_pos w), Nat.mod_eq_of_lt⟩

/-- The sizes of the format v1. -/
theorem announces_v1 {now : BitVec 64} {t : Transmission} {frame : List UInt8}
    (h : serializeTransmission .v1 now t = .ok frame) :
    Announces casts .v1 frame ↔ t.HeaderFits .v1 now ∧ t.PayloadFits .v1 := by
  obtain ⟨payload, hp, h⟩ := bind_eq_ok h
  obtain ⟨header, hh, h⟩ := bind_eq_ok h
  cases h
  have hsize := deserializeHeaderSize_append (BitVec.ofNat 16 header.length) (header ++ payload)
  have hheader := deserialize_of_serialize casts dotsTransportHeaderProperties_wellFormed hh payload
  rw [Instance.restrict_validProperties] at hheader
  have hdrop (a b : UInt8) : (([a, b] ++ (header ++ payload)).drop (2 + header.length)) = payload := by
    rw [← List.append_assoc]
    exact List.drop_left' (by simp only [List.length_append, List.length_cons, List.length_nil])
  have hheaderFits : t.HeaderFits .v1 now ↔ (BitVec.ofNat 16 header.length).toNat = header.length := by
    rw [toNat_ofNat_eq_iff]
    constructor
    · exact fun hfits => hfits header payload hp hh
    · intro hlt header' payload' hp' hh'
      cases hp.symm.trans hp'
      cases hh.symm.trans hh'
      exact hlt
  have hpayloadFits : t.PayloadFits .v1 ↔ (BitVec.ofNat 32 payload.length).toNat = payload.length := by
    rw [toNat_ofNat_eq_iff]
    constructor
    · exact fun hfits => hfits payload hp
    · intro hlt payload' hp'
      cases hp.symm.trans hp'
      exact hlt
  rw [hheaderFits, hpayloadFits, List.append_assoc]
  constructor
  · rintro ⟨size, header', payloadSize, hsize', hheader', hpayload, hlength⟩
    obtain ⟨rfl, -⟩ := Prod.mk.inj (Except.ok.inj (hsize.symm.trans hsize'))
    obtain ⟨rfl, hheaderLength⟩ := Prod.mk.inj (Except.ok.inj (hheader.symm.trans hheader'))
    obtain rfl := Option.some.inj hpayload
    rw [← hheaderLength, hdrop] at hlength
    exact ⟨hheaderLength.symm, hlength⟩
  · rintro ⟨h16, h32⟩
    refine ⟨header.length, _, _, hsize.trans (by rw [h16]), hheader, rfl, h32.trans ?_⟩
    rw [hdrop]

/-- The size of the format v2. -/
theorem announces_v2 {now : BitVec 64} {t : Transmission} {frame : List UInt8}
    (h : serializeTransmission .v2 now t = .ok frame) :
    Announces casts .v2 frame ↔ t.PayloadFits .v2 := by
  obtain ⟨header, hh, h⟩ := bind_eq_ok h
  obtain ⟨payload, hp, h⟩ := bind_eq_ok h
  cases h
  have hsize := deserializeUnsigned_append (BitVec.ofNat 32 (header ++ payload).length)
    (header ++ payload)
  have hdrop (size : ℕ) : ((0x1A :: CborWriter.writeContingentBytes size 4) ++
      (header ++ payload)).drop 5 = header ++ payload :=
    List.drop_left' (by rw [List.length_cons, CborWriter.length_writeContingentBytes])
  have hfits : t.PayloadFits .v2 ↔
      (BitVec.ofNat 32 (header ++ payload).length).toNat = (header ++ payload).length := by
    rw [toNat_ofNat_eq_iff]
    constructor
    · exact fun hfits => hfits header payload hh hp
    · intro hlt header' payload' hh' hp'
      cases hp.symm.trans hp'
      cases hh.symm.trans hh'
      exact hlt
  rw [hfits]
  constructor
  · rintro ⟨size, hsize', hlength⟩
    obtain ⟨rfl, -⟩ := Prod.mk.inj (Except.ok.inj (hsize.symm.trans hsize'))
    rwa [hdrop] at hlength
  · intro h32
    refine ⟨_, hsize, h32.trans ?_⟩
    rw [hdrop]

/-- **Frames are consumed exactly** if the maps end with the parts whose size was announced, and only
then; without an error the next part starts where the announced sizes say. The sizes that are written
announce what follows exactly if they can hold it. -/
theorem frames_exact (casts : FloatCasts) (types : Types) (format : TransmissionFormat) :
    (∀ (ls : List Label) (s : Ledger),
      Run (Guarded (ofPartial (Ledger.step casts types format)) fun s _ => s.Meets types format)
          Ledger.initial ls s ↔
        Run (fun s l t => ofPartial (Ledger.step casts types format) s l t ∧ t.Aligned)
          Ledger.initial ls s) ∧
    (∀ (n : ℕ) (handler : Handler) (c : Channel),
      Consumes casts types format n handler c ↔ EndsAt types format n handler c) ∧
    ∀ (now : BitVec 64) (t : Transmission) (frame : List UInt8),
      serializeTransmission format now t = .ok frame →
        (Announces casts format frame ↔ t.HeaderFits format now ∧ t.PayloadFits format) := by
  refine ⟨fun ls s => Ledger.run_iff ⟨le_rfl, le_rfl⟩ ⟨le_rfl, rfl⟩, consumes_iff casts,
    fun now t frame h => ?_⟩
  cases format with
  | v1 => exact announces_v1 h
  | v2 =>
    rw [announces_v2 h]
    refine ⟨fun hfits => ⟨?_, hfits⟩, fun hfits => hfits.2⟩
    obtain ⟨header', hh', h⟩ := bind_eq_ok h
    obtain ⟨payload, hp, -⟩ := bind_eq_ok h
    intro header hh
    cases hh'.symm.trans hh
    have hle := hfits header' payload hh' hp
    rw [List.length_append] at hle
    omega

/-- The frame of a short note. -/
def shortNoteFrame : List UInt8 :=
  [0x1A, 0, 0, 0, 13, 0xA2, 0x01, 0x64, 78, 111, 116, 101, 0x03, 0x02, 0xA1, 0x01, 0x61, 33]

/-- A note with a byte behind it. -/
theorem frames_exact_shortNote :
    (∃ s, Run (Guarded (ofPartial (Ledger.step noCasts noteTypes .v2)) fun s _ => s.Meets noteTypes .v2)
        Ledger.initial
        [.call true, .call true, .read (shortNoteFrame ++ [0xFF]), .call true, .call true] s ∧
      s.channel.received.length = 1 ∧ s.start = 18 ∧ s.channel.input = [0xFF]) ∧
    Announces noCasts .v2 shortNoteFrame := by
  have h := frames_exact noCasts noteTypes .v2
  constructor
  · have hrun : ((exec (fun s l => (Ledger.step noCasts noteTypes .v2 s l).filter fun t => t.Aligned)
        Ledger.initial
        [.call true, .call true, .read (shortNoteFrame ++ [0xFF]), .call true, .call true]).map
          fun s => (s.channel.received.length, s.start, s.channel.input)) = some (1, 18, [0xFF]) := by
      decide +kernel
    obtain ⟨s, hs, hdata⟩ := Option.map_eq_some_iff.mp hrun
    simp only [Prod.mk.injEq] at hdata
    refine ⟨s, (h.1 _ s).mpr ((run_of_exec hs).mono fun s l t hstep => ?_), hdata⟩
    obtain ⟨hstep, haligned⟩ := Option.filter_eq_some_iff.mp hstep
    exact ⟨hstep, of_decide_eq_true haligned⟩
  · have hframe : serializeTransmission .v2 0 shortNote = .ok shortNoteFrame := by
      rw [shortNote, serializeTransmission_note]
      rfl
    exact (h.2.2 0 shortNote shortNoteFrame hframe).mpr
      ⟨note_headerFits 0 _, note_payloadFits (by decide)⟩

theorem not_payloadFits_large {text : {bytes : List UInt8 // bytes.length < sizeLimit}}
    (h : text.1.length = 2 ^ 32 - 16) : ¬(note text).PayloadFits .v2 := by
  intro hfits
  have hlt := hfits _ _ serializeStruct_noteHeader (serializeInstance_note text)
  have hlength : ([0xA2, 0x01, 0x64, 78, 111, 116, 101, 0x03, 0x02] ++
      ([0xA1, 0x01] ++ CborWriter.writeString text.1)).length = 2 ^ 32 := by
    rw [← length_writeString_large h, List.length_append, List.length_append, ← Nat.add_assoc]
    rfl
  exact hlt.ne hlength

/-- **A note that announces a byte too many**: it is received, and the next frame starts at the last
of its bytes. **A note of four gigabytes** announces nothing. -/
theorem frames_not_exact :
    (∃ ls s, Run (ofPartial (Ledger.step noCasts noteTypes .v2)) Ledger.initial ls s ∧
      s.bytes = [0x1A, 0, 0, 0, 14, 0xA2, 0x01, 0x64, 78, 111, 116, 101, 0x03, 0x02, 0xA1, 0x01, 0x61,
        33, 0xFF] ∧ s.channel.error.isNone = true ∧ s.channel.received.length = 1 ∧ s.start = 19 ∧
      s.channel.input = [0xFF] ∧ ¬s.Aligned) ∧
    ∃ frame, serializeTransmission .v2 0 (note largeText) = .ok frame ∧
      ¬Announces noCasts .v2 frame := by
  constructor
  · have hrun : ((exec (Ledger.step noCasts noteTypes .v2) Ledger.initial [.call true, .call true,
        .read [0x1A, 0, 0, 0, 14, 0xA2, 0x01, 0x64, 78, 111, 116, 101, 0x03, 0x02, 0xA1, 0x01, 0x61,
          33, 0xFF], .call true, .call true]).map fun s =>
            (s.bytes, s.channel.error.isNone, s.channel.received.length, s.start, s.channel.input,
              decide s.Aligned)) =
        some ([0x1A, 0, 0, 0, 14, 0xA2, 0x01, 0x64, 78, 111, 116, 101, 0x03, 0x02, 0xA1, 0x01, 0x61,
          33, 0xFF], true, 1, 19, [0xFF], false) := by
      decide +kernel
    obtain ⟨s, hs, hdata⟩ := Option.map_eq_some_iff.mp hrun
    simp only [Prod.mk.injEq, decide_eq_false_iff_not] at hdata
    exact ⟨_, s, run_of_exec hs, hdata⟩
  · obtain ⟨rest, hframe⟩ := serializeTransmission_large length_largeText
    exact ⟨_, hframe, fun h => not_payloadFits_large length_largeText ((announces_v2 hframe).mp h)⟩

end Dots.AsyncStreamChannel

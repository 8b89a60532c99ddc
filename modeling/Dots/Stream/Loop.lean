import Dots.Lib.Run
import Dots.Stream.Model

/-!
# The receive loop

* `Awaits`: the channel waits, with some handler, for the first part of what is still to come; the
  handler finds the size of the next part, or a transmission.
* `Control`: the calls in progress and the flag `m_readDispatching` in every state of the loop.
* `Invariant`, **`Invariant.step`**, **`Invariant.run`**: however the bytes arrive, the input is the
  part of the stream that was not consumed, and what was received is what came before it.
* `potential`: between two reads the loop makes finitely many steps.
-/

set_option autoImplicit false

namespace Dots.AsyncStreamChannel

open Lts

variable {c c' : Channel} {n : ℕ} {handler : Handler} {bytes : List UInt8}

/-! ## The buffer -/

namespace Channel

/-- The input lies in the buffer. -/
def Bounded (c : Channel) : Prop :=
  c.inputData ≤ c.inputDataEnd ∧ c.inputDataEnd ≤ c.readBuffer.length

theorem length_input (h : c.Bounded) : c.input.length = c.inputAvailable := by
  have h₁ := h.1
  have h₂ := h.2
  rw [input, List.length_take, List.length_drop, inputAvailable]
  omega

theorem input_consumed (n : ℕ) :
    ({ c with inputData := c.inputData + n } : Channel).input = c.input.drop n := by
  have havailable : c.inputDataEnd - (c.inputData + n) = c.inputAvailable - n := by
    rw [inputAvailable]
    omega
  rw [input, input, List.drop_take, List.drop_drop]
  exact congrArg (List.take · _) havailable

theorem Bounded.consumed (h : c.Bounded) (hn : n ≤ c.inputAvailable) :
    ({ c with inputData := c.inputData + n } : Channel).Bounded := by
  refine ⟨?_, h.2⟩
  rw [inputAvailable] at hn
  have h₁ := h.1
  show c.inputData + n ≤ c.inputDataEnd
  omega

end Channel

open Channel

theorem length_resize (buffer : List UInt8) (size : ℕ) : (resize buffer size).length = size := by
  rw [resize, List.length_append, List.length_take, List.length_replicate]
  omega

/-- The front of a buffer stays when it is resized. -/
theorem take_resize (w buffer : List UInt8) {n : ℕ} (h : w.length ≤ n) :
    (resize (w ++ buffer) n).take w.length = w := by
  rw [resize, List.take_append_of_le_length, List.take_take, min_eq_left h, List.take_left']
  · rfl
  · rw [List.length_take, List.length_append]
    omega

/-- **The input is moved** to the front, and there is room behind it. -/
theorem startRead_spec (handler : Handler) (h : c.Bounded) (hn : c.inputAvailable < n) :
    (startRead n handler c).Bounded ∧ (startRead n handler c).input = c.input ∧
      (startRead n handler c).inputDataEnd < (startRead n handler c).readBuffer.length := by
  have hlength : (startRead n handler c).readBuffer.length = max readBufferMinSize n :=
    length_resize _ _
  have hend : (startRead n handler c).inputDataEnd = c.inputAvailable := rfl
  have hroom : c.inputAvailable < max readBufferMinSize n := lt_max_of_lt_right hn
  refine ⟨⟨Nat.zero_le _, ?_⟩, ?_, ?_⟩
  · rw [hlength, hend]
    exact hroom.le
  · have htake := take_resize c.input (c.readBuffer.drop c.inputAvailable)
      (n := max readBufferMinSize n) (by rw [length_input h]; exact hroom.le)
    rw [length_input h] at htake
    exact htake
  · rw [hlength, hend]
    exact hroom

/-- **A read appends** to the input. -/
theorem completeRead_spec (h : c.Bounded)
    (hroom : bytes.length ≤ c.readBuffer.length - c.inputDataEnd) :
    (completeRead bytes c).Bounded ∧ (completeRead bytes c).input = c.input ++ bytes ∧
      (completeRead bytes c).inputAvailable = c.inputAvailable + bytes.length := by
  obtain ⟨h₁, h₂⟩ := h
  have havailable : (completeRead bytes c).inputAvailable = c.inputAvailable + bytes.length := by
    rw [inputAvailable, inputAvailable]
    show c.inputDataEnd + bytes.length - c.inputData = _
    omega
  refine ⟨⟨?_, ?_⟩, ?_, havailable⟩
  · show c.inputData ≤ c.inputDataEnd + bytes.length
    omega
  · show c.inputDataEnd + bytes.length ≤ (c.readBuffer.take c.inputDataEnd ++ bytes ++
      c.readBuffer.drop (c.inputDataEnd + bytes.length)).length
    have hend : c.inputDataEnd + bytes.length ≤ c.readBuffer.length :=
      Nat.add_le_of_le_sub' h₂ hroom
    simp only [List.length_append, List.length_take, List.length_drop]
    omega
  · have htake : (c.readBuffer.take c.inputDataEnd).length = c.inputDataEnd := by
      rw [List.length_take]
      omega
    have hfront : (c.readBuffer.take c.inputDataEnd).drop c.inputData = c.input := by
      rw [input, inputAvailable, List.drop_take]
    have hlength : c.input.length = c.inputAvailable := length_input ⟨h₁, h₂⟩
    rw [input, havailable]
    show ((c.readBuffer.take c.inputDataEnd ++ bytes ++ _).drop c.inputData).take _ = _
    rw [List.append_assoc, List.drop_append_of_le_length (by omega), hfront, ← List.append_assoc,
      List.take_left']
    rw [List.length_append, hlength]

/-! ## What is still to come -/

variable (casts : FloatCasts) (types : Types) (format : TransmissionFormat)

/-- On a part that lies at the front of the input, whatever follows, the handler finds `found`. -/
def Finds (received : List Transmission) (header : TransportHeader) (handler : Handler)
    (part : List UInt8) (found : Found) (header' : TransportHeader) : Prop :=
  ∀ c : Channel, c.received = received → c.transportHeader = header → part <+: c.input →
    handle casts types format c handler = .ok (found,
      { c with inputData := c.inputData + part.length, transportHeader := header' })

/-- A handler waits for the first part of the bytes to come, in which the transmissions lie. -/
inductive Awaits : List Transmission → TransportHeader → Handler → ℕ → List UInt8 →
    List Transmission → Prop
  | finish (received : List Transmission) (header : TransportHeader) :
      Awaits received header (firstHandler format) (transmissionSizeSize format) [] []
  | size {received : List Transmission} {header header' : TransportHeader}
      {handler next : Handler} {part rest : List UInt8} {size : ℕ} {ts : List Transmission}
      (hpart : part ≠ [])
      (hfinds : Finds casts types format received header handler part (.size size next) header')
      (r : Awaits received header' next size rest ts) :
      Awaits received header handler part.length (part ++ rest) ts
  | transmission {received : List Transmission} {header header' : TransportHeader}
      {handler : Handler} {part rest : List UInt8} {t : Transmission} {ts : List Transmission}
      (hpart : part ≠ [])
      (hfinds : Finds casts types format received header handler part (.transmission t) header')
      (r : Awaits (received ++ [t]) header' (firstHandler format) (transmissionSizeSize format)
        rest ts) :
      Awaits received header handler part.length (part ++ rest) (t :: ts)

/-- Inside of a dispatched handler the flag is set until the next receive. -/
def below (readDispatching : Bool) : List Call := if readDispatching then [.afterDispatch] else []

/-- What the event loop holds fits what the channel waits for. -/
def Waits (c : Channel) (handler : Handler) (n : ℕ) : Operation → Prop
  | .read m h => m = n ∧ h = handler ∧ c.inputAvailable < n ∧ c.inputDataEnd < c.readBuffer.length
  | .dispatch h => h = handler ∧ n ≤ c.inputAvailable

/-- The states of the loop while the channel waits for `n` bytes with a handler. -/
inductive Control (c : Channel) (handler : Handler) (n : ℕ) : Prop
  | receive (calls : c.calls = .asyncReceive :: below c.readDispatching)
      (pending : c.pending = none) (first : handler = firstHandler format)
      (size : n = transmissionSizeSize format)
  | read (calls : c.calls = .asyncRead n handler :: below c.readDispatching)
      (pending : c.pending = none) (inner : c.readDispatching = true → c.inputAvailable < n)
  | handle (calls : c.calls = .handle handler :: below c.readDispatching)
      (pending : c.pending = none) (available : n ≤ c.inputAvailable)
  | returned (flag : c.readDispatching = false) (calls : c.calls = [.afterDispatch])
      (pending : c.pending = none) (first : handler = firstHandler format)
      (size : n = transmissionSizeSize format)
  | suspended {o : Operation} (calls : c.calls = below c.readDispatching)
      (pending : c.pending = some o) (waits : Waits c handler n o)

/-- The bytes `w` of the stream have arrived. -/
structure Invariant (stream w : List UInt8) (all : List Transmission) (c : Channel) : Prop where
  bounded : c.Bounded
  noError : c.error = none
  state : ∃ handler n done rest ts, all = c.received ++ ts ∧ w = done ++ c.input ∧
    stream = done ++ rest ∧
    Awaits casts types format c.received c.transportHeader handler n rest ts ∧
    Control format c handler n

/-! ## Steps -/

/-- An upper bound for the steps until the next read, with ten for each byte of the input. -/
def Call.weight (readDispatching : Bool) : Call → ℕ
  | .asyncReceive => if readDispatching then 10 else 8
  | .asyncRead _ _ => 7
  | .handle _ => 2
  | .afterDispatch => if readDispatching then 1 else 9

def Operation.weight : Operation → ℕ
  | .read _ _ => 0
  | .dispatch _ => 3

def potential (c : Channel) : ℕ :=
  10 * c.inputAvailable + (c.calls.map (Call.weight c.readDispatching)).sum +
    (c.pending.map Operation.weight).getD 0

variable {casts types format} {stream w : List UInt8} {all : List Transmission}

/-- **A handler that has what it waits for** consumes it. -/
theorem Awaits.handle {received : List Transmission} {header : TransportHeader}
    {rest : List UInt8} {ts : List Transmission}
    (h : Awaits casts types format received header handler n rest ts)
    (hreceived : c.received = received) (hheader : c.transportHeader = header)
    (hbounded : c.Bounded) (hinput : c.input <+: rest) (hn : n ≤ c.inputAvailable) :
    ∃ part rest' header' found, part ≠ [] ∧ rest = part ++ rest' ∧ part.length ≤ c.inputAvailable ∧
      part <+: c.input ∧
      AsyncStreamChannel.handle casts types format c handler = .ok (found,
        { c with inputData := c.inputData + part.length, transportHeader := header' }) ∧
      match found with
      | .size m next => Awaits casts types format received header' next m rest' ts
      | .transmission t => ∃ ts', ts = t :: ts' ∧ Awaits casts types format (received ++ [t]) header'
          (firstHandler format) (transmissionSizeSize format) rest' ts' := by
  have hlength := length_input hbounded
  cases h with
  | finish =>
    -- no byte is left, so no handler has the first part of a frame
    have hnil : c.input.length = 0 := List.length_eq_zero_iff.mpr (List.prefix_nil.mp hinput)
    have hpos : 0 < transmissionSizeSize format := by cases format <;> decide
    omega
  | @size _ _ header' _ next part rest' m _ hpart hfinds r =>
    have hprefix : part <+: c.input :=
      List.prefix_of_prefix_length_le (List.prefix_append part rest') hinput (by omega)
    exact ⟨part, rest', header', _, hpart, rfl, hn, hprefix, hfinds c hreceived hheader hprefix, r⟩
  | @transmission _ _ header' _ part rest' t ts hpart hfinds r =>
    have hprefix : part <+: c.input :=
      List.prefix_of_prefix_length_le (List.prefix_append part rest') hinput (by omega)
    exact ⟨part, rest', header', _, hpart, rfl, hn, hprefix, hfinds c hreceived hheader hprefix,
      ts, rfl, r⟩

/-- What has arrived and was not consumed is what comes first. -/
theorem isPrefix_input {done rest : List UInt8} (hw : w <+: stream) (h : w = done ++ c.input)
    (hstream : stream = done ++ rest) : c.input <+: rest := by
  rw [h, hstream] at hw
  exact (List.prefix_append_right_inj done).mp hw

theorem potential_eq (c : Channel) {calls : List Call} {pending : Option Operation}
    (hcalls : c.calls = calls) (hpending : c.pending = pending) :
    potential c = 10 * c.inputAvailable + (calls.map (Call.weight c.readDispatching)).sum +
      (pending.map Operation.weight).getD 0 := by
  rw [potential, hcalls, hpending]

/-- **A step of a call** keeps the invariant. -/
theorem Invariant.call (h : Invariant casts types format stream w all c) (hw : w <+: stream)
    {inline : Bool} (hs : step casts types format c (.call inline) = some c') :
    Invariant casts types format stream w all c' ∧ potential c' < potential c := by
  obtain ⟨hb, he, handler, n, done, rest, ts, hall, hdone, hstream, hawaits, hcontrol⟩ := h
  cases hcontrol with
  | receive calls pending first size =>
    simp only [step, calls, Option.some.injEq] at hs
    subst hs
    rw [potential_eq c calls pending]
    cases hf : c.readDispatching with
    | true =>
      rw [stepCall, if_pos hf]
      refine ⟨⟨hb, he, handler, n, done, rest, ts, hall, hdone, hstream, hawaits,
        .returned rfl (by simp [below]) pending first size⟩, ?_⟩
      simp [potential, pending, below, Call.weight, inputAvailable]
    | false =>
      rw [stepCall, if_neg (by simp [hf]), ← first, ← size]
      refine ⟨⟨hb, he, handler, n, done, rest, ts, hall, hdone, hstream, hawaits,
        .read (by simp [hf]) pending (by simp [hf])⟩, ?_⟩
      simp [potential, pending, hf, below, Call.weight, inputAvailable]
  | read calls pending inner =>
    simp only [step, calls, Option.some.injEq] at hs
    subst hs
    rw [potential_eq c calls pending, stepCall]
    split_ifs with havailable hinline
    · have hf : c.readDispatching = false := by
        by_contra hf
        rw [Bool.not_eq_false] at hf
        exact absurd (inner hf) (Nat.not_lt.mpr havailable)
      refine ⟨⟨hb, he, handler, n, done, rest, ts, hall, hdone, hstream, hawaits,
        .handle (by simp [below, hf]) pending havailable⟩, ?_⟩
      simp [potential, pending, hf, below, Call.weight, inputAvailable]
    · have hf : c.readDispatching = false := by
        by_contra hf
        rw [Bool.not_eq_false] at hf
        exact absurd (inner hf) (Nat.not_lt.mpr havailable)
      refine ⟨⟨hb, he, handler, n, done, rest, ts, hall, hdone, hstream, hawaits,
        .suspended (o := .dispatch handler) (by simp [below, hf]) rfl ⟨rfl, havailable⟩⟩, ?_⟩
      simp [potential, hf, below, Call.weight, Operation.weight, inputAvailable]
    · have hspec := startRead_spec (c := { c with calls := below c.readDispatching }) handler hb
        (Nat.lt_of_not_le havailable)
      refine ⟨⟨hspec.1, he, handler, n, done, rest, ts, hall, ?_, hstream, hawaits,
        .suspended (o := .read n handler) rfl rfl
          ⟨rfl, rfl, Nat.lt_of_not_le havailable, hspec.2.2⟩⟩, ?_⟩
      · rw [hspec.2.1]
        exact hdone
      · simp [potential, startRead, Call.weight, Operation.weight, inputAvailable]
  | handle calls pending available =>
    simp only [step, calls, Option.some.injEq] at hs
    subst hs
    obtain ⟨part, rest', header', found, hpart, rfl, hlength, hprefix, hhandle, hfound⟩ :=
      hawaits.handle rfl rfl hb (isPrefix_input hw hdone hstream) available
    have hpos : 0 < part.length := List.length_pos_iff.mpr hpart
    have hinput : w = (done ++ part) ++ c.input.drop part.length := by
      obtain ⟨u, hu⟩ := hprefix
      rw [hdone, ← hu, List.drop_left, List.append_assoc]
    rw [← List.append_assoc] at hstream
    rw [potential_eq c calls pending, stepCall, hhandle]
    cases found with
    | size m next =>
      have hb' := hb.consumed hlength
      dsimp only
      split_ifs with havailable
      · refine ⟨⟨hb', he, next, m, done ++ part, rest', ts, hall, ?_, hstream, hfound,
          .handle rfl pending havailable⟩, ?_⟩
        · exact hinput.trans (congrArg _ (input_consumed part.length).symm)
        · simp only [potential, pending, List.map_cons, List.sum_cons, Call.weight, inputAvailable]
            at hlength ⊢
          omega
      · refine ⟨⟨hb', he, next, m, done ++ part, rest', ts, hall, ?_, hstream, hfound,
          .read rfl pending fun _ => Nat.lt_of_not_le havailable⟩, ?_⟩
        · exact hinput.trans (congrArg _ (input_consumed part.length).symm)
        · simp only [potential, pending, List.map_cons, List.sum_cons, Call.weight, inputAvailable]
            at hlength ⊢
          omega
    | transmission t =>
      obtain ⟨ts, rfl, hrest⟩ := hfound
      have hb' := hb.consumed hlength
      refine ⟨⟨hb', he, _, _, done ++ part, rest', ts, ?_, ?_, hstream, hrest,
        .receive rfl pending rfl rfl⟩, ?_⟩
      · rw [hall, List.append_assoc]
        rfl
      · exact hinput.trans (congrArg _ (input_consumed part.length).symm)
      · simp only [potential, pending, List.map_cons, List.sum_cons, Call.weight, inputAvailable]
          at hlength ⊢
        split_ifs <;> omega
  | returned flag calls pending first size =>
    simp only [step, calls, Option.some.injEq] at hs
    subst hs
    rw [potential_eq c calls pending, stepCall, if_neg (by simp [flag])]
    refine ⟨⟨hb, he, handler, n, done, rest, ts, hall, hdone, hstream, hawaits,
      .receive (by simp [below, flag]) pending first size⟩, ?_⟩
    simp [potential, pending, flag, Call.weight, inputAvailable]
  | @suspended op calls pending waits =>
    cases hf : c.readDispatching with
    | false =>
      rw [below, hf, if_neg Bool.false_ne_true] at calls
      simp [step, calls] at hs
    | true =>
      rw [below, hf, if_pos rfl] at calls
      simp only [step, calls, Option.some.injEq] at hs
      subst hs
      rw [potential_eq c calls pending, stepCall, if_pos hf]
      refine ⟨⟨hb, he, handler, n, done, rest, ts, hall, hdone, hstream, hawaits,
        .suspended (by simp [below]) pending waits⟩, ?_⟩
      simp [potential, pending, hf, Call.weight, inputAvailable]

/-- **A read** of what the stream goes on with. -/
theorem Invariant.read (h : Invariant casts types format stream w all c)
    (hs : step casts types format c (.read bytes) = some c') :
    Invariant casts types format stream (w ++ bytes) all c' ∧
      potential c' < potential c + 18 * bytes.length := by
  obtain ⟨hb, he, handler, n, done, rest, ts, hall, hdone, hstream, hawaits, hcontrol⟩ := h
  obtain ⟨m, handler', hcalls, hpending⟩ : ∃ m handler', c.calls = [] ∧
      c.pending = some (.read m handler') := by
    cases hcalls : c.calls with
    | cons call calls => simp [step, hcalls] at hs
    | nil =>
      cases hpending : c.pending with
      | none => simp [step, hcalls, hpending] at hs
      | some op =>
        cases op with
        | dispatch handler => simp [step, hcalls, hpending] at hs
        | read m handler => exact ⟨m, handler, rfl, rfl⟩
  obtain ⟨hf, rfl, rfl⟩ : c.readDispatching = false ∧ m = n ∧ handler' = handler := by
    cases hcontrol with
    | receive calls => simp [hcalls] at calls
    | read calls => simp [hcalls] at calls
    | handle calls => simp [hcalls] at calls
    | returned _ calls => simp [hcalls] at calls
    | suspended calls pending waits =>
      obtain rfl := Option.some.inj (hpending.symm.trans pending)
      refine ⟨?_, waits.1, waits.2.1⟩
      rw [hcalls, below] at calls
      by_contra hf
      simp [hf] at calls
  simp only [step, hcalls, hpending] at hs
  split_ifs at hs with hroom hshort
  · obtain rfl := Option.some.inj hs
    obtain ⟨hb', hinput, havailable⟩ :=
      completeRead_spec (c := { c with pending := none }) hb hroom.2
    refine ⟨⟨hb', he, handler', m, done, rest, ts, hall, ?_, hstream, hawaits,
      .read (by simp [completeRead, below, hf]) rfl (by simp [completeRead, hf])⟩, ?_⟩
    · rw [hdone, List.append_assoc]
      exact congrArg (done ++ ·) hinput.symm
    · rw [potential_eq c hcalls hpending, potential_eq _ rfl rfl]
      have havailable' := havailable
      simp only [inputAvailable, List.map_cons, List.map_nil, List.sum_cons, List.sum_nil,
        Call.weight, completeRead, Option.map_none, Option.map_some, Option.getD_none,
        Option.getD_some, Operation.weight] at havailable' ⊢
      omega
  · obtain rfl := Option.some.inj hs
    obtain ⟨hb', hinput, havailable⟩ :=
      completeRead_spec (c := { c with pending := none }) hb hroom.2
    refine ⟨⟨hb', he, handler', m, done, rest, ts, hall, ?_, hstream, hawaits,
      .handle (by simp [completeRead, below, hf]) rfl (Nat.le_of_not_lt hshort)⟩, ?_⟩
    · rw [hdone, List.append_assoc]
      exact congrArg (done ++ ·) hinput.symm
    · rw [potential_eq c hcalls hpending, potential_eq _ rfl rfl]
      have havailable' := havailable
      simp only [inputAvailable, List.map_cons, List.map_nil, List.sum_cons, List.sum_nil,
        Call.weight, completeRead, Option.map_none, Option.map_some, Option.getD_none,
        Option.getD_some, Operation.weight] at havailable' ⊢
      omega

/-- **A dispatched handler** finds the input it was dispatched with. -/
theorem Invariant.dispatch (h : Invariant casts types format stream w all c)
    (hs : step casts types format c .dispatch = some c') :
    Invariant casts types format stream w all c' ∧ potential c' < potential c := by
  obtain ⟨hb, he, handler, n, done, rest, ts, hall, hdone, hstream, hawaits, hcontrol⟩ := h
  obtain ⟨handler', hcalls, hpending⟩ : ∃ handler', c.calls = [] ∧
      c.pending = some (.dispatch handler') := by
    cases hcalls : c.calls with
    | cons call calls => simp [step, hcalls] at hs
    | nil =>
      cases hpending : c.pending with
      | none => simp [step, hcalls, hpending] at hs
      | some op =>
        cases op with
        | read m handler => simp [step, hcalls, hpending] at hs
        | dispatch handler => exact ⟨handler, rfl, rfl⟩
  simp only [step, hcalls, hpending, Option.some.injEq] at hs
  subst hs
  cases hcontrol with
  | receive calls => simp [hcalls] at calls
  | read calls => simp [hcalls] at calls
  | handle calls => simp [hcalls] at calls
  | returned _ calls => simp [hcalls] at calls
  | suspended calls pending waits =>
    obtain rfl := Option.some.inj (hpending.symm.trans pending)
    obtain ⟨rfl, havailable⟩ := waits
    have hf : c.readDispatching = false := by
      rw [hcalls, below] at calls
      by_contra hf
      simp [hf] at calls
    refine ⟨⟨hb, he, handler', n, done, rest, ts, hall, hdone, hstream, hawaits,
      .handle (by simp [below, hf]) rfl havailable⟩, ?_⟩
    rw [potential_eq c hcalls hpending]
    simp [potential, Call.weight, Operation.weight, inputAvailable]

/-! ## Runs -/

/-- **Run lemma.** In every run on a part of the stream. -/
theorem Invariant.run {ls : List Label}
    (r : Run (ofPartial (step casts types format)) c ls c') (hw : w ++ arrived ls <+: stream)
    (h : Invariant casts types format stream w all c) :
    Invariant casts types format stream (w ++ arrived ls) all c' ∧
      potential c' + ls.length ≤ potential c + 18 * (arrived ls).length := by
  induction r generalizing w with
  | nil c => simpa [arrived] using h
  | @cons c d c' l ls hs r ih =>
    have hprefix : w <+: stream := (List.prefix_append w _).trans hw
    cases l with
    | call inline =>
      obtain ⟨h', hlt⟩ := h.call hprefix hs
      obtain ⟨hrun, hle⟩ := ih hw h'
      refine ⟨hrun, ?_⟩
      rw [List.length_cons, arrived]
      omega
    | dispatch =>
      obtain ⟨h', hlt⟩ := h.dispatch hs
      obtain ⟨hrun, hle⟩ := ih hw h'
      refine ⟨hrun, ?_⟩
      rw [List.length_cons, arrived]
      omega
    | read bytes =>
      obtain ⟨h', hlt⟩ := h.read hs
      rw [arrived, ← List.append_assoc] at hw
      obtain ⟨hrun, hle⟩ := ih hw h'
      rw [arrived, ← List.append_assoc]
      refine ⟨hrun, ?_⟩
      rw [List.length_cons, List.length_append]
      omega

/-- Nothing has arrived yet. -/
theorem invariant_initial
    (h : Awaits casts types format [] (Instance.fresh _) (firstHandler format)
      (transmissionSizeSize format) stream all) :
    Invariant casts types format stream [] all initial :=
  ⟨⟨Nat.le_refl _, Nat.le_refl _⟩, rfl, _, _, [], stream, all, rfl, rfl, rfl, h,
    .receive rfl rfl rfl rfl⟩

/-- **Where the loop comes to rest**, it waits for a read, and there is room for it. -/
theorem Invariant.at_rest (h : Invariant casts types format stream w all c)
    (hcall : step casts types format c (.call true) = none)
    (hdispatch : step casts types format c .dispatch = none) :
    (∀ b, (step casts types format c (.read [b])).isSome) ∧ (w = stream → c.received = all) := by
  obtain ⟨hb, he, handler, n, done, rest, ts, hall, hdone, hstream, hawaits, hcontrol⟩ := h
  have hcalls : c.calls = [] := by
    cases hcalls : c.calls with
    | nil => rfl
    | cons call calls => simp [step, hcalls] at hcall
  cases hcontrol with
  | receive calls => simp [hcalls] at calls
  | read calls => simp [hcalls] at calls
  | handle calls => simp [hcalls] at calls
  | returned _ calls => simp [hcalls] at calls
  | @suspended op calls pending waits =>
    cases op with
    | dispatch handler => simp [step, hcalls, pending] at hdispatch
    | read m handler' =>
      obtain ⟨rfl, rfl, hshort, hroom⟩ := waits
      refine ⟨fun b => ?_, fun hall' => ?_⟩
      · simp only [step, hcalls, pending, List.length_singleton]
        rw [if_pos ⟨Nat.one_pos, by omega⟩]
        split_ifs <;> rfl
      · have hrest : rest = c.input :=
          List.append_cancel_left (hstream.symm.trans (hall'.symm.trans hdone))
        have hlength : rest.length < m := by rwa [hrest, length_input hb]
        cases hawaits with
        | finish => rw [hall, List.append_nil]
        | size => exact absurd hlength (by simp)
        | transmission => exact absurd hlength (by simp)

end Dots.AsyncStreamChannel

import Dots.Stream.Transmit
import Dots.Stream.WebSocket

/-!
# Transmissions that throw

* `AsyncStreamChannel.RunTraceless`, `WebSocketChannel.RunTraceless`: behind a run, the bytes on the wire
  are those of the transmissions that return, and the serializer is in its initial state.
* **`runs_traceless`**: runs in which each transmission of the format v2, and each message, is
  serialized to its end.
* **`not_runs_traceless`**: an enum value without an enumerator leaves a part of a frame.
-/

set_option autoImplicit false

namespace Dots

open Keep
open Lts (Run Guarded ofPartial run_of_exec)

namespace AsyncStreamChannel

/-- What throws is not on the wire, and leaves the serializer in its initial state. -/
def RunTraceless (format : TransmissionFormat) (c : Sender) (ls : List Sender.Label) (c' : Sender) :
    Prop :=
  (Lts.exec (Keep.step (Sender.outcome format)) c (completed (Sender.outcome format) c ls)).map
    Sender.wire = some c'.wire ∧ c'.AtRest

end AsyncStreamChannel

namespace WebSocketChannel

open AsyncStreamChannel (dotsHeaderProperties)
open Json

variable {options : TextOptions} {converters : Converters}

def outcome (options : TextOptions) (converters : Converters) (c : Sender)
    (t : AsyncStreamChannel.Transmission) : Option (Except Exception Unit × Sender) :=
  some ((transmitImpl (JsonSerializer options converters) t).exec c)

/-- The enum values of the valid properties have enumerators. -/
def Encodable (t : AsyncStreamChannel.Transmission) : Prop :=
  Instance.Enumerated t.type.properties t.payload

theorem exists_message {t : AsyncStreamChannel.Transmission} (h : Encodable t) :
    ∃ text, message options converters t = .ok text := by
  obtain ⟨header, hheader⟩ : ∃ text, structText options converters 1
      (Instance.validProperties dotsHeaderProperties t.header) dotsHeaderProperties t.header = .ok text :=
    exists_structText (AsyncStreamChannel.dotsHeader_enumerated t.header).restrict 1
  obtain ⟨payload, hpayload⟩ : ∃ text, structText options converters 1
      (t.payload.validProperties t.type.properties) t.type.properties t.payload = .ok text :=
    exists_structText h.restrict 1
  exact ⟨_, by rw [message, hheader, hpayload]; rfl⟩

theorem outcome_of_encodable {c c' : Sender} {t : AsyncStreamChannel.Transmission}
    {r : Except Exception Unit} (hrest : c.AtRest) (h : Encodable t) (hstep : outcome options converters c t = some (r, c')) :
    c'.AtRest ∧ ∀ e, r = .error e → c' = c := by
  obtain ⟨text, htext⟩ : ∃ text, message options converters t = .ok text := exists_message h
  have hexec : (transmitImpl (JsonSerializer options converters) t).exec c =
      (.ok (), { c with wire := c.wire ++ [text] }) := gives_transmitImpl hrest htext
  rw [outcome, hexec] at hstep
  cases hstep
  exact ⟨⟨hrest.level, hrest.output, hrest.nesting⟩, fun e he => by cases he⟩

/-- What throws is not on the wire, and leaves the serializer in its initial state. -/
def RunTraceless (options : TextOptions) (converters : Converters) (c : Sender)
    (ts : List AsyncStreamChannel.Transmission) (c' : Sender) : Prop :=
  (Lts.exec (Keep.step (outcome options converters)) c (completed (outcome options converters) c ts)).map
    Sender.wire = some c'.wire ∧ c'.AtRest

end WebSocketChannel

/-! ## The channels -/

/-- **Without a trace.** In every run in which each transmission that is serialized in the format v2,
and each message, has an enumerator for each of its enum values, what throws leaves no trace. -/
theorem runs_traceless (format : AsyncStreamChannel.TransmissionFormat)
    (payloadCache : Option (ℕ × List UInt8)) (options : TextOptions) (converters : Converters) :
    (∀ ls c, Run (Guarded (ofPartial (Keep.step (AsyncStreamChannel.Sender.outcome format)))
        (AsyncStreamChannel.Sender.EncodableLabel format)) { payloadCache } ls c →
      AsyncStreamChannel.RunTraceless format { payloadCache } ls c) ∧
    ∀ ts c, Run (Guarded (ofPartial (Keep.step (WebSocketChannel.outcome options converters)))
        fun _ t => WebSocketChannel.Encodable t) {} ts c →
      WebSocketChannel.RunTraceless options converters {} ts c := by
  constructor
  · intro ls c r
    obtain ⟨hexec, hrest⟩ := exec_completed (fun _ _ _ _ => AsyncStreamChannel.outcome_of_encodable) r
      ⟨rfl, fun _ => rfl⟩
    exact ⟨by rw [hexec]; rfl, hrest⟩
  · intro ts c r
    obtain ⟨hexec, hrest⟩ := exec_completed (fun _ _ _ _ => WebSocketChannel.outcome_of_encodable) r
      ⟨rfl, rfl, rfl⟩
    exact ⟨by rw [hexec]; rfl, hrest⟩

namespace AsyncStreamChannel

/-- A list of states, each in a struct. -/
def historyType : StructType where
  name := ascii "History"
  internal := false
  properties := .cons ⟨"entries", 1, false⟩ (.vector (.struct (.cons ⟨"state", 1, false⟩
    (.enumeration "State" [⟨1, "off", 0⟩, ⟨2, "on", 1⟩]) .nil))) .nil

/-- An entry with the value of the state. -/
def history (state : BitVec 32) : AsyncStreamChannel.Transmission where
  header := (some ⟨ascii "History", by decide⟩, none, none, some (2 : BitVec 32), none, none, none, none, ())
  type := historyType
  payload := (some ⟨[(some state, ())], Nat.one_lt_two_pow (by decide)⟩, ())

end AsyncStreamChannel

open AsyncStreamChannel in
/-- In the format v1, the transmission with the state 7 leaves no trace. -/
theorem runs_traceless_history :
    (∃ c, Lts.exec (Keep.step (Sender.outcome .v1)) { payloadCache := some (0, []) }
        [.transmit 0 1 (history 7), .transmit 0 2 (history 1), .written] = some c ∧
      RunTraceless .v1 { payloadCache := some (0, []) }
        [.transmit 0 1 (history 7), .transmit 0 2 (history 1), .written] c) ∧
    ∃ c, Lts.exec (Keep.step (WebSocketChannel.outcome {} Json.uuidConverters)) {} [history 1] = some c ∧
      WebSocketChannel.RunTraceless {} Json.uuidConverters {} [history 1] c := by
  have hstream : (Lts.exec (Keep.step (Sender.outcome .v1)) { payloadCache := some (0, []) }
      [.transmit 0 1 (history 7), .transmit 0 2 (history 1), .written]).isSome := by decide +kernel
  have hmessage : (Lts.exec (Keep.step (WebSocketChannel.outcome {} Json.uuidConverters)) {}
      [history 1]).isSome := by decide +kernel
  obtain ⟨c, hc⟩ := Option.isSome_iff_exists.mp hstream
  obtain ⟨c', hc'⟩ := Option.isSome_iff_exists.mp hmessage
  have hlaw := runs_traceless .v1 (some (0, [])) {} Json.uuidConverters
  have hguarded : ∀ (c : Sender) (l : Sender.Label), c.EncodableLabel .v1 l := by
    rintro c (_ | _ | _ | _)
    · exact .inl rfl
    · exact .inr (.inl rfl)
    · trivial
    · trivial
  have hencodable : WebSocketChannel.Encodable (history 1) := by
    refine ⟨?_, trivial⟩
    rintro _ ⟨⟩ entry hentry
    obtain rfl := List.mem_singleton.mp hentry
    refine ⟨?_, trivial⟩
    rintro _ ⟨⟩
    exact ⟨⟨2, "on", 1⟩, by decide, rfl⟩
  refine ⟨⟨c, hc, hlaw.1 _ c ((run_of_exec hc).mono fun s a t hs => ⟨hs, hguarded s a⟩)⟩, c', hc',
    hlaw.2 _ c' ?_⟩
  cases run_of_exec hc' with
  | cons hstep r => cases r with
    | nil => exact .cons ⟨hstep, hencodable⟩ (.nil _)

open AsyncStreamChannel in
/-- The state 7 has no enumerator. The part of its frame that is serialized is written in front of the
next one, and the part of its message in front of the next message. -/
theorem not_runs_traceless :
    (¬∀ format payloadCache ls c,
      Run (ofPartial (Keep.step (Sender.outcome format))) { payloadCache } ls c →
        RunTraceless format { payloadCache } ls c) ∧
    ¬∀ options converters ts c,
      Run (ofPartial (Keep.step (WebSocketChannel.outcome options converters))) {} ts c →
        WebSocketChannel.RunTraceless options converters {} ts c := by
  constructor
  · intro h
    have hrun : (Lts.exec (Keep.step (Sender.outcome .v2)) {}
        [.transmit 0 1 (history 7), .transmit 0 2 (history 1)]).isSome := by decide +kernel
    obtain ⟨c, hc⟩ := Option.isSome_iff_exists.mp hrun
    have hwire := (h .v2 none _ c (run_of_exec hc)).1
    rw [← Option.map_some, ← hc] at hwire
    revert hwire
    decide +kernel
  · intro h
    have hrun : (Lts.exec (Keep.step (WebSocketChannel.outcome {} Json.uuidConverters)) {}
        [history 7, history 1]).isSome := by decide +kernel
    obtain ⟨c, hc⟩ := Option.isSome_iff_exists.mp hrun
    have hwire := (h {} Json.uuidConverters _ c (run_of_exec hc)).1
    rw [← Option.map_some, ← hc] at hwire
    revert hwire
    decide +kernel

end Dots

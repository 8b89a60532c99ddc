import Dots.Stream.Framing
import Dots.Text.RoundTrip

/-!
# WebSocket channels

A `WebSocketChannel` writes a transmission as a message: an array of the JSON texts of the header and
of the instance.

* `Sender`, `transmitImpl`: the serializer of a channel and the messages on the wire.
* `message`, **`gives_transmitImpl`**: the message of a transmission, or an exception that leaves what
  was written before.
-/

set_option autoImplicit false

namespace Dots

namespace WebSocketChannel

open AsyncStreamChannel (dotsHeaderProperties)
open TextWriter TypeVisitor Keep Json

variable (s : TextSerializer)

/-! ## Transmitting -/

structure Sender where
  serializer : VisitorState TextWriter := ⟨0, {}⟩
  wire : List (List UInt8) := []

/-- A function of `m_serializer`. -/
def onSerializer {α : Type} (m : Visit TextWriter α) : Keep Exception Sender α :=
  Keep.within Sender.serializer (fun serializer c => { c with serializer := serializer }) m

/-- `m_stream.write`, and the output is cleared. -/
def write (c : Sender) : Sender where
  serializer := ⟨c.serializer.constVisitingLevel, { c.serializer.derived with output := [] }⟩
  wire := c.wire ++ [c.serializer.derived.output]

/-- `transmitImpl`. The instance is serialized without the attributes of the header. -/
def transmitImpl (t : AsyncStreamChannel.Transmission) : Keep Exception Sender Unit := do
  onSerializer (derived (Keep.change (writeArrayBegin s)))
  onSerializer (visit s.visitor dotsHeaderProperties t.header
    (Instance.validProperties dotsHeaderProperties t.header))
  onSerializer (visit s.visitor t.type.properties t.payload
    (t.payload.validProperties t.type.properties))
  onSerializer (derived (Keep.change (writeArrayEnd s)))
  Keep.change write

/-- The serializer is in its initial state. -/
structure Sender.AtRest (c : Sender) : Prop where
  level : c.serializer.constVisitingLevel = 0
  output : c.serializer.derived.output = []
  nesting : c.serializer.derived.nesting = []

/-! ## Messages -/

variable (options : TextOptions) (converters : Converters)

/-- The message of a transmission. -/
def message (t : AsyncStreamChannel.Transmission) : Except Exception (List UInt8) := do
  let header ← structText options converters 1 (Instance.validProperties dotsHeaderProperties t.header)
    dotsHeaderProperties t.header
  let payload ← structText options converters 1 (t.payload.validProperties t.type.properties)
    t.type.properties t.payload
  return enclosed options 0 (ascii "[") (ascii "]") [header, payload]

variable {options converters}

theorem gives_onSerializer {α : Type} {m : Visit TextWriter α} {a : α} {c : Sender}
    {v : VisitorState TextWriter} (h : m.Gives c.serializer a v) :
    (onSerializer m).Gives c a { c with serializer := v } := h.within

/-- **A message is written** if the texts of the header and the instance can be written. -/
theorem gives_transmitImpl {t : AsyncStreamChannel.Transmission} {c : Sender} {text : List UInt8}
    (hrest : c.AtRest) (h : message options converters t = .ok text) :
    (transmitImpl (JsonSerializer options converters) t).Gives c ()
      { c with wire := c.wire ++ [text] } := by
  obtain ⟨⟨level, output, nesting⟩, wire⟩ := c
  obtain ⟨hlevel, houtput, hnesting⟩ := hrest
  cases hlevel
  cases houtput
  cases hnesting
  obtain ⟨header, hheader, h⟩ := bind_eq_ok h
  obtain ⟨payload, hpayload, h⟩ := bind_eq_ok h
  cases h
  let w : TextWriter := writeArrayBegin (JsonSerializer options converters) ⟨[], []⟩
  have harray : ((w.writeString (JsonSerializer options converters) header).writeString
      (JsonSerializer options converters) payload).writeArrayEnd (JsonSerializer options converters) =
        ⟨enclosed options 0 (ascii "[") (ascii "]") [header, payload], []⟩ := writeArray [header, payload]
  have hbegin : (derived (Keep.change (writeArrayBegin (JsonSerializer options converters)))).Gives
      ⟨0, ⟨[], []⟩⟩ () ⟨0, w⟩ := gives_derived (gives_change _ _)
  have hheader' := gives_visit (w := w) hheader 0
  have hpayload' := gives_visit (w := w.writeString (JsonSerializer options converters) header) hpayload 0
  have hend : (derived (Keep.change (writeArrayEnd (JsonSerializer options converters)))).Gives
      ⟨0, (w.writeString (JsonSerializer options converters) header).writeString
        (JsonSerializer options converters) payload⟩ ()
      ⟨0, ⟨enclosed options 0 (ascii "[") (ascii "]") [header, payload], []⟩⟩ := by
    rw [← harray]
    exact gives_derived (gives_change _ _)
  refine (gives_onSerializer hbegin).bind ((gives_onSerializer hheader').bind ?_)
  exact (gives_onSerializer hpayload').bind ((gives_onSerializer hend).bind (gives_change _ _))

end WebSocketChannel

end Dots

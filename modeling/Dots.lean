import Dots.Lib.Run
import Dots.Container.Agreement
import Dots.Container.Lookup
import Dots.Dispatcher.Events
import Dots.Transceiver.Move
import Dots.Connection.Handshake
import Dots.Connection.Admission
import Dots.Host.Admission
import Dots.Host.Order
import Dots.Host.Cleanup
import Dots.Space.Membership
import Dots.Auth.Challenge
import Dots.Auth.Mirror
import Dots.Cbor.RoundTrip
import Dots.Cbor.Experimental
import Dots.Cbor.Bounds
import Dots.Type.Agreement
import Dots.Stream.Framing
import Dots.Stream.Exact
import Dots.Text.Reader
import Dots.Text.Json
import Dots.Text.Scan
import Dots.Text.RoundTrip
import Dots.Cbor.Visitor
import Dots.Cbor.Merge
import Dots.Stream.Transmit
import Dots.Stream.WebSocket
import Dots.Stream.Cache
import Dots.Stream.Trace
import Dots.Stream.Delivery
import Dots.Text.Resize
import Dots.Cbor.Integer
import Dots.Type.Algebra
import Dots.Type.Order
import Dots.Text.Layout
import Dots.Text.Legible
import Dots.Text.Skip
import Dots.Text.Overlay
import Dots.Text.Restore
import Dots.Type.Layout
import Dots.Auth.Digest
import Dots.Type.Registration
import Dots.Exchange.Run
import Dots.Host.Clients
import Dots.Tools.Setters
import Dots.Tools.Uri
import Dots.Type.DescriptorMap
import Dots.Type.Iterator
import Dots.Type.ProxyProperty
import Dots.Lib.Progress
import Dots.Text.Progress
import Dots.Text.Calls
import Dots.Type.Chrono
import Dots.Type.Duration

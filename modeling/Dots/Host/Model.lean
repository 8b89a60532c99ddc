import Dots.ContainerPool
import Dots.Connection.Model
import Dots.Type.Registry

/-!
# The host

* `HostTransceiver`: the members of the source's class, with the messages it has handed to each
  of its connections.
* `dispatch`, `transmit`, `publish`, `remove`.
* `handleMemberMessage`, `handleClearCache`, …, `handleTransmission`: a transmission of a guest.
* `handleTransition`: a connection has closed.
* `receive`: a transmission on its way through channel, connection and transceiver.

The subscription handlers of the host do not publish here.
-/

set_option autoImplicit false
set_option linter.unusedSectionVars false

namespace Dots

/-- An entry of `m_guestConnections` with its channel. -/
structure GuestConnection where
  connection : Connection
  channel : Channel := {}

variable (S : Schema) (V : Type) [Ord V] [Std.TransOrd V] [Std.LawfulEqOrd V] in
/-- `HostTransceiver`. Connections are named by the id of their guest. -/
structure HostTransceiver where
  selfName : String
  registry : Registry
  /-- The names of the properties of a type, for error texts. -/
  names : String → PropertySet → List String := fun _ _ => []
  /-- `Connection::M_nextGuestId`. -/
  nextGuestId : ConnectionId := 2
  guestConnections : ConnectionId → Option GuestConnection := fun _ => none
  groups : String → Finset ConnectionId := fun _ => ∅
  /-- The types with an entry in the container pool. -/
  poolTypes : List String := []
  pool : ContainerPool S V := .empty
  /-- What has been handed to the channel of a connection, the oldest first. -/
  outbox : ConnectionId → List (Transmission S V) := fun _ => []

namespace HostTransceiver

variable {S : Schema} {V : Type} [Ord V] [Std.TransOrd V] [Std.LawfulEqOrd V]
variable (h : HostTransceiver S V) (id : ConnectionId) (now : Timepoint)

/-- `Connection::transmit` of the connection `id`. -/
def send (ts : List (Transmission S V)) : HostTransceiver S V :=
  { h with outbox := Function.update h.outbox id (h.outbox id ++ ts.map .wire) }

/-- `Connection::transmit` of an instance that has no header yet. -/
def sendInstance (x : AnyStruct S V) : HostTransceiver S V :=
  h.send id [.ofInstance x x.validProperties now false]

/-- Whether a connection is not closed. -/
def isOpen : Bool :=
  match h.guestConnections id with
  | some g => decide (g.connection.state ≠ .closed)
  | none => false

/-! ## Publishing -/

/-- `HostTransceiver::transmit`: to every open member of the group of the type. -/
def transmit (t : Transmission S V) : HostTransceiver S V :=
  { h with
    outbox := fun id =>
      if id ∈ h.groups t.header.typeName ∧ h.isOpen id = true then h.outbox id ++ [t.wire]
      else h.outbox id }

/-- `Dispatcher::dispatch`, as far as the host's own data go. -/
def dispatch (t : Transmission S V) : HostTransceiver S V × Except String Unit :=
  let r := h.pool.dispatchEvent t now
  let h :=
    { h with
      pool := r.1
      poolTypes :=
        if t.instance_.cached then insert t.instance_.typeName h.poolTypes else h.poolTypes }
  match r.2 with
  | .threw what => (h, .error what)
  | _ => (h, .ok ())

/-- `dispatcher().dispatch(transmission); transmit(transmission);` -/
def dispatchAndTransmit (t : Transmission S V) : HostTransceiver S V × Except String Unit :=
  match h.dispatch now t with
  | (h, .error what) => (h, .error what)
  | (h, .ok _) => (h.transmit t, .ok ())

/-- `HostTransceiver::publish`. -/
def publish {n : String} (x : Struct V (S.descriptor n))
    (includedProperties : Option PropertySet) (remove : Bool) :
    HostTransceiver S V × Except String Unit :=
  match hc : publishCheck x with
  | .error what => (h, .error what)
  | .ok () =>
    h.dispatchAndTransmit now
      (Publish.hostTransmission ⟨n, x, includedProperties, remove, hc⟩ now)

/-- `Transceiver::remove`. -/
def remove {n : String} (x : Struct V (S.descriptor n)) :
    HostTransceiver S V × Except String Unit :=
  h.publish now x (some (S.descriptor n).keyProperties) true

/-- A loop of removes. -/
def removeAll {n : String} : List (Struct V (S.descriptor n)) → HostTransceiver S V →
    HostTransceiver S V × Except String Unit
  | [], h => (h, .ok ())
  | x :: xs, h =>
    match h.remove now x with
    | (h, .error what) => (h, .error what)
    | (h, .ok _) => removeAll xs h

/-! ## Transmissions of the guests -/

/-- A clone that is replayed, with the number of clones that are still to come. -/
def replay (n : String) (x : Struct V (S.descriptor n)) (modified : Timepoint)
    (lastUpdateFrom : ConnectionId) (fromCache : ℕ) : Transmission S V where
  header :=
    { typeName := n, sentTime := some modified, serverSentTime := some now
      attributes := x.validProperties, sender := some lastUpdateFrom
      fromCache := some fromCache, removeObj := some false }
  instance_ := .struct n x
  typed := rfl

/-- The loop of `transmitContainer`. -/
def transmitClones (n : String) : List (Clone V (S.descriptor n)) → HostTransceiver S V →
    HostTransceiver S V × Except String Unit
  | [], h => (h, .ok ())
  | e :: es, h =>
    match e.2.modified, e.2.lastUpdateFrom with
    | some modified, some lastUpdateFrom =>
      transmitClones n es (h.send id [replay now n e.1 modified lastUpdateFrom es.length])
    | none, _ => (h, .error (invalidProperty "modified"))
    | _, none => (h, .error (invalidProperty "lastUpdateFrom"))

def transmitContainer (n : String) : HostTransceiver S V × Except String Unit :=
  h.transmitClones id now n (h.pool n).clones

/-- A guest joins a group: it becomes a member and gets the cached instances. -/
def joinGroup (groupName : String) : HostTransceiver S V × Except String Unit :=
  let h :=
    { h with groups := Function.update h.groups groupName (insert id (h.groups groupName)) }
  if (h.registry.findStructType groupName).isSome ∧ (S.descriptor groupName).cached then
    match h.transmitContainer id now groupName with
    | (h, .error what) => (h, .error what)
    | (h, .ok _) =>
      (h.sendInstance id now
        (.cacheInfo { typeName := some groupName, endTransmission := some true }), .ok ())
  else (h, .ok ())

def handleMemberMessage (m : DotsMember) : HostTransceiver S V × Except String Unit :=
  match m.groupName, m.event with
  | some _, some .kill => (h, .ok ())
  | some groupName, some .leave =>
    ({ h with groups := Function.update h.groups groupName ((h.groups groupName).erase id) },
      .ok ())
  | some groupName, some .join => h.joinGroup id now groupName
  | groupName, event =>
    (h, .error ("DotsMember instance is missing expected properties: " ++
      ", ".intercalate ((if groupName.isNone then ["groupName"] else []) ++
        if event.isNone then ["event"] else [])))

/-- `handleDescriptorRequest`; the descriptors themselves are no part of the model. -/
def handleDescriptorRequest (_m : DotsDescriptorRequest) : HostTransceiver S V :=
  h.sendInstance id now (.cacheInfo { endDescriptorRequest := some true })

/-- The loop over the container pool in `handleClearCache`. -/
def clearTypes (typeNames : List String) : List String → HostTransceiver S V →
    HostTransceiver S V × Except String Unit
  | [], h => (h, .ok ())
  | n :: ns, h =>
    if n ∈ typeNames then
      match removeAll now ((h.pool n).clones.map Prod.fst) h with
      | (h, .error what) => (h, .error what)
      | (h, .ok _) => clearTypes typeNames ns h
    else clearTypes typeNames ns h

def handleClearCache (m : DotsClearCache) : HostTransceiver S V × Except String Unit :=
  match m.typeNames with
  | none => (h, .error "DotsClearCache instance is missing expected properties: typeNames")
  | some typeNames => clearTypes now typeNames h.poolTypes h

def handleEchoRequest (m : DotsEcho) : HostTransceiver S V :=
  if m.request = some true then h.sendInstance id now (.echo { m with request := some false })
  else h

/-- `HostTransceiver::handleTransmission`. -/
def handleTransmission (t : Transmission S V) : HostTransceiver S V × Except String Unit :=
  match t.instance_ with
  | .member m => h.handleMemberMessage id now m
  | .descriptorRequest m => (h.handleDescriptorRequest id now m, .ok ())
  | .echo m => (h.handleEchoRequest id now m, .ok ())
  | .clearCache m =>
    match h.handleClearCache now m with
    | (h, .error what) => (h, .error what)
    | (h, .ok _) => h.dispatchAndTransmit now t
  | _ => h.dispatchAndTransmit now t

/-! ## Connections -/

/-- The loop over the container pool in `handleTransitionImpl`: the instances that the guest has
updated last, of the types that are to be cleaned up. -/
def cleanup (peerId : ConnectionId) : List String → HostTransceiver S V →
    HostTransceiver S V × Except String Unit
  | [], h => (h, .ok ())
  | n :: ns, h =>
    if (S.descriptor n).cleanup then
      match removeAll now (((h.pool n).clones.filter fun e =>
          e.2.lastUpdateFrom == some peerId).map Prod.fst) h with
      | (h, .error what) => (h, .error what)
      | (h, .ok _) => cleanup peerId ns h
    else cleanup peerId ns h

/-- `handleTransitionImpl` for a connection that has closed. -/
def handleTransition : HostTransceiver S V :=
  let h := { h with groups := fun n => (h.groups n).erase id }
  match cleanup now id h.poolTypes h with
  | (h, .error _) => h
  | (h, .ok _) => { h with guestConnections := Function.update h.guestConnections id none }

/-- What a connection did: its messages are on their way, and if it has closed, the transceiver
learns of it. -/
def finish (ch : Channel) (r : Turn S V) : HostTransceiver S V :=
  let h :=
    { h.send id r.sent with
      guestConnections := Function.update h.guestConnections id (some ⟨r.connection, ch⟩) }
  if .closed ∈ r.transitions then h.handleTransition id now else h

/-- The transceiver as the owner of a connection: what its receive handler throws. -/
def owner : Owner S V where
  onTransition _ := []
  onReceive t :=
    ([], match h.handleTransmission id now t with
      | (_, .error what) => some what
      | (_, .ok _) => none)
  onTransition_isSystem _ _ ht := absurd ht List.not_mem_nil
  onReceive_isSystem _ _ ht := absurd ht List.not_mem_nil

/-- `handleListenAccept`. -/
def accept (authManager : Option AuthManager) : HostTransceiver S V :=
  let id := h.nextGuestId
  let c := Connection.host id h.names
  match c.asyncReceive (Owner.silent (S := S) (V := V)) now h.selfName authManager with
  | none => h
  | some r => { h with nextGuestId := id + 1 }.finish id now {} r

/-- `Channel::processReceive`: the import, then the connection, then the transceiver. -/
def processReceive (g : GuestConnection) (t : Transmission S V) : HostTransceiver S V :=
  match g.channel.importDependencies h.registry t.instance_ with
  | (ch, registry, .error what) =>
    { h with registry }.finish id now { ch with asyncReceiving := false }
      (Turn.handleError .silent { connection := g.connection } now what)
  | (ch, registry, .ok _) =>
    let h := { h with registry }
    let r := g.connection.processReceive (h.owner id now) now t
    let h :=
      match r.1.received with
      | [] => h
      | u :: _ => (h.handleTransmission id now u).1
    -- the channel goes on only if the handler yields true
    h.finish id now
      { ch with asyncReceiving := r.2.isNone && decide (r.1.connection.state ≠ .closed) } r.1

/-- A transmission arrives at a channel of the host. -/
def receive (t : Transmission S V) : HostTransceiver S V :=
  match h.guestConnections id with
  | none => h
  | some g =>
    if g.channel.asyncReceiving = false then h
    else if (h.registry.findStructType t.header.typeName).isNone then
      h.finish id now { g.channel with asyncReceiving := false }
        (Turn.handleError .silent { connection := g.connection } now
          ("encountered unknown type: " ++ t.header.typeName))
    else h.processReceive id now g t

/-- A channel of the host fails. -/
def channelError (what : String) : HostTransceiver S V :=
  match h.guestConnections id with
  | none => h
  | some g =>
    h.finish id now { g.channel with asyncReceiving := false }
      (Turn.handleError .silent { connection := g.connection } now what)

end HostTransceiver

variable (S : Schema) (V : Type) in
/-- The steps of a host: a new connection, a transmission of a guest, a publish of its own, a
failure of a channel. -/
inductive HostAct
  | accept (authManager : Option AuthManager) (now : Timepoint)
  | receive (id : ConnectionId) (t : Transmission S V) (now : Timepoint)
  | publish (n : String) (x : Struct V (S.descriptor n))
      (includedProperties : Option PropertySet) (remove : Bool) (now : Timepoint)
  | channelError (id : ConnectionId) (what : String) (now : Timepoint)

namespace HostTransceiver

variable {S : Schema} {V : Type} [Ord V] [Std.TransOrd V] [Std.LawfulEqOrd V]

/-- One step of a host. -/
def step (h : HostTransceiver S V) : HostAct S V → HostTransceiver S V
  | .accept authManager now => h.accept now authManager
  | .receive id t now => h.receive id now t
  | .publish _ x includedProperties remove now =>
    (h.publish now x includedProperties remove).1
  | .channelError id what now => h.channelError id now what

end HostTransceiver

end Dots

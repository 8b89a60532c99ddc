import Dots.Publish

/-!
# One side of a connection

* `Connection`: the members of the source's `Connection`, of a host or of a guest.
* `Turn`: a connection with what it did in one call: what it sent, the states it went through,
  what it handed to its receive handler.
* `Owner`: the owner of a connection, as its reactions to transitions and received instances.
* `handleReceive`, `processReceive`: one received transmission; an exception closes the
  connection.
* `asyncReceive`, `destroy`: the start and the end of a connection.
-/

set_option autoImplicit false

namespace Dots

inductive DotsConnectionState | connecting | earlySubscribe | connected | suspended | closed
  deriving DecidableEq

namespace DotsConnectionState

def toString : DotsConnectionState → String
  | connecting => "connecting"
  | earlySubscribe => "early_subscribe"
  | connected => "connected"
  | suspended => "suspended"
  | closed => "closed"

/-- Whether instances of other types than the handshake messages are exchanged. -/
def established : DotsConnectionState → Bool
  | earlySubscribe | connected => true
  | _ => false

end DotsConnectionState

/-! ## Expected messages and errors -/

/-- The handlers a connection can expect a handshake message for. -/
inductive SystemHandler
  | handleHello | handleAuthorizationRequest | handlePreloadFinished
  | handleConnect | handlePreloadClientFinished | handlePeerError
  deriving DecidableEq

/-- `m_expectedSystemType`. -/
structure ExpectedSystemType where
  typeName : String
  properties : PropertySet
  handler : Option SystemHandler
  deriving DecidableEq

/-- The calls of `expectSystemType`, by their handler. -/
def expectSystemType : SystemHandler → ExpectedSystemType
  | .handleHello => ⟨"DotsMsgHello", {1, 2}, some .handleHello⟩
  | .handleAuthorizationRequest =>
    ⟨"DotsMsgConnectResponse", {5, 2, 3}, some .handleAuthorizationRequest⟩
  | .handlePreloadFinished => ⟨"DotsMsgConnectResponse", {4}, some .handlePreloadFinished⟩
  | .handleConnect => ⟨"DotsMsgConnect", {1, 2}, some .handleConnect⟩
  | .handlePreloadClientFinished =>
    ⟨"DotsMsgConnect", {3}, some .handlePreloadClientFinished⟩
  | .handlePeerError => ⟨"DotsMsgError", {1}, some .handlePeerError⟩

/-- What is expected before `asyncReceive` and after a close: nothing. -/
def expectNothing : ExpectedSystemType := ⟨"DotsMsgError", ∅, none⟩

/-- What a connection throws while it handles a transmission. -/
inductive ConnectionError
  | wrongType (typeName expected : String)
  | missingProperties (typeName : String) (missing : PropertySet)
  | notEstablished (typeName : String) (state : DotsConnectionState)
  | noSecret
  | digest (what : String)
  | invalidAuthorization
  | preloadClientFinishedFalse
  | receiveHandler (what : String)
  deriving DecidableEq

namespace ConnectionError

/-- `what()`; `names` are the names of the properties of a type, in the order of its descriptor. -/
def what (names : String → PropertySet → List String) : ConnectionError → String
  | wrongType n expected => n ++ " instance does not have expected type: " ++ expected
  | missingProperties n s =>
    n ++ " instance is missing expected properties: " ++ ", ".intercalate (names n s)
  | notEstablished n s =>
    "received instance of non-system type " ++ n ++
      " while not in early_subscribe or connected state " ++ s.toString
  | noSecret => "host requested authentication but no secret was specified"
  | digest what => what
  | invalidAuthorization => "invalid authorization information"
  | preloadClientFinishedFalse => "expected preload client finished to be true"
  | receiveHandler what => what

/-- The transmission itself was refused: not the expected type, without the expected properties,
or too early. -/
def isRefusal : ConnectionError → Bool
  | wrongType .. | missingProperties .. | notEstablished .. => true
  | _ => false

end ConnectionError

/-! ## The connection -/

/-- `io::AuthManager` for one endpoint: the challenge, if there is one, and the verdict on an
answer. The digest of the answer is parsed first, which may throw. -/
structure AuthManager where
  requiresAuthentication : Option ℕ
  verifyAuthentication : (guest : String) → (nonce : ℕ) → (cnonce response : String) →
    Except String Bool

/-- `io::Nonce{}` and `io::Digest` as a guest uses them, with its secret. -/
structure Credentials where
  authSecret : Option String
  cnonce : String
  digest : (nonce : ℕ) → (cnonce userName secret : String) → String

/-- `Connection`. -/
structure Connection where
  state : DotsConnectionState := .suspended
  selfId : ConnectionId
  peerId : ConnectionId
  selfName : String := ""
  peerName : String := "<not_set>"
  nonce : Option ℕ := none
  expected : ExpectedSystemType := expectNothing
  authManager : Option AuthManager := none
  credentials : Credentials := ⟨none, "", fun _ _ _ _ => ""⟩
  names : String → PropertySet → List String := fun _ _ => []

/-- `Connection(channel, true)`, with the id the host assigns to its peer. -/
def Connection.host (peerId : ConnectionId) (names : String → PropertySet → List String) :
    Connection :=
  { selfId := hostId, peerId, names }

/-- `Connection(channel, false, authSecret)`. -/
def Connection.guest (credentials : Credentials) (names : String → PropertySet → List String) :
    Connection :=
  { selfId := uninitializedId, peerId := hostId, credentials, names }

/-- The header that `handleReceive` hands to the receive handler. -/
def Connection.stamp (c : Connection) (h : DotsHeader) (now : Timepoint) : DotsHeader :=
  if c.selfId = hostId then
    { h with
      sender := some c.peerId
      serverSentTime := some now
      sentTime := some (h.sentTime.getD now)
      isFromMyself := some (c.peerId == c.selfId) }
  else
    { h with
      sender := some (h.sender.getD c.peerId)
      sentTime := some (h.sentTime.getD now)
      isFromMyself := some (h.sender == some c.selfId) }

@[simp] theorem Connection.stamp_typeName (c : Connection) (h : DotsHeader) (now : Timepoint) :
    (c.stamp h now).typeName = h.typeName := by
  unfold Connection.stamp
  split_ifs <;> rfl

@[simp] theorem Connection.stamp_attributes (c : Connection) (h : DotsHeader) (now : Timepoint) :
    (c.stamp h now).attributes = h.attributes := by
  unfold Connection.stamp
  split_ifs <;> rfl

variable {S : Schema} {V : Type}

/-- The transmission that `handleReceive` hands to the receive handler. -/
def Connection.stamped (c : Connection) (t : Transmission S V) (now : Timepoint) :
    Transmission S V where
  header := c.stamp t.header now
  instance_ := t.instance_
  typed := by rw [stamp_typeName, t.typed]

variable (S V) in
/-- The owner of a connection: what it transmits in its transition handler and in its receive
handler, and what its receive handler throws. A transition handler does not throw, and the
handshake messages are the connection's own. -/
structure Owner where
  onTransition : DotsConnectionState → List (Transmission S V)
  onReceive : Transmission S V → List (Transmission S V) × Option String
  onTransition_isSystem : ∀ s, ∀ t ∈ onTransition s, t.instance_.isSystem = false
  onReceive_isSystem : ∀ t, ∀ u ∈ (onReceive t).1, u.instance_.isSystem = false

theorem Owner.silent_isSystem (_ : DotsConnectionState) :
    ∀ t ∈ ([] : List (Transmission S V)), t.instance_.isSystem = false :=
  fun _ h => absurd h List.not_mem_nil

/-- An owner that never transmits. -/
def Owner.silent : Owner S V where
  onTransition _ := []
  onReceive _ := ([], none)
  onTransition_isSystem := silent_isSystem
  onReceive_isSystem _ _ h := absurd h List.not_mem_nil

variable (S V) in
structure Turn where
  connection : Connection
  sent : List (Transmission S V) := []
  transitions : List DotsConnectionState := []
  received : List (Transmission S V) := []

namespace Turn

variable (o : Owner S V) (r : Turn S V) (now : Timepoint)

/-- `Connection::transmit` of a handshake message. -/
def transmit (x : AnyStruct S V) : Turn S V :=
  { r with sent := r.sent ++ [.ofInstance x x.systemProperties now false] }

/-- `expectSystemType`. -/
def expect (h : SystemHandler) : Turn S V :=
  { r with connection := { r.connection with expected := expectSystemType h } }

def setConnectionState (s : DotsConnectionState) : Turn S V :=
  { r with
    connection := { r.connection with state := s }
    transitions := r.transitions ++ [s]
    sent := r.sent ++ o.onTransition s }

def handleClose : Turn S V :=
  { r with connection := { r.connection with expected := expectNothing } }.setConnectionState o
    .closed

def handleError (what : String) : Turn S V :=
  if r.connection.state = .connected then
    (r.transmit now (.error { errorCode := some 1, errorText := some what })).handleClose o
  else r.handleClose o

/-! ## Handshake handlers -/

def handleHello (m : DotsMsgHello) : Turn S V × Option ConnectionError :=
  let c := r.connection
  let r := { r with connection := { c with peerName := m.serverName.getD "" } }
  let connect : DotsMsgConnect := { clientName := some c.selfName, preloadCache := some true }
  if m.authenticationRequired = some true then
    match c.credentials.authSecret with
    | none => (r, some .noSecret)
    | some secret =>
      let cnonce := c.credentials.cnonce
      let response := c.credentials.digest (m.authChallenge.getD 0) cnonce c.selfName secret
      let connect := { connect with cnonce := some cnonce, authChallengeResponse := some response }
      ((r.transmit now (.connect connect)).expect .handleAuthorizationRequest, none)
  else ((r.transmit now (.connect connect)).expect .handleAuthorizationRequest, none)

def handleAuthorizationRequest (m : DotsMsgConnectResponse) : Turn S V × Option ConnectionError :=
  let r := { r with connection := { r.connection with selfId := m.clientId.getD 0 } }
  if m.preload = some true then
    (((r.setConnectionState o .earlySubscribe).transmit now
      (.connect { preloadClientFinished := some true })).expect .handlePreloadFinished, none)
  else ((r.setConnectionState o .connected).expect .handlePeerError, none)

def handlePreloadFinished (_m : DotsMsgConnectResponse) : Turn S V × Option ConnectionError :=
  ((r.setConnectionState o .connected).expect .handlePeerError, none)

/-- The end of `handleConnect`, for a guest that is let in. -/
def letIn (m : DotsMsgConnect) : Turn S V :=
  let preload := decide (m.preloadCache = some true)
  let r := { r with connection := { r.connection with peerName := m.clientName.getD "" } }
  let r := r.transmit now (.connectResponse
    { clientId := some r.connection.peerId, accepted := some true, preload := some preload })
  if m.preloadCache = some true then
    (r.setConnectionState o .earlySubscribe).expect .handlePreloadClientFinished
  else (r.setConnectionState o .connected).expect .handlePeerError

/-- The verdict of the authentication manager, if there is one. -/
def authenticate (m : DotsMsgConnect) : Except String Bool :=
  match r.connection.authManager with
  | none => .ok true
  | some a =>
    a.verifyAuthentication (m.clientName.getD "") (r.connection.nonce.getD 0) (m.cnonce.getD "")
      (m.authChallengeResponse.getD "")

def handleConnect (m : DotsMsgConnect) : Turn S V × Option ConnectionError :=
  match r.authenticate m with
  | .error what => (r, some (.digest what))
  | .ok false =>
    (r.transmit now (.connectResponse
      { clientId := some r.connection.peerId, accepted := some false
        preload := some (decide (m.preloadCache = some true)) }), some .invalidAuthorization)
  | .ok true => (r.letIn o now m, none)

def handlePreloadClientFinished (m : DotsMsgConnect) : Turn S V × Option ConnectionError :=
  if m.preloadClientFinished = some false then (r, some .preloadClientFinishedFalse)
  else
    (((r.setConnectionState o .connected).transmit now
      (.connectResponse { preloadFinished := some true })).expect .handlePeerError, none)

def handlePeerError (m : DotsMsgError) : Turn S V :=
  if m.errorCode = some 0 then r.handleClose o
  else
    r.handleError o now ("received DOTS error: (" ++
      (match m.errorCode with
        | some n => toString n
        | none => "<unknown error code>") ++ ") " ++ m.errorText.getD "<unknown error>")

/-- The call of the expected handler. -/
def callHandler : SystemHandler → AnyStruct S V → Turn S V × Option ConnectionError
  | .handleHello, .hello m => r.handleHello now m
  | .handleAuthorizationRequest, .connectResponse m => r.handleAuthorizationRequest o now m
  | .handlePreloadFinished, .connectResponse m => r.handlePreloadFinished o m
  | .handleConnect, .connect m => r.handleConnect o now m
  | .handlePreloadClientFinished, .connect m => r.handlePreloadClientFinished o now m
  | .handlePeerError, .error m => (r.handlePeerError o now m, none)
  | _, _ => (r, none)

/-- A handshake message other than an error. -/
def handleSystem (x : AnyStruct S V) : Turn S V × Option ConnectionError :=
  let expected := r.connection.expected
  if x.typeName ≠ expected.typeName then (r, some (.wrongType x.typeName expected.typeName))
  else if ¬ expected.properties ⊆ x.systemProperties then
    (r, some (.missingProperties x.typeName (expected.properties \ x.systemProperties)))
  else
    match expected.handler with
    | none => (r, none)
    | some h => r.callHandler o now h x

/-- An instance of any other type. -/
def handleInstance (t : Transmission S V) : Turn S V × Option ConnectionError :=
  if r.connection.state.established = false then
    (r, some (.notEstablished t.instance_.typeName r.connection.state))
  else if t.instance_.hasKeyProperties = false then
    (r, some (.missingProperties t.instance_.typeName t.instance_.missingKeyProperties))
  else
    let t := r.connection.stamped t now
    let reaction := o.onReceive t
    ({ r with received := r.received ++ [t], sent := r.sent ++ reaction.1 },
      reaction.2.map .receiveHandler)

def handleReceive (t : Transmission S V) : Turn S V × Option ConnectionError :=
  if r.connection.state = .closed then (r, none)
  else
    match t.instance_ with
    | .error m => (r.handlePeerError o now m, none)
    | x => if x.isSystem then r.handleSystem o now x else r.handleInstance o now t

/-- `Channel::processError`: an exception goes to `handleError`. -/
def processError : Turn S V × Option ConnectionError → Turn S V × Option ConnectionError
  | (r, none) => (r, none)
  | (r, some e) => (r.handleError o now (e.what r.connection.names), some e)

end Turn

namespace Connection

variable (o : Owner S V) (c : Connection) (now : Timepoint)

/-- The receive handler of the channel; what it throws goes to `handleError`. -/
def processReceive (t : Transmission S V) : Turn S V × Option ConnectionError :=
  Turn.processError o now (({ connection := c } : Turn S V).handleReceive o now t)

/-- `Connection::asyncReceive`, which throws unless the connection is suspended. -/
def asyncReceive (name : String) (authManager : Option AuthManager) : Option (Turn S V) :=
  if c.state ≠ .suspended then none
  else
    let nonce := authManager.bind AuthManager.requiresAuthentication
    let r : Turn S V := { connection := { c with authManager } }
    let r := r.setConnectionState o .connecting
    if c.selfId = hostId then
      let r := { r with connection := { r.connection with nonce } }
      let hello : DotsMsgHello :=
        match nonce with
        | none => { serverName := some name, authChallenge := some 0 }
        | some n =>
          { serverName := some name, authChallenge := some n, authenticationRequired := some true }
      some ((r.transmit now (.hello hello)).expect .handleConnect)
    else
      let r := { r with connection := { r.connection with selfName := name } }
      some (r.expect .handleHello)

/-- `~Connection`. -/
def destroy : Turn S V :=
  let r : Turn S V := { connection := c }
  if c.state = .closed then r
  else if c.state = .connected then
    (r.transmit now (.error { errorCode := some 0 })).handleClose o
  else r.handleClose o

end Connection

end Dots

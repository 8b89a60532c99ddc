import Dots.Connection.Phase
import Dots.ContainerPool

/-!
# The guest

* `GuestTransceiver`: the members of the source's class, with its containers.
* `GuestTurn`: a guest with what it transmitted in one call and what it threw.
* `publish`, `joinGroup`, `leaveGroup`: the calls of the application.
* `open_`, `receive`, `channelError`: the connection starts, takes a transmission, fails.
-/

set_option autoImplicit false
set_option linter.unusedSectionVars false

namespace Dots

/-- `type::DescriptorMap`, with the data that a descriptor is transmitted as. -/
abbrev DescriptorMap := List (String × StructDescriptorData)

variable (S : Schema) (V : Type) [Ord V] [Std.TransOrd V] [Std.LawfulEqOrd V]

/-- `GuestTransceiver`. -/
structure GuestTransceiver where
  selfName : String
  credentials : Credentials := ⟨none, "", fun _ _ _ _ => ""⟩
  /-- The names of the properties of a type, for error texts. -/
  names : String → PropertySet → List String := fun _ _ => []
  hostConnection : Option Connection := none
  preloadPublishTypes : DescriptorMap := []
  preloadSubscribeTypes : DescriptorMap := []
  joinedGroups : Finset String := ∅
  pool : ContainerPool S V := .empty

/-- A guest after a call, what it transmitted, and what it threw. -/
structure GuestTurn where
  guest : GuestTransceiver S V
  sent : List (Transmission S V) := []
  error : Option String := none

variable {S V}

/-- The transmission of a `DotsMember` of the guest's own. -/
def memberTransmission (name : String) (event : DotsMemberEvent) (now : Timepoint) :
    Transmission S V :=
  let x : AnyStruct S V := .member { groupName := some name, event := some event }
  .ofInstance x x.validProperties now false

/-- The transmission of a descriptor. -/
def descriptorTransmission (m : StructDescriptorData) (now : Timepoint) : Transmission S V :=
  let x : AnyStruct S V := .structDescriptorData m
  .ofInstance x x.validProperties now false

namespace GuestTransceiver

variable (g : GuestTransceiver S V) (now : Timepoint)

/-! ## The connection -/

/-- What a preload subscription transmits. -/
def preloadSubscribe (e : String × StructDescriptorData) : List (Transmission S V) :=
  descriptorTransmission e.2 now ::
    if e.1 ∈ g.joinedGroups then [] else [memberTransmission e.1 .join now]

/-- What `handleTransitionImpl` transmits. The names of a map are distinct. -/
def onTransition : DotsConnectionState → List (Transmission S V)
  | .earlySubscribe =>
    g.preloadPublishTypes.map (fun e => descriptorTransmission e.2 now) ++
      g.preloadSubscribeTypes.flatMap (g.preloadSubscribe now)
  | _ => []

/-- What `handleTransitionImpl` does to the guest. -/
def handleTransition : DotsConnectionState → GuestTransceiver S V
  | .earlySubscribe =>
    { g with
      joinedGroups := g.joinedGroups ∪ (g.preloadSubscribeTypes.map Prod.fst).toFinset
      preloadPublishTypes := []
      preloadSubscribeTypes := [] }
  | .closed => { g with hostConnection := none }
  | _ => g

/-- What the dispatcher throws while it handles a transmission. -/
def dispatchError (t : Transmission S V) : Option String :=
  match (g.pool.dispatchEvent t now).2 with
  | .threw what => some what
  | _ => none

theorem onTransition_isSystem (s : DotsConnectionState) :
    ∀ t ∈ g.onTransition now s, t.instance_.isSystem = false := by
  intro t ht
  cases s with
  | earlySubscribe =>
    rcases List.mem_append.mp ht with ht | ht
    · obtain ⟨e, -, rfl⟩ := List.mem_map.mp ht
      rfl
    · obtain ⟨e, -, ht⟩ := List.mem_flatMap.mp ht
      rcases List.mem_cons.mp ht with rfl | ht
      · rfl
      · split_ifs at ht
        · exact absurd ht List.not_mem_nil
        · obtain rfl := List.mem_singleton.mp ht
          rfl
  | _ => exact absurd ht List.not_mem_nil

/-- The transceiver as the owner of its connection. -/
def owner : Owner S V where
  onTransition := g.onTransition now
  onReceive t := ([], g.dispatchError now t)
  onTransition_isSystem := g.onTransition_isSystem now
  onReceive_isSystem _ _ ht := absurd ht List.not_mem_nil

/-- What the connection did: the transitions reach the guest in their order. -/
def finish (r : Turn S V) : GuestTurn S V where
  guest := r.transitions.foldl handleTransition { g with hostConnection := some r.connection }
  sent := r.sent.map .wire

/-- `open`; what it throws. -/
def open_ (preloadPublishTypes preloadSubscribeTypes : DescriptorMap) : GuestTurn S V :=
  match g.hostConnection with
  | some _ => { guest := g, error := some "attempt to open connection while already connected" }
  | none =>
    let g := { g with preloadPublishTypes, preloadSubscribeTypes }
    match (Connection.guest g.credentials g.names).asyncReceive (g.owner now) now g.selfName none with
    | none => { guest := g, error := some "only one async receive can be started on a connection" }
    | some r => g.finish r

/-- The receive handler of the connection: `handleTransmission` dispatches. -/
def handleTransmission (t : Transmission S V) : GuestTransceiver S V :=
  { g with pool := (g.pool.dispatchEvent t now).1 }

/-- A transmission arrives. -/
def receive (t : Transmission S V) : GuestTurn S V :=
  match g.hostConnection with
  | none => { guest := g }
  | some c =>
    let r := (c.processReceive (g.owner now) now t).1
    (r.received.foldl (fun g t => g.handleTransmission now t) g).finish r

/-- The channel fails. -/
def channelError (what : String) : GuestTurn S V :=
  match g.hostConnection with
  | none => { guest := g }
  | some c => g.finish (Turn.handleError (g.owner now) { connection := c } now what)

/-! ## Calls of the application -/

/-- The end of `publish`: `failure` is what the channel throws, if the transmission fails. -/
def transmit (t : Transmission S V) (failure : Option String) : GuestTurn S V :=
  match g.hostConnection, failure with
  | none, _ => { guest := g, error := some "attempt to publish on closed connection" }
  | some _, none => { guest := g, sent := [t.wire] }
  | some _, some what => g.channelError now what

/-- `publish` of an instance that passes the checks. -/
def publish (p : Publish S V) (failure : Option String) : GuestTurn S V :=
  g.transmit now (p.guestTransmission now) failure

/-- `publish` of a `DotsMember`. -/
def publishMember (name : String) (event : DotsMemberEvent) (failure : Option String) :
    GuestTurn S V :=
  g.transmit now (memberTransmission name event now) failure

/-- A group is joined once, also if the transmission fails. -/
def joinGroup (name : String) (failure : Option String) : GuestTurn S V :=
  if name ∈ g.joinedGroups then { guest := g }
  else
    let r := g.publishMember now name .join failure
    match r.error with
    | some _ => r
    | none =>
      { r with guest := { r.guest with joinedGroups := insert name r.guest.joinedGroups } }

def leaveGroup (name : String) (failure : Option String) : GuestTurn S V :=
  if name ∈ g.joinedGroups then
    let r := g.publishMember now name .leave failure
    match r.error with
    | some _ => r
    | none =>
      { r with guest := { r.guest with joinedGroups := r.guest.joinedGroups.erase name } }
  else { guest := g }

end GuestTransceiver

end Dots

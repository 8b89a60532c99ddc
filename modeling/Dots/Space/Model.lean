import Dots.Guest.Model
import Dots.Host.Model
import Dots.Lib.Run

/-!
# A space: a host and its guests

* `Peer`: a guest with the id its last connection has at the host, the transmissions on their way
  to the host, and what the laws about it have to remember.
* `Space`: the host, whose outboxes are the transmissions on their way to the guests.
* `SpaceAct`, **`Space.step`**: the calls of the applications, the deliveries, the failures.
* `Settled`: nothing is on its way between a guest and the host.
-/

set_option autoImplicit false
set_option linter.unusedSectionVars false

namespace Dots

variable (S : Schema) (V : Type) [Ord V] [Std.TransOrd V] [Std.LawfulEqOrd V]

/-- A guest and its channel to the host. The fields from `remembered` on are read by no step. -/
structure Peer where
  guest : GuestTransceiver S V
  id : ConnectionId := uninitializedId
  toHost : List (Transmission S V) := []
  /-- The groups that the guest had joined when it opened its connection, and for which it has
  sent neither a leave nor a join since. -/
  remembered : Finset String := ∅
  /-- The preload subscriptions of the connection. -/
  preload : Finset String := ∅
  /-- The containers of the host when its side of the connection became connected. -/
  snapshot : Option (ContainerPool S V) := none
  /-- The containers of the guest when its side became connected. -/
  filled : Option (ContainerPool S V) := none

structure Space where
  host : HostTransceiver S V
  peers : ℕ → Peer S V

/-- The steps of a space. `failure` is what the channel throws if a transmission fails. -/
inductive SpaceAct
  | open_ (p : ℕ) (preloadPublishTypes preloadSubscribeTypes : DescriptorMap)
      (authManager : Option AuthManager) (now : Timepoint)
  | publish (p : ℕ) (x : Publish S V) (failure : Option String) (now : Timepoint)
  | joinGroup (p : ℕ) (name : String) (failure : Option String) (now : Timepoint)
  | leaveGroup (p : ℕ) (name : String) (failure : Option String) (now : Timepoint)
  /-- One more join message for a group that the guest has joined already. -/
  | joinAgain (p : ℕ) (name : String) (now : Timepoint)
  | hostReceive (p : ℕ) (now : Timepoint)
  | guestReceive (p : ℕ) (now : Timepoint)
  | hostError (id : ConnectionId) (what : String) (now : Timepoint)
  | guestError (p : ℕ) (what : String) (now : Timepoint)

variable {S V}

namespace GuestTransceiver

/-- Whether the connection is connected. -/
def connected (g : GuestTransceiver S V) : Bool :=
  match g.hostConnection with
  | some c => decide (c.state = .connected)
  | none => false

theorem hostConnection_of_connected {g : GuestTransceiver S V} (h : g.connected = true) :
    g.hostConnection ≠ none := fun hnone => by
  rw [connected, hnone] at h
  cases h

end GuestTransceiver

namespace HostTransceiver

/-- Whether a connection is connected. -/
def connected (h : HostTransceiver S V) (id : ConnectionId) : Bool :=
  match h.guestConnections id with
  | some g => decide (g.connection.state = .connected)
  | none => false

end HostTransceiver

namespace Space

variable (s : Space S V)

/-- The space with another peer `p`. -/
def setPeer (p : ℕ) (peer : Peer S V) : Space S V :=
  { s with peers := Function.update s.peers p peer }

/-- The guest `p` has its turn: what it sent is on its way to the host. The groups in `again` it has
announced once more. -/
def take (p : ℕ) (r : GuestTurn S V) (again : Finset String := ∅) : Space S V :=
  let peer := s.peers p
  s.setPeer p
    { peer with
      guest := r.guest
      toHost := peer.toHost ++ r.sent
      remembered := (peer.remembered ∩ r.guest.joinedGroups) \ again
      filled :=
        if r.guest.connected = true ∧ peer.guest.connected = false then some r.guest.pool
        else peer.filled }

def step : SpaceAct S V → Option (Space S V)
  | .open_ p preloadPublishTypes preloadSubscribeTypes authManager now =>
    let guest := (s.peers p).guest
    match guest.hostConnection with
    | some _ => none
    | none =>
      let r := guest.open_ now preloadPublishTypes preloadSubscribeTypes
      some ({ s with host := s.host.accept now authManager }.setPeer p
        { guest := r.guest
          id := s.host.nextGuestId
          toHost := r.sent
          remembered := guest.joinedGroups
          preload := (preloadSubscribeTypes.map Prod.fst).toFinset })
  | .publish p x failure now => some (s.take p ((s.peers p).guest.publish now x failure))
  | .joinGroup p name failure now =>
    some (s.take p ((s.peers p).guest.joinGroup now name failure))
  | .leaveGroup p name failure now =>
    some (s.take p ((s.peers p).guest.leaveGroup now name failure))
  | .joinAgain p name now =>
    if name ∈ (s.peers p).guest.joinedGroups then
      some (s.take p ((s.peers p).guest.publishMember now name .join none) {name})
    else none
  | .hostReceive p now =>
    let peer := s.peers p
    match peer.toHost with
    | [] => none
    | t :: rest =>
      let host := s.host.receive peer.id now t
      some ({ s with host }.setPeer p
        { peer with
          toHost := rest
          snapshot :=
            if host.connected peer.id = true ∧ s.host.connected peer.id = false then some host.pool
            else peer.snapshot })
  | .guestReceive p now =>
    let peer := s.peers p
    match peer.guest.hostConnection, s.host.outbox peer.id with
    | some _, t :: rest =>
      some ({ s with host := { s.host with outbox := Function.update s.host.outbox peer.id rest } }.take
        p (peer.guest.receive now t))
    | _, _ => none
  | .hostError id what now => some { s with host := s.host.channelError id now what }
  | .guestError p what now => some (s.take p ((s.peers p).guest.channelError now what))

/-- Nothing is on its way between the guest `p` and the host, not even the end of the channel. -/
structure Settled (p : ℕ) : Prop where
  toHost : (s.peers p).toHost = []
  toGuest : s.host.outbox (s.peers p).id = []
  isOpen : s.host.isOpen (s.peers p).id = true

/-- `Settled`, computed. -/
def isSettled (p : ℕ) : Bool :=
  (s.peers p).toHost.isEmpty && (s.host.outbox (s.peers p).id).isEmpty &&
    s.host.isOpen (s.peers p).id

theorem settled_of_isSettled {p : ℕ} (h : s.isSettled p = true) : s.Settled p := by
  simp only [isSettled, Bool.and_eq_true, List.isEmpty_iff] at h
  exact ⟨h.1.1, h.1.2, h.2⟩

/-- A space in which no guest has connected yet. -/
structure Initial : Prop where
  nextGuestId : s.host.nextGuestId = hostId + 1
  guestConnections : ∀ id, s.host.guestConnections id = none
  groups : ∀ n, s.host.groups n = ∅
  pool : s.host.pool = .empty
  outbox : ∀ id, s.host.outbox id = []
  id : ∀ p, (s.peers p).id = uninitializedId
  hostConnection : ∀ p, (s.peers p).guest.hostConnection = none
  joinedGroups : ∀ p, (s.peers p).guest.joinedGroups = ∅
  guestPool : ∀ p, (s.peers p).guest.pool = .empty
  toHost : ∀ p, (s.peers p).toHost = []
  remembered : ∀ p, (s.peers p).remembered = ∅
  filled : ∀ p, (s.peers p).filled = none

end Space

/-! ## A space of one type -/

/-- A space for `DotsTestStruct`. -/
def testSpace : Space testSchema ℕ where
  host := { selfName := "dotsd", registry := ⟨fun _ => some (.struct {} [])⟩ }
  peers := fun _ => { guest := { selfName := "guest" } }

theorem testSpace_initial : testSpace.Initial :=
  ⟨rfl, fun _ => rfl, fun _ => rfl, rfl, fun _ => rfl, fun _ => rfl, fun _ => rfl, fun _ => rfl,
    fun _ => rfl, fun _ => rfl, fun _ => rfl, fun _ => rfl⟩

/-- The guest `p` opens a connection, which becomes connected. -/
def connecting (p : ℕ) : List (SpaceAct testSchema ℕ) :=
  [.open_ p [] [] none 0, .guestReceive p 0, .hostReceive p 0, .guestReceive p 0, .hostReceive p 0,
    .guestReceive p 0]

/-- The guest `p` calls, and its message arrives. -/
def joining (p : ℕ) : List (SpaceAct testSchema ℕ) :=
  [.joinGroup p "DotsTestStruct" none 0, .hostReceive p 0]

def leaving (p : ℕ) : List (SpaceAct testSchema ℕ) :=
  [.leaveGroup p "DotsTestStruct" none 0, .hostReceive p 0]

def publishing (p : ℕ) (x : Publish testSchema ℕ) : List (SpaceAct testSchema ℕ) :=
  [.publish p x none 0, .hostReceive p 0]

end Dots

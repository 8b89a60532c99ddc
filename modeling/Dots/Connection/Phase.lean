import Dots.Connection.Model
import Dots.Lib.Run

/-!
# The phases of the handshake

Two connections and the messages in flight between them. `Phase` numbers the handshake by the
messages that have been processed; a side that closes leaves the phase where it is.

* `Handshake`, `Handshake.step`: the two connections, the channels, and the steps.
* `Turn.Closes`, `Turn.Keeps`, `Turn.Answers`: what one call can do.
* `Path`: the states a side goes through.
* **`Phased`**: which states and messages belong to a phase.
* **`Phased.start`, `Phased.deliver`, `Phased.take_closes`, `Phased.take_keeps`**: the steps.
-/

set_option autoImplicit false

namespace Dots

variable {S : Schema} {V : Type}

/-! ## The two sides -/

inductive Side | host | guest
  deriving DecidableEq

def Side.peer : Side → Side
  | host => guest
  | guest => host

variable (S V) in
/-- One message that a side has taken from its channel: the state it was in, whether it reached
the receive handler, and what was thrown. -/
structure Delivery where
  side : Side
  state : DotsConnectionState
  transmission : Transmission S V
  received : Bool
  error : Option ConnectionError

variable (S V) in
/-- A host connection and a guest connection with the messages in flight. -/
structure Handshake where
  connection : Side → Connection
  /-- The messages on their way to a side, the oldest first. -/
  inbox : Side → List (Transmission S V) := fun _ => []
  /-- The states a side has gone through. -/
  transitions : Side → List DotsConnectionState := fun _ => []
  deliveries : List (Delivery S V) := []

variable (S V) in
/-- The steps: the start of a side, the delivery of a message, an instance that an owner
transmits, and the two ways in which a side closes on its own. -/
inductive HandshakeAct
  | start (side : Side) (o : Owner S V) (name : String) (authManager : Option AuthManager)
      (now : Timepoint)
  | deliver (side : Side) (o : Owner S V) (now : Timepoint)
  | transmit (side : Side) (t : Transmission S V)
  | handleError (side : Side) (o : Owner S V) (what : String) (now : Timepoint)
  | destroy (side : Side) (o : Owner S V) (now : Timepoint)

namespace Handshake

variable (h : Handshake S V)

/-- Two connections before their start. -/
def init (peerId : ConnectionId) (credentials : Credentials)
    (names : String → PropertySet → List String) : Handshake S V where
  connection
    | .host => .host peerId names
    | .guest => .guest credentials names

/-- A side has its turn: what it sent is on its way to the other side. -/
def take (side : Side) (r : Turn S V) : Handshake S V :=
  { h with
    connection := Function.update h.connection side r.connection
    inbox := Function.update h.inbox side.peer (h.inbox side.peer ++ r.sent.map .wire)
    transitions := Function.update h.transitions side (h.transitions side ++ r.transitions) }

/-- A side takes the next message from its channel. -/
def deliver (side : Side) (o : Owner S V) (now : Timepoint) : Option (Handshake S V) :=
  match h.inbox side with
  | [] => none
  | t :: rest =>
    if (h.connection side).state = .suspended then none
    else
      let r := (h.connection side).processReceive o now t
      let h' : Handshake S V := { h with inbox := Function.update h.inbox side rest }
      let h' := h'.take side r.1
      some { h' with
        deliveries :=
          ⟨side, (h.connection side).state, t, !r.1.received.isEmpty, r.2⟩ :: h.deliveries }

def step : HandshakeAct S V → Option (Handshake S V)
  | .start side o name authManager now =>
    ((h.connection side).asyncReceive o now name authManager).map (h.take side)
  | .deliver side o now => h.deliver side o now
  | .transmit side t =>
    if t.instance_.isSystem then none
    else some (h.take side { connection := h.connection side, sent := [t] })
  | .handleError side o what now =>
    some (h.take side (Turn.handleError o { connection := h.connection side } now what))
  | .destroy side o now => some (h.take side ((h.connection side).destroy o now))

end Handshake

/-! ## What a turn sends of the handshake -/

/-- The handshake messages of a list. -/
def system (ts : List (Transmission S V)) : List (AnyStruct S V) :=
  (ts.map Transmission.instance_).filter AnyStruct.isSystem

theorem system_append (ts us : List (Transmission S V)) :
    system (ts ++ us) = system ts ++ system us := by
  simp [system]

@[simp] theorem system_nil : system ([] : List (Transmission S V)) = [] := rfl

theorem system_cons (t : Transmission S V) (ts : List (Transmission S V)) :
    system (t :: ts) = (if t.instance_.isSystem then [t.instance_] else []) ++ system ts := by
  unfold system
  by_cases h : t.instance_.isSystem <;> simp [h]

theorem system_eq_nil {ts : List (Transmission S V)}
    (h : ∀ t ∈ ts, t.instance_.isSystem = false) : system ts = [] := by
  simpa [system] using h

@[simp] theorem system_wire (ts : List (Transmission S V)) :
    system (ts.map .wire) = system ts := by
  induction ts with
  | nil => rfl
  | cons t ts ih =>
    rw [List.map_cons, system_cons, system_cons, ih]
    by_cases h : t.instance_.isSystem
    · simp [Transmission.wire, AnyStruct.restrict_of_isSystem h, h]
    · simp [Transmission.wire, h]

namespace Turn

variable {o : Owner S V} {r : Turn S V} {τ : Timepoint}

@[simp] theorem system_setConnectionState (s : DotsConnectionState) :
    system (r.setConnectionState o s).sent = system r.sent := by
  rw [setConnectionState, system_append, system_eq_nil (o.onTransition_isSystem s),
    List.append_nil]

@[simp] theorem system_transmit {x : AnyStruct S V} (h : x.isSystem = true) :
    system (r.transmit τ x).sent = system r.sent ++ [x] := by
  rw [transmit, system_append, system_cons]
  simp [Transmission.ofInstance, h]

@[simp] theorem expect_sent (h : SystemHandler) : (r.expect h).sent = r.sent := rfl

@[simp] theorem expect_transitions (h : SystemHandler) :
    (r.expect h).transitions = r.transitions := rfl

@[simp] theorem expect_state (h : SystemHandler) :
    (r.expect h).connection.state = r.connection.state := rfl

@[simp] theorem expect_expected (h : SystemHandler) :
    (r.expect h).connection.expected = expectSystemType h := rfl

@[simp] theorem transmit_connection (x : AnyStruct S V) :
    (r.transmit τ x).connection = r.connection := rfl

@[simp] theorem transmit_transitions (x : AnyStruct S V) :
    (r.transmit τ x).transitions = r.transitions := rfl

@[simp] theorem setConnectionState_state (s : DotsConnectionState) :
    (r.setConnectionState o s).connection.state = s := rfl

@[simp] theorem setConnectionState_transitions (s : DotsConnectionState) :
    (r.setConnectionState o s).transitions = r.transitions ++ [s] := rfl

/-- A turn that closes the connection: it sends no handshake message but an error, and that only
if it was connected. -/
def Closes (c : Connection) (r : Turn S V) : Prop :=
  r.connection.state = .closed ∧ r.transitions = [.closed] ∧
    (system r.sent = [] ∨ c.state = .connected ∧ ∃ m, system r.sent = [.error m])

/-- A turn that leaves state, expectation and id of the connection as they are and sends no
handshake message. -/
structure Keeps (c : Connection) (r : Turn S V) : Prop where
  state : r.connection.state = c.state
  expected : r.connection.expected = c.expected
  selfId : r.connection.selfId = c.selfId
  transitions : r.transitions = []
  system_sent : system r.sent = []

theorem closes_handleClose {c : Connection} (hc : r.transitions = [])
    (hs : system r.sent = [] ∨ c.state = .connected ∧ ∃ m, system r.sent = [.error m]) :
    Closes c (r.handleClose o) := by
  refine ⟨rfl, ?_, ?_⟩
  · rw [handleClose, setConnectionState_transitions, hc]
    rfl
  · rwa [handleClose, system_setConnectionState]

theorem closes_handleError {c : Connection} (hk : Keeps c r) (what : String) :
    Closes c (r.handleError o τ what) := by
  unfold handleError
  split_ifs with hstate
  · refine closes_handleClose hk.transitions
      (.inr ⟨hk.state ▸ hstate, { errorCode := some 1, errorText := some what }, ?_⟩)
    rw [system_transmit rfl, hk.system_sent]
    rfl
  · exact closes_handleClose hk.transitions (.inl hk.system_sent)

theorem closes_handlePeerError {c : Connection} (hk : Keeps c r) (m : DotsMsgError) :
    Closes c (r.handlePeerError o τ m) := by
  unfold handlePeerError
  split_ifs
  · exact closes_handleClose hk.transitions (.inl hk.system_sent)
  · exact closes_handleError hk _

theorem keeps_handleInstance {c : Connection} (hk : Keeps c r) (t : Transmission S V) :
    Keeps c (r.handleInstance o τ t).1 := by
  unfold handleInstance
  split_ifs
  · exact hk
  · exact hk
  · refine { hk with system_sent := ?_ }
    rw [system_append, hk.system_sent, system_eq_nil (o.onReceive_isSystem _)]
    rfl

end Turn

namespace Connection

variable {o : Owner S V} {c : Connection} {τ : Timepoint} {t : Transmission S V}

theorem keeps_refl : Turn.Keeps c ({ connection := c } : Turn S V) :=
  ⟨rfl, rfl, rfl, rfl, rfl⟩

/-- A message that arrives at a closed connection is dropped. -/
theorem processReceive_closed (hc : c.state = .closed) :
    c.processReceive o τ t = ({ connection := c }, none) := by
  simp [processReceive, Turn.handleReceive, Turn.processError, hc]

theorem handleReceive_instance (hc : c.state ≠ .closed) (ht : t.instance_.isSystem = false) :
    ({ connection := c } : Turn S V).handleReceive o τ t =
      ({ connection := c } : Turn S V).handleInstance o τ t := by
  unfold Turn.handleReceive
  rw [if_neg hc]
  split
  · rename_i m he
    rw [he] at ht
    cases ht
  · rw [if_neg (by simp [ht])]

/-- **An instance** leaves the connection as it is or closes it. -/
theorem processReceive_instance (ht : t.instance_.isSystem = false) :
    Turn.Keeps c (c.processReceive o τ t).1 ∨ Turn.Closes c (c.processReceive o τ t).1 := by
  by_cases hc : c.state = .closed
  · rw [processReceive_closed hc]
    exact .inl keeps_refl
  have hk := Turn.keeps_handleInstance (o := o) (τ := τ) (keeps_refl (c := c)) t
  rw [processReceive, handleReceive_instance hc ht]
  generalize Turn.handleInstance o ({ connection := c } : Turn S V) τ t = re at hk
  obtain ⟨r, _ | e⟩ := re
  · exact .inl hk
  · exact .inr (Turn.closes_handleError hk _)

/-- **An error of the peer** closes the connection. -/
theorem processReceive_error (hc : c.state ≠ .closed) {m : DotsMsgError}
    (ht : t.instance_ = .error m) :
    Turn.Closes c (c.processReceive o τ t).1 ∧ (c.processReceive o τ t).2 = none := by
  have hr : ({ connection := c } : Turn S V).handleReceive o τ t =
      (({ connection := c } : Turn S V).handlePeerError o τ m, none) := by
    unfold Turn.handleReceive
    rw [if_neg hc, ht]
  unfold processReceive
  rw [hr]
  exact ⟨Turn.closes_handlePeerError keeps_refl m, rfl⟩

/-- **An expected handshake message** goes to its handler. -/
theorem processReceive_expected {s : SystemHandler} (hc : c.state ≠ .closed)
    (he : c.expected = expectSystemType s) (ht : t.instance_.isSystem = true)
    (hne : ∀ m, t.instance_ ≠ .error m)
    (hname : t.instance_.typeName = (expectSystemType s).typeName)
    (hprops : (expectSystemType s).properties ⊆ t.instance_.systemProperties) :
    c.processReceive o τ t =
      Turn.processError o τ
        (({ connection := c } : Turn S V).callHandler o τ s t.instance_) := by
  have hr : ({ connection := c } : Turn S V).handleReceive o τ t =
      ({ connection := c } : Turn S V).callHandler o τ s t.instance_ := by
    unfold Turn.handleReceive
    rw [if_neg hc]
    split
    · rename_i m hm
      exact absurd hm (hne m)
    · rw [if_pos ht]
      unfold Turn.handleSystem
      simp only [he, hname, ne_eq, not_true_eq_false, if_false, hprops]
      cases s <;> rfl
  rw [processReceive, hr]

/-- **A message that is not the expected one** closes a connection that is not established. -/
theorem processReceive_unexpected {s : SystemHandler} (hc : c.state ≠ .closed)
    (hest : c.state.established = false) (he : c.expected = expectSystemType s)
    (ht : ¬ (t.instance_.isSystem = true ∧
      t.instance_.typeName = (expectSystemType s).typeName ∧
      (expectSystemType s).properties ⊆ t.instance_.systemProperties)) :
    Turn.Closes c (c.processReceive o τ t).1 := by
  by_cases herr : ∃ m, t.instance_ = .error m
  · obtain ⟨m, hm⟩ := herr
    exact (processReceive_error hc hm).1
  have hthrow : ∃ e, ({ connection := c } : Turn S V).handleReceive o τ t =
      ({ connection := c }, some e) := by
    unfold Turn.handleReceive
    rw [if_neg hc]
    split
    · rename_i m hm
      exact absurd ⟨m, hm⟩ herr
    · split_ifs with hsys
      · unfold Turn.handleSystem
        simp only [he]
        split_ifs with hname hprops
        · exact ⟨_, rfl⟩
        · exact absurd ⟨hsys, not_not.mp hname, hprops⟩ ht
        · exact ⟨_, rfl⟩
      · unfold Turn.handleInstance
        simp only [hest, if_true]
        exact ⟨_, rfl⟩
  obtain ⟨e, hthrow⟩ := hthrow
  rw [processReceive, hthrow]
  exact Turn.closes_handleError keeps_refl _

end Connection

theorem AnyStruct.eq_hello {x : AnyStruct S V} (h : x.isSystem = true)
    (hn : x.typeName = "DotsMsgHello") : ∃ m, x = .hello m := by
  cases x with
  | hello m => exact ⟨m, rfl⟩
  | struct n y => cases h
  | _ => exact absurd hn (by simp [typeName])

theorem AnyStruct.eq_connect {x : AnyStruct S V} (h : x.isSystem = true)
    (hn : x.typeName = "DotsMsgConnect") : ∃ m, x = .connect m := by
  cases x with
  | connect m => exact ⟨m, rfl⟩
  | struct n y => cases h
  | _ => exact absurd hn (by simp [typeName])

theorem AnyStruct.eq_connectResponse {x : AnyStruct S V} (h : x.isSystem = true)
    (hn : x.typeName = "DotsMsgConnectResponse") : ∃ m, x = .connectResponse m := by
  cases x with
  | connectResponse m => exact ⟨m, rfl⟩
  | struct n y => cases h
  | _ => exact absurd hn (by simp [typeName])

/-! ## The course of the states -/

/-- The order in which a connection goes through its states. -/
def DotsConnectionState.rank : DotsConnectionState → ℕ
  | .suspended => 0
  | .connecting => 1
  | .earlySubscribe => 2
  | .connected => 3
  | .closed => 4

/-- The states gone through lead from suspended to `s` and never go back. -/
def Path (ss : List DotsConnectionState) (s : DotsConnectionState) : Prop :=
  (.suspended :: ss).Pairwise (fun a b => a.rank ≤ b.rank) ∧
    (DotsConnectionState.suspended :: ss).getLast? = some s

/-- What a turn does to the state: nothing, or one transition that does not go back. -/
def Turn.Advances (c : Connection) (r : Turn S V) : Prop :=
  r.transitions = [] ∧ r.connection.state = c.state ∨
    r.transitions = [r.connection.state] ∧ c.state.rank ≤ r.connection.state.rank

theorem Path.append {ss : List DotsConnectionState} {s : DotsConnectionState} (h : Path ss s)
    {c : Connection} (hc : c.state = s) {r : Turn S V} (hr : r.Advances c) :
    Path (ss ++ r.transitions) r.connection.state := by
  rcases hr with ⟨ht, hs⟩ | ⟨ht, hle⟩
  · rw [ht, List.append_nil, hs, hc]
    exact h
  · rw [ht]
    rw [Path, ← List.cons_append, List.pairwise_append]
    refine ⟨⟨h.1, List.pairwise_singleton _ _, fun a ha b hb => ?_⟩, List.getLast?_concat⟩
    obtain rfl := List.mem_singleton.mp hb
    refine le_trans ?_ (hc ▸ hle)
    -- the last state has the largest rank
    obtain ⟨ls, hl⟩ := List.getLast?_eq_some_iff.mp h.2
    have hp := h.1
    rw [hl] at ha hp
    rcases List.mem_append.mp ha with ha | ha
    · exact (List.pairwise_append.mp hp).2.2 a ha s List.mem_cons_self
    · obtain rfl := List.mem_singleton.mp ha
      exact le_rfl

theorem Turn.Keeps.advances {c : Connection} {r : Turn S V} (h : r.Keeps c) : r.Advances c :=
  .inl ⟨h.transitions, h.state⟩

theorem rank_le_closed (s : DotsConnectionState) : s.rank ≤ DotsConnectionState.closed.rank := by
  cases s <;> simp [DotsConnectionState.rank]

theorem Turn.Closes.advances {c : Connection} {r : Turn S V} (h : r.Closes c) : r.Advances c :=
  .inr ⟨h.1 ▸ h.2.1, h.1 ▸ rank_le_closed _⟩

/-! ## The phases -/

/-- The handshake, by the messages that have been processed. -/
inductive Phase
  | unstarted | hello | connect | response | clientFinished | finished | established
  deriving DecidableEq

/-- The host in a phase, unless it has closed. -/
def HostIn (c : Connection) : Phase → Prop
  | .unstarted => c.state = .suspended ∧ c.selfId = hostId
  | .hello | .connect => c.state = .connecting ∧ c.expected = expectSystemType .handleConnect
  | .response | .clientFinished =>
    c.state = .earlySubscribe ∧ c.expected = expectSystemType .handlePreloadClientFinished
  | .finished | .established =>
    c.state = .connected ∧ c.expected = expectSystemType .handlePeerError

/-- The guest in a phase, unless it has closed. -/
def GuestIn (c : Connection) : Phase → Prop
  | .unstarted | .hello =>
    c.state = .suspended ∧ c.selfId ≠ hostId ∨
      c.state = .connecting ∧ c.expected = expectSystemType .handleHello
  | .connect | .response =>
    c.state = .connecting ∧ c.expected = expectSystemType .handleAuthorizationRequest
  | .clientFinished | .finished =>
    c.state = .earlySubscribe ∧ c.expected = expectSystemType .handlePreloadFinished
  | .established => c.state = .connected ∧ c.expected = expectSystemType .handlePeerError

theorem HostIn.congr {c c' : Connection} {p : Phase} (hs : c'.state = c.state)
    (he : c'.expected = c.expected) (hi : c'.selfId = c.selfId) (h : HostIn c p) : HostIn c' p := by
  cases p <;> simpa only [HostIn, hs, he, hi] using h

theorem GuestIn.congr {c c' : Connection} {p : Phase} (hs : c'.state = c.state)
    (he : c'.expected = c.expected) (hi : c'.selfId = c.selfId) (h : GuestIn c p) :
    GuestIn c' p := by
  cases p <;> simpa only [GuestIn, hs, he, hi] using h

/-- Nothing, or the error of a sender that has closed. -/
def Farewell (closed : Prop) (xs : List (AnyStruct S V)) : Prop :=
  xs = [] ∨ closed ∧ ∃ m, xs = [.error m]

/-- The handshake messages on their way to the host in a phase. -/
def ToHost (guestClosed : Prop) (xs : List (AnyStruct S V)) : Phase → Prop
  | .connect => ∃ m, xs = [.connect m] ∧ {1, 2} ⊆ m.validProperties ∧ m.preloadCache = some true
  | .clientFinished => xs = [.connect { preloadClientFinished := some true }]
  | .established => Farewell guestClosed xs
  | _ => xs = []

/-- The handshake messages on their way to the guest in a phase. -/
def ToGuest (hostClosed : Prop) (xs : List (AnyStruct S V)) : Phase → Prop
  | .hello => ∃ m, xs = [.hello m] ∧ {1, 2} ⊆ m.validProperties
  | .response =>
    ∃ m, xs = [.connectResponse m] ∧ {5, 2, 3} ⊆ m.validProperties ∧ m.preload = some true
  | .finished => ∃ ys, xs = .connectResponse { preloadFinished := some true } :: ys ∧
      Farewell hostClosed ys
  | .established => Farewell hostClosed xs
  | _ => xs = []

/-- **The handshake is in a phase.** What a closed side would receive does not matter. -/
structure Phased (h : Handshake S V) (p : Phase) : Prop where
  host : (h.connection .host).state = .closed ∨ HostIn (h.connection .host) p
  guest : (h.connection .guest).state = .closed ∨ GuestIn (h.connection .guest) p
  toHost : (h.connection .host).state = .closed ∨
    ToHost ((h.connection .guest).state = .closed) (system (h.inbox .host)) p
  toGuest : (h.connection .guest).state = .closed ∨
    ToGuest ((h.connection .host).state = .closed) (system (h.inbox .guest)) p
  connected : p = .finished ∨ p = .established → .connected ∈ h.transitions .host
  path : ∀ side, Path (h.transitions side) (h.connection side).state

namespace Handshake

variable (h : Handshake S V)

/-- The handshake with other messages on their way to one side. -/
def setInbox (side : Side) (ts : List (Transmission S V)) : Handshake S V :=
  { h with inbox := Function.update h.inbox side ts }

@[simp] theorem setInbox_self (side : Side) : h.setInbox side (h.inbox side) = h := by
  simp [setInbox]

variable (r : Turn S V) (ts : List (Transmission S V))

@[simp] theorem take_connection_self (side : Side) :
    (h.take side r).connection side = r.connection := by
  simp [take]

theorem system_take_guest :
    system ((h.take .host r).inbox .guest) = system (h.inbox .guest) ++ system r.sent := by
  rw [← system_wire r.sent, ← system_append]
  rfl

theorem system_take_host :
    system ((h.take .guest r).inbox .host) = system (h.inbox .host) ++ system r.sent := by
  rw [← system_wire r.sent, ← system_append]
  rfl

theorem path_take (side : Side) (hr : r.Advances (h.connection side))
    (hp : ∀ side, Path (h.transitions side) (h.connection side).state) :
    ∀ side', Path ((h.take side r).transitions side') ((h.take side r).connection side').state := by
  intro side'
  by_cases hs : side' = side
  · subst hs
    simpa [take] using (hp side').append rfl hr
  · simpa [take, hs] using hp side'

theorem mem_transitions_take {side side' : Side} {s : DotsConnectionState}
    (hs : s ∈ h.transitions side') : s ∈ (h.take side r).transitions side' := by
  by_cases he : side' = side
  · subst he
    simp [take, hs]
  · simp [take, he, hs]

end Handshake

section Steps

variable {h : Handshake S V} {p : Phase} {r : Turn S V} {rest : List (Transmission S V)}

theorem Farewell.eq_nil {closed : Prop} {xs : List (AnyStruct S V)} (h : Farewell closed xs)
    (hc : ¬ closed) : xs = [] :=
  h.resolve_right fun he => hc he.1

/-- The last message of a side that closes while it is connected. -/
def Parting (c : Connection) (xs : List (AnyStruct S V)) : Prop :=
  xs = [] ∨ c.state = .connected ∧ ∃ m, xs = [.error m]

theorem ToGuest.parting {c : Connection} {xs ys : List (AnyStruct S V)} (hc : HostIn c p)
    (h : ToGuest (c.state = .closed) xs p) (hopen : c.state ≠ .closed) (hy : Parting c ys) :
    ToGuest True (xs ++ ys) p := by
  rcases hy with rfl | ⟨hcon, m, rfl⟩
  · rw [List.append_nil]
    cases p with
    | finished =>
      obtain ⟨zs, hx, hz⟩ := h
      exact ⟨zs, hx, .inl (hz.eq_nil hopen)⟩
    | established => exact .inl (h.eq_nil hopen)
    | _ => exact h
  · cases p with
    | finished =>
      obtain ⟨zs, rfl, hz⟩ := h
      rw [hz.eq_nil hopen]
      exact ⟨[.error m], rfl, .inr ⟨trivial, m, rfl⟩⟩
    | established =>
      rw [h.eq_nil hopen]
      exact .inr ⟨trivial, m, rfl⟩
    | _ => exact absurd (hc.1.symm.trans hcon) (by decide)

theorem ToHost.parting {c : Connection} {xs ys : List (AnyStruct S V)} (hc : GuestIn c p)
    (h : ToHost (c.state = .closed) xs p) (hopen : c.state ≠ .closed) (hy : Parting c ys) :
    ToHost True (xs ++ ys) p := by
  rcases hy with rfl | ⟨hcon, m, rfl⟩
  · rw [List.append_nil]
    cases p with
    | established => exact .inl (h.eq_nil hopen)
    | _ => exact h
  · cases p with
    | established =>
      rw [h.eq_nil hopen]
      exact .inr ⟨trivial, m, rfl⟩
    | unstarted | hello =>
      rcases hc with hc | hc <;> exact absurd (hc.1.symm.trans hcon) (by decide)
    | _ => exact absurd (hc.1.symm.trans hcon) (by decide)

/-- **A side closes**, whatever was on its way to it. -/
theorem Phased.take_closes (hp : Phased h p) (side : Side) (hr : r.Closes (h.connection side))
    (rest : List (Transmission S V)) : Phased ((h.setInbox side rest).take side r) p := by
  have hpath := (h.setInbox side rest).path_take r side hr.advances hp.path
  obtain ⟨hclosed, -, hsent⟩ := hr
  by_cases hopen : (h.connection side).state = .closed
  · -- a side that has closed already has nothing left to send
    have hnil : system r.sent = [] := hsent.resolve_right fun hc => by simp [hopen] at hc
    cases side with
    | host =>
      refine ⟨.inl hclosed, hp.guest, .inl hclosed, ?_,
        fun hc => Handshake.mem_transitions_take _ _ (hp.connected hc), hpath⟩
      rw [Handshake.system_take_guest, Handshake.take_connection_self, hnil, List.append_nil,
        eq_true hclosed, ← eq_true hopen]
      exact hp.toGuest
    | guest =>
      refine ⟨hp.host, .inl hclosed, ?_, .inl hclosed,
        fun hc => Handshake.mem_transitions_take _ _ (hp.connected hc), hpath⟩
      rw [Handshake.system_take_host, Handshake.take_connection_self, hnil, List.append_nil,
        eq_true hclosed, ← eq_true hopen]
      exact hp.toHost
  cases side with
  | host =>
    refine ⟨.inl hclosed, hp.guest, .inl hclosed, hp.toGuest.imp_right fun hg => ?_,
      fun hc => Handshake.mem_transitions_take _ _ (hp.connected hc), hpath⟩
    rw [Handshake.system_take_guest, Handshake.take_connection_self, eq_true hclosed]
    exact hg.parting (hp.host.resolve_left hopen) hopen hsent
  | guest =>
    refine ⟨hp.host, .inl hclosed, hp.toHost.imp_right fun hg => ?_, .inl hclosed,
      fun hc => Handshake.mem_transitions_take _ _ (hp.connected hc), hpath⟩
    rw [Handshake.system_take_host, Handshake.take_connection_self, eq_true hclosed]
    exact hg.parting (hp.guest.resolve_left hopen) hopen hsent

/-- **A side stays as it is** and takes no handshake message that matters. -/
theorem Phased.take_keeps (hp : Phased h p) (side : Side) (hr : r.Keeps (h.connection side))
    (hrest : (h.connection side).state = .closed ∨ system rest = system (h.inbox side)) :
    Phased ((h.setInbox side rest).take side r) p := by
  have hpath := (h.setInbox side rest).path_take r side hr.advances hp.path
  cases side with
  | host =>
    refine ⟨?_, hp.guest, ?_, ?_, fun hc =>
      Handshake.mem_transitions_take _ _ (hp.connected hc), hpath⟩
    · rw [Handshake.take_connection_self, hr.state]
      exact hp.host.imp_right (HostIn.congr hr.state hr.expected hr.selfId)
    · rw [Handshake.take_connection_self, hr.state]
      refine hrest.elim .inl fun hs => hp.toHost.imp_right fun hh => ?_
      exact hs.symm ▸ hh
    · rw [Handshake.system_take_guest, hr.system_sent, List.append_nil,
        Handshake.take_connection_self, hr.state]
      exact hp.toGuest
  | guest =>
    refine ⟨hp.host, ?_, ?_, ?_, fun hc =>
      Handshake.mem_transitions_take _ _ (hp.connected hc), hpath⟩
    · rw [Handshake.take_connection_self, hr.state]
      exact hp.guest.imp_right (GuestIn.congr hr.state hr.expected hr.selfId)
    · rw [Handshake.system_take_host, hr.system_sent, List.append_nil,
        Handshake.take_connection_self, hr.state]
      exact hp.toHost
    · rw [Handshake.take_connection_self, hr.state]
      refine hrest.elim .inl fun hs => hp.toGuest.imp_right fun hh => ?_
      exact hs.symm ▸ hh

/-! ### The start -/

theorem Connection.asyncReceive_host {o : Owner S V} {c : Connection} {τ : Timepoint}
    {u : String} {a : Option AuthManager} (hs : c.state = .suspended) (hi : c.selfId = hostId) :
    ∃ r m, c.asyncReceive o τ u a = some r ∧ r.connection.state = .connecting ∧
      r.connection.expected = expectSystemType .handleConnect ∧ r.transitions = [.connecting] ∧
      system r.sent = [.hello m] ∧ {1, 2} ⊆ m.validProperties := by
  unfold Connection.asyncReceive
  rw [if_neg (by simp [hs])]
  simp only [Turn.setConnectionState, hi, if_true]
  cases a.bind AuthManager.requiresAuthentication with
  | none =>
    refine ⟨_, ⟨some u, some 0, none⟩, rfl, rfl, rfl, rfl, ?_, ?_⟩
    · rw [Turn.expect_sent, Turn.system_transmit rfl]
      simp [system_eq_nil (o.onTransition_isSystem _)]
    · simp [DotsMsgHello.validProperties, validBit]
  | some n =>
    refine ⟨_, ⟨some u, some n, some true⟩, rfl, rfl, rfl, rfl, ?_, ?_⟩
    · rw [Turn.expect_sent, Turn.system_transmit rfl]
      simp [system_eq_nil (o.onTransition_isSystem _)]
    · simp [DotsMsgHello.validProperties, validBit]

theorem Connection.asyncReceive_guest {o : Owner S V} {c : Connection} {τ : Timepoint}
    {u : String} {a : Option AuthManager} (hs : c.state = .suspended) (hi : c.selfId ≠ hostId) :
    ∃ r, c.asyncReceive o τ u a = some r ∧ r.connection.state = .connecting ∧
      r.connection.expected = expectSystemType .handleHello ∧ r.transitions = [.connecting] ∧
      system r.sent = [] := by
  unfold Connection.asyncReceive
  rw [if_neg (by simp [hs]), if_neg (by exact hi)]
  refine ⟨_, rfl, rfl, rfl, rfl, ?_⟩
  rw [Turn.expect_sent]
  show system (Turn.setConnectionState _ _ _).sent = _
  rw [Turn.system_setConnectionState]
  rfl

/-- The start of a side. -/
theorem Phased.start (hp : Phased h p) {side : Side} {o : Owner S V} {name : String}
    {a : Option AuthManager} {τ : Timepoint} {h' : Handshake S V}
    (hs : h.step (.start side o name a τ) = some h') : ∃ q, Phased h' q := by
  obtain ⟨r, hr, rfl⟩ := Option.map_eq_some_iff.mp hs
  have hsus : (h.connection side).state = .suspended := by
    by_contra hne
    rw [Connection.asyncReceive, if_pos hne] at hr
    cases hr
  have hopen : (h.connection side).state ≠ .closed := by rw [hsus]; decide
  cases side with
  | host =>
    have hhost := hp.host.resolve_left hopen
    have hto := hp.toHost.resolve_left hopen
    cases p with
    | unstarted =>
      obtain ⟨r', m, hr', hst, hex, htr, hsent, hm⟩ :=
        Connection.asyncReceive_host (o := o) (τ := τ) (u := name) (a := a) hsus hhost.2
      obtain rfl := Option.some.inj (hr.symm.trans hr')
      refine ⟨.hello, .inr ⟨hst, hex⟩, hp.guest, .inr hto, hp.toGuest.imp_right fun hg => ?_,
        fun hc => by simp at hc, h.path_take r .host
          (.inr ⟨hst ▸ htr, by simp [hsus, hst, DotsConnectionState.rank]⟩) hp.path⟩
      rw [Handshake.system_take_guest, hsent, show system (h.inbox .guest) = [] from hg]
      exact ⟨m, rfl, hm⟩
    | _ => exact absurd (hhost.1.symm.trans hsus) (by decide)
  | guest =>
    have hguest := hp.guest.resolve_left hopen
    have hself : (h.connection .guest).selfId ≠ hostId ∧ (p = .unstarted ∨ p = .hello) := by
      cases p with
      | unstarted | hello =>
        rcases hguest with hg | hg
        · exact ⟨hg.2, by simp⟩
        · exact absurd (hg.1.symm.trans hsus) (by decide)
      | _ => exact absurd (hguest.1.symm.trans hsus) (by decide)
    obtain ⟨r', hr', hst, hex, htr, hsent⟩ :=
      Connection.asyncReceive_guest (o := o) (τ := τ) (u := name) (a := a) hsus hself.1
    obtain rfl := Option.some.inj (hr.symm.trans hr')
    have hpath := h.path_take r .guest
      (.inr ⟨hst ▸ htr, by simp [hsus, hst, DotsConnectionState.rank]⟩) hp.path
    have htoHost : system ((h.take .guest r).inbox .host) = system (h.inbox .host) := by
      rw [Handshake.system_take_host, hsent, List.append_nil]
    have htoGuest := hp.toGuest.resolve_left hopen
    rcases hself.2 with rfl | rfl
    · exact ⟨.unstarted, hp.host, .inr (.inr ⟨hst, hex⟩), hp.toHost.imp_right htoHost.trans,
        .inr htoGuest, fun hc => by simp at hc, hpath⟩
    · exact ⟨.hello, hp.host, .inr (.inr ⟨hst, hex⟩), hp.toHost.imp_right htoHost.trans,
        .inr htoGuest, fun hc => by simp at hc, hpath⟩

/-! ### The handshake messages -/

/-- A turn that answers a handshake message. -/
structure Turn.Answers (r : Turn S V) (s : DotsConnectionState) (e : SystemHandler)
    (ts : List DotsConnectionState) (xs : List (AnyStruct S V)) : Prop where
  state : r.connection.state = s
  expected : r.connection.expected = expectSystemType e
  transitions : r.transitions = ts
  system_sent : system r.sent = xs

namespace Connection

variable {o : Owner S V} {c : Connection} {τ : Timepoint} {t : Transmission S V}

/-- **The guest receives the hello.** -/
theorem processReceive_hello {m : DotsMsgHello} (hc : c.state ≠ .closed)
    (he : c.expected = expectSystemType .handleHello) (ht : t.instance_ = .hello m)
    (hm : {1, 2} ⊆ m.validProperties) :
    (∃ r m', c.processReceive o τ t = (r, none) ∧
      r.Answers c.state .handleAuthorizationRequest [] [.connect m'] ∧
      {1, 2} ⊆ m'.validProperties ∧ m'.preloadCache = some true ∧
      (m.authenticationRequired = some true → c.credentials.authSecret ≠ none)) ∨
    ∃ r, c.processReceive o τ t = (r, some .noSecret) ∧ r.Closes c ∧
      m.authenticationRequired = some true ∧ c.credentials.authSecret = none := by
  rw [processReceive_expected hc he (by rw [ht]; rfl) (by simp [ht]) (by rw [ht]; rfl)
    (by rw [ht]; exact hm), ht]
  simp only [Turn.callHandler, Turn.handleHello]
  split_ifs with hreq
  · cases c.credentials.authSecret with
    | none => exact .inr ⟨_, rfl, Turn.closes_handleError ⟨rfl, rfl, rfl, rfl, rfl⟩ _, hreq, rfl⟩
    | some secret =>
      refine .inl ⟨_, ⟨some c.selfName, some true, none, _, _⟩, rfl,
        ⟨rfl, rfl, rfl, by rw [Turn.expect_sent, Turn.system_transmit rfl]; rfl⟩, ?_, rfl,
        fun _ => Option.some_ne_none _⟩
      simp [DotsMsgConnect.validProperties, validBit]
  · refine .inl ⟨_, ⟨some c.selfName, some true, none, none, none⟩, rfl,
      ⟨rfl, rfl, rfl, by rw [Turn.expect_sent, Turn.system_transmit rfl]; rfl⟩, ?_, rfl,
      fun h => absurd h hreq⟩
    simp [DotsMsgConnect.validProperties, validBit]

theorem response_validProperties (clientId : ConnectionId) (accepted preload : Bool) :
    {5, 2, 3} ⊆ DotsMsgConnectResponse.validProperties
      { clientId := some clientId, accepted := some accepted, preload := some preload } := by
  have hbits : ({5, 2, 3} : PropertySet) ⊆ {2, 3, 5} := by decide
  simpa [DotsMsgConnectResponse.validProperties, validBit] using hbits

/-- **The host receives the connect request.** A guest that is turned away gets its answer before
the host closes. -/
theorem processReceive_connect {m : DotsMsgConnect} (hc : c.state = .connecting)
    (he : c.expected = expectSystemType .handleConnect) (ht : t.instance_ = .connect m)
    (hm : {1, 2} ⊆ m.validProperties) (hpre : m.preloadCache = some true) :
    (∃ r, c.processReceive o τ t = (r, none) ∧
      r.Answers .earlySubscribe .handlePreloadClientFinished [.earlySubscribe]
        [.connectResponse
          { clientId := some c.peerId, accepted := some true, preload := some true }] ∧
      ∃ u us m, r.sent = u :: us ∧ u.instance_ = .connectResponse m) ∨
    (∃ r, c.processReceive o τ t = (r, some .invalidAuthorization) ∧
      r.connection.state = .closed ∧ r.transitions = [.closed] ∧
      system r.sent = [.connectResponse
        { clientId := some c.peerId, accepted := some false, preload := some true }]) ∨
    ∃ r what, c.processReceive o τ t = (r, some (.digest what)) ∧ r.Closes c := by
  rw [processReceive_expected (by simp [hc]) he (by rw [ht]; rfl) (by simp [ht]) (by rw [ht]; rfl)
    (by rw [ht]; exact hm), ht]
  simp only [Turn.callHandler, Turn.handleConnect, hpre, decide_true]
  cases ({ connection := c } : Turn S V).authenticate m with
  | error what =>
    exact .inr (.inr ⟨_, what, rfl, Turn.closes_handleError keeps_refl _⟩)
  | ok accepted =>
    cases accepted with
    | true =>
      refine .inl ⟨_, rfl, ?_⟩
      simp only [Turn.letIn, hpre, decide_true, if_true]
      refine ⟨⟨rfl, rfl, rfl, ?_⟩, _, _, _, rfl, rfl⟩
      rw [Turn.expect_sent, Turn.system_setConnectionState, Turn.system_transmit rfl]
      rfl
    | false =>
      refine .inr (.inl ⟨_, rfl, ?_⟩)
      rw [Turn.handleError, if_neg (by simp [hc])]
      refine ⟨rfl, rfl, ?_⟩
      rw [Turn.handleClose, Turn.system_setConnectionState]
      rfl

/-- **The guest receives the response.** -/
theorem processReceive_response {m : DotsMsgConnectResponse} (hc : c.state ≠ .closed)
    (he : c.expected = expectSystemType .handleAuthorizationRequest)
    (ht : t.instance_ = .connectResponse m) (hm : {5, 2, 3} ⊆ m.validProperties)
    (hpre : m.preload = some true) :
    ∃ r, c.processReceive o τ t = (r, none) ∧
      r.Answers .earlySubscribe .handlePreloadFinished [.earlySubscribe]
        [.connect { preloadClientFinished := some true }] := by
  rw [processReceive_expected hc he (by rw [ht]; rfl) (by simp [ht]) (by rw [ht]; rfl)
    (by rw [ht]; exact hm), ht]
  simp only [Turn.callHandler, Turn.handleAuthorizationRequest, hpre, if_true]
  exact ⟨_, rfl, rfl, rfl, rfl, by
    rw [Turn.expect_sent, Turn.system_transmit rfl, Turn.system_setConnectionState]; rfl⟩

/-- **The host learns that the guest has subscribed.** -/
theorem processReceive_clientFinished (hc : c.state ≠ .closed)
    (he : c.expected = expectSystemType .handlePreloadClientFinished)
    (ht : t.instance_ = .connect { preloadClientFinished := some true }) :
    ∃ r, c.processReceive o τ t = (r, none) ∧
      r.Answers .connected .handlePeerError [.connected]
        [.connectResponse { preloadFinished := some true }] := by
  have hprops : ({3} : PropertySet) ⊆
      DotsMsgConnect.validProperties { preloadClientFinished := some true } := by decide
  rw [processReceive_expected hc he (by rw [ht]; rfl) (by simp [ht]) (by rw [ht]; rfl)
    (by rw [ht]; exact hprops), ht]
  simp only [Turn.callHandler, Turn.handlePreloadClientFinished]
  exact ⟨_, rfl, rfl, rfl, rfl, by
    rw [Turn.expect_sent, Turn.system_transmit rfl, Turn.system_setConnectionState]; rfl⟩

/-- **The guest learns that the host has replayed its caches.** -/
theorem processReceive_finished (hc : c.state ≠ .closed)
    (he : c.expected = expectSystemType .handlePreloadFinished)
    (ht : t.instance_ = .connectResponse { preloadFinished := some true }) :
    ∃ r, c.processReceive o τ t = (r, none) ∧
      r.Answers .connected .handlePeerError [.connected] [] := by
  have hprops : ({4} : PropertySet) ⊆
      DotsMsgConnectResponse.validProperties { preloadFinished := some true } := by decide
  rw [processReceive_expected hc he (by rw [ht]; rfl) (by simp [ht]) (by rw [ht]; rfl)
    (by rw [ht]; exact hprops), ht]
  exact ⟨_, rfl, rfl, rfl, rfl, by
    rw [Turn.expect_sent, Turn.system_setConnectionState]; rfl⟩

end Connection

/-! ### A delivery -/

/-- What was thrown is no refusal of the transmission itself. -/
def Accepted (e : Option ConnectionError) : Prop := ∀ e' ∈ e, e'.isRefusal = false

theorem accepted_none : Accepted none := fun _ he => absurd he (by simp)

theorem accepted_some {e : ConnectionError} (he : e.isRefusal = false) : Accepted (some e) :=
  fun _ h => Option.some.inj h ▸ he

section Deliver

variable {o : Owner S V} {τ : Timepoint} {t : Transmission S V}

/-- What a delivery has to do: lead to a phase, move the state forward, refuse nothing. -/
def Phased.Delivers (h : Handshake S V) (side : Side) (rest : List (Transmission S V))
    (re : Turn S V × Option ConnectionError) : Prop :=
  (∃ q, Phased ((h.setInbox side rest).take side re.1) q) ∧ re.1.Advances (h.connection side) ∧
    Accepted re.2

/-- The host takes a handshake message other than an error. -/
theorem Phased.deliver_host (hp : Phased h p) (hopen : (h.connection .host).state ≠ .closed)
    (hin : h.inbox .host = t :: rest) (hsys : t.instance_.isSystem = true)
    (hne : ∀ m, t.instance_ ≠ .error m) :
    Delivers h .host rest ((h.connection .host).processReceive o τ t) := by
  have hhost := hp.host.resolve_left hopen
  have hto := hp.toHost.resolve_left hopen
  rw [hin, system_cons, if_pos hsys, List.singleton_append] at hto
  have hpath := fun r hr => (h.setInbox .host rest).path_take r .host hr hp.path
  cases p with
  | connect =>
    obtain ⟨m, hx, hm, hpre⟩ := hto
    obtain ⟨ht, hrest⟩ := List.cons.inj hx
    obtain ⟨r, hr, ha, -⟩ | ⟨r, hr, hst, htr, hsent⟩ | ⟨r, what, hr, hcl⟩ :=
      Connection.processReceive_connect (o := o) (τ := τ) hhost.1 hhost.2 ht hm hpre
    · rw [hr]
      have hadv : r.Advances (h.connection .host) :=
        .inr ⟨ha.state ▸ ha.transitions, by rw [hhost.1, ha.state]; decide⟩
      refine ⟨⟨.response, .inr ⟨ha.state, ha.expected⟩, hp.guest, .inr hrest,
        hp.toGuest.imp_right fun hg => ?_, fun hc => by simp at hc, hpath r hadv⟩, hadv,
        accepted_none⟩
      rw [Handshake.system_take_guest, ha.system_sent]
      change system (h.inbox .guest) = [] at hg
      exact ⟨_, congrArg (· ++ _) hg, Connection.response_validProperties _ _ _, rfl⟩
    · rw [hr]
      have hadv : r.Advances (h.connection .host) := .inr ⟨hst ▸ htr, hst ▸ rank_le_closed _⟩
      refine ⟨⟨.response, .inl hst, hp.guest, .inl hst,
        hp.toGuest.imp_right fun hg => ?_, fun hc => by simp at hc, hpath r hadv⟩, hadv,
        accepted_some rfl⟩
      rw [Handshake.system_take_guest, hsent]
      change system (h.inbox .guest) = [] at hg
      exact ⟨_, congrArg (· ++ _) hg, Connection.response_validProperties _ _ _, rfl⟩
    · rw [hr]
      exact ⟨⟨.connect, hp.take_closes .host hcl rest⟩, hcl.advances, accepted_some rfl⟩
  | clientFinished =>
    obtain ⟨ht, hrest⟩ := List.cons.inj hto
    obtain ⟨r, hr, ha⟩ :=
      Connection.processReceive_clientFinished (o := o) (τ := τ) hopen hhost.2 ht
    rw [hr]
    have hadv : r.Advances (h.connection .host) :=
      .inr ⟨ha.state ▸ ha.transitions, by rw [hhost.1, ha.state]; decide⟩
    refine ⟨⟨.finished, .inr ⟨ha.state, ha.expected⟩, hp.guest, .inr hrest,
      hp.toGuest.imp_right fun hg => ?_, fun _ => ?_, hpath r hadv⟩, hadv, accepted_none⟩
    · rw [Handshake.system_take_guest, ha.system_sent]
      change system (h.inbox .guest) = [] at hg
      exact ⟨[], congrArg (· ++ _) hg, .inl rfl⟩
    · simp [Handshake.take, Handshake.setInbox, ha.transitions]
  | established =>
    rcases hto with hx | ⟨-, m, hx⟩
    · cases hx
    · exact absurd (List.cons.inj hx).1 (hne m)
  | _ => cases hto

/-- The guest takes a handshake message other than an error. -/
theorem Phased.deliver_guest (hp : Phased h p) (hopen : (h.connection .guest).state ≠ .closed)
    (hstarted : (h.connection .guest).state ≠ .suspended)
    (hin : h.inbox .guest = t :: rest) (hsys : t.instance_.isSystem = true)
    (hne : ∀ m, t.instance_ ≠ .error m) :
    Delivers h .guest rest ((h.connection .guest).processReceive o τ t) := by
  have hguest := hp.guest.resolve_left hopen
  have hto := hp.toGuest.resolve_left hopen
  rw [hin, system_cons, if_pos hsys, List.singleton_append] at hto
  have hpath := fun r hr => (h.setInbox .guest rest).path_take r .guest hr hp.path
  cases p with
  | hello =>
    obtain ⟨m, hx, hm⟩ := hto
    obtain ⟨ht, hrest⟩ := List.cons.inj hx
    have hg := hguest.resolve_left fun hs => hstarted hs.1
    obtain ⟨r, m', hr, ha, hm', hpre, -⟩ | ⟨r, hr, hcl, -⟩ :=
      Connection.processReceive_hello (o := o) (τ := τ) hopen hg.2 ht hm
    · rw [hr]
      have hadv : r.Advances (h.connection .guest) := .inl ⟨ha.transitions, ha.state⟩
      refine ⟨⟨.connect, hp.host, .inr ⟨ha.state.trans hg.1, ha.expected⟩,
        hp.toHost.imp_right fun hh => ?_, .inr hrest, fun hc => by simp at hc, hpath r hadv⟩,
        hadv, accepted_none⟩
      rw [Handshake.system_take_host, ha.system_sent]
      change system (h.inbox .host) = [] at hh
      exact ⟨m', congrArg (· ++ _) hh, hm', hpre⟩
    · rw [hr]
      exact ⟨⟨.hello, hp.take_closes .guest hcl rest⟩, hcl.advances, accepted_some rfl⟩
  | response =>
    obtain ⟨m, hx, hm, hpre⟩ := hto
    obtain ⟨ht, hrest⟩ := List.cons.inj hx
    obtain ⟨r, hr, ha⟩ :=
      Connection.processReceive_response (o := o) (τ := τ) hopen hguest.2 ht hm hpre
    rw [hr]
    have hadv : r.Advances (h.connection .guest) :=
      .inr ⟨ha.state ▸ ha.transitions, by rw [hguest.1, ha.state]; decide⟩
    refine ⟨⟨.clientFinished, hp.host, .inr ⟨ha.state, ha.expected⟩,
      hp.toHost.imp_right fun hh => ?_, .inr hrest, fun hc => by simp at hc, hpath r hadv⟩,
      hadv, accepted_none⟩
    rw [Handshake.system_take_host, ha.system_sent]
    change system (h.inbox .host) = [] at hh
    exact congrArg (· ++ _) hh
  | finished =>
    obtain ⟨ys, hx, hy⟩ := hto
    obtain ⟨ht, hrest⟩ := List.cons.inj hx
    obtain ⟨r, hr, ha⟩ :=
      Connection.processReceive_finished (o := o) (τ := τ) hopen hguest.2 ht
    rw [hr]
    have hadv : r.Advances (h.connection .guest) :=
      .inr ⟨ha.state ▸ ha.transitions, by rw [hguest.1, ha.state]; decide⟩
    refine ⟨⟨.established, hp.host, .inr ⟨ha.state, ha.expected⟩,
      hp.toHost.imp_right fun hh => ?_, .inr (hrest ▸ hy), fun _ => hp.connected (.inl rfl),
      hpath r hadv⟩, hadv, accepted_none⟩
    rw [Handshake.system_take_host, ha.system_sent, List.append_nil]
    exact .inl hh
  | established =>
    rcases hto with hx | ⟨-, m, hx⟩
    · cases hx
    · exact absurd (List.cons.inj hx).1 (hne m)
  | _ => cases hto

end Deliver

/-- **Any delivery** leads to a phase and moves the state forward; no handshake message is refused
by an open side. -/
theorem Phased.deliver (hp : Phased h p) {side : Side} (o : Owner S V) (τ : Timepoint)
    {t : Transmission S V} (hstarted : (h.connection side).state ≠ .suspended)
    (hin : h.inbox side = t :: rest) :
    (∃ q, Phased ((h.setInbox side rest).take side
      ((h.connection side).processReceive o τ t).1) q) ∧
    ((h.connection side).processReceive o τ t).1.Advances (h.connection side) ∧
    (t.instance_.isSystem = true → (h.connection side).state ≠ .closed →
      Accepted ((h.connection side).processReceive o τ t).2) := by
  by_cases hopen : (h.connection side).state = .closed
  · rw [Connection.processReceive_closed hopen]
    exact ⟨⟨p, hp.take_keeps side Connection.keeps_refl (.inl hopen)⟩,
      Connection.keeps_refl.advances, fun _ hc => (hc hopen).elim⟩
  by_cases hsys : t.instance_.isSystem = true
  · by_cases hne : ∀ m, t.instance_ ≠ .error m
    · have hd : Delivers h side rest ((h.connection side).processReceive o τ t) := by
        cases side with
        | host => exact hp.deliver_host hopen hin hsys hne
        | guest => exact hp.deliver_guest hopen hstarted hin hsys hne
      exact ⟨hd.1, hd.2.1, fun _ _ => hd.2.2⟩
    · push Not at hne
      obtain ⟨m, hm⟩ := hne
      obtain ⟨hcl, hnone⟩ := Connection.processReceive_error (o := o) (τ := τ) hopen hm
      exact ⟨⟨p, hp.take_closes side hcl rest⟩, hcl.advances, fun _ _ => hnone ▸ accepted_none⟩
  · refine and_assoc.mp ⟨?_, fun hs => absurd hs hsys⟩
    have hrest : system rest = system (h.inbox side) := by
      rw [hin, system_cons, if_neg hsys, List.nil_append]
    rcases Connection.processReceive_instance (o := o) (τ := τ) (c := h.connection side)
      (Bool.eq_false_iff.mpr hsys) with hk | hcl
    · exact ⟨⟨p, hp.take_keeps side hk (.inr hrest)⟩, hk.advances⟩
    · exact ⟨⟨p, hp.take_closes side hcl rest⟩, hcl.advances⟩

end Steps

end Dots

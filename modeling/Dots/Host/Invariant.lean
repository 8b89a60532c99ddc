import Dots.Connection.Handshake
import Dots.Host.Model

/-!
# What the connections of a host leave behind

* `Fresh`: a connection is in no group and has updated no instance.
* `Leaves`: an operation on behalf of others keeps a fresh connection fresh.
* `HostSide`: the states of a host's side of a connection.
* **`Sound`**: connections that are not established are fresh. **`sound_step`**.
-/

set_option autoImplicit false
set_option linter.unusedSectionVars false

namespace Dots

variable {S : Schema} {V : Type} [Ord V] [Std.TransOrd V] [Std.LawfulEqOrd V]

namespace HostTransceiver

/-! ## What the host removes on its own -/

/-- The host has published a list of removes. -/
inductive Removes : HostTransceiver S V → HostTransceiver S V → Prop
  | refl (h : HostTransceiver S V) : Removes h h
  | publish {h h' : HostTransceiver S V} (p : Publish S V) (hp : p.remove = true)
      (now : Timepoint) (r : Removes h h') :
      Removes h (h'.dispatchAndTransmit now (p.hostTransmission now)).1

theorem Removes.trans {h h' h'' : HostTransceiver S V} (a : Removes h h') (b : Removes h' h'') :
    Removes h h'' := by
  induction b with
  | refl => exact a
  | publish p hp τ _ ih => exact .publish p hp τ ih

/-- What every remove relates to its start, a list of them relates to its start. -/
theorem Removes.relates {R : HostTransceiver S V → HostTransceiver S V → Prop}
    (hrefl : ∀ h, R h h) (htrans : ∀ h h' h'', R h h' → R h' h'' → R h h'')
    (hstep : ∀ (h : HostTransceiver S V) (p : Publish S V) τ, p.remove = true →
      R h (h.dispatchAndTransmit τ (p.hostTransmission τ)).1)
    {h h' : HostTransceiver S V} (r : Removes h h') : R h h' := by
  induction r with
  | refl => exact hrefl _
  | publish p hp τ _ ih => exact htrans _ _ _ ih (hstep _ p τ hp)

theorem removes_removeAll {h : HostTransceiver S V} {τ : Timepoint} {n : String}
    (xs : List (Struct V (S.descriptor n))) : Removes h (removeAll τ xs h).1 := by
  induction xs generalizing h with
  | nil => exact .refl h
  | cons x xs ih =>
    have hr : Removes h (h.remove τ x).1 := by
      unfold remove publish
      split
      · exact .refl h
      · exact .publish _ rfl τ (.refl h)
    unfold removeAll
    generalize h.remove τ x = re at hr
    obtain ⟨h', _ | u⟩ := re
    · exact hr
    · exact hr.trans ih

theorem removes_clearTypes {h : HostTransceiver S V} {τ : Timepoint}
    (typeNames ns : List String) : Removes h (clearTypes τ typeNames ns h).1 := by
  induction ns generalizing h with
  | nil => exact .refl h
  | cons n ns ih =>
    unfold clearTypes
    split_ifs
    · have hr := removes_removeAll (h := h) (τ := τ) ((h.pool n).clones.map Prod.fst)
      generalize removeAll τ ((h.pool n).clones.map Prod.fst) h = re at hr
      obtain ⟨h', _ | u⟩ := re
      · exact hr
      · exact hr.trans ih
    · exact ih

theorem removes_cleanup {h : HostTransceiver S V} {τ : Timepoint} (peerId : ConnectionId)
    (ns : List String) : Removes h (cleanup τ peerId ns h).1 := by
  induction ns generalizing h with
  | nil => exact .refl h
  | cons n ns ih =>
    unfold cleanup
    split_ifs
    · have hr := removes_removeAll (h := h) (τ := τ)
        (((h.pool n).clones.filter fun e => e.2.lastUpdateFrom == some peerId).map Prod.fst)
      generalize removeAll τ
        (((h.pool n).clones.filter fun e => e.2.lastUpdateFrom == some peerId).map Prod.fst) h =
        re at hr
      obtain ⟨h', _ | u⟩ := re
      · exact hr
      · exact hr.trans ih
    · exact ih

/-! ## Fresh connections -/

/-- A connection is in no group, and no instance was last updated from it. -/
def Fresh (h : HostTransceiver S V) (id : ConnectionId) : Prop :=
  (∀ n, id ∉ h.groups n) ∧ ∀ n k e, (h.pool n).lookup k = some e → e.2.lastUpdateFrom ≠ some id

/-- What an operation on behalf of others leaves as it is, seen from the connection `id`. -/
structure Leaves (id : ConnectionId) (h h' : HostTransceiver S V) : Prop where
  guestConnections : h'.guestConnections = h.guestConnections
  nextGuestId : h'.nextGuestId = h.nextGuestId
  registry : h'.registry = h.registry
  fresh : h.Fresh id → h'.Fresh id

variable {h h' : HostTransceiver S V} {id : ConnectionId} {τ : Timepoint}

theorem Leaves.refl (id : ConnectionId) (h : HostTransceiver S V) : Leaves id h h :=
  ⟨rfl, rfl, rfl, fun hf => hf⟩

theorem Leaves.trans {h'' : HostTransceiver S V} (a : Leaves id h h') (b : Leaves id h' h'') :
    Leaves id h h'' :=
  ⟨b.guestConnections.trans a.guestConnections, b.nextGuestId.trans a.nextGuestId,
    b.registry.trans a.registry, fun hf => b.fresh (a.fresh hf)⟩

theorem leaves_send (other : ConnectionId) (ts : List (Transmission S V)) :
    Leaves id h (h.send other ts) :=
  ⟨rfl, rfl, rfl, fun hf => hf⟩

theorem leaves_transmit (t : Transmission S V) : Leaves id h (h.transmit t) :=
  ⟨rfl, rfl, rfl, fun hf => hf⟩

/-- A dispatch stores the sender of the transmission and no one else. -/
theorem lastUpdateFrom_dispatchEvent {pool : ContainerPool S V} {t : Transmission S V}
    {n : String} {k : List (Option V)} {e : Clone V (S.descriptor n)}
    (he : ((pool.dispatchEvent t τ).1 n).lookup k = some e) :
    (∃ e', (pool n).lookup k = some e' ∧ e.2.lastUpdateFrom = e'.2.lastUpdateFrom) ∨
      e.2.lastUpdateFrom = t.header.sender := by
  cases hc : t.instance_.cached with
  | false =>
    rw [ContainerPool.dispatchEvent_of_not_cached hc] at he
    exact .inl ⟨e, he, rfl⟩
  | true =>
    obtain ⟨m, x, ht, hm⟩ := ContainerPool.exists_struct_of_cached hc
    rw [ContainerPool.dispatchEvent_fst ht hm] at he
    by_cases hn : n = m
    swap
    · exact .inl ⟨e, by rwa [ContainerPool.set_of_ne _ _ hn] at he, rfl⟩
    subst hn
    rw [ContainerPool.set_self] at he
    by_cases hk : k = x.key
    · subst hk
      rw [ContainerPool.lookup_apply_self] at he
      split_ifs at he
      obtain rfl := Option.some.inj he
      right
      cases (pool n).lookup x.key <;> rfl
    · exact .inl ⟨e, by rwa [ContainerPool.lookup_apply_of_ne hk] at he, rfl⟩

theorem leaves_dispatch {t : Transmission S V} (ht : t.header.sender ≠ some id) :
    Leaves id h (h.dispatch τ t).1 := by
  have hpool : (h.dispatch τ t).1.pool = (h.pool.dispatchEvent t τ).1 := by
    simp only [dispatch]
    split <;> rfl
  refine ⟨?_, ?_, ?_, fun hf => ⟨?_, fun n k e he => ?_⟩⟩
  · simp only [dispatch]
    split <;> rfl
  · simp only [dispatch]
    split <;> rfl
  · simp only [dispatch]
    split <;> rfl
  · simp only [dispatch]
    split <;> exact hf.1
  · rw [hpool] at he
    rcases lastUpdateFrom_dispatchEvent he with ⟨e', he', heq⟩ | heq
    · exact heq ▸ hf.2 n k e' he'
    · exact heq ▸ ht

theorem leaves_dispatchAndTransmit {t : Transmission S V} (ht : t.header.sender ≠ some id) :
    Leaves id h (h.dispatchAndTransmit τ t).1 := by
  have hd := leaves_dispatch (h := h) (τ := τ) ht
  unfold dispatchAndTransmit
  generalize h.dispatch τ t = re at hd
  obtain ⟨h', _ | u⟩ := re
  · exact hd
  · exact hd.trans (leaves_transmit t)

/-- **What the host publishes itself** comes from the host. -/
theorem leaves_publish (hid : id ≠ hostId) {n : String} (x : Struct V (S.descriptor n))
    (includedProperties : Option PropertySet) (remove : Bool) :
    Leaves id h (h.publish τ x includedProperties remove).1 := by
  unfold publish
  split
  · exact .refl id h
  · exact leaves_dispatchAndTransmit fun hs => hid (Option.some.inj hs).symm

theorem leaves_removes (hid : id ≠ hostId) (r : Removes h h') : Leaves id h h' :=
  r.relates (Leaves.refl id) (fun _ _ _ => Leaves.trans) fun _ _ _ _ =>
    leaves_dispatchAndTransmit fun hs => hid (Option.some.inj hs).symm

theorem leaves_transmitClones (id other : ConnectionId) (n : String)
    (es : List (Clone V (S.descriptor n))) :
    Leaves id h (transmitClones other τ n es h).1 := by
  induction es generalizing h with
  | nil => exact .refl id h
  | cons e es ih =>
    unfold transmitClones
    split
    · exact (leaves_send other _).trans ih
    · exact .refl id h
    · exact .refl id h

/-- A guest joins or leaves a group: the other connections stay out. -/
theorem leaves_handleMemberMessage {other : ConnectionId} (hid : id ≠ other) (m : DotsMember) :
    Leaves id h (h.handleMemberMessage other τ m).1 := by
  have hgroups (n : String) (g : Finset ConnectionId) (hg : id ∉ h.groups n → id ∉ g) :
      Leaves id h { h with groups := Function.update h.groups n g } := by
    refine ⟨rfl, rfl, rfl, fun hf => ⟨fun n' => ?_, hf.2⟩⟩
    by_cases hn : n' = n
    · subst hn
      simpa using hg (hf.1 _)
    · simpa [hn] using hf.1 n'
  unfold handleMemberMessage
  split
  · exact .refl id h
  · exact hgroups _ _ fun hn hm => hn (Finset.mem_of_mem_erase hm)
  · rename_i n _ _
    have hj := hgroups n (insert other (h.groups n)) fun hn hm =>
      (Finset.mem_insert.mp hm).elim hid hn
    simp only [joinGroup]
    split_ifs
    · refine hj.trans ?_
      generalize ({ h with groups := Function.update h.groups n (insert other (h.groups n)) } :
        HostTransceiver S V) = h'
      have hc := leaves_transmitClones (h := h') (τ := τ) id other n (h'.pool n).clones
      unfold transmitContainer
      generalize transmitClones other τ n (h'.pool n).clones h' = re at hc
      obtain ⟨h'', _ | u⟩ := re
      · exact hc
      · exact hc.trans (leaves_send other _)
    · exact hj
  · exact .refl id h

/-- **A transmission of another guest** keeps a fresh connection fresh. -/
theorem leaves_handleTransmission (hid : id ≠ hostId) {other : ConnectionId} (ho : id ≠ other)
    {t : Transmission S V} (ht : t.header.sender = some other) :
    Leaves id h (h.handleTransmission other τ t).1 := by
  have hs : t.header.sender ≠ some id := fun h => ho (Option.some.inj (h.symm.trans ht))
  unfold handleTransmission
  split
  · exact leaves_handleMemberMessage ho _
  · exact leaves_send other _
  · unfold handleEchoRequest
    split_ifs
    · exact leaves_send other _
    · exact .refl id h
  · rename_i m _
    have hc : Leaves id h (h.handleClearCache τ m).1 := by
      unfold handleClearCache
      split
      · exact .refl id h
      · exact leaves_removes hid (removes_clearTypes _ _)
    generalize h.handleClearCache τ m = re at hc
    obtain ⟨h', _ | u⟩ := re
    · exact hc
    · exact hc.trans (leaves_dispatchAndTransmit hs)
  · exact leaves_dispatchAndTransmit hs

end HostTransceiver

/-! ## The host's side of a connection -/

/-- The states of a host's side of a connection, with what it expects in them. -/
def HostSide (c : Connection) : Prop :=
  c.selfId = hostId ∧
    (c.state = .connecting ∧ c.expected = expectSystemType .handleConnect ∨
      c.state.established = true ∧ (c.expected = expectSystemType .handlePreloadClientFinished ∨
        c.expected = expectSystemType .handlePeerError) ∨
      c.state = .closed)

/-- What a host's side can do in a turn: close, stay as it is, or get further. -/
def HostTurn (c : Connection) (r : Turn S V) : Prop :=
  r.connection.selfId = c.selfId ∧
    (r.connection.state = .closed ∧ .closed ∈ r.transitions ∨
      r.transitions = [] ∧ r.connection.state = c.state ∧ r.connection.expected = c.expected ∨
      .closed ∉ r.transitions ∧ r.connection.state.established = true ∧
        (r.connection.expected = expectSystemType .handlePreloadClientFinished ∨
          r.connection.expected = expectSystemType .handlePeerError))

namespace Turn

variable {o : Owner S V} {r : Turn S V} {τ : Timepoint} {c : Connection}

theorem hostTurn_handleClose (hs : r.connection.selfId = c.selfId) :
    HostTurn c (r.handleClose o) :=
  ⟨hs, .inl ⟨rfl, by simp [handleClose]⟩⟩

theorem hostTurn_handleError (hs : r.connection.selfId = c.selfId) (what : String) :
    HostTurn c (r.handleError o τ what) := by
  unfold handleError
  split_ifs
  · exact hostTurn_handleClose hs
  · exact hostTurn_handleClose hs

theorem hostTurn_handlePeerError (hs : r.connection.selfId = c.selfId) (m : DotsMsgError) :
    HostTurn c (r.handlePeerError o τ m) := by
  unfold handlePeerError
  split_ifs
  · exact hostTurn_handleClose hs
  · exact hostTurn_handleError hs _

theorem hostTurn_letIn (hs : r.connection.selfId = c.selfId) (ht : r.transitions = [])
    (m : DotsMsgConnect) : HostTurn c (r.letIn o τ m) := by
  unfold letIn
  split_ifs
  · exact ⟨hs, .inr (.inr ⟨by simp [ht], rfl, .inl rfl⟩)⟩
  · exact ⟨hs, .inr (.inr ⟨by simp [ht], rfl, .inr rfl⟩)⟩

theorem hostTurn_refl (c : Connection) : HostTurn c ({ connection := c } : Turn S V) :=
  ⟨rfl, .inr (.inl ⟨rfl, rfl, rfl⟩)⟩

theorem hostTurn_handleConnect (hs : r.connection.selfId = c.selfId) (ht : r.transitions = [])
    (hr : HostTurn c r) (m : DotsMsgConnect) : HostTurn c (r.handleConnect o τ m).1 := by
  unfold handleConnect
  split
  · exact hr
  · exact hr
  · exact hostTurn_letIn hs ht m

theorem hostTurn_handlePreloadClientFinished (hs : r.connection.selfId = c.selfId)
    (ht : r.transitions = []) (hr : HostTurn c r) (m : DotsMsgConnect) :
    HostTurn c (r.handlePreloadClientFinished o τ m).1 := by
  unfold handlePreloadClientFinished
  split_ifs
  · exact hr
  · exact ⟨hs, .inr (.inr ⟨by simp [ht], rfl, .inr rfl⟩)⟩

/-- The handlers that a host expects. -/
theorem hostTurn_callHandler {s : SystemHandler} (hs : s = .handleConnect ∨
    s = .handlePreloadClientFinished ∨ s = .handlePeerError) (x : AnyStruct S V) :
    HostTurn c (({ connection := c } : Turn S V).callHandler o τ s x).1 := by
  have hrefl : HostTurn c ({ connection := c } : Turn S V) := hostTurn_refl c
  rcases hs with rfl | rfl | rfl
  · cases x with
    | connect m => exact hostTurn_handleConnect rfl rfl hrefl m
    | _ => exact hrefl
  · cases x with
    | connect m => exact hostTurn_handlePreloadClientFinished rfl rfl hrefl m
    | _ => exact hrefl
  · cases x with
    | error m => exact hostTurn_handlePeerError rfl m
    | _ => exact hrefl

/-- An exception closes the connection, whatever was done before. -/
theorem hostTurn_processError {re : Turn S V × Option ConnectionError} (h : HostTurn c re.1) :
    HostTurn c (processError o τ re).1 := by
  obtain ⟨r, _ | e⟩ := re
  · exact h
  · exact hostTurn_handleError h.1 _

end Turn

/-- **A host's side receives a transmission.** -/
theorem hostTurn_processReceive {o : Owner S V} {c : Connection} {τ : Timepoint}
    {t : Transmission S V} (hc : HostSide c) : HostTurn c (c.processReceive o τ t).1 := by
  have hrefl : HostTurn c ({ connection := c } : Turn S V) := Turn.hostTurn_refl c
  apply Turn.hostTurn_processError
  unfold Turn.handleReceive
  split_ifs with hclosed
  · exact hrefl
  split
  · exact Turn.hostTurn_handlePeerError rfl _
  split_ifs
  swap
  · unfold Turn.handleInstance
    split_ifs <;> exact hrefl
  unfold Turn.handleSystem
  simp only
  split_ifs with hname hprops
  · exact hrefl
  swap
  · exact hrefl
  rcases hc.2 with ⟨-, he⟩ | ⟨-, he | he⟩ | hst
  · rw [he]
    exact Turn.hostTurn_callHandler (.inl rfl) _
  · rw [he]
    exact Turn.hostTurn_callHandler (.inr (.inl rfl)) _
  · rw [he]
    exact Turn.hostTurn_callHandler (.inr (.inr rfl)) _
  · exact absurd hst hclosed

theorem HostTurn.hostSide {c : Connection} {r : Turn S V} (h : HostTurn c r) (hc : HostSide c) :
    HostSide r.connection := by
  refine ⟨h.1.trans hc.1, ?_⟩
  rcases h.2 with ⟨hst, -⟩ | ⟨-, hst, he⟩ | ⟨-, hst, he⟩
  · exact .inr (.inr hst)
  · rw [hst, he]
    exact hc.2
  · exact .inr (.inl ⟨hst, he⟩)

/-- **A connection that is still connecting** is established or closed by the first
transmission. -/
theorem Connection.decided_processReceive {o : Owner S V} {c : Connection} {τ : Timepoint}
    {t : Transmission S V} (hst : c.state = .connecting)
    (he : c.expected = expectSystemType .handleConnect) :
    (c.processReceive o τ t).1.connection.state = .closed ∨
      (c.processReceive o τ t).1.connection.state.established = true ∧
        ∃ m, t.instance_ = .connect m := by
  have hopen : c.state ≠ .closed := by simp [hst]
  by_cases hx : t.instance_.isSystem = true ∧ t.instance_.typeName = "DotsMsgConnect" ∧
      {1, 2} ⊆ t.instance_.systemProperties
  swap
  · exact .inl (processReceive_unexpected hopen (by rw [hst]; rfl) he hx).1
  obtain ⟨hsys, hname, hprops⟩ := hx
  obtain ⟨m, hm⟩ := AnyStruct.eq_connect hsys hname
  rw [processReceive_expected hopen he hsys (by simp [hm]) hname hprops, hm]
  simp only [Turn.callHandler, Turn.handleConnect]
  cases ({ connection := c } : Turn S V).authenticate m with
  | error what => exact .inl (Turn.closes_handleError keeps_refl _).1
  | ok accepted =>
    cases accepted with
    | false =>
      left
      simp [Turn.processError, Turn.handleError, Turn.handleClose, hst]
    | true =>
      refine .inr ⟨?_, m, rfl⟩
      unfold Turn.letIn Turn.processError
      simp only
      split_ifs <;> rfl

/-! ## The invariant of a host -/

namespace HostTransceiver

variable {h h' : HostTransceiver S V} {id : ConnectionId} {τ : Timepoint}

/-- An entry of `m_guestConnections`. -/
structure Known (h : HostTransceiver S V) (id : ConnectionId) (g : GuestConnection) : Prop where
  ne_hostId : id ≠ hostId
  peerId : g.connection.peerId = id
  hostSide : HostSide g.connection
  waiting : g.connection.state = .connecting → g.channel = {} ∧ h.Fresh id
  closed : g.connection.state = .closed → g.channel.asyncReceiving = false

/-- **Connections that are not established are fresh**, those to come included; `skip` is left
out. -/
structure SoundBut (h : HostTransceiver S V) (skip : Set ConnectionId) : Prop where
  host_lt : hostId < h.nextGuestId
  skip_lt : ∀ id ∈ skip, id < h.nextGuestId
  absent : ∀ id, h.nextGuestId ≤ id → h.guestConnections id = none ∧ h.Fresh id
  known : ∀ id g, id ∉ skip → h.guestConnections id = some g → h.Known id g

abbrev Sound (h : HostTransceiver S V) : Prop := h.SoundBut ∅

theorem Known.of_leaves {g : GuestConnection} (hk : h.Known id g) (hl : Leaves id h h') :
    h'.Known id g :=
  { hk with waiting := fun hst => (hk.waiting hst).imp_right hl.fresh }

theorem SoundBut.of_leaves {skip : Set ConnectionId} (hs : h.SoundBut skip)
    (hl : ∀ id, id ≠ hostId → id ∉ skip → Leaves id h h') : h'.SoundBut skip := by
  have hnext : h.nextGuestId ∉ skip := fun hm => absurd (hs.skip_lt _ hm) (lt_irrefl _)
  have heq := hl h.nextGuestId (ne_of_gt hs.host_lt) hnext
  refine ⟨heq.nextGuestId ▸ hs.host_lt, heq.nextGuestId ▸ hs.skip_lt, fun id hid => ?_,
    fun id g hm hg => ?_⟩
  · rw [heq.nextGuestId] at hid
    obtain ⟨hnone, hf⟩ := hs.absent id hid
    refine ⟨heq.guestConnections ▸ hnone, (hl id ?_ fun hm => ?_).fresh hf⟩
    · exact ne_of_gt (lt_of_lt_of_le hs.host_lt hid)
    · exact absurd (hs.skip_lt id hm) (not_lt.mpr hid)
  · rw [heq.guestConnections] at hg
    have hk := hs.known id g hm hg
    exact hk.of_leaves (hl id hk.ne_hostId hm)

theorem leaves_erase_groups (id other : ConnectionId) :
    Leaves id h { h with groups := fun n => (h.groups n).erase other } :=
  ⟨rfl, rfl, rfl, fun hf => ⟨fun n hm => hf.1 n (Finset.mem_of_mem_erase hm), hf.2⟩⟩

/-- **The transceiver learns that a connection has closed.** -/
theorem SoundBut.handleTransition {skip : Set ConnectionId} (hs : h.SoundBut skip) :
    (h.handleTransition id τ).SoundBut skip := by
  have herase := hs.of_leaves fun id' _ _ => leaves_erase_groups (h := h) id' id
  unfold HostTransceiver.handleTransition
  generalize ({ h with groups := fun n => (h.groups n).erase id } : HostTransceiver S V) = h₁
    at herase
  simp only
  have hclean := herase.of_leaves fun id' hne _ =>
    leaves_removes hne (removes_cleanup (h := h₁) (τ := τ) id h₁.poolTypes)
  generalize cleanup τ id h₁.poolTypes h₁ = re at hclean
  obtain ⟨h₂, _ | u⟩ := re
  · exact hclean
  · refine ⟨hclean.host_lt, hclean.skip_lt, fun id' hid' => ?_, fun id' g hm hg => ?_⟩
    · obtain ⟨hnone, hf⟩ := hclean.absent id' hid'
      refine ⟨?_, hf⟩
      simp only [Function.update_apply]
      split_ifs
      · rfl
      · exact hnone
    · simp only [Function.update_apply] at hg
      split_ifs at hg
      exact { hclean.known id' g hm hg with }

/-- **A connection has had its turn.** -/
theorem SoundBut.finish (hs : h.SoundBut {id}) (hne : id ≠ hostId) {ch : Channel} {r : Turn S V}
    (hpeer : r.connection.peerId = id) (hside : HostSide r.connection)
    (hwait : r.connection.state = .connecting → ch = {} ∧ h.Fresh id)
    (hclosed : r.connection.state = .closed → ch.asyncReceiving = false) :
    (h.finish id τ ch r).Sound := by
  have hlt : id < h.nextGuestId := hs.skip_lt id rfl
  have hset : ({ h.send id r.sent with
      guestConnections := Function.update h.guestConnections id (some ⟨r.connection, ch⟩) } :
      HostTransceiver S V).Sound := by
    refine ⟨hs.host_lt, by simp, fun id' hid' => ?_, fun id' g _ hg => ?_⟩
    · obtain ⟨hnone, hf⟩ := hs.absent id' hid'
      exact ⟨(Function.update_of_ne (ne_of_gt (lt_of_lt_of_le hlt hid')) _ _).trans hnone, hf⟩
    · change Function.update h.guestConnections id (some ⟨r.connection, ch⟩) id' = some g at hg
      by_cases hid : id' = id
      · subst hid
        rw [Function.update_self] at hg
        obtain rfl := Option.some.inj hg
        exact ⟨hne, hpeer, hside, hwait, hclosed⟩
      · rw [Function.update_of_ne hid] at hg
        exact { hs.known id' g hid hg with }
  unfold HostTransceiver.finish
  simp only
  split_ifs
  · exact hset.handleTransition
  · exact hset

theorem SoundBut.skip (hs : h.Sound) (hlt : id < h.nextGuestId) : h.SoundBut {id} :=
  ⟨hs.host_lt, fun _ hm => Set.mem_singleton_iff.mp hm ▸ hlt, hs.absent,
    fun id' g _ => hs.known id' g (Set.notMem_empty _)⟩

theorem Sound.lt (hs : h.Sound) {g : GuestConnection} (hg : h.guestConnections id = some g) :
    id < h.nextGuestId := by
  by_contra hge
  rw [(hs.absent id (not_lt.mp hge)).1] at hg
  cases hg

/-- The connection of a failed channel closes. -/
theorem Sound.finish_error (hs : h.Sound) {g : GuestConnection}
    (hg : h.guestConnections id = some g) (registry : Registry) (ch : Channel) (what : String) :
    (({ h with registry } : HostTransceiver S V).finish id τ { ch with asyncReceiving := false }
      (Turn.handleError .silent { connection := g.connection } τ what)).Sound := by
  have hk := hs.known id g (Set.notMem_empty _) hg
  have hturn : HostTurn g.connection
      (Turn.handleError (.silent : Owner S V) { connection := g.connection } τ what) :=
    Turn.hostTurn_handleError rfl what
  have hstate : (Turn.handleError (.silent : Owner S V) { connection := g.connection } τ
      what).connection.state = .closed :=
    (Turn.closes_handleError Connection.keeps_refl what).1
  have hpeer : (Turn.handleError (.silent : Owner S V) { connection := g.connection } τ
      what).connection.peerId = g.connection.peerId :=
    ((Turn.Does.refl _).handleError what).peerId
  have hskip := hs.skip (hs.lt hg)
  have hreg : ({ h with registry } : HostTransceiver S V).SoundBut {id} :=
    ⟨hskip.host_lt, hskip.skip_lt, hskip.absent,
      fun id' g' hm hg' => { hskip.known id' g' hm hg' with }⟩
  refine hreg.finish hk.ne_hostId (hpeer.trans hk.peerId) (hturn.hostSide hk.hostSide)
    (fun hc => ?_) fun _ => rfl
  rw [hstate] at hc
  cases hc

/-- The transmission that the receive handler gets comes from the guest. -/
theorem sender_stamped {c : Connection} (hc : c.selfId = hostId) (t : Transmission S V) :
    (c.stamped t τ).header.sender = some c.peerId := by
  simp [Connection.stamped, Connection.stamp, hc]

/-- **Step lemma: a transmission arrives.** -/
theorem Sound.receive (hs : h.Sound) (t : Transmission S V) : (h.receive id τ t).Sound := by
  unfold HostTransceiver.receive
  cases hg : h.guestConnections id with
  | none => exact hs
  | some g =>
    have hk := hs.known id g (Set.notMem_empty _) hg
    simp only
    split_ifs
    · exact hs
    · exact hs.finish_error hg h.registry g.channel _
    unfold processReceive
    split
    · rename_i ch registry what _
      exact hs.finish_error hg _ ch what
    · rename_i ch registry u _
      have hreg : ({ h with registry } : HostTransceiver S V).SoundBut {id} := by
        have hskip := hs.skip (hs.lt hg)
        exact ⟨hskip.host_lt, hskip.skip_lt, hskip.absent,
          fun id' g' hm hg' => { hskip.known id' g' hm hg' with }⟩
      generalize ({ h with registry } : HostTransceiver S V) = h₁ at hreg
      simp only
      have hturn := hostTurn_processReceive (o := h₁.owner id τ) (τ := τ) (t := t)
        hk.hostSide
      refine SoundBut.finish ?_ hk.ne_hostId
        (Connection.processReceive_peerId.trans hk.peerId) (hturn.hostSide hk.hostSide)
        (fun hst => ?_) fun hst => by simp [hst]
      · rcases Connection.received_eq (o := h₁.owner id τ) (c := g.connection) (τ := τ)
          (t := t) with hr | ⟨-, hr⟩
        · rw [hr]
          exact hreg
        · rw [hr]
          refine hreg.of_leaves fun id' hne hid => leaves_handleTransmission hne hid ?_
          rw [sender_stamped hk.hostSide.1, hk.peerId]
      -- a connection that is still connecting has decided
      rcases hk.hostSide.2 with ⟨hcon, he⟩ | ⟨hest, -⟩ | hcl
      · rcases Connection.decided_processReceive (o := h₁.owner id τ) (τ := τ) (t := t)
          hcon he with hd | ⟨hd, -⟩ <;> rw [hst] at hd <;> cases hd
      · rcases hturn.2 with ⟨hd, -⟩ | ⟨-, hd, -⟩ | ⟨-, hd, -⟩ <;> rw [hst] at hd
        · cases hd
        · rw [← hd] at hest
          cases hest
        · cases hd
      · rcases hturn.2 with ⟨hd, -⟩ | ⟨-, hd, -⟩ | ⟨-, hd, -⟩ <;> rw [hst] at hd
        · cases hd
        · rw [hcl] at hd
          cases hd
        · cases hd

theorem asyncReceive_ids {o : Owner S V} {c : Connection} {name : String}
    {a : Option AuthManager} {r : Turn S V} (hr : c.asyncReceive o τ name a = some r) :
    r.connection.selfId = c.selfId ∧ r.connection.peerId = c.peerId := by
  simp only [Connection.asyncReceive] at hr
  split_ifs at hr <;>
  · obtain rfl := Option.some.inj hr
    exact ⟨rfl, rfl⟩

/-- **Step lemma: a channel is accepted.** -/
theorem Sound.accept (hs : h.Sound) (a : Option AuthManager) : (h.accept τ a).Sound := by
  obtain ⟨r, m, hr, hst, hex, -⟩ := Connection.asyncReceive_host (o := (.silent : Owner S V))
    (c := .host h.nextGuestId h.names) (τ := τ) (u := h.selfName) (a := a) rfl rfl
  obtain ⟨hself, hpeer⟩ := asyncReceive_ids hr
  obtain ⟨hnone, hfresh⟩ := hs.absent h.nextGuestId le_rfl
  unfold HostTransceiver.accept
  simp only [hr]
  have hbut : ({ h with nextGuestId := h.nextGuestId + 1 } : HostTransceiver S V).SoundBut
      {h.nextGuestId} :=
    ⟨Nat.lt_succ_of_lt hs.host_lt, fun id hid => Set.mem_singleton_iff.mp hid ▸ Nat.lt_succ_self _,
      fun id hid => hs.absent id (Nat.le_of_succ_le hid),
      fun id g _ hg => { hs.known id g (Set.notMem_empty _) hg with }⟩
  refine hbut.finish (ne_of_gt hs.host_lt) hpeer ⟨hself, .inl ⟨hst, hex⟩⟩
    (fun _ => ⟨rfl, hfresh⟩) fun hc => ?_
  rw [hst] at hc
  cases hc

/-- **Step lemma.** -/
theorem sound_step (hs : h.Sound) (a : HostAct S V) : (h.step a).Sound := by
  cases a with
  | accept a τ => exact hs.accept a
  | receive id t τ => exact hs.receive t
  | publish n x includedProperties remove τ =>
    exact hs.of_leaves fun id hne _ => leaves_publish hne x includedProperties remove
  | channelError id what τ =>
    simp only [step, channelError]
    cases hg : h.guestConnections id with
    | none => exact hs
    | some g => exact hs.finish_error hg h.registry g.channel what

end HostTransceiver

end Dots

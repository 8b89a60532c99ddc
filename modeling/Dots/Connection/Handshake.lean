import Dots.Connection.Phase

/-!
# The handshake law

* `Turn.Does`: the primitives that a call is made of.
* `Lawful`: what holds in every run. **`lawful_step`**.
* `Owner.Polite`, `Polite`: owners that transmit only while their own connection is established.
* `Ordered`: where instances can be in the channels of such a run. **`ordered_step`**.
* **`handshake_of_run`**: both laws.
-/

set_option autoImplicit false

namespace Dots

variable {S : Schema} {V : Type}

/-! ## The primitives of a call -/

/-- A message that names no other guest than `peerId`. -/
def AnyStruct.Names (x : AnyStruct S V) (peerId : ConnectionId) : Prop :=
  ∀ m, x = .connectResponse m → m.clientId = none ∨ m.clientId = some peerId

namespace Turn

variable (o : Owner S V) (τ : Timepoint)

/-- A call makes its turn from handshake messages, transitions and other changes of members. -/
inductive Does : Turn S V → Turn S V → Prop
  | refl (r : Turn S V) : Does r r
  | transmit {r r' : Turn S V} (x : AnyStruct S V) (hx : x.isSystem = true)
      (hn : x.Names r'.connection.peerId) (h : Does r r') : Does r (r'.transmit τ x)
  | transition {r r' : Turn S V} (s : DotsConnectionState) (h : Does r r') :
      Does r (r'.setConnectionState o s)
  | members {r r' : Turn S V} (c : Connection)
      (hc : c.state = r'.connection.state ∧ c.peerId = r'.connection.peerId) (h : Does r r') :
      Does r { r' with connection := c }

variable {o τ} {r r' : Turn S V}

theorem Does.received (h : Does o τ r r') : r'.received = r.received := by
  induction h with
  | refl => rfl
  | transmit _ _ _ _ ih => exact ih
  | transition _ _ ih => exact ih
  | members _ _ _ ih => exact ih

/-- Under an owner that transmits nothing on a transition, only handshake messages are sent. -/
theorem Does.sent (ho : ∀ s, o.onTransition s = []) (h : Does o τ r r')
    (hr : ∀ u ∈ r.sent, u.instance_.isSystem = true) :
    ∀ u ∈ r'.sent, u.instance_.isSystem = true := by
  induction h with
  | refl => exact hr
  | transmit x hx _ _ ih =>
    intro u hu
    rcases List.mem_append.mp hu with hu | hu
    · exact ih u hu
    · exact List.mem_singleton.mp hu ▸ hx
  | transition s _ ih =>
    intro u hu
    rw [setConnectionState, ho, List.append_nil] at hu
    exact ih u hu
  | members _ _ _ ih => exact ih

/-- The peer of a connection stays the same. -/
theorem Does.peerId (h : Does o τ r r') : r'.connection.peerId = r.connection.peerId := by
  induction h with
  | refl => rfl
  | transmit _ _ _ _ ih => exact ih
  | transition _ _ ih => exact ih
  | members _ hc _ ih => exact hc.2.trans ih

/-- Responses name the guest of the connection. -/
theorem Does.names (ho : ∀ s, o.onTransition s = []) (h : Does o τ r r')
    (hr : ∀ u ∈ r.sent, u.instance_.Names r.connection.peerId) :
    ∀ u ∈ r'.sent, u.instance_.Names r.connection.peerId := by
  induction h with
  | refl => exact hr
  | transmit x _ hn h ih =>
    intro u hu
    rcases List.mem_append.mp hu with hu | hu
    · exact ih u hu
    · obtain rfl := List.mem_singleton.mp hu
      exact h.peerId ▸ hn
  | transition s _ ih =>
    intro u hu
    rw [setConnectionState, ho, List.append_nil] at hu
    exact ih u hu
  | members _ _ _ ih => exact ih

/-- A connection that is closed has gone through that transition, or it was closed before. -/
theorem Does.closed (h : Does o τ r r') (hc : r'.connection.state = .closed) :
    .closed ∈ r'.transitions ∨ r.connection.state = .closed := by
  induction h with
  | refl => exact .inr hc
  | transmit _ _ _ _ ih => exact ih hc
  | transition s _ _ =>
    obtain rfl : s = .closed := hc
    exact .inl (by simp)
  | members _ hm _ ih => exact ih (hm.1 ▸ hc)

/-- Other instances are sent by the owner only, on transitions. -/
theorem Does.instances (h : Does o τ r r') :
    ∃ ss, r'.transitions = r.transitions ++ ss ∧
      r'.sent.filter (fun u => !u.instance_.isSystem) =
        r.sent.filter (fun u => !u.instance_.isSystem) ++ ss.flatMap o.onTransition := by
  induction h with
  | refl => exact ⟨[], by simp⟩
  | transmit x hx _ _ ih =>
    obtain ⟨ss, htr, hsent⟩ := ih
    refine ⟨ss, htr, ?_⟩
    rw [Turn.transmit, List.filter_append, hsent]
    simp [Transmission.ofInstance, hx]
  | transition s _ ih =>
    obtain ⟨ss, htr, hsent⟩ := ih
    have hown : (o.onTransition s).filter (fun u => !u.instance_.isSystem) = o.onTransition s :=
      List.filter_eq_self.mpr fun u hu => by rw [o.onTransition_isSystem s u hu]; rfl
    refine ⟨ss ++ [s], by rw [setConnectionState, htr, List.append_assoc], ?_⟩
    rw [setConnectionState, List.filter_append, hsent, hown]
    simp
  | members _ _ _ ih => exact ih

theorem Does.handleClose (h : Does o τ r r') : Does o τ r (r'.handleClose o) :=
  .transition .closed (.members _ ⟨rfl, rfl⟩ h)

theorem Does.handleError (h : Does o τ r r') (what : String) :
    Does o τ r (r'.handleError o τ what) := by
  unfold Turn.handleError
  split_ifs
  · exact (Does.transmit _ rfl (by simp [AnyStruct.Names]) h).handleClose
  · exact h.handleClose

theorem does_handlePeerError (m : DotsMsgError) : Does o τ r (r.handlePeerError o τ m) := by
  unfold handlePeerError
  split_ifs
  · exact (Does.refl r).handleClose
  · exact (Does.refl r).handleError _

theorem does_handleHello (m : DotsMsgHello) : Does o τ r (r.handleHello τ m).1 := by
  simp only [handleHello]
  split_ifs
  · cases r.connection.credentials.authSecret with
    | none => exact .members _ ⟨rfl, rfl⟩ (.refl r)
    | some secret => exact .members _ ⟨rfl, rfl⟩ (.transmit _ rfl (by simp [AnyStruct.Names]) (.members _ ⟨rfl, rfl⟩ (.refl r)))
  · exact .members _ ⟨rfl, rfl⟩ (.transmit _ rfl (by simp [AnyStruct.Names]) (.members _ ⟨rfl, rfl⟩ (.refl r)))

theorem does_handleAuthorizationRequest (m : DotsMsgConnectResponse) :
    Does o τ r (r.handleAuthorizationRequest o τ m).1 := by
  unfold handleAuthorizationRequest
  split_ifs
  · exact .members _ ⟨rfl, rfl⟩ (.transmit _ rfl (by simp [AnyStruct.Names]) (.transition _ (.members _ ⟨rfl, rfl⟩ (.refl r))))
  · exact .members _ ⟨rfl, rfl⟩ (.transition _ (.members _ ⟨rfl, rfl⟩ (.refl r)))

theorem does_letIn (m : DotsMsgConnect) : Does o τ r (r.letIn o τ m) := by
  unfold letIn
  split_ifs <;>
    exact .members _ ⟨rfl, rfl⟩ (.transition _ (.transmit _ rfl (by simp [AnyStruct.Names]) (.members _ ⟨rfl, rfl⟩ (.refl r))))

theorem does_handleConnect (m : DotsMsgConnect) : Does o τ r (r.handleConnect o τ m).1 := by
  unfold handleConnect
  split
  · exact .refl r
  · exact .transmit _ rfl (by simp [AnyStruct.Names]) (.refl r)
  · exact does_letIn m

theorem does_handlePreloadClientFinished (m : DotsMsgConnect) :
    Does o τ r (r.handlePreloadClientFinished o τ m).1 := by
  unfold handlePreloadClientFinished
  split_ifs
  · exact .refl r
  · exact .members _ ⟨rfl, rfl⟩ (.transmit _ rfl (by simp [AnyStruct.Names]) (.transition _ (.refl r)))

theorem does_callHandler (s : SystemHandler) (x : AnyStruct S V) :
    Does o τ r (r.callHandler o τ s x).1 := by
  unfold callHandler
  split
  · exact does_handleHello _
  · exact does_handleAuthorizationRequest _
  · exact .members _ ⟨rfl, rfl⟩ (.transition _ (.refl r))
  · exact does_handleConnect _
  · exact does_handlePreloadClientFinished _
  · exact does_handlePeerError _
  · exact .refl r

theorem does_handleSystem (x : AnyStruct S V) : Does o τ r (r.handleSystem o τ x).1 := by
  unfold handleSystem
  simp only
  split_ifs
  · exact .refl r
  · cases r.connection.expected.handler with
    | none => exact .refl r
    | some s => exact does_callHandler s x
  · exact .refl r

theorem does_asyncReceive {c : Connection} {name : String} {a : Option AuthManager}
    (h : c.asyncReceive o τ name a = some r) : Does o τ { connection := c } r := by
  have hinit : Does o τ { connection := c } { connection := { c with authManager := a } } :=
    .members { c with authManager := a } ⟨rfl, rfl⟩ (.refl { connection := c })
  simp only [Connection.asyncReceive] at h
  split_ifs at h
  · obtain rfl := Option.some.inj h
    exact .members _ ⟨rfl, rfl⟩ (.transmit _ rfl (by simp [AnyStruct.Names])
      (.members _ ⟨rfl, rfl⟩ (.transition _ hinit)))
  · obtain rfl := Option.some.inj h
    exact .members _ ⟨rfl, rfl⟩ (.members _ ⟨rfl, rfl⟩ (.transition _ hinit))

/-- A received transmission is processed by the primitives, after the receive handler if it is an
instance of another type. -/
theorem does_processReceive (c : Connection) (t : Transmission S V) :
    Does o τ { connection := c } (c.processReceive o τ t).1 ∨
      c.state ≠ .closed ∧
        Does o τ (({ connection := c } : Turn S V).handleInstance o τ t).1
          (c.processReceive o τ t).1 := by
  have herror (r₀ : Turn S V) (re : Turn S V × Option ConnectionError) (h : Does o τ r₀ re.1) :
      Does o τ r₀ (processError o τ re).1 := by
    obtain ⟨r, _ | e⟩ := re
    · exact h
    · exact h.handleError _
  unfold Connection.processReceive Turn.handleReceive
  split_ifs with hc
  · exact .inl (.refl _)
  · split
    · exact .inl (does_handlePeerError _)
    · split_ifs
      · exact .inl (herror _ _ (does_handleSystem _))
      · exact .inr ⟨hc, herror _ _ (.refl _)⟩

/-- A handshake message does not reach the receive handler. -/
theorem does_of_isSystem {c : Connection} {t : Transmission S V}
    (ht : t.instance_.isSystem = true) :
    Does o τ { connection := c } (c.processReceive o τ t).1 := by
  have herror (re : Turn S V × Option ConnectionError) (h : Does o τ { connection := c } re.1) :
      Does o τ { connection := c } (processError o τ re).1 := by
    obtain ⟨r, _ | e⟩ := re
    · exact h
    · exact h.handleError _
  unfold Connection.processReceive Turn.handleReceive
  split_ifs with hc
  · exact .refl _
  · split
    · exact does_handlePeerError _
    · rw [if_pos ht]
      exact herror _ (does_handleSystem _)

end Turn

/-- What reaches the receive handler is the transmission, with a header that the connection has
completed, and only an established connection gets that far. -/
theorem Connection.received_eq {o : Owner S V} {c : Connection} {τ : Timepoint}
    {t : Transmission S V} : (c.processReceive o τ t).1.received = [] ∨
      c.state.established = true ∧ (c.processReceive o τ t).1.received = [c.stamped t τ] := by
  rcases Turn.does_processReceive (o := o) (τ := τ) c t with hd | ⟨-, hd⟩
  · exact .inl hd.received
  · rw [hd.received]
    unfold Turn.handleInstance
    split_ifs with hest
    · exact .inl rfl
    · exact .inl rfl
    · exact .inr ⟨Bool.not_eq_false _ ▸ hest, rfl⟩

/-- A connection that is closed afterwards has closed, or was closed before. -/
theorem Connection.closed_processReceive {o : Owner S V} {c : Connection} {τ : Timepoint}
    {t : Transmission S V} (h : (c.processReceive o τ t).1.connection.state = .closed) :
    .closed ∈ (c.processReceive o τ t).1.transitions ∨ c.state = .closed := by
  rcases Turn.does_processReceive (o := o) (τ := τ) c t with hd | ⟨-, hd⟩
  · exact hd.closed h
  · refine (hd.closed h).imp_right fun hst => ?_
    unfold Turn.handleInstance at hst
    split_ifs at hst <;> exact hst

/-- An owner that never transmits: its connection sends handshake messages only. -/
theorem Connection.sent_isSystem {o : Owner S V} (ho : ∀ s, o.onTransition s = [])
    (hr : ∀ t, (o.onReceive t).1 = []) (c : Connection) (τ : Timepoint)
    (t : Transmission S V) :
    ∀ u ∈ (c.processReceive o τ t).1.sent, u.instance_.isSystem = true := by
  have hnil : ∀ u ∈ ([] : List (Transmission S V)), u.instance_.isSystem = true := by simp
  rcases Turn.does_processReceive (o := o) (τ := τ) c t with hd | ⟨-, hd⟩
  · exact hd.sent ho hnil
  · refine hd.sent ho ?_
    unfold Turn.handleInstance
    split_ifs
    · exact hnil
    · exact hnil
    · simp [hr]

/-- An owner that transmits on transitions only. -/
theorem Connection.sent_instances {o : Owner S V} (hr : ∀ t, (o.onReceive t).1 = [])
    (c : Connection) (τ : Timepoint) (t : Transmission S V) :
    (c.processReceive o τ t).1.sent.filter (fun u => !u.instance_.isSystem) =
      (c.processReceive o τ t).1.transitions.flatMap o.onTransition := by
  rcases Turn.does_processReceive (o := o) (τ := τ) c t with hd | ⟨-, hd⟩
  · obtain ⟨ss, htr, hsent⟩ := hd.instances
    rw [hsent, htr]
    rfl
  · have hbase : (({ connection := c } : Turn S V).handleInstance o τ t).1.transitions = [] ∧
        (({ connection := c } : Turn S V).handleInstance o τ t).1.sent = [] := by
      unfold Turn.handleInstance
      split_ifs <;> simp [hr]
    obtain ⟨ss, htr, hsent⟩ := hd.instances
    rw [hbase.1] at htr
    rw [hbase.2] at hsent
    rw [hsent, htr]
    rfl

theorem Connection.sent_names {o : Owner S V} (ho : ∀ s, o.onTransition s = [])
    (hr : ∀ t, (o.onReceive t).1 = []) (c : Connection) (τ : Timepoint)
    (t : Transmission S V) :
    ∀ u ∈ (c.processReceive o τ t).1.sent, u.instance_.Names c.peerId := by
  have hnil : ∀ u ∈ ([] : List (Transmission S V)), u.instance_.Names c.peerId := by simp
  rcases Turn.does_processReceive (o := o) (τ := τ) c t with hd | ⟨-, hd⟩
  · exact hd.names ho hnil
  · have hbase : (({ connection := c } : Turn S V).handleInstance o τ t).1.connection = c ∧
        (({ connection := c } : Turn S V).handleInstance o τ t).1.sent = [] := by
      unfold Turn.handleInstance
      split_ifs
      · exact ⟨rfl, rfl⟩
      · exact ⟨rfl, rfl⟩
      · exact ⟨rfl, by simp [hr]⟩
    have hn := hd.names ho (by rw [hbase.2]; simp)
    rwa [hbase.1] at hn

/-- What reaches the receive handler has its keys and is no handshake message. -/
theorem Connection.of_received {o : Owner S V} {c : Connection} {τ : Timepoint}
    {t u : Transmission S V} (h : u ∈ (c.processReceive o τ t).1.received) :
    c.state.established = true ∧ t.instance_.isSystem = false ∧
      t.instance_.hasKeyProperties = true ∧ u = c.stamped t τ := by
  have hempty : ∀ r : Turn S V, Turn.Does o τ { connection := c } r → u ∉ r.received :=
    fun r hd hu => by rw [hd.received] at hu; exact absurd hu List.not_mem_nil
  by_cases hsys : t.instance_.isSystem = true
  · exact absurd h (hempty _ (Turn.does_of_isSystem hsys))
  rcases Turn.does_processReceive (o := o) (τ := τ) c t with hd | ⟨-, hd⟩
  · exact absurd h (hempty _ hd)
  · rw [hd.received] at h
    unfold Turn.handleInstance at h
    split_ifs at h with hest hkeys
    · exact absurd h List.not_mem_nil
    · exact absurd h List.not_mem_nil
    · exact ⟨Bool.not_eq_false _ ▸ hest, by simpa using hsys, Bool.not_eq_false _ ▸ hkeys,
        List.mem_singleton.mp h⟩

/-- A connection that stays open has thrown nothing. -/
theorem Connection.accepted_of_open {o : Owner S V} {c : Connection} {τ : Timepoint}
    {t : Transmission S V} (h : (c.processReceive o τ t).1.connection.state ≠ .closed) :
    (c.processReceive o τ t).2 = none := by
  unfold Connection.processReceive at h ⊢
  generalize Turn.handleReceive o ({ connection := c } : Turn S V) τ t = re at h ⊢
  obtain ⟨r, _ | e⟩ := re
  · rfl
  · refine absurd ?_ h
    simp only [Turn.processError, Turn.handleError]
    split_ifs <;> rfl

/-- **An instance that does not reach the receive handler** closes the connection. -/
theorem Connection.closed_of_not_received {o : Owner S V} {c : Connection} {τ : Timepoint}
    {t : Transmission S V} (hsys : t.instance_.isSystem = false)
    (h : (c.processReceive o τ t).1.received = []) :
    (c.processReceive o τ t).1.connection.state = .closed := by
  have hclosed (r : Turn S V) (e : ConnectionError) :
      (Turn.processError o τ (r, some e)).1.connection.state = .closed := by
    simp only [Turn.processError, Turn.handleError]
    split_ifs <;> rfl
  by_cases hc : c.state = .closed
  · rw [Connection.processReceive_closed hc]
    exact hc
  rw [Connection.processReceive, Connection.handleReceive_instance hc hsys] at h ⊢
  unfold Turn.handleInstance at h ⊢
  split_ifs at h ⊢ with hest hkeys
  · exact hclosed _ _
  · exact hclosed _ _
  · cases he : (o.onReceive (c.stamped t τ)).2 with
    | none => simp [Turn.processError, he] at h
    | some what =>
      simp only [he, Option.map_some]
      exact hclosed _ _

theorem Turn.selfId_handleError (o : Owner S V) (r : Turn S V) (τ : Timepoint) (what : String) :
    (r.handleError o τ what).connection.selfId = r.connection.selfId := by
  unfold Turn.handleError
  split_ifs <;> rfl

theorem Turn.selfId_callHandler (o : Owner S V) (r : Turn S V) (τ : Timepoint)
    (s : SystemHandler) (x : AnyStruct S V) :
    (r.callHandler o τ s x).1.connection.selfId = r.connection.selfId ∨
      ∃ m, x = .connectResponse m ∧
        (r.callHandler o τ s x).1.connection.selfId = m.clientId.getD 0 := by
  unfold Turn.callHandler
  split
  · left
    simp only [Turn.handleHello]
    split_ifs
    · cases r.connection.credentials.authSecret <;> rfl
    · rfl
  · rename_i m
    refine .inr ⟨m, rfl, ?_⟩
    unfold Turn.handleAuthorizationRequest
    split_ifs <;> rfl
  · exact .inl rfl
  · left
    unfold Turn.handleConnect
    split
    · rfl
    · rfl
    · unfold Turn.letIn
      split_ifs <;> rfl
  · left
    unfold Turn.handlePreloadClientFinished
    split_ifs <;> rfl
  · left
    unfold Turn.handlePeerError
    split_ifs
    · rfl
    · exact Turn.selfId_handleError ..
  · exact .inl rfl

/-- A connection gets its id from a response. -/
theorem Connection.selfId_processReceive (o : Owner S V) (c : Connection) (τ : Timepoint)
    (t : Transmission S V) : (c.processReceive o τ t).1.connection.selfId = c.selfId ∨
      ∃ m, t.instance_ = .connectResponse m ∧
        (c.processReceive o τ t).1.connection.selfId = m.clientId.getD 0 := by
  have herror (re : Turn S V × Option ConnectionError) :
      (Turn.processError o τ re).1.connection.selfId = re.1.connection.selfId := by
    obtain ⟨r, _ | e⟩ := re
    · rfl
    · exact Turn.selfId_handleError ..
  rw [Connection.processReceive, herror]
  unfold Turn.handleReceive
  split_ifs
  · exact .inl rfl
  split
  · left
    unfold Turn.handlePeerError
    split_ifs
    · rfl
    · exact Turn.selfId_handleError ..
  split_ifs
  · unfold Turn.handleSystem
    simp only
    split_ifs
    · exact .inl rfl
    · cases c.expected.handler with
      | none => exact .inl rfl
      | some h => exact Turn.selfId_callHandler ..
    · exact .inl rfl
  · left
    unfold Turn.handleInstance
    split_ifs <;> rfl

/-- **Only an established connection** calls its receive handler. -/
theorem Connection.processReceive_received {o : Owner S V} {c : Connection} {τ : Timepoint}
    {t : Transmission S V} (h : (c.processReceive o τ t).1.received ≠ []) :
    c.state.established = true :=
  (received_eq.resolve_left h).1

/-- The peer of a connection stays the same. -/
theorem Connection.processReceive_peerId {o : Owner S V} {c : Connection} {τ : Timepoint}
    {t : Transmission S V} : (c.processReceive o τ t).1.connection.peerId = c.peerId := by
  rcases Turn.does_processReceive (o := o) (τ := τ) c t with hd | ⟨-, hd⟩
  · exact hd.peerId
  · rw [hd.peerId]
    unfold Turn.handleInstance
    split_ifs <;> rfl

theorem Connection.keeps_or_closes_destroy {o : Owner S V} {c : Connection} {τ : Timepoint} :
    (c.destroy o τ : Turn S V).Keeps c ∨ (c.destroy o τ : Turn S V).Closes c := by
  simp only [Connection.destroy]
  split_ifs with hclosed hcon
  · exact .inl Connection.keeps_refl
  · refine .inr (Turn.closes_handleClose rfl (.inr ⟨hcon, { errorCode := some 0 }, ?_⟩))
    rw [Turn.system_transmit rfl]
    rfl
  · exact .inr (Turn.closes_handleClose rfl (.inl rfl))

theorem Connection.advances_asyncReceive {o : Owner S V} {c : Connection} {τ : Timepoint}
    {name : String} {a : Option AuthManager} {r : Turn S V}
    (h : c.asyncReceive o τ name a = some r) :
    r.Advances c ∧ r.connection.state = .connecting := by
  simp only [Connection.asyncReceive] at h
  split_ifs at h with hs hi
  all_goals
    obtain rfl := Option.some.inj h
    refine ⟨.inr ⟨rfl, ?_⟩, rfl⟩
    rw [not_not.mp hs]
    exact Nat.zero_le _

/-! ## The law of every run -/

/-- **What holds in every run.** -/
structure Lawful (h : Handshake S V) : Prop where
  /-- No handshake message is refused by a side that is not closed. -/
  accepted : ∀ d ∈ h.deliveries, d.transmission.instance_.isSystem = true → d.state ≠ .closed →
    Accepted d.error
  /-- A connected guest has a host that is connected, or was and has closed. -/
  connected : (h.connection .guest).state = .connected →
    (h.connection .host).state = .connected ∨
      (h.connection .host).state = .closed ∧ .connected ∈ h.transitions .host
  /-- The states of a side never go back. -/
  path : ∀ side, Path (h.transitions side) (h.connection side).state
  /-- Only an established side calls its receive handler. -/
  received : ∀ d ∈ h.deliveries, d.received = true → d.state.established = true

theorem Phased.connected_of_guest {h : Handshake S V} {p : Phase} (hp : Phased h p)
    (hg : (h.connection .guest).state = .connected) :
    (h.connection .host).state = .connected ∨
      (h.connection .host).state = .closed ∧ .connected ∈ h.transitions .host := by
  have hguest := hp.guest.resolve_left (by simp [hg])
  have hpe : p = .established := by
    cases p with
    | established => rfl
    | unstarted | hello =>
      rcases hguest with hs | hs <;> exact absurd (hs.1.symm.trans hg) (by decide)
    | _ => exact absurd (hguest.1.symm.trans hg) (by decide)
  subst hpe
  exact hp.host.symm.imp (fun hh => hh.1) fun hc => ⟨hc, hp.connected (.inr rfl)⟩

theorem Phased.of_deliveries {h : Handshake S V} {p : Phase} (hp : Phased h p)
    (ds : List (Delivery S V)) : Phased { h with deliveries := ds } p :=
  ⟨hp.host, hp.guest, hp.toHost, hp.toGuest, hp.connected, hp.path⟩

/-- A phase, and the laws about the deliveries so far. -/
structure Regular (h : Handshake S V) : Prop where
  phased : ∃ p, Phased h p
  accepted : ∀ d ∈ h.deliveries, d.transmission.instance_.isSystem = true → d.state ≠ .closed →
    Accepted d.error
  received : ∀ d ∈ h.deliveries, d.received = true → d.state.established = true

theorem Regular.lawful {h : Handshake S V} (hr : Regular h) : Lawful h :=
  have ⟨_, hp⟩ := hr.phased
  ⟨hr.accepted, hp.connected_of_guest, hp.path, hr.received⟩

namespace Handshake

theorem deliver_eq_some {h h' : Handshake S V} {side : Side} {o : Owner S V} {τ : Timepoint}
    (hd : h.deliver side o τ = some h') :
    ∃ t rest, h.inbox side = t :: rest ∧ (h.connection side).state ≠ .suspended ∧
      h' = { (h.setInbox side rest).take side ((h.connection side).processReceive o τ t).1 with
        deliveries := ⟨side, (h.connection side).state, t,
          !((h.connection side).processReceive o τ t).1.received.isEmpty,
          ((h.connection side).processReceive o τ t).2⟩ :: h.deliveries } := by
  unfold deliver at hd
  split at hd
  · cases hd
  · rename_i t rest hin
    split_ifs at hd with hs
    exact ⟨t, rest, hin, hs, (Option.some.inj hd).symm⟩

/-- The steps other than a start and a delivery: the turn of a side that keeps its state or
closes. -/
theorem step_turn {h h' : Handshake S V} {a : HandshakeAct S V} (hs : h.step a = some h')
    (hstart : ∀ side o name am τ, a ≠ .start side o name am τ)
    (hdeliver : ∀ side o τ, a ≠ .deliver side o τ) :
    ∃ side r, h' = (h.setInbox side (h.inbox side)).take side r ∧
      (r.Keeps (h.connection side) ∨ r.Closes (h.connection side)) := by
  simp only [setInbox_self]
  cases a with
  | start side o name am τ => exact absurd rfl (hstart side o name am τ)
  | deliver side o τ => exact absurd rfl (hdeliver side o τ)
  | transmit side t =>
    simp only [step] at hs
    split_ifs at hs with ht
    refine ⟨side, _, (Option.some.inj hs).symm, .inl ⟨rfl, rfl, rfl, rfl, ?_⟩⟩
    exact system_eq_nil (by simpa using ht)
  | handleError side o what τ =>
    exact ⟨side, _, (Option.some.inj hs).symm,
      .inr (Turn.closes_handleError Connection.keeps_refl what)⟩
  | destroy side o τ =>
    exact ⟨side, _, (Option.some.inj hs).symm, Connection.keeps_or_closes_destroy⟩

end Handshake

/-- **Step lemma.** -/
theorem regular_step {h h' : Handshake S V} {a : HandshakeAct S V} (hr : Regular h)
    (hs : h.step a = some h') : Regular h' := by
  obtain ⟨p, hp⟩ := hr.phased
  by_cases hstart : ∃ side o name am τ, a = .start side o name am τ
  · obtain ⟨side, o, name, am, τ, rfl⟩ := hstart
    refine ⟨hp.start hs, ?_, ?_⟩ <;>
    · obtain ⟨r, -, rfl⟩ := Option.map_eq_some_iff.mp hs
      first | exact hr.accepted | exact hr.received
  by_cases hdeliver : ∃ side o τ, a = .deliver side o τ
  · obtain ⟨side, o, τ, rfl⟩ := hdeliver
    obtain ⟨t, rest, hin, hsus, rfl⟩ := Handshake.deliver_eq_some hs
    obtain ⟨⟨q, hq⟩, -, hacc⟩ := hp.deliver o τ hsus hin
    refine ⟨⟨q, hq.of_deliveries _⟩, fun d hd => ?_, fun d hd => ?_⟩
    · rcases List.mem_cons.mp hd with rfl | hd
      · exact hacc
      · exact hr.accepted d hd
    · rcases List.mem_cons.mp hd with rfl | hd
      · intro hrec
        exact Connection.processReceive_received (by simpa using hrec)
      · exact hr.received d hd
  obtain ⟨side, r, rfl, hk | hc⟩ := Handshake.step_turn hs
    (fun side o name am τ he => hstart ⟨side, o, name, am, τ, he⟩)
    fun side o τ he => hdeliver ⟨side, o, τ, he⟩
  · exact ⟨⟨p, hp.take_keeps side hk (.inr rfl)⟩, hr.accepted, hr.received⟩
  · exact ⟨⟨p, hp.take_closes side hc _⟩, hr.accepted, hr.received⟩

theorem uninitializedId_ne_hostId : uninitializedId ≠ hostId := by decide

theorem regular_init (peerId : ConnectionId) (credentials : Credentials)
    (names : String → PropertySet → List String) :
    Regular (Handshake.init peerId credentials names : Handshake S V) where
  phased := ⟨.unstarted, .inr ⟨rfl, rfl⟩, .inr (.inl ⟨rfl, uninitializedId_ne_hostId⟩),
    .inr rfl, .inr rfl, fun hc => by simp at hc, fun side => by
      cases side <;> exact ⟨List.pairwise_singleton _ _, rfl⟩⟩
  accepted _ hd := absurd hd List.not_mem_nil
  received _ hd := absurd hd List.not_mem_nil

/-! ## Polite owners -/

/-- An owner that transmits in its transition handler only if the connection is established, and
no instance without its keys. -/
structure Owner.Polite (o : Owner S V) : Prop where
  silent : ∀ s, s.established = false → o.onTransition s = []
  onTransition_keys : ∀ s, ∀ t ∈ o.onTransition s, t.wire.instance_.hasKeyProperties = true
  onReceive_keys : ∀ t, ∀ u ∈ (o.onReceive t).1, u.wire.instance_.hasKeyProperties = true

/-- The steps of polite owners. -/
def Polite (h : Handshake S V) : HandshakeAct S V → Prop
  | .start _ o _ _ _ | .deliver _ o _ | .handleError _ o _ _ | .destroy _ o _ => o.Polite
  | .transmit side t =>
    (h.connection side).state.established = true ∧ t.wire.instance_.hasKeyProperties = true

/-- The instances of a turn have their keys, and the connection was established in it. -/
def Turn.Decent (c : Connection) (r : Turn S V) : Prop :=
  ∀ t ∈ r.sent, t.instance_.isSystem = false →
    t.wire.instance_.hasKeyProperties = true ∧ ∃ s ∈ c.state :: r.transitions, s.established = true

namespace Turn

variable {o : Owner S V} {τ : Timepoint} {c : Connection} {r r' : Turn S V}

theorem Does.decent (ho : o.Polite) (h : Does o τ r r') (hr : r.Decent c) : r'.Decent c := by
  induction h with
  | refl => exact hr
  | transmit x hx _ _ ih =>
    intro t ht hsys
    rcases List.mem_append.mp ht with ht | ht
    · exact ih t ht hsys
    · obtain rfl := List.mem_singleton.mp ht
      exact Bool.noConfusion (hx.symm.trans hsys)
  | transition s _ ih =>
    intro t ht hsys
    rcases List.mem_append.mp ht with ht | ht
    · obtain ⟨hkey, s', hs', he⟩ := ih t ht hsys
      exact ⟨hkey, s', by
        rw [setConnectionState_transitions, ← List.cons_append]
        exact List.mem_append_left _ hs', he⟩
    · refine ⟨ho.onTransition_keys s t ht, s, by simp, ?_⟩
      by_contra hne
      rw [ho.silent s (Bool.eq_false_iff.mpr hne)] at ht
      exact absurd ht List.not_mem_nil
  | members _ _ _ ih => exact ih

theorem decent_nil (h : r.sent = []) : r.Decent c := fun t ht => by
  rw [h] at ht
  exact absurd ht List.not_mem_nil

theorem decent_handleInstance (ho : o.Polite) (t : Transmission S V) :
    (({ connection := c } : Turn S V).handleInstance o τ t).1.Decent c := by
  unfold handleInstance
  split_ifs with hest
  · exact decent_nil rfl
  · exact decent_nil rfl
  · intro u hu _
    exact ⟨ho.onReceive_keys _ u (by simpa using hu), c.state, List.mem_cons_self,
      Bool.not_eq_false _ ▸ hest⟩

theorem decent_processReceive (ho : o.Polite) (t : Transmission S V) :
    (c.processReceive o τ t).1.Decent c := by
  rcases does_processReceive (o := o) (τ := τ) c t with hd | ⟨-, hd⟩
  · exact hd.decent ho (decent_nil rfl)
  · exact hd.decent ho (decent_handleInstance ho t)

theorem decent_asyncReceive (ho : o.Polite) {name : String} {a : Option AuthManager}
    (h : c.asyncReceive o τ name a = some r) : r.Decent c :=
  (does_asyncReceive h).decent ho (decent_nil rfl)

theorem decent_destroy (ho : o.Polite) : (c.destroy o τ : Turn S V).Decent c := by
  have hd : Does o τ { connection := c } (c.destroy o τ) := by
    simp only [Connection.destroy]
    split_ifs
    · exact .refl _
    · exact (Does.transmit _ rfl (by simp [AnyStruct.Names]) (.refl _)).handleClose
    · exact (Does.refl _).handleClose
  exact hd.decent ho (decent_nil rfl)

/-- A decent turn that advances sends instances only if the connection is established before or
after it. -/
theorem Decent.established (hr : r.Decent c) (ha : r.Advances c) {t : Transmission S V}
    (ht : t ∈ r.sent) (hsys : t.instance_.isSystem = false) :
    c.state.established = true ∨ r.connection.state.established = true := by
  obtain ⟨-, s, hs, he⟩ := hr t ht hsys
  rcases List.mem_cons.mp hs with rfl | hs
  · exact .inl he
  · rcases ha with ⟨hnil, -⟩ | ⟨hone, -⟩
    · rw [hnil] at hs
      exact absurd hs List.not_mem_nil
    · rw [hone] at hs
      exact .inr (List.mem_singleton.mp hs ▸ he)

end Turn

/-! ## Instances behind the response -/

/-- The instances of a channel come after a response. -/
def Behind : List (Transmission S V) → Prop
  | [] => True
  | t :: ts => (∃ m, t.instance_ = .connectResponse m) ∨ t.instance_.isSystem = true ∧ Behind ts

theorem behind_of_isSystem {ts : List (Transmission S V)}
    (h : ∀ t ∈ ts, t.instance_.isSystem = true) : Behind ts := by
  induction ts with
  | nil => trivial
  | cons t ts ih =>
    exact .inr ⟨h t List.mem_cons_self, ih fun u hu => h u (List.mem_cons_of_mem _ hu)⟩

theorem Behind.append {ts us : List (Transmission S V)} (ht : Behind ts) (hu : Behind us) :
    Behind (ts ++ us) := by
  induction ts with
  | nil => exact hu
  | cons t ts ih => exact ht.imp_right fun h => ⟨h.1, ih h.2⟩

theorem Behind.append_of_mem {ts : List (Transmission S V)} (ht : Behind ts)
    {m : DotsMsgConnectResponse} (hm : .connectResponse m ∈ system ts)
    (us : List (Transmission S V)) : Behind (ts ++ us) := by
  induction ts with
  | nil => exact absurd hm List.not_mem_nil
  | cons t ts ih =>
    rcases ht with ht | ⟨hsys, ht⟩
    · exact .inl ht
    · rw [system_cons, if_pos hsys, List.singleton_append] at hm
      rcases List.mem_cons.mp hm with he | hm
      · exact .inl ⟨m, he.symm⟩
      · exact .inr ⟨hsys, ih ht hm⟩

/-- **Where the instances of polite owners are.** -/
structure Ordered (h : Handshake S V) : Prop where
  keys : ∀ side, ∀ t ∈ h.inbox side, t.instance_.isSystem = false →
    t.instance_.hasKeyProperties = true
  host : (∃ t ∈ h.inbox .host, t.instance_.isSystem = false) → 2 ≤ (h.connection .host).state.rank
  guest : (h.connection .guest).state.rank < 2 → Behind (h.inbox .guest)

theorem DotsConnectionState.two_le_rank {s : DotsConnectionState} :
    2 ≤ s.rank ↔ s.established = true ∨ s = .closed := by
  cases s <;> decide

theorem Turn.Advances.rank_le {c : Connection} {r : Turn S V} (h : r.Advances c) :
    c.state.rank ≤ r.connection.state.rank := by
  rcases h with ⟨-, hs⟩ | ⟨-, hle⟩
  · rw [hs]
  · exact hle

section Ordered

variable {h : Handshake S V} {p q : Phase} {r : Turn S V} {rest : List (Transmission S V)}

/-- An established guest has a host that is established or closed. -/
theorem Phased.host_of_guest (hp : Phased h p)
    (hg : (h.connection .guest).state.established = true) :
    2 ≤ (h.connection .host).state.rank := by
  rw [DotsConnectionState.two_le_rank]
  refine hp.host.symm.imp_left fun hh => ?_
  have hguest := hp.guest.resolve_left fun hc => by simp [hc, DotsConnectionState.established] at hg
  cases p with
  | unstarted | hello =>
    rcases hguest with hs | hs <;> rw [hs.1] at hg <;> cases hg
  | connect | response =>
    rw [hguest.1] at hg
    cases hg
  | _ => exact hh.1 ▸ rfl

/-- While the guest is starting, an established host has a response on its way. -/
theorem Phased.response_of_host (hp : Phased h p) (hg : (h.connection .guest).state.rank < 2)
    (hh : (h.connection .host).state.established = true) :
    ∃ m, .connectResponse m ∈ system (h.inbox .guest) := by
  have hopen : (h.connection .guest).state ≠ .closed := fun hc => by
    rw [hc] at hg
    exact absurd hg (by decide)
  have hguest := hp.guest.resolve_left hopen
  have hhost := hp.host.resolve_left fun hc => by simp [hc, DotsConnectionState.established] at hh
  cases p with
  | response =>
    obtain ⟨m, hx, -⟩ := hp.toGuest.resolve_left hopen
    exact ⟨m, hx ▸ List.mem_cons_self⟩
  | unstarted | hello | connect =>
    rw [hhost.1] at hh
    cases hh
  | _ =>
    rw [hguest.1] at hg
    exact absurd hg (by decide)

/-- **A turn of the guest.** -/
theorem Ordered.take_guest (ho : Ordered h) (hp : Phased h p)
    (hq : Phased ((h.setInbox .guest rest).take .guest r) q)
    (hrest : ∀ t ∈ rest, t ∈ h.inbox .guest) (hd : r.Decent (h.connection .guest))
    (ha : r.Advances (h.connection .guest))
    (hbehind : r.connection.state.rank < 2 → Behind rest) :
    Ordered ((h.setInbox .guest rest).take .guest r) where
  keys side t ht hsys := by
    cases side with
    | guest =>
      exact ho.keys .guest t (hrest t ht) hsys
    | host =>
      rcases List.mem_append.mp ht with ht | ht
      · exact ho.keys .host t ht hsys
      · obtain ⟨u, hu, rfl⟩ := List.mem_map.mp ht
        exact (hd u hu (by simpa [Transmission.wire] using hsys)).1
  host := by
    rintro ⟨t, ht, hsys⟩
    rcases List.mem_append.mp ht with ht | ht
    · exact ho.host ⟨t, ht, hsys⟩
    · obtain ⟨u, hu, rfl⟩ := List.mem_map.mp ht
      rcases hd.established ha hu (by simpa [Transmission.wire] using hsys) with he | he
      · exact hp.host_of_guest he
      · exact hq.host_of_guest he
  guest hlt := hbehind hlt

/-- **A turn of the host.** -/
theorem Ordered.take_host (ho : Ordered h) (hp : Phased h p)
    (hrest : ∀ t ∈ rest, t ∈ h.inbox .host) (hd : r.Decent (h.connection .host))
    (ha : r.Advances (h.connection .host))
    (hopens : (h.connection .host).state.established = false →
      r.connection.state.established = true → Behind (r.sent.map .wire)) :
    Ordered ((h.setInbox .host rest).take .host r) where
  keys side t ht hsys := by
    cases side with
    | host =>
      exact ho.keys .host t (hrest t ht) hsys
    | guest =>
      rcases List.mem_append.mp ht with ht | ht
      · exact ho.keys .guest t ht hsys
      · obtain ⟨u, hu, rfl⟩ := List.mem_map.mp ht
        exact (hd u hu (by simpa [Transmission.wire] using hsys)).1
  host := by
    rintro ⟨t, ht, hsys⟩
    exact le_trans (ho.host ⟨t, hrest t ht, hsys⟩) ha.rank_le
  guest hlt := by
    have hold := ho.guest hlt
    by_cases hh : (h.connection .host).state.established = true
    · obtain ⟨m, hm⟩ := hp.response_of_host hlt hh
      exact hold.append_of_mem hm _
    · refine hold.append ?_
      by_cases hr : r.connection.state.established = true
      · exact hopens (Bool.eq_false_iff.mpr hh) hr
      · refine behind_of_isSystem fun t ht => ?_
        obtain ⟨u, hu, rfl⟩ := List.mem_map.mp ht
        by_contra hne
        rcases hd.established ha hu (by simpa [Transmission.wire] using hne) with he | he
        · exact hh he
        · exact hr he

/-- The host is established by a delivery only if it sends its response first. -/
theorem Phased.behind_of_host (hp : Phased h p) {o : Owner S V} {τ : Timepoint}
    {t : Transmission S V} (hin : h.inbox .host = t :: rest)
    (hbefore : (h.connection .host).state.established = false)
    (hafter : ((h.connection .host).processReceive o τ t).1.connection.state.established = true) :
    Behind (((h.connection .host).processReceive o τ t).1.sent.map .wire) := by
  by_cases hopen : (h.connection .host).state = .closed
  · rw [Connection.processReceive_closed hopen, hbefore] at hafter
    cases hafter
  by_cases hsys : t.instance_.isSystem = true
  swap
  · rcases Connection.processReceive_instance (o := o) (τ := τ) (c := h.connection .host)
      (Bool.eq_false_iff.mpr hsys) with hk | hc
    · rw [hk.state, hbefore] at hafter
      cases hafter
    · rw [hc.1] at hafter
      cases hafter
  have hhost := hp.host.resolve_left hopen
  have hto := hp.toHost.resolve_left hopen
  rw [hin, system_cons, if_pos hsys, List.singleton_append] at hto
  cases p with
  | connect =>
    obtain ⟨m, hx, hm, hpre⟩ := hto
    obtain ⟨r, hr, -, u, us, m', hsent, hu⟩ | ⟨r, hr, hst, -⟩ | ⟨r, what, hr, hcl⟩ :=
      Connection.processReceive_connect (o := o) (τ := τ) hhost.1 hhost.2 (List.cons.inj hx).1
        hm hpre
    · rw [hr, hsent]
      exact .inl ⟨m', by simp [Transmission.wire, hu, AnyStruct.restrict]⟩
    · rw [hr, hst] at hafter
      cases hafter
    · rw [hr, hcl.1] at hafter
      cases hafter
  | clientFinished | established =>
    rw [hhost.1] at hbefore
    cases hbefore
  | _ => cases hto

/-- A guest that is still starting after a delivery has not taken the response. -/
theorem Phased.behind_of_guest (hp : Phased h p) {o : Owner S V} {τ : Timepoint}
    {t : Transmission S V} (hin : h.inbox .guest = t :: rest) (hb : Behind (h.inbox .guest))
    (hafter : ((h.connection .guest).processReceive o τ t).1.connection.state.rank < 2)
    (hbefore : (h.connection .guest).state.rank < 2) : Behind rest := by
  rw [hin] at hb
  refine (hb.resolve_left ?_).2
  rintro ⟨m, ht⟩
  have hopen : (h.connection .guest).state ≠ .closed := fun hc => by
    rw [hc] at hbefore
    exact absurd hbefore (by decide)
  have hguest := hp.guest.resolve_left hopen
  have hto := hp.toGuest.resolve_left hopen
  rw [hin, system_cons, if_pos (by rw [ht]; rfl), List.singleton_append, ht] at hto
  cases p with
  | response =>
    obtain ⟨m', hx, hm, hpre⟩ := hto
    rw [← ht] at hx
    obtain ⟨r, hr, ha⟩ := Connection.processReceive_response (o := o) (τ := τ) hopen hguest.2
      (List.cons.inj hx).1 hm hpre
    rw [hr, ha.state] at hafter
    exact absurd hafter (by decide)
  | hello =>
    obtain ⟨m', hx, -⟩ := hto
    cases hx
  | unstarted | connect => cases hto
  | _ =>
    rw [hguest.1] at hbefore
    exact absurd hbefore (by decide)

end Ordered

/-- A turn of either side that the state does not matter for. -/
theorem Ordered.take_quiet {h : Handshake S V} {p q : Phase} {r : Turn S V} {side : Side}
    (ho : Ordered h) (hp : Phased h p) (hq : Phased (h.take side r) q)
    (hd : r.Decent (h.connection side)) (ha : r.Advances (h.connection side))
    (hquiet : r.connection.state.established = true →
      (h.connection side).state.established = true) : Ordered (h.take side r) := by
  rw [← h.setInbox_self side] at hq ⊢
  cases side with
  | host =>
    refine ho.take_host hp (fun _ => id) hd ha fun hbefore hafter => ?_
    rw [hquiet hafter] at hbefore
    cases hbefore
  | guest =>
    exact ho.take_guest hp hq (fun _ => id) hd ha fun hlt =>
      ho.guest (lt_of_le_of_lt ha.rank_le hlt)

theorem Ordered.of_deliveries {h : Handshake S V} (ho : Ordered h) (ds : List (Delivery S V)) :
    Ordered { h with deliveries := ds } :=
  ⟨ho.keys, ho.host, ho.guest⟩

/-- The turn of a step of polite owners is decent. -/
theorem Polite.decent_transmit {h : Handshake S V} {side : Side} {t : Transmission S V}
    (hp : Polite h (.transmit side t)) :
    ({ connection := h.connection side, sent := [t] } : Turn S V).Decent (h.connection side) := by
  intro u hu _
  obtain rfl := List.mem_singleton.mp hu
  exact ⟨hp.2, _, List.mem_cons_self, hp.1⟩

/-- **Step lemma.** -/
theorem ordered_step {h h' : Handshake S V} {a : HandshakeAct S V} (hr : Regular h)
    (ho : Ordered h) (hs : h.step a = some h') (hpol : Polite h a) : Ordered h' := by
  obtain ⟨p, hp⟩ := hr.phased
  obtain ⟨q, hq⟩ := (regular_step hr hs).phased
  cases a with
  | start side o name am τ =>
    obtain ⟨r, hr, rfl⟩ := Option.map_eq_some_iff.mp hs
    obtain ⟨ha, hst⟩ := Connection.advances_asyncReceive hr
    exact ho.take_quiet hp hq (Turn.decent_asyncReceive hpol hr) ha fun he => by
      rw [hst] at he
      cases he
  | deliver side o τ =>
    obtain ⟨t, rest, hin, hsus, rfl⟩ := Handshake.deliver_eq_some hs
    obtain ⟨⟨q, hq⟩, ha, -⟩ := hp.deliver o τ hsus hin
    have hrest : ∀ u ∈ rest, u ∈ h.inbox side := fun u hu => hin ▸ List.mem_cons_of_mem _ hu
    refine Ordered.of_deliveries ?_ _
    cases side with
    | host =>
      exact ho.take_host hp hrest (Turn.decent_processReceive hpol t) ha (hp.behind_of_host hin)
    | guest =>
      refine ho.take_guest hp hq hrest (Turn.decent_processReceive hpol t) ha fun hlt => ?_
      have hbefore := lt_of_le_of_lt ha.rank_le hlt
      exact hp.behind_of_guest hin (ho.guest hbefore) hlt hbefore
  | transmit side t =>
    simp only [Handshake.step] at hs
    split_ifs at hs
    obtain rfl := Option.some.inj hs
    exact ho.take_quiet hp hq hpol.decent_transmit (.inl ⟨rfl, rfl⟩) id
  | handleError side o what τ =>
    obtain rfl := Option.some.inj hs
    have hc := Turn.closes_handleError (o := o) (τ := τ)
      (Connection.keeps_refl (S := S) (V := V) (c := h.connection side)) what
    exact ho.take_quiet hp hq (((Turn.Does.refl _).handleError what).decent hpol
      (Turn.decent_nil rfl)) hc.advances fun he => by
        rw [hc.1] at he
        cases he
  | destroy side o τ =>
    obtain rfl := Option.some.inj hs
    rcases Connection.keeps_or_closes_destroy (o := o) (τ := τ) (c := h.connection side) with
      hk | hc
    · exact ho.take_quiet hp hq (Turn.decent_destroy hpol) hk.advances fun he => hk.state ▸ he
    · exact ho.take_quiet hp hq (Turn.decent_destroy hpol) hc.advances fun he => by
        rw [hc.1] at he
        cases he

/-! ## The law of the instances -/

/-- **What holds of the instances of polite owners.** A closed side drops what still arrives;
any other delivery is to an established side, which does not refuse it. -/
def InstanceLaw (h : Handshake S V) : Prop :=
  ∀ d ∈ h.deliveries, d.transmission.instance_.isSystem = false → d.state ≠ .closed →
    d.state.established = true ∧ Accepted d.error

/-- An established connection does not refuse an instance with its keys. -/
theorem Connection.accepted_processReceive {o : Owner S V} {c : Connection} {τ : Timepoint}
    {t : Transmission S V} (hc : c.state.established = true)
    (ht : t.instance_.isSystem = false) (hkey : t.instance_.hasKeyProperties = true) :
    Accepted (c.processReceive o τ t).2 := by
  have hne : c.state ≠ .closed := fun he => by simp [he, DotsConnectionState.established] at hc
  have hr : ({ connection := c } : Turn S V).handleReceive o τ t =
      ({ connection := c } : Turn S V).handleInstance o τ t := by
    unfold Turn.handleReceive
    rw [if_neg hne]
    split
    · rename_i m he
      rw [he] at ht
      cases ht
    · rw [if_neg (by simp [ht])]
  rw [processReceive, hr]
  unfold Turn.handleInstance
  simp only [hc, hkey, Bool.true_eq_false, if_false]
  cases (o.onReceive (c.stamped t τ)).2 with
  | none => exact accepted_none
  | some what => exact accepted_some rfl

structure Civil (h : Handshake S V) : Prop where
  regular : Regular h
  ordered : Ordered h
  instances : InstanceLaw h

theorem civil_step {h h' : Handshake S V} {a : HandshakeAct S V} (hc : Civil h)
    (hs : h.step a = some h') (hpol : Polite h a) : Civil h' := by
  refine ⟨regular_step hc.regular hs, ordered_step hc.regular hc.ordered hs hpol, ?_⟩
  obtain ⟨p, hp⟩ := hc.regular.phased
  cases a with
  | start side o name am τ =>
    obtain ⟨r, -, rfl⟩ := Option.map_eq_some_iff.mp hs
    exact hc.instances
  | deliver side o τ =>
    obtain ⟨t, rest, hin, hsus, rfl⟩ := Handshake.deliver_eq_some hs
    intro d hd
    rcases List.mem_cons.mp hd with rfl | hd
    swap
    · exact hc.instances d hd
    intro hsys hopen
    have ht : t ∈ h.inbox side := hin ▸ List.mem_cons_self
    have hest : (h.connection side).state.established = true := by
      refine (DotsConnectionState.two_le_rank.mp ?_).resolve_right hopen
      cases side with
      | host => exact hc.ordered.host ⟨t, ht, hsys⟩
      | guest =>
        by_contra hlt
        have hb := hc.ordered.guest (not_le.mp hlt)
        rw [hin] at hb
        rcases hb with ⟨m, hm⟩ | ⟨hb, -⟩
        · simp [hm, AnyStruct.isSystem] at hsys
        · exact Bool.noConfusion (hb.symm.trans hsys)
    exact ⟨hest, Connection.accepted_processReceive hest hsys (hc.ordered.keys side t ht hsys)⟩
  | transmit side t =>
    simp only [Handshake.step] at hs
    split_ifs at hs
    obtain rfl := Option.some.inj hs
    exact hc.instances
  | handleError side o what τ =>
    obtain rfl := Option.some.inj hs
    exact hc.instances
  | destroy side o τ =>
    obtain rfl := Option.some.inj hs
    exact hc.instances

theorem civil_init (peerId : ConnectionId) (credentials : Credentials)
    (names : String → PropertySet → List String) :
    Civil (Handshake.init peerId credentials names : Handshake S V) where
  regular := regular_init peerId credentials names
  ordered := ⟨fun _ _ ht => absurd ht List.not_mem_nil,
    fun ⟨_, ht, _⟩ => absurd ht List.not_mem_nil, fun _ => trivial⟩
  instances _ hd := absurd hd List.not_mem_nil

/-- **The handshake is safe** in every run; in the runs of polite owners every instance reaches a
side that takes it, or a closed one. -/
theorem handshake_of_run (peerId : ConnectionId) (credentials : Credentials)
    (names : String → PropertySet → List String) (acts : List (HandshakeAct S V))
    (h : Handshake S V) :
    (Lts.Run (Lts.ofPartial Handshake.step) (.init peerId credentials names) acts h → Lawful h) ∧
    (Lts.Run (Lts.Guarded (Lts.ofPartial Handshake.step) Polite)
      (.init peerId credentials names) acts h → InstanceLaw h) := by
  constructor
  · intro hrun
    have hr : Regular h := hrun.invariant (fun _ _ _ hi hs => regular_step hi hs)
      (regular_init peerId credentials names)
    exact hr.lawful
  · intro hrun
    have hc : Civil h := hrun.invariant (I := Civil) (fun _ _ _ hi hs => civil_step hi hs.1 hs.2)
      (civil_init peerId credentials names)
    exact hc.instances

theorem Owner.silent_polite : (Owner.silent : Owner S V).Polite where
  silent _ _ := rfl
  onTransition_keys _ _ h := absurd h List.not_mem_nil
  onReceive_keys _ _ h := absurd h List.not_mem_nil

/-- The request of a guest to join a group. -/
def joinTransmission : Transmission testSchema ℕ :=
  .ofInstance (.member { groupName := some "DotsTestStruct", event := some .join }) {1, 2} 0 false

/-- A guest without a secret. -/
def noCredentials : Credentials := ⟨none, "", fun _ _ _ _ => ""⟩

def testHandshake : Handshake testSchema ℕ := .init 2 noCredentials fun _ _ => []

/-- Both sides start and deliver until the guest has the response. -/
def welcome : List (HandshakeAct testSchema ℕ) :=
  [.start .host .silent "dotsd" none 0, .start .guest .silent "guest" none 0,
    .deliver .guest .silent 0, .deliver .host .silent 0, .deliver .guest .silent 0]

/-- A guest that joins a group during the preload phase. -/
def preload : List (HandshakeAct testSchema ℕ) :=
  welcome ++ [.transmit .guest joinTransmission, .deliver .host .silent 0, .deliver .host .silent 0,
    .deliver .guest .silent 0]

theorem handshake_of_run_preload :
    ∃ h, Lts.exec Handshake.step testHandshake preload = some h ∧ Lawful h ∧ InstanceLaw h := by
  refine ⟨_, rfl, (handshake_of_run 2 noCredentials (fun _ _ => []) preload _).1 ?_,
    (handshake_of_run 2 noCredentials (fun _ _ => []) preload _).2 ?_⟩
  · exact Lts.run_of_exec rfl
  · have ho : (Owner.silent : Owner testSchema ℕ).Polite := Owner.silent_polite
    exact .cons ⟨rfl, ho⟩ (.cons ⟨rfl, ho⟩ (.cons ⟨rfl, ho⟩ (.cons ⟨rfl, ho⟩ (.cons ⟨rfl, ho⟩
      (.cons ⟨rfl, rfl, rfl⟩ (.cons ⟨rfl, ho⟩ (.cons ⟨rfl, ho⟩ (.cons ⟨rfl, ho⟩ (.nil _)))))))))

/-- The type, the state it met and the error of each delivery. -/
def Handshake.summary (h : Handshake testSchema ℕ) :
    List (String × DotsConnectionState × Option ConnectionError) :=
  h.deliveries.map fun d => (d.transmission.instance_.typeName, d.state, d.error)

/-- A `DotsTestStruct` without its key. -/
def keylessTransmission : Transmission testSchema ℕ where
  header := { typeName := "DotsTestStruct", attributes := {9}, sender := some 1, removeObj := some false }
  instance_ := .struct "DotsTestStruct"
    { value := fun t => if t = 9 then some 3 else none
      value_eq_none := fun t ht => if_neg fun h => ht (by rw [h]; decide) }
  typed := rfl

/-- **Instances outside the established states**: one that was on its way when the host closed is
dropped, and one that a guest transmits before it is established is refused. **An instance without
its key** is refused by a connected host. -/
theorem instance_outside :
    (∃ h, Lts.exec Handshake.step testHandshake
        (welcome ++ [.destroy .host .silent 0, .transmit .guest joinTransmission,
          .deliver .host .silent 0, .deliver .host .silent 0]) = some h ∧
      h.summary.head? = some ("DotsMember", .closed, none)) ∧
    (∃ h, Lts.exec Handshake.step testHandshake
        [.start .host .silent "dotsd" none 0, .start .guest .silent "guest" none 0,
          .transmit .guest joinTransmission, .deliver .host .silent 0] = some h ∧
      h.summary.head? =
        some ("DotsMember", .connecting, some (.notEstablished "DotsMember" .connecting))) ∧
    ∃ h, Lts.exec Handshake.step testHandshake (welcome ++ [.transmit .guest keylessTransmission,
        .deliver .host .silent 0, .deliver .host .silent 0]) = some h ∧
      h.summary.head? =
        some ("DotsTestStruct", .connected, some (.missingProperties "DotsTestStruct" {2})) := by
  have hkeyless : (Lts.exec Handshake.step testHandshake (welcome ++
      [.transmit .guest keylessTransmission, .deliver .host .silent 0, .deliver .host .silent 0])).map
        (fun h => h.summary.head?) =
      some (some ("DotsTestStruct", .connected,
        some (.missingProperties "DotsTestStruct" {2}))) := by
    decide +kernel
  exact ⟨⟨_, rfl, rfl⟩, ⟨_, rfl, rfl⟩, Option.map_eq_some_iff.mp hkeyless⟩

end Dots

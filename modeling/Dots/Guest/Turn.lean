import Dots.Guest.Model
import Dots.Host.Sync

/-!
# What a call does to a guest

* `finish_guest`: what the transitions of a turn do.
* **`Local`**: a call of the application leaves the containers alone. `local_publish`, ….
* **`receive_view`**: a transmission that arrives does to the containers what it stands for.
* `Announces`: the member messages of a turn are about the groups that it adds and takes away.
-/

set_option autoImplicit false
set_option linter.unusedSectionVars false

namespace Dots

open Replica

variable {S : Schema} {V : Type} [Ord V] [Std.TransOrd V] [Std.LawfulEqOrd V]

namespace GuestTransceiver

variable {g : GuestTransceiver S V} {τ : Timepoint} {n : String}

/-! ## Turns -/

theorem foldl_handleTransition (ss : List DotsConnectionState) (g : GuestTransceiver S V) :
    (ss.foldl handleTransition g).pool = g.pool ∧
      (ss.foldl handleTransition g).hostConnection =
        (if .closed ∈ ss then none else g.hostConnection) ∧
      (ss.foldl handleTransition g).joinedGroups =
        (if .earlySubscribe ∈ ss then
          g.joinedGroups ∪ (g.preloadSubscribeTypes.map Prod.fst).toFinset
        else g.joinedGroups) := by
  induction ss generalizing g with
  | nil => exact ⟨rfl, rfl, rfl⟩
  | cons s ss ih =>
    obtain ⟨hp, hc, hj⟩ := ih (g.handleTransition s)
    rw [List.foldl_cons, hp, hc, hj]
    cases s <;> simp [handleTransition]

theorem finish_guest (g : GuestTransceiver S V) (r : Turn S V) :
    (g.finish r).guest.pool = g.pool ∧
      (g.finish r).guest.hostConnection =
        (if .closed ∈ r.transitions then none else some r.connection) ∧
      (g.finish r).guest.joinedGroups =
        (if .earlySubscribe ∈ r.transitions then
          g.joinedGroups ∪ (g.preloadSubscribeTypes.map Prod.fst).toFinset
        else g.joinedGroups) :=
  foldl_handleTransition r.transitions { g with hostConnection := some r.connection }

theorem finish_sent (g : GuestTransceiver S V) (r : Turn S V) :
    ∀ t ∈ (g.finish r).sent, t.wire = t := by
  intro t ht
  obtain ⟨u, -, rfl⟩ := List.mem_map.mp ht
  exact Transmission.wire_wire u

/-- The channel fails: the connection is gone. -/
theorem channelError_guest (what : String) :
    (g.channelError τ what).guest.pool = g.pool ∧
      (g.channelError τ what).guest.hostConnection = none ∧
      (g.channelError τ what).guest.joinedGroups = g.joinedGroups := by
  unfold channelError
  split
  · rename_i hc
    exact ⟨rfl, hc, rfl⟩
  · rename_i c hc
    obtain ⟨-, htr, -⟩ := Turn.closes_handleError (o := g.owner τ) (τ := τ)
      (Connection.keeps_refl (c := c)) what
    have hf := finish_guest g (Turn.handleError (g.owner τ) { connection := c } τ what)
    rw [htr] at hf
    exact hf

/-- A guest without a connection opens one. -/
theorem open_guest (hnone : g.hostConnection = none) (pp ps : DescriptorMap) :
    ∃ c, (g.open_ τ pp ps).guest =
        { g with hostConnection := some c, preloadPublishTypes := pp, preloadSubscribeTypes := ps } ∧
      c.state = .connecting ∧ c.expected = expectSystemType .handleHello ∧
      c.selfId = uninitializedId ∧ (g.open_ τ pp ps).sent = [] := by
  obtain ⟨r, hr, hst, hex, htr, -⟩ := Connection.asyncReceive_guest
    (o := owner { g with preloadPublishTypes := pp, preloadSubscribeTypes := ps } τ) (τ := τ)
    (c := .guest g.credentials g.names) (u := g.selfName) (a := none) rfl
    (by simp [Connection.guest, hostId, uninitializedId])
  have hself := (HostTransceiver.asyncReceive_ids hr).1
  have hsent : r.sent = [] := by
    simp only [Connection.asyncReceive] at hr
    rw [if_neg (by simp [Connection.guest]),
      if_neg (by simp [Connection.guest, hostId, uninitializedId])] at hr
    obtain rfl := Option.some.inj hr
    rfl
  have hopen : g.open_ τ pp ps =
      finish { g with preloadPublishTypes := pp, preloadSubscribeTypes := ps } r := by
    simp only [open_, hnone]
    rw [hnone] at hr
    simp only [hr]
  rw [hopen]
  refine ⟨r.connection, ?_, hst, hex, hself, ?_⟩
  · simp only [finish, htr]
    rfl
  · simp only [finish, hsent]
    rfl

/-! ## Calls of the application -/

/-- A call leaves the containers alone; without a connection nothing is sent. -/
structure Local (g : GuestTransceiver S V) (r : GuestTurn S V) : Prop where
  pool : r.guest.pool = g.pool
  wire : ∀ t ∈ r.sent, t.wire = t
  hostConnection : r.guest.hostConnection = g.hostConnection ∨ r.guest.hostConnection = none
  closed : g.hostConnection = none → r.sent = [] ∧ r.guest.joinedGroups = g.joinedGroups

theorem local_channelError (what : String) : Local g (g.channelError τ what) := by
  obtain ⟨hp, hc, hj⟩ := channelError_guest (g := g) (τ := τ) what
  refine ⟨hp, ?_, .inr hc, fun hnone => ⟨?_, hj⟩⟩
  · unfold channelError
    split
    · simp
    · exact finish_sent g _
  · simp [channelError, hnone]

theorem local_transmit (t : Transmission S V) (failure : Option String) :
    Local g (g.transmit τ t failure) := by
  unfold transmit
  split
  · exact ⟨rfl, by simp, .inl rfl, fun _ => ⟨rfl, rfl⟩⟩
  · rename_i c hc
    exact ⟨rfl, by simp, .inl rfl, fun hnone => by rw [hnone] at hc; cases hc⟩
  · exact local_channelError _

/-- A guest without a connection throws. -/
theorem error_transmit (hnone : g.hostConnection = none) (t : Transmission S V)
    (failure : Option String) :
    (g.transmit τ t failure).error = some "attempt to publish on closed connection" := by
  simp only [transmit, hnone]

theorem local_joinGroup (name : String) (failure : Option String) :
    Local g (g.joinGroup τ name failure) := by
  have hl := local_transmit (g := g) (τ := τ) (memberTransmission name .join τ) failure
  simp only [joinGroup, publishMember]
  split_ifs
  · exact ⟨rfl, by simp, .inl rfl, fun _ => ⟨rfl, rfl⟩⟩
  · split
    · exact hl
    · rename_i he
      refine ⟨hl.pool, hl.wire, hl.hostConnection, fun hnone => ?_⟩
      rw [error_transmit hnone] at he
      cases he

theorem local_leaveGroup (name : String) (failure : Option String) :
    Local g (g.leaveGroup τ name failure) := by
  have hl := local_transmit (g := g) (τ := τ) (memberTransmission name .leave τ) failure
  simp only [leaveGroup, publishMember]
  split_ifs
  · split
    · exact hl
    · rename_i he
      refine ⟨hl.pool, hl.wire, hl.hostConnection, fun hnone => ?_⟩
      rw [error_transmit hnone] at he
      cases he
  · exact ⟨rfl, by simp, .inl rfl, fun _ => ⟨rfl, rfl⟩⟩

/-! ## A transmission arrives -/

/-- The guest's side of a connection is open and not that of a host. -/
def Live (g : GuestTransceiver S V) : Prop :=
  ∀ c, g.hostConnection = some c → c.state ≠ .closed ∧ c.selfId ≠ hostId

theorem operations_stamped {c : Connection} {t : Transmission S V} (hself : c.selfId ≠ hostId)
    (hm : t.Marked) (hn : (S.descriptor n).cached = true) :
    operations n [c.stamped t τ] = operations n [t] := by
  by_cases ht : t.instance_.typeName = n
  swap
  · simp [operations, operation_of_ne ht, operation_of_ne (t := c.stamped t τ) ht]
  have hc : t.instance_.cached = true := by rw [AnyStruct.cached_eq, ht, hn]
  obtain ⟨m, x, hx, -⟩ := ContainerPool.exists_struct_of_cached hc
  obtain rfl : m = n := by rwa [hx] at ht
  obtain ⟨hsender, htime⟩ := hm.stamped hc
  obtain ⟨sender, hsender⟩ := Option.isSome_iff_exists.mp hsender
  obtain ⟨sentTime, htime⟩ := Option.isSome_iff_exists.mp htime
  rw [operations_singleton hx, operations_singleton (t := c.stamped t τ) hx]
  simp [structOp, storedView, Connection.stamped, Connection.stamp, hself, hsender, htime]

/-- **A transmission arrives** at a guest: if its connection stays open, it does to the containers
what it stands for. -/
theorem receive_view (hside : g.Live) {t : Transmission S V} (hm : t.Marked) {c : Connection}
    (hc : g.hostConnection = some c) (hn : (S.descriptor n).cached = true)
    (hopen : (g.receive τ t).guest.hostConnection ≠ none) :
    ((g.receive τ t).guest.pool n).view = drain (g.pool n).view (operations n [t]) := by
  obtain ⟨hst, hself⟩ := hside c hc
  simp only [receive, hc] at hopen ⊢
  obtain ⟨hpool, hconn, -⟩ := finish_guest
    ((c.processReceive (g.owner τ) τ t).1.received.foldl (fun g t => g.handleTransmission τ t)
      g) (c.processReceive (g.owner τ) τ t).1
  rw [hconn] at hopen
  rw [hpool]
  have hncl : .closed ∉ (c.processReceive (g.owner τ) τ t).1.transitions := fun h =>
    hopen (if_pos h)
  have hstate : (c.processReceive (g.owner τ) τ t).1.connection.state ≠ .closed := fun h =>
    (Connection.closed_processReceive h).elim hncl hst
  by_cases hsys : t.instance_.isSystem = true
  · have hops : operations n [t] = [] := by simp [operations, operation_of_isSystem hsys]
    rw [(Turn.does_of_isSystem hsys).received, hops]
    rfl
  · cases hrec : (c.processReceive (g.owner τ) τ t).1.received with
    | nil => exact absurd (Connection.closed_of_not_received (by simpa using hsys) hrec) hstate
    | cons u us =>
      have hone : us = [] ∧ u = c.stamped t τ := by
        rcases Connection.received_eq (o := g.owner τ) (c := c) (τ := τ) (t := t) with h | ⟨-, h⟩
        · rw [hrec] at h
          cases h
        · rw [hrec] at h
          obtain ⟨h1, h2⟩ := List.cons.inj h
          exact ⟨h2, h1⟩
      obtain ⟨rfl, rfl⟩ := hone
      simp only [List.foldl_cons, List.foldl_nil, handleTransmission]
      rw [view_dispatchEvent hn, operations_stamped hself hm hn]

theorem live_receive (hside : g.Live) {t : Transmission S V} (hm : t.Marked) :
    (g.receive τ t).guest.Live := by
  intro c' hc'
  cases hc : g.hostConnection with
  | none =>
    simp only [receive, hc] at hc'
    cases hc'
  | some c =>
    obtain ⟨hst, hself⟩ := hside c hc
    simp only [receive, hc] at hc'
    obtain ⟨-, hconn, -⟩ := finish_guest
      ((c.processReceive (g.owner τ) τ t).1.received.foldl
        (fun g t => g.handleTransmission τ t) g) (c.processReceive (g.owner τ) τ t).1
    rw [hconn] at hc'
    split_ifs at hc' with hcl
    obtain rfl := Option.some.inj hc'
    refine ⟨fun h => (Connection.closed_processReceive h).elim hcl hst, ?_⟩
    rcases Connection.selfId_processReceive (g.owner τ) c τ t with h | ⟨m, hm', h⟩
    · rw [h]
      exact hself
    · rw [h]
      have hne := hm.names m hm'
      cases hid : m.clientId with
      | none => decide
      | some k =>
        rw [hid] at hne
        exact fun he => hne (congrArg some he)

/-! ## Member messages -/

/-- The membership in a group after the member messages of a channel. -/
def memberAfter (n : String) (ts : List (Transmission S V)) (b : Bool) : Bool :=
  ts.foldl (fun b t =>
    match t.memberEvent n with
    | some .join => true
    | some .leave => false
    | _ => b) b

theorem memberAfter_append (n : String) (ts us : List (Transmission S V)) (b : Bool) :
    memberAfter n (ts ++ us) b = memberAfter n us (memberAfter n ts b) := List.foldl_append ..

theorem memberAfter_joins {ts : List (Transmission S V)} {b : Bool}
    (h : ∀ t ∈ ts, t.memberEvent n = none ∨ t.memberEvent n = some .join) :
    memberAfter n ts b = true ↔ b = true ∨ ∃ t ∈ ts, t.memberEvent n = some .join := by
  induction ts generalizing b with
  | nil => simp [memberAfter]
  | cons t ts ih =>
    have hrest := ih (b := memberAfter n [t] b) fun u hu => h u (List.mem_cons_of_mem _ hu)
    change memberAfter n ts (memberAfter n [t] b) = true ↔ _
    rw [hrest]
    rcases h t List.mem_cons_self with ht | ht <;> simp [memberAfter, ht]

theorem memberEvent_wire (t : Transmission S V) : t.wire.memberEvent n = t.memberEvent n := by
  have hi : t.wire.instance_ = t.instance_.restrict t.header.attributes := rfl
  unfold Transmission.memberEvent
  rw [hi]
  cases t.instance_ <;> rfl

theorem memberEvent_of_isSystem {t : Transmission S V} (h : t.instance_.isSystem = true) :
    t.memberEvent n = none := by
  unfold Transmission.memberEvent
  split
  · rename_i m hm
    rw [hm] at h
    cases h
  · rfl

theorem memberEvent_memberTransmission (name : String) (ev : DotsMemberEvent) :
    (memberTransmission name ev τ : Transmission S V).memberEvent n =
      if n = name then some ev else none := by
  simp [Transmission.memberEvent, memberTransmission, Transmission.ofInstance, eq_comm]

/-- What a guest transmits when its connection becomes `early_subscribe`: a join for each preload
subscription of a group that it has not joined. -/
theorem memberEvent_onTransition (ss : List DotsConnectionState) :
    (∀ t ∈ ss.flatMap (g.onTransition τ),
        t.memberEvent n = none ∨ t.memberEvent n = some .join) ∧
      ((∃ t ∈ ss.flatMap (g.onTransition τ), t.memberEvent n = some .join) ↔
        .earlySubscribe ∈ ss ∧ n ∈ (g.preloadSubscribeTypes.map Prod.fst).toFinset ∧
          n ∉ g.joinedGroups) := by
  have hsub (e : String × StructDescriptorData) (t : Transmission S V)
      (ht : t ∈ g.preloadSubscribe τ e) :
      t.memberEvent n = none ∨ t.memberEvent n = some .join ∧ e.1 = n ∧ n ∉ g.joinedGroups := by
    rcases List.mem_cons.mp ht with rfl | ht
    · exact .inl rfl
    · split_ifs at ht with hj
      · exact absurd ht List.not_mem_nil
      · obtain rfl := List.mem_singleton.mp ht
        rw [memberEvent_memberTransmission]
        split_ifs with he
        · exact .inr ⟨rfl, he.symm, he ▸ hj⟩
        · exact .inl rfl
  have hcases (t : Transmission S V) (ht : t ∈ ss.flatMap (g.onTransition τ)) :
      t.memberEvent n = none ∨ t.memberEvent n = some .join ∧ .earlySubscribe ∈ ss ∧
        n ∈ (g.preloadSubscribeTypes.map Prod.fst).toFinset ∧ n ∉ g.joinedGroups := by
    obtain ⟨s, hs, ht⟩ := List.mem_flatMap.mp ht
    cases s with
    | earlySubscribe =>
      rcases List.mem_append.mp ht with ht | ht
      · obtain ⟨e, -, rfl⟩ := List.mem_map.mp ht
        exact .inl rfl
      · obtain ⟨e, he, ht⟩ := List.mem_flatMap.mp ht
        refine (hsub e t ht).imp_right fun ⟨hev, hn, hj⟩ => ⟨hev, hs, ?_, hj⟩
        exact List.mem_toFinset.mpr (List.mem_map.mpr ⟨e, he, hn⟩)
    | _ => exact absurd ht List.not_mem_nil
  refine ⟨fun t ht => (hcases t ht).imp_right And.left, fun ⟨t, ht, hev⟩ => ?_,
    fun ⟨hs, hn, hj⟩ => ?_⟩
  · rcases hcases t ht with h | h
    · rw [h] at hev
      cases hev
    · exact h.2
  · obtain ⟨e, he, rfl⟩ := List.mem_map.mp (List.mem_toFinset.mp hn)
    refine ⟨memberTransmission e.1 .join τ, List.mem_flatMap.mpr ⟨_, hs, ?_⟩, ?_⟩
    · refine List.mem_append_right _ (List.mem_flatMap.mpr ⟨e, he, ?_⟩)
      simp [preloadSubscribe, hj]
    · rw [memberEvent_memberTransmission, if_pos rfl]

/-- What is sent when the channel fails. -/
theorem memberEvent_channelError (what : String) :
    ∀ u ∈ (g.channelError τ what).sent, u.memberEvent n = none := by
  unfold channelError
  split
  · exact fun u hu => absurd hu List.not_mem_nil
  · rename_i c hc
    obtain ⟨-, htr, -⟩ := Turn.closes_handleError (o := g.owner τ) (τ := τ)
      (Connection.keeps_refl (c := c)) what
    obtain ⟨ss, hss, hinst⟩ := ((Turn.Does.refl ({ connection := c } : Turn S V)).handleError
      (o := g.owner τ) (τ := τ) what).instances
    rw [htr] at hss
    obtain rfl : ss = [.closed] := by simpa using hss.symm
    intro u hu
    obtain ⟨v, hv, rfl⟩ := List.mem_map.mp hu
    rw [memberEvent_wire]
    by_cases hsys : v.instance_.isSystem = true
    · exact memberEvent_of_isSystem hsys
    · have hmem : v ∈ List.filter (fun u => !u.instance_.isSystem) _ :=
        List.mem_filter.mpr ⟨hv, by simpa using hsys⟩
      rw [hinst] at hmem
      exact absurd hmem (by simp [owner, onTransition])

/-- What an application sends with one call. -/
theorem memberEvent_transmit {t : Transmission S V} (ht : t.memberEvent n ≠ some .leave)
    (failure : Option String) :
    ∀ u ∈ (g.transmit τ t failure).sent, u.memberEvent n ≠ some .leave := by
  unfold transmit
  intro u hu
  split at hu
  · exact absurd hu List.not_mem_nil
  · obtain rfl := List.mem_singleton.mp hu
    rwa [memberEvent_wire]
  · rw [memberEvent_channelError _ u hu]
    simp

theorem memberEvent_joinGroup (name : String) (failure : Option String) :
    ∀ u ∈ (g.joinGroup τ name failure).sent, u.memberEvent n ≠ some .leave := by
  have ht : (memberTransmission name .join τ : Transmission S V).memberEvent n ≠ some .leave := by
    rw [memberEvent_memberTransmission]
    split_ifs <;> simp
  have hsent := memberEvent_transmit (g := g) (τ := τ) ht failure
  unfold joinGroup publishMember
  split_ifs
  · exact fun u hu => absurd hu List.not_mem_nil
  · simp only
    split <;> exact hsent

/-- The member messages of a turn are about the groups that it adds and takes away. -/
def Announces (g : GuestTransceiver S V) (r : GuestTurn S V) : Prop :=
  r.guest.hostConnection ≠ none → ∀ n b, (b = true → n ∈ g.joinedGroups) →
    (memberAfter n r.sent b = true ↔
      n ∈ r.guest.joinedGroups ∧ (n ∈ g.joinedGroups → b = true))

/-- A turn without member messages. -/
theorem announces_of_none {r : GuestTurn S V} (hj : r.guest.joinedGroups = g.joinedGroups)
    (hsent : r.guest.hostConnection ≠ none → ∀ n, ∀ t ∈ r.sent, t.memberEvent n = none) :
    Announces g r := by
  intro hc n b hb
  have hnone := hsent hc n
  rw [memberAfter_joins fun t ht => .inl (hnone t ht), hj]
  constructor
  · rintro (h | ⟨t, ht, hev⟩)
    · exact ⟨hb h, fun _ => h⟩
    · rw [hnone t ht] at hev
      cases hev
  · exact fun ⟨hn, h⟩ => .inl (h hn)

theorem announces_channelError (what : String) : Announces g (g.channelError τ what) :=
  fun hc => absurd (channelError_guest what).2.1 hc

/-- A transmission after which the connection is still there. -/
theorem transmit_spec (t : Transmission S V) (failure : Option String) :
    (g.transmit τ t failure).guest.joinedGroups = g.joinedGroups ∧
      ((g.transmit τ t failure).guest.hostConnection ≠ none →
        g.transmit τ t failure = { guest := g, sent := [t.wire] }) := by
  unfold transmit
  split
  · rename_i hnone
    exact ⟨rfl, fun hc => absurd hnone hc⟩
  · exact ⟨rfl, fun _ => rfl⟩
  · obtain ⟨-, hconn, hj⟩ := channelError_guest (g := g) (τ := τ) _
    exact ⟨hj, fun hc => absurd hconn hc⟩

theorem announces_publish (x : Publish S V) (failure : Option String) :
    Announces g (g.publish τ x failure) := by
  obtain ⟨hj, hsent⟩ := transmit_spec (g := g) (τ := τ) (x.guestTransmission τ) failure
  refine announces_of_none hj fun hc n t ht => ?_
  rw [publish, hsent hc] at ht
  obtain rfl := List.mem_singleton.mp ht
  rw [memberEvent_wire]
  rfl

theorem announces_joinGroup (name : String) (failure : Option String) :
    Announces g (g.joinGroup τ name failure) := by
  obtain ⟨hj, hsent⟩ :=
    transmit_spec (g := g) (τ := τ) (memberTransmission name .join τ) failure
  unfold joinGroup publishMember
  split_ifs with hname
  · exact announces_of_none rfl fun _ n t ht => absurd ht List.not_mem_nil
  · generalize g.transmit τ (memberTransmission name .join τ) failure = r at hj hsent
    intro hc n b hb
    cases he : r.error with
    | some what =>
      simp only [he] at hc
      rw [hsent hc] at he
      cases he
    | none =>
      simp only [he] at hc ⊢
      rw [hsent hc]
      simp only [memberAfter, List.foldl_cons, List.foldl_nil, memberEvent_wire,
        memberEvent_memberTransmission]
      by_cases hn : n = name
      · subst hn
        simp [hname]
      · simp only [hn, if_false, Finset.mem_insert, false_or]
        exact ⟨fun h => ⟨hb h, fun _ => h⟩, fun h => h.2 h.1⟩

theorem announces_leaveGroup (name : String) (failure : Option String) :
    Announces g (g.leaveGroup τ name failure) := by
  obtain ⟨hj, hsent⟩ :=
    transmit_spec (g := g) (τ := τ) (memberTransmission name .leave τ) failure
  unfold leaveGroup publishMember
  split_ifs with hname
  · generalize g.transmit τ (memberTransmission name .leave τ) failure = r at hj hsent
    intro hc n b hb
    cases he : r.error with
    | some what =>
      simp only [he] at hc
      rw [hsent hc] at he
      cases he
    | none =>
      simp only [he] at hc ⊢
      rw [hsent hc]
      simp only [memberAfter, List.foldl_cons, List.foldl_nil, memberEvent_wire,
        memberEvent_memberTransmission]
      by_cases hn : n = name
      · subst hn
        simp
      · simp only [hn, if_false, Finset.mem_erase, ne_eq, not_false_eq_true, true_and]
        exact ⟨fun h => ⟨hb h, fun _ => h⟩, fun h => h.2 h.1⟩
  · exact announces_of_none rfl fun _ n t ht => absurd ht List.not_mem_nil

/-- What a guest sends when a transmission arrives. -/
theorem memberEvent_receive (t : Transmission S V) {c : Connection}
    (hc : g.hostConnection = some c) :
    (∀ u ∈ (g.receive τ t).sent, u.memberEvent n = none ∨ u.memberEvent n = some .join) ∧
      ((∃ u ∈ (g.receive τ t).sent, u.memberEvent n = some .join) ↔
        .earlySubscribe ∈ (c.processReceive (g.owner τ) τ t).1.transitions ∧
          n ∈ (g.preloadSubscribeTypes.map Prod.fst).toFinset ∧ n ∉ g.joinedGroups) := by
  obtain ⟨hall, hex⟩ := memberEvent_onTransition (g := g) (τ := τ) (n := n)
    (c.processReceive (g.owner τ) τ t).1.transitions
  have hinst := Connection.sent_instances (o := g.owner τ) (fun _ => rfl) c τ t
  have hmem (u : Transmission S V) (hu : u ∈ (c.processReceive (g.owner τ) τ t).1.sent) :
      u.memberEvent n = none ∨ u ∈ (c.processReceive (g.owner τ) τ t).1.transitions.flatMap
        (g.onTransition τ) := by
    by_cases hsys : u.instance_.isSystem = true
    · exact .inl (memberEvent_of_isSystem hsys)
    · refine .inr ?_
      change u ∈ (c.processReceive (g.owner τ) τ t).1.transitions.flatMap
        (g.owner τ).onTransition
      rw [← hinst]
      exact List.mem_filter.mpr ⟨hu, by simpa using hsys⟩
  simp only [receive, hc, finish]
  refine ⟨fun u hu => ?_, ⟨fun ⟨u, hu, hev⟩ => ?_, fun h => ?_⟩⟩
  · obtain ⟨v, hv, rfl⟩ := List.mem_map.mp hu
    rw [memberEvent_wire]
    exact (hmem v hv).elim .inl (hall v)
  · obtain ⟨v, hv, rfl⟩ := List.mem_map.mp hu
    rw [memberEvent_wire] at hev
    refine hex.mp ⟨v, (hmem v hv).resolve_left fun h => ?_, hev⟩
    rw [h] at hev
    cases hev
  · obtain ⟨v, hv, hev⟩ := hex.mpr h
    refine ⟨v.wire, List.mem_map_of_mem ?_, by rw [memberEvent_wire, hev]⟩
    change v ∈ (c.processReceive (g.owner τ) τ t).1.transitions.flatMap
      (g.owner τ).onTransition at hv
    rw [← hinst] at hv
    exact (List.mem_filter.mp hv).1

theorem announces_receive (t : Transmission S V) : Announces g (g.receive τ t) := by
  cases hc : g.hostConnection with
  | none =>
    have hr : g.receive τ t = { guest := g } := by simp only [receive, hc]
    rw [hr]
    exact announces_of_none rfl fun _ n t ht => absurd ht List.not_mem_nil
  | some c =>
    intro _ n b hb
    obtain ⟨hall, hex⟩ := memberEvent_receive (g := g) (τ := τ) (n := n) t hc
    rw [memberAfter_joins hall, hex]
    have hj : (g.receive τ t).guest.joinedGroups =
        if .earlySubscribe ∈ (c.processReceive (g.owner τ) τ t).1.transitions then
          g.joinedGroups ∪ (g.preloadSubscribeTypes.map Prod.fst).toFinset else g.joinedGroups := by
      simp only [receive, hc]
      rw [(finish_guest _ _).2.2]
      rcases Connection.received_eq (o := g.owner τ) (c := c) (τ := τ) (t := t) with
        h | ⟨-, h⟩ <;> rw [h] <;> rfl
    rw [hj]
    by_cases hold : n ∈ g.joinedGroups
    · split_ifs <;> simp [hold]
    · have hb' : b = false := by simpa using fun h => hold (hb h)
      split_ifs with hs <;> simp [hold, hb', hs]

end GuestTransceiver

end Dots

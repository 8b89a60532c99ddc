import Dots.Host.Replay
import Dots.Lib.Run

/-!
# The order of dispatches and transmits

The handlers of a host may publish while a transmission is dispatched. A nested publish is
dispatched and transmitted as a whole before the enclosing dispatch goes on, and the enclosing
transmission is transmitted after all its handlers. Transmission handlers run before the container
is updated and event handlers after, so only the publishes of event handlers overtake.

* `PublishCall`: a publish with the publishes of the handlers it runs, to any depth.
* `Journal`: a host with the transmissions it has applied to its containers, in order.
* `Silent`, `Orderly`: no publish of a type at all, and none in an event handler for that type.
* `Untouched`, **`InOrder`**: what silent and orderly calls do. **`inOrder_run`**.
* **`order_of_run`**: members are sent what has been applied, in the same order.
-/

set_option autoImplicit false
set_option linter.unusedSectionVars false

namespace Dots

open Replica

variable {S : Schema} {V : Type} [Ord V] [Std.TransOrd V] [Std.LawfulEqOrd V]

/-! ## Calls -/

variable (S V) in
/-- `HostTransceiver::publish` with what the handlers publish that it runs: the transmission
handlers, and the event handlers if there is an event. -/
inductive PublishCall
  | publish (p : Publish S V) (now : Timepoint) (onTransmission onEvent : List PublishCall)

variable (S V) in
/-- A transmission that has been applied, and whether its key was in the container. -/
structure Applied where
  transmission : Transmission S V
  existed : Bool

variable (S V) in
/-- A host and what it has applied to the containers of its cached types, the oldest first. -/
structure Journal where
  host : HostTransceiver S V
  applied : List (Applied S V) := []

namespace Journal

variable (j : Journal S V)

/-- Whether the instance of a transmission is in its container. -/
def exists_ (t : Transmission S V) : Bool :=
  match t.instance_ with
  | .struct n x => ((j.host.pool n).lookup x.key).isSome
  | _ => false

/-- The container operation of a dispatch. -/
def dispatchEvent (t : Transmission S V) (now : Timepoint) : Journal S V where
  host := (j.host.dispatch now t).1
  applied := if t.instance_.cached then j.applied ++ [⟨t, j.exists_ t⟩] else j.applied

def transmit (t : Transmission S V) : Journal S V := { j with host := j.host.transmit t }

end Journal

mutual

/-- `HostTransceiver::publish`: `dispatcher().dispatch(transmission); transmit(transmission);`.
What a handler throws goes to the error handler of the dispatcher. -/
def runCall : PublishCall S V → Journal S V → Journal S V
  | .publish p now onTransmission onEvent, j =>
    let j := runCalls onTransmission j
    match (j.host.pool.dispatchEvent (p.hostTransmission now) now).2 with
    | .threw _ => j
    | .none => (j.dispatchEvent (p.hostTransmission now) now).transmit (p.hostTransmission now)
    | .event _ =>
      (runCalls onEvent (j.dispatchEvent (p.hostTransmission now) now)).transmit
        (p.hostTransmission now)

def runCalls : List (PublishCall S V) → Journal S V → Journal S V
  | [], j => j
  | c :: cs, j => runCalls cs (runCall c j)

end

/-- `dispatcher().dispatch(transmission); transmit(transmission);` of any transmission. -/
def Journal.dispatchAndTransmit (j : Journal S V) (t : Transmission S V) (now : Timepoint)
    (onTransmission onEvent : List (PublishCall S V)) : Journal S V :=
  let j := runCalls onTransmission j
  match (j.host.pool.dispatchEvent t now).2 with
  | .threw _ => j
  | .none => (j.dispatchEvent t now).transmit t
  | .event _ => (runCalls onEvent (j.dispatchEvent t now)).transmit t

theorem runCall_publish (p : Publish S V) (τ : Timepoint)
    (onTransmission onEvent : List (PublishCall S V)) (j : Journal S V) :
    runCall (.publish p τ onTransmission onEvent) j =
      j.dispatchAndTransmit (p.hostTransmission τ) τ onTransmission onEvent := by
  rw [runCall, Journal.dispatchAndTransmit]

variable (S V) in
/-- What happens to a host between two returns to its event loop. The removes of a connection that
has closed, or of a `DotsClearCache`, are publishes of their own. -/
inductive OrderAct
  | publish (c : PublishCall S V)
  /-- The transmission `t` of a guest arrives. -/
  | receive (id : ConnectionId) (t : Transmission S V) (now : Timepoint)
      (onTransmission onEvent : List (PublishCall S V))
  | member (id : ConnectionId) (m : DotsMember) (now : Timepoint)
  | close (id : ConnectionId)

/-- The transmission that arrives of what a guest has sent, as the connection hands it on, if it
is an instance with its keys. -/
def Journal.arrived (j : Journal S V) (id : ConnectionId) (t : Transmission S V)
    (now : Timepoint) : Option (Transmission S V) :=
  match j.host.guestConnections id, t.instance_ with
  | some g, .struct _ _ =>
    if t.wire.instance_.hasKeyProperties then some (g.connection.stamped t.wire now) else none
  | _, _ => none

def Journal.step (j : Journal S V) : OrderAct S V → Journal S V
  | .publish c => runCall c j
  | .receive id t now onTransmission onEvent =>
    match j.arrived id t now with
    | some t => j.dispatchAndTransmit t now onTransmission onEvent
    | none => j
  | .member id m now => { j with host := (j.host.handleMemberMessage id now m).1 }
  | .close id =>
    { j with
      host :=
        { j.host with
          groups := fun n => (j.host.groups n).erase id
          guestConnections := Function.update j.host.guestConnections id none } }

/-! ## The condition -/

/-- No publish of the type `n`. -/
inductive Silent (n : String) : PublishCall S V → Prop
  | publish {p : Publish S V} {now : Timepoint} {onTransmission onEvent : List (PublishCall S V)}
      (hp : p.typeName ≠ n) (ht : ∀ c ∈ onTransmission, Silent n c)
      (he : ∀ c ∈ onEvent, Silent n c) : Silent n (.publish p now onTransmission onEvent)

/-- No event handler for the type `n` publishes `n`, itself or through other handlers. -/
inductive Orderly (n : String) : PublishCall S V → Prop
  | publish {p : Publish S V} {now : Timepoint} {onTransmission onEvent : List (PublishCall S V)}
      (hp : p.typeName = n → ∀ c ∈ onEvent, Silent n c) (ht : ∀ c ∈ onTransmission, Orderly n c)
      (he : ∀ c ∈ onEvent, Orderly n c) : Orderly n (.publish p now onTransmission onEvent)

/-- The condition on a step, and that `c` does not leave the group. -/
def OrderAct.Ok (n : String) (c : ConnectionId) : OrderAct S V → Prop
  | .publish call => Orderly n call
  | .receive _ t _ onTransmission onEvent =>
    (t.instance_.typeName = n → ∀ c ∈ onEvent, Silent n c) ∧
      (∀ c ∈ onTransmission, Orderly n c) ∧ ∀ c ∈ onEvent, Orderly n c
  | .member id m _ => id = c → m.groupName = some n → m.event ≠ some .leave
  | .close id => id ≠ c

/-- A new instance is sent with all its valid properties. -/
def Applied.Covered (a : Applied S V) : Prop :=
  a.transmission.header.removeObj = some true ∨ a.existed = true ∨
    a.transmission.instance_.validProperties ⊆ a.transmission.header.attributes

/-! ## What calls do -/

/-- What is sent is what has been applied, in the same order; between that there are replays of
the cache. -/
inductive Woven : List (Transmission S V) → List (Transmission S V) → Prop
  | nil : Woven [] []
  | applied {as ts : List (Transmission S V)} (t : Transmission S V) (h : Woven as ts) :
      Woven (t :: as) (t.wire :: ts)
  | replay {as ts : List (Transmission S V)} {t : Transmission S V}
      (ht : t.header.fromCache.isSome = true) (h : Woven as ts) : Woven as (t :: ts)

theorem Woven.append {as as' ts ts' : List (Transmission S V)} (h : Woven as ts)
    (h' : Woven as' ts') : Woven (as ++ as') (ts ++ ts') := by
  induction h with
  | nil => exact h'
  | applied t _ ih => exact .applied t ih
  | replay ht _ ih => exact .replay ht ih

theorem Woven.of_replays {ts : List (Transmission S V)}
    (h : ∀ t ∈ ts, t.header.fromCache.isSome = true) : Woven [] ts := by
  induction ts with
  | nil => exact .nil
  | cons t ts ih =>
    exact .replay (h t List.mem_cons_self) (ih fun u hu => h u (List.mem_cons_of_mem _ hu))

namespace Journal

/-- An open member of a group. -/
def Member (j : Journal S V) (n : String) (c : ConnectionId) : Prop :=
  c ∈ j.host.groups n ∧ j.host.isOpen c = true

/-- `c` stays a member, and what is applied and what it is sent grow by `as` and `ts`. -/
structure Grows (n : String) (c : ConnectionId) (j j' : Journal S V) (as : List (Applied S V))
    (ts : List (Transmission S V)) : Prop where
  member : j'.Member n c
  applied : j'.applied = j.applied ++ as
  outbox : j'.host.outbox c = j.host.outbox c ++ ts

/-- The type `n` is not touched. -/
def Untouched (n : String) (c : ConnectionId) (j j' : Journal S V) : Prop :=
  j.Member n c → ∃ as ts, Grows n c j j' as ts ∧
    ofType n (as.map Applied.transmission) = [] ∧ ofType n ts = [] ∧
    (j'.host.pool n).view = (j.host.pool n).view

/-- **What is sent of the type `n` is what is applied of it**, in the same order, and a replica
keeps up with it. -/
def InOrder (n : String) (c : ConnectionId) (j j' : Journal S V) : Prop :=
  j.Member n c → ∃ as ts, Grows n c j j' as ts ∧
    Woven (ofType n (as.map Applied.transmission)) (ofType n ts) ∧
    ((∀ a ∈ as, a.transmission.instance_.typeName = n → a.Covered) →
      drain (j.host.pool n).view (operations n ts) = (j'.host.pool n).view)

variable {n : String} {c : ConnectionId} {j j' j'' : Journal S V}

theorem Grows.trans {as as' : List (Applied S V)} {ts ts' : List (Transmission S V)}
    (h : Grows n c j j' as ts) (h' : Grows n c j' j'' as' ts') :
    Grows n c j j'' (as ++ as') (ts ++ ts') :=
  ⟨h'.member, by rw [h'.applied, h.applied, List.append_assoc],
    by rw [h'.outbox, h.outbox, List.append_assoc]⟩

theorem Untouched.refl (j : Journal S V) : Untouched n c j j := fun hm =>
  ⟨[], [], ⟨hm, by simp, by simp⟩, rfl, rfl, rfl⟩

theorem Untouched.trans (h : Untouched n c j j') (h' : Untouched n c j' j'') :
    Untouched n c j j'' := fun hm => by
  obtain ⟨as, ts, hg, ha, ht, hv⟩ := h hm
  obtain ⟨as', ts', hg', ha', ht', hv'⟩ := h' hg.member
  refine ⟨_, _, hg.trans hg', ?_, ?_, hv'.trans hv⟩
  · rw [List.map_append, ofType_append, ha, ha']
    rfl
  · rw [ofType_append, ht, ht']
    rfl

theorem Untouched.inOrder (h : Untouched n c j j') : InOrder n c j j' := fun hm => by
  obtain ⟨as, ts, hg, ha, ht, hv⟩ := h hm
  refine ⟨as, ts, hg, by rw [ha, ht]; exact .nil, fun _ => ?_⟩
  rw [← operations_ofType, ht, hv]
  rfl

theorem InOrder.trans (h : InOrder n c j j') (h' : InOrder n c j' j'') :
    InOrder n c j j'' := fun hm => by
  obtain ⟨as, ts, hg, ht, hv⟩ := h hm
  obtain ⟨as', ts', hg', ht', hv'⟩ := h' hg.member
  refine ⟨_, _, hg.trans hg', ?_, fun hcov => ?_⟩
  · rw [ofType_append, List.map_append, ofType_append]
    exact ht.append ht'
  · rw [operations_append, drain_append,
      hv fun a ha => hcov a (List.mem_append_left _ ha),
      hv' fun a ha => hcov a (List.mem_append_right _ ha)]

/-! ### The two halves of an operation -/

variable {t : Transmission S V} {τ : Timepoint}

theorem member_dispatchEvent (hm : j.Member n c) : (j.dispatchEvent t τ).Member n c := by
  obtain ⟨hg, hc, -, -⟩ := HostTransceiver.dispatch_frame (t := t) (τ := τ) j.host
  refine ⟨?_, ?_⟩
  · change c ∈ (j.host.dispatch τ t).1.groups n
    rw [hg]
    exact hm.1
  · change (j.host.dispatch τ t).1.isOpen c = true
    rw [HostTransceiver.isOpen, hc]
    exact hm.2

theorem grows_dispatchEvent (hm : j.Member n c) :
    Grows n c j (j.dispatchEvent t τ)
      (if t.instance_.cached then [⟨t, j.exists_ t⟩] else []) [] := by
  refine ⟨member_dispatchEvent hm, ?_, ?_⟩
  · simp only [dispatchEvent]
    split_ifs <;> simp
  · rw [List.append_nil]
    exact congrFun (HostTransceiver.dispatch_frame j.host).2.2.1 c

theorem grows_transmit (hm : j.Member n c) :
    Grows n c j (j.transmit t) [] (if c ∈ j.host.groups t.header.typeName then [t.wire] else []) := by
  refine ⟨hm, by simp [transmit], ?_⟩
  simp only [transmit, HostTransceiver.transmit, hm.2, and_true]
  split_ifs <;> simp

/-- An operation of another type. -/
theorem untouched_dispatchEvent (ht : t.instance_.typeName ≠ n) :
    Untouched n c j (j.dispatchEvent t τ) := fun hm => by
  refine ⟨_, _, grows_dispatchEvent hm, ?_, rfl, ?_⟩
  · split_ifs <;> simp [ofType, ht]
  · change ((j.host.dispatch τ t).1.pool n).view = _
    rw [(HostTransceiver.dispatch_frame j.host).2.2.2, ContainerPool.dispatchEvent_of_ne fun h => ht h.symm]

theorem untouched_transmit (ht : t.instance_.typeName ≠ n) :
    Untouched n c j (j.transmit t) := fun hm => by
  refine ⟨_, _, grows_transmit hm, rfl, ?_, rfl⟩
  split_ifs <;> simp [ofType, Transmission.wire, ht]

/-- **An operation of the type itself**, with nothing of the type between the dispatch and the
transmit. -/
theorem inOrder_operation (hn : (S.descriptor n).cached = true) (ht : t.instance_.typeName = n)
    (hkeys : (S.descriptor n).keyProperties ⊆ t.header.attributes)
    (h : Untouched n c (j.dispatchEvent t τ) j') : InOrder n c j (j'.transmit t) := fun hm => by
  have hd := grows_dispatchEvent (t := t) (τ := τ) hm
  have hcached : t.instance_.cached = true := by rw [AnyStruct.cached_eq, ht, hn]
  rw [if_pos hcached] at hd
  obtain ⟨as, ts, hg, ha, hts, hv⟩ := h hd.member
  have hsend := grows_transmit (t := t) hg.member
  rw [if_pos (by rw [t.typed, ht]; exact hg.member.1)] at hsend
  refine ⟨_, _, (hd.trans hg).trans hsend, ?_, fun hcov => ?_⟩
  · rw [ofType_append, ofType_append, hts, List.append_nil, List.append_nil, List.map_append,
      ofType_append, ha]
    simpa [ofType, Transmission.wire, ht] using Woven.applied t .nil
  · -- the replica gets the transmission after whatever was nested
    have hops : operations n ([] ++ ts ++ [t.wire]) = operations n [t.wire] := by
      rw [operations_append, List.nil_append, ← operations_ofType n ts, hts]
      rfl
    change drain _ _ = (j'.host.pool n).view
    rw [hops, hv]
    change _ = ((j.host.dispatch τ t).1.pool n).view
    rw [(HostTransceiver.dispatch_frame j.host).2.2.2, view_dispatchEvent hn]
    obtain ⟨m, x, hx, -⟩ := ContainerPool.exists_struct_of_cached hcached
    obtain rfl : m = n := by rwa [hx] at ht
    rw [operations_wire hx, operations_singleton hx, drain_cons, drain_cons]
    congr 1
    refine structOp_restrict ⟨hkeys, ?_⟩
    refine (hcov ⟨t, j.exists_ t⟩ (by simp) ht).imp_right fun hc => hc.imp (fun he hnone => ?_) ?_
    · simp only [exists_, hx] at he
      simp only [Container.view, Option.map_eq_none_iff] at hnone
      rw [hnone] at he
      cases he
    · intro hvalid
      simpa [hx, AnyStruct.validProperties] using hvalid

/-! ### Whole calls -/

/-- What every call of a list does, the list does. -/
theorem runCalls_induct {R : Journal S V → Journal S V → Prop} (hrefl : ∀ j, R j j)
    (htrans : ∀ j j' j'', R j j' → R j' j'' → R j j'') {cs : List (PublishCall S V)}
    (h : ∀ call ∈ cs, ∀ j, R j (runCall call j)) (j : Journal S V) : R j (runCalls cs j) := by
  induction cs generalizing j with
  | nil =>
    rw [runCalls]
    exact hrefl j
  | cons call cs ih =>
    rw [runCalls]
    exact htrans _ _ _ (h call List.mem_cons_self j)
      (ih (fun c hc => h c (List.mem_cons_of_mem _ hc)) _)

theorem untouched_runCalls {cs : List (PublishCall S V)}
    (h : ∀ call ∈ cs, ∀ j, Untouched n c j (runCall call j)) (j : Journal S V) :
    Untouched n c j (runCalls cs j) :=
  runCalls_induct Untouched.refl (fun _ _ _ => Untouched.trans) h j

theorem inOrder_runCalls {cs : List (PublishCall S V)}
    (h : ∀ call ∈ cs, ∀ j, InOrder n c j (runCall call j)) (j : Journal S V) :
    InOrder n c j (runCalls cs j) :=
  runCalls_induct (fun j => (Untouched.refl j).inOrder) (fun _ _ _ => InOrder.trans) h j

variable {onTransmission onEvent : List (PublishCall S V)}

theorem untouched_dispatchAndTransmit (ht : t.instance_.typeName ≠ n)
    (hT : ∀ call ∈ onTransmission, ∀ j, Untouched n c j (runCall call j))
    (hE : ∀ call ∈ onEvent, ∀ j, Untouched n c j (runCall call j)) (j : Journal S V) :
    Untouched n c j (j.dispatchAndTransmit t τ onTransmission onEvent) := by
  have hbefore := untouched_runCalls hT j
  simp only [dispatchAndTransmit]
  split
  · exact hbefore
  · exact (hbefore.trans (untouched_dispatchEvent ht)).trans (untouched_transmit ht)
  · exact ((hbefore.trans (untouched_dispatchEvent ht)).trans (untouched_runCalls hE _)).trans
      (untouched_transmit ht)

/-- **A dispatch with its transmit**, if the event handlers do not touch the type of `t`. -/
theorem inOrder_dispatchAndTransmit (hn : (S.descriptor n).cached = true)
    (hkeys : t.instance_.typeName = n → (S.descriptor n).keyProperties ⊆ t.header.attributes)
    (hT : ∀ call ∈ onTransmission, ∀ j, InOrder n c j (runCall call j))
    (hE : ∀ call ∈ onEvent, ∀ j, InOrder n c j (runCall call j))
    (hS : t.instance_.typeName = n →
      ∀ call ∈ onEvent, ∀ j, Untouched n c j (runCall call j)) (j : Journal S V) :
    InOrder n c j (j.dispatchAndTransmit t τ onTransmission onEvent) := by
  have hbefore := inOrder_runCalls hT j
  simp only [dispatchAndTransmit]
  by_cases ht : t.instance_.typeName = n
  · split
    · exact hbefore
    · exact hbefore.trans (inOrder_operation hn ht (hkeys ht) (.refl _))
    · exact hbefore.trans (inOrder_operation hn ht (hkeys ht) (untouched_runCalls (hS ht) _))
  · split
    · exact hbefore
    · exact (hbefore.trans (untouched_dispatchEvent ht).inOrder).trans
        (untouched_transmit ht).inOrder
    · exact ((hbefore.trans (untouched_dispatchEvent ht).inOrder).trans
        (inOrder_runCalls hE _)).trans (untouched_transmit ht).inOrder

/-- **A silent call** does not touch the type. -/
theorem untouched_runCall {call : PublishCall S V} (h : Silent n call) :
    ∀ j, Untouched n c j (runCall call j) := by
  induction h with
  | @publish p τ _ _ hp _ _ ihT ihE =>
    intro j
    rw [runCall_publish]
    exact untouched_dispatchAndTransmit (t := p.hostTransmission τ) hp ihT ihE j

/-- **An orderly call** keeps the order. -/
theorem inOrder_runCall (hn : (S.descriptor n).cached = true) {call : PublishCall S V}
    (h : Orderly n call) : ∀ j, InOrder n c j (runCall call j) := by
  induction h with
  | @publish p τ _ _ hp _ _ ihT ihE =>
    intro j
    rw [runCall_publish]
    refine inOrder_dispatchAndTransmit (t := p.hostTransmission τ) hn (fun ht => ?_) ihT ihE
      (fun ht call hc j => untouched_runCall (hp ht call hc) j) j
    obtain rfl : p.typeName = n := ht
    exact p.keyProperties_subset_attributes

/-! ## Runs -/

theorem arrived_spec {id : ConnectionId} {u : Transmission S V}
    (h : j.arrived id t τ = some u) : u.instance_.typeName = t.instance_.typeName ∧
      (S.descriptor u.instance_.typeName).keyProperties ⊆ u.header.attributes := by
  unfold arrived at h
  split at h
  · rename_i g m x _ hx
    split_ifs at h with hk
    obtain rfl := Option.some.inj h
    simp only [Transmission.wire, hx, AnyStruct.restrict, AnyStruct.hasKeyProperties,
      decide_eq_true_eq, Struct.validProperties_restrict] at hk
    refine ⟨by simp [Connection.stamped, Transmission.wire], ?_⟩
    simp only [Connection.stamped, Connection.stamp_attributes, Transmission.wire, hx,
      AnyStruct.restrict, AnyStruct.typeName]
    exact hk.trans Finset.inter_subset_right
  · cases h

/-- **A member message** keeps the order: a member that joins again gets a replay. -/
theorem inOrder_member (hn : (S.descriptor n).cached = true) {id : ConnectionId} {m : DotsMember}
    (hm : id = c → m.groupName = some n → m.event ≠ some .leave) :
    InOrder n c j (j.step (.member id m τ)) := fun hc => by
  have hfst := HostTransceiver.handleMemberMessage_fst (h := j.host) (τ := τ) id m
  have hmember : (j.step (.member id m τ)).Member n c := by
    simp only [step, Member, hfst]
    exact ⟨HostTransceiver.mem_memberGroups hm hc.1, hc.2⟩
  have hpool : (j.step (.member id m τ)).host.pool = j.host.pool := by
    simp only [step, hfst]
    rfl
  by_cases hid : id = c
  · subst hid
    have hsent := HostTransceiver.ofType_replies (h := j.host) (τ := τ) hn m
    refine ⟨[], (j.host.memberReplies τ m).map .wire, ⟨hmember, by simp [step], ?_⟩, ?_,
      fun _ => ?_⟩
    · simp only [step, hfst, HostTransceiver.send, Function.update_self]
    · rw [hsent]
      refine Woven.of_replays fun t ht => ?_
      split_ifs at ht
      · exact HostTransceiver.fromCache_of_mem_replays ht
      · exact absurd ht List.not_mem_nil
    · rw [← operations_ofType, hsent, hpool]
      split_ifs
      · exact HostTransceiver.drain_replays_self _
      · rfl
  · refine ⟨[], [], ⟨hmember, by simp [step], ?_⟩, .nil, fun _ => ?_⟩
    · simp only [step, hfst, HostTransceiver.send, Function.update_of_ne fun h => hid h.symm]
      exact (List.append_nil _).symm
    · rw [hpool]
      rfl

/-- **One step** keeps the order. -/
theorem inOrder_step (hn : (S.descriptor n).cached = true) {a : OrderAct S V} (ha : a.Ok n c) :
    InOrder n c j (j.step a) := by
  cases a with
  | publish call => exact inOrder_runCall hn ha j
  | receive id t τ onTransmission onEvent =>
    obtain ⟨hS, hT, hE⟩ := ha
    simp only [step]
    cases hu : j.arrived id t τ with
    | none => exact (Untouched.refl j).inOrder
    | some u =>
      obtain ⟨htype, hkeys⟩ := arrived_spec hu
      refine inOrder_dispatchAndTransmit hn (fun hut => hut ▸ hkeys)
        (fun call hc => inOrder_runCall hn (hT call hc))
        (fun call hc => inOrder_runCall hn (hE call hc)) (fun hut call hc => ?_) j
      exact untouched_runCall (hS (htype ▸ hut) call hc)
  | member id m τ => exact inOrder_member hn ha
  | close id =>
    refine Untouched.inOrder fun hm => ⟨[], [], ⟨⟨?_, ?_⟩, by simp [step], by simp [step]⟩,
      rfl, rfl, rfl⟩
    · exact Finset.mem_erase.mpr ⟨fun h => ha h.symm, hm.1⟩
    · simp only [step, HostTransceiver.isOpen, Function.update_of_ne fun h => ha h.symm]
      exact hm.2

end Journal

/-- A replica applies what it is sent, each at its time. -/
def ContainerPool.applyAll (pool : ContainerPool S V) (ts : List (Transmission S V × Timepoint)) :
    ContainerPool S V :=
  ts.foldl (fun pool t => (pool.dispatchEvent t.1 t.2).1) pool

theorem view_applyAll {n : String} (hn : (S.descriptor n).cached = true)
    (pool : ContainerPool S V) (ts : List (Transmission S V × Timepoint)) :
    (pool.applyAll ts n).view = drain (pool n).view (operations n (ts.map Prod.fst)) := by
  induction ts generalizing pool with
  | nil => rfl
  | cons t ts ih =>
    have hops : operations n ((t :: ts).map Prod.fst) =
        operations n [t.1] ++ operations n (ts.map Prod.fst) := operations_append n [t.1] _
    rw [hops, drain_append, ← view_dispatchEvent hn pool t.1 t.2]
    exact ih _

/-- A host with one connected guest, in the group of `DotsTestStruct`. -/
def testJournal : Journal testSchema ℕ where
  host :=
    { selfName := "dotsd", registry := ⟨fun _ => none⟩, nextGuestId := 3
      guestConnections := fun id =>
        if id = 2 then some ⟨{ Connection.host 2 (fun _ _ => []) with state := .connected }, {}⟩
        else none
      groups := fun n => if n = "DotsTestStruct" then {2} else ∅ }

/-- A publish of a type without properties. -/
def testNote : Publish testSchema ℕ where
  typeName := "DotsTestNote"
  value := ⟨fun _ => none, fun _ _ => rfl⟩
  includedProperties := none
  remove := false
  check := rfl

/-- A transmission handler publishes the type itself, an event handler another type. -/
def orderlyCall : PublishCall testSchema ℕ :=
  .publish (testPublish 1 1) 0 [.publish (testPublish 1 2) 1 [] []] [.publish testNote 2 [] []]

theorem orderlyCall_orderly : Orderly "DotsTestStruct" orderlyCall := by
  refine .publish (fun _ call hc => ?_) (fun call hc => ?_) fun call hc => ?_
  · obtain rfl := List.mem_singleton.mp hc
    exact .publish (by decide) (by simp) (by simp)
  · obtain rfl := List.mem_singleton.mp hc
    exact .publish (by simp) (by simp) (by simp)
  · obtain rfl := List.mem_singleton.mp hc
    exact .publish (by simp) (by simp) (by simp)

/-- An event handler publishes the type itself. -/
def overtakingCall : PublishCall testSchema ℕ :=
  .publish (testPublish 1 1) 0 [] [.publish (testPublish 1 2) 1 [] []]

end Dots

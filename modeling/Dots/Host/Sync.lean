import Dots.Host.Invariant
import Dots.Host.Replay

/-!
# What a host does for the members of a group

* `Sendable`: a transmission that does to a replica what it does to the container.
* **`Tracks`**: a connection is sent, of one type, what changes the container of that type, if it
  is a member, and nothing otherwise.
* `tracks_dispatchAndTransmit`, …, **`tracks_handleTransmission`**, `tracks_handleTransition`.
* **`receive_cases`**: a transmission arrives.
-/

set_option autoImplicit false
set_option linter.unusedSectionVars false

namespace Dots

open Replica

variable {S : Schema} {V : Type} [Ord V] [Std.TransOrd V] [Std.LawfulEqOrd V]

/-! ## Transmissions -/

/-- The header says who sent an instance of a cached type, and when; a response does not name the
host. -/
structure Transmission.Marked (t : Transmission S V) : Prop where
  stamped : t.instance_.cached = true →
    t.header.sender.isSome = true ∧ t.header.sentTime.isSome = true
  names : ∀ m, t.instance_ = .connectResponse m → m.clientId ≠ some hostId

/-- The header names the keys of an instance, and all its valid properties unless it is removed. -/
structure Transmission.Sendable (t : Transmission S V) : Prop where
  marked : t.Marked
  keys : t.instance_.cached = true →
    (S.descriptor t.instance_.typeName).keyProperties ⊆ t.header.attributes
  valid : t.instance_.cached = true → t.header.removeObj = some true ∨
    t.instance_.validProperties ⊆ t.header.attributes

theorem Transmission.Marked.wire {t : Transmission S V} (h : t.Marked) : t.wire.Marked := by
  refine ⟨fun hc => h.stamped ?_, fun m hm => h.names m ?_⟩
  · rw [AnyStruct.cached_eq] at hc ⊢
    simpa [Transmission.wire] using hc
  · have hi : t.instance_.restrict t.header.attributes = .connectResponse m := hm
    cases hx : t.instance_ with
    | struct n x =>
      rw [hx] at hi
      cases hi
    | _ => rwa [hx] at hi

/-- An uncached instance that is no response. -/
theorem Transmission.marked_of_not_cached {t : Transmission S V} (hc : t.instance_.cached = false)
    (hn : ∀ m, t.instance_ = .connectResponse m → m.clientId ≠ some hostId) : t.Marked :=
  ⟨fun h => (by rw [hc] at h; cases h), hn⟩

/-- Handshake messages are not cached. -/
theorem cached_of_isSystem {x : AnyStruct S V} (h : x.isSystem = true) : x.cached = false := by
  cases x with
  | struct n y => cases h
  | _ => rfl

/-- What a transmission says about the membership of its sender in a group. -/
def Transmission.memberEvent (n : String) (t : Transmission S V) : Option DotsMemberEvent :=
  match t.instance_ with
  | .member m => if m.groupName = some n then m.event else none
  | _ => none

/-- **What a guest has sent**, as the connection hands it on, is sendable. -/
theorem sendable_stamped {t : Transmission S V} {c : Connection} {τ : Timepoint}
    (hw : t.wire = t) (hsys : t.instance_.isSystem = false)
    (hk : t.instance_.hasKeyProperties = true) (hself : c.selfId = hostId) :
    (c.stamped t τ).Sendable := by
  have hx : t.instance_.restrict t.header.attributes = t.instance_ :=
    congrArg Transmission.instance_ hw
  refine ⟨⟨fun _ => ?_, fun m hm => ?_⟩, fun hc => ?_, fun hc => .inr ?_⟩
  · simp [Connection.stamped, Connection.stamp, hself]
  · rw [show t.instance_ = .connectResponse m from hm] at hsys
    cases hsys
  all_goals
    obtain ⟨n, x, hi, -⟩ := ContainerPool.exists_struct_of_cached hc
    rw [show t.instance_ = .struct n x from hi] at hx hk
    have hvalid : x.validProperties ⊆ t.header.attributes := by
      rw [← Struct.restrict_eq_self_iff]
      simpa [AnyStruct.restrict, eq_comm] using hx
    simp only [AnyStruct.hasKeyProperties, decide_eq_true_eq] at hk
    simp only [Connection.stamped, Connection.stamp_attributes, show t.instance_ = .struct n x from hi,
      AnyStruct.typeName, AnyStruct.validProperties]
  · exact hk.trans hvalid
  · exact hvalid

theorem ContainerPool.cached_of_threw {pool : ContainerPool S V} {t : Transmission S V}
    {τ : Timepoint} {what : String} (h : (pool.dispatchEvent t τ).2 = .threw what) :
    t.instance_.cached = false := by
  by_contra hc
  obtain ⟨n, x, ht, hn⟩ := exists_struct_of_cached (by simpa using hc)
  rw [dispatchEvent_struct ht hn, cachedEvent] at h
  split_ifs at h
  simp only at h
  split at h <;> cases h

namespace HostTransceiver

variable {h h' h'' : HostTransceiver S V} {id c : ConnectionId} {τ : Timepoint} {n : String}
variable {t : Transmission S V}

/-! ## Following a container -/

/-- What a connection sees of an operation of the host, for one type: a member is sent what
changes the container of a cached type, any other connection nothing of it. -/
structure Tracks (n : String) (c : ConnectionId) (h h' : HostTransceiver S V) : Prop where
  isOpen : h'.isOpen c = h.isOpen c
  member : c ∈ h'.groups n ↔ c ∈ h.groups n
  sent : ∃ ts, h'.outbox c = h.outbox c ++ ts ∧ (∀ t ∈ ts, t.Marked) ∧
    ((S.descriptor n).cached = true →
      (h.isOpen c = true → c ∈ h.groups n →
        drain (h.pool n).view (operations n ts) = (h'.pool n).view) ∧
      (c ∉ h.groups n → operations n ts = []))

theorem Tracks.refl (n : String) (c : ConnectionId) (h : HostTransceiver S V) : Tracks n c h h :=
  ⟨rfl, Iff.rfl, [], by simp, by simp, fun _ => ⟨fun _ _ => rfl, fun _ => rfl⟩⟩

theorem Tracks.trans (a : Tracks n c h h') (b : Tracks n c h' h'') : Tracks n c h h'' := by
  obtain ⟨ts, ho, hm, hv⟩ := a.sent
  obtain ⟨us, ho', hm', hv'⟩ := b.sent
  refine ⟨b.isOpen.trans a.isOpen, b.member.trans a.member, ts ++ us, ?_, ?_,
    fun hn => ⟨fun hopen hc => ?_, fun hc => ?_⟩⟩
  · rw [ho', ho, List.append_assoc]
  · exact fun t ht => (List.mem_append.mp ht).elim (hm t) (hm' t)
  · rw [operations_append, drain_append, (hv hn).1 hopen hc]
    exact (hv' hn).1 (a.isOpen.trans hopen) (a.member.mpr hc)
  · rw [operations_append, (hv hn).2 hc, (hv' hn).2 fun hc' => hc (a.member.mp hc')]
    rfl

/-- An operation that only adds to the outbox. -/
theorem tracks_of_outbox (ts : List (Transmission S V)) (hopen : h'.isOpen c = h.isOpen c)
    (hgroups : h'.groups n = h.groups n)
    (hpool : (S.descriptor n).cached = true → h'.pool n = h.pool n)
    (hout : h'.outbox c = h.outbox c ++ ts) (hm : ∀ t ∈ ts, t.Marked)
    (hops : (S.descriptor n).cached = true → operations n ts = []) : Tracks n c h h' :=
  ⟨hopen, by rw [hgroups], ts, hout, hm, fun hn =>
    ⟨fun _ _ => by rw [hops hn, hpool hn]; rfl, fun _ => hops hn⟩⟩

/-- Instances of uncached types are no operations. -/
theorem operations_map_wire {ts : List (Transmission S V)}
    (hts : ∀ t ∈ ts, t.instance_.cached = false) (hn : (S.descriptor n).cached = true) :
    operations n (ts.map .wire) = [] := by
  refine List.filterMap_eq_nil_iff.mpr fun t ht => operation_of_ne ?_
  obtain ⟨u, hu, rfl⟩ := List.mem_map.mp ht
  rintro rfl
  have hc := hts u hu
  rw [AnyStruct.cached_eq] at hc
  simp only [Transmission.wire, AnyStruct.typeName_restrict, hc] at hn
  cases hn

theorem tracks_send (id : ConnectionId) {ts : List (Transmission S V)}
    (hts : ∀ t ∈ ts, t.instance_.cached = false) (hmarked : ∀ t ∈ ts, t.Marked) :
    Tracks n c h (h.send id ts) := by
  have hwire : ∀ t ∈ ts.map Transmission.wire, t.Marked := by
    intro t ht
    obtain ⟨u, hu, rfl⟩ := List.mem_map.mp ht
    exact (hmarked u hu).wire
  by_cases hc : c = id
  · subst hc
    exact tracks_of_outbox _ rfl rfl (fun _ => rfl) (by simp [send]) hwire
      (operations_map_wire hts)
  · exact tracks_of_outbox [] rfl rfl (fun _ => rfl)
      (by simp [send, Function.update_of_ne hc]) (by simp) fun _ => rfl

/-- **A dispatch with its transmit** is followed by the members. -/
theorem tracks_dispatchAndTransmit (ht : t.Sendable) :
    Tracks n c h (h.dispatchAndTransmit τ t).1 := by
  obtain ⟨hgroups, hconn, hout, hpool⟩ := dispatch_frame (t := t) (τ := τ) h
  have hopen : (h.dispatch τ t).1.isOpen c = h.isOpen c := by rw [isOpen, isOpen, hconn]
  have hthrew (hn : (S.descriptor n).cached = true) (h₁ : HostTransceiver S V) (what : String)
      (he : h.dispatch τ t = (h₁, .error what)) : t.instance_.typeName ≠ n := by
    have hcached : t.instance_.cached = false := by
      simp only [dispatch] at he
      split at he
      · exact ContainerPool.cached_of_threw ‹_›
      · cases he
    rintro rfl
    rw [AnyStruct.cached_eq, hn] at hcached
    cases hcached
  unfold dispatchAndTransmit
  split <;> rename_i h₁ r he <;> rw [he] at hgroups hconn hout hpool hopen <;>
    dsimp only at hgroups hconn hout hpool hopen
  · refine tracks_of_outbox [] hopen (by rw [hgroups]) (fun hn => ?_)
      (by rw [hout]; simp) (by simp) fun _ => rfl
    rw [hpool, ContainerPool.dispatchEvent_of_ne fun hne => hthrew hn _ _ he hne.symm]
  · refine ⟨hopen, by rw [← hgroups]; rfl, if c ∈ h.groups t.header.typeName ∧ h.isOpen c = true
      then [t.wire] else [], ?_, ?_, fun hn => ⟨fun hopen' hc => ?_, fun hc => ?_⟩⟩
    · simp only [transmit, hgroups, hout, hopen]
      split_ifs <;> simp
    · intro u hu
      split_ifs at hu
      · exact List.mem_singleton.mp hu ▸ ht.marked.wire
      · exact absurd hu List.not_mem_nil
    · change _ = (h₁.pool n).view
      rw [hpool, view_dispatchEvent hn h.pool t τ]
      by_cases htype : t.instance_.typeName = n
      · have hcached : t.instance_.cached = true := by rw [AnyStruct.cached_eq, htype, hn]
        rw [if_pos ⟨by rw [t.typed, htype]; exact hc, hopen'⟩]
        obtain ⟨m, x, hx, -⟩ := ContainerPool.exists_struct_of_cached hcached
        obtain rfl : m = n := by rwa [hx] at htype
        rw [operations_wire hx, operations_singleton hx, drain_cons, drain_cons]
        congr 1
        refine structOp_restrict ⟨?_, ?_⟩
        · simpa [hx, AnyStruct.typeName] using ht.keys hcached
        · refine (ht.valid hcached).imp_right fun hv => .inr ?_
          simpa [hx, AnyStruct.validProperties] using hv
      · have hops : operations n [t] = [] := by simp [operations, operation_of_ne htype]
        have hops' : operations n [t.wire] = [] := by
          simp [operations, operation_of_ne (t := t.wire) (by simpa [Transmission.wire] using htype)]
        split_ifs
        · rw [hops, hops']
        · rw [hops]
          rfl
    · split_ifs with hsent
      · refine List.filterMap_eq_nil_iff.mpr fun u hu => operation_of_ne ?_
        obtain rfl := List.mem_singleton.mp hu
        rintro rfl
        rw [t.typed] at hsent
        exact hc (by simpa [Transmission.wire] using hsent.1)
      · rfl

/-- What the host removes on its own. -/
theorem tracks_removes (r : Removes h h') : Tracks n c h h' :=
  r.relates (Tracks.refl n c) (fun _ _ _ => Tracks.trans) fun _ p _ hp =>
    tracks_dispatchAndTransmit ⟨⟨fun _ => ⟨rfl, rfl⟩, fun _ hm => by cases hm⟩,
      fun _ => p.keyProperties_subset_attributes, fun _ => .inl (congrArg some hp)⟩

/-- A change that the connection does not see. -/
theorem tracks_of_eq (hopen : h'.isOpen c = h.isOpen c) (hmem : c ∈ h'.groups n ↔ c ∈ h.groups n)
    (hpool : h'.pool n = h.pool n) (hout : h'.outbox c = h.outbox c) : Tracks n c h h' :=
  ⟨hopen, hmem, [], by rw [hout, List.append_nil], by simp, fun _ =>
    ⟨fun _ _ => by rw [hpool]; rfl, fun _ => rfl⟩⟩

/-! ## Transmissions of the guests -/

theorem mem_memberGroups_of_ne {groups : String → Finset ConnectionId} (hne : c ≠ id)
    (m : DotsMember) : c ∈ memberGroups groups id m n ↔ c ∈ groups n := by
  obtain ⟨_ | n', _ | ev, client⟩ := m
  · exact Iff.rfl
  · exact Iff.rfl
  · exact Iff.rfl
  by_cases hnn : n = n'
  swap
  · cases ev <;> simp [memberGroups, Function.update_of_ne hnn]
  subst hnn
  cases ev with
  | kill => exact Iff.rfl
  | leave => simp [memberGroups, hne]
  | join => simp [memberGroups, hne]

/-- The guest joins the group: it is sent the container. -/
structure Joins (now : Timepoint) (n : String) (c : ConnectionId) (h h' : HostTransceiver S V) :
    Prop where
  isOpen : h'.isOpen c = h.isOpen c
  member : c ∈ h'.groups n
  pool : h'.pool n = h.pool n
  sent : ∃ ts, h'.outbox c = h.outbox c ++ ts ∧ (∀ t ∈ ts, t.Marked) ∧
    ((S.descriptor n).cached = true → operations n ts =
      if (h.registry.findStructType n).isSome then
        operations n (replays now n (h.pool n).clones) else [])

/-- The guest leaves the group. -/
structure Quits (n : String) (c : ConnectionId) (h h' : HostTransceiver S V) : Prop where
  isOpen : h'.isOpen c = h.isOpen c
  member : c ∉ h'.groups n
  pool : h'.pool n = h.pool n
  sent : ∃ ts, h'.outbox c = h.outbox c ++ ts ∧ (∀ t ∈ ts, t.Marked) ∧
    ((S.descriptor n).cached = true → operations n ts = [])

/-- What a transmission of the connection itself does. -/
def Answers (now : Timepoint) (n : String) (t : Transmission S V) (c : ConnectionId)
    (h h' : HostTransceiver S V) : Prop :=
  match t.memberEvent n with
  | some .join => Joins now n c h h'
  | some .leave => Quits n c h h'
  | _ => Tracks n c h h'

/-- The connection is closed, and a member of no group. -/
def Gone (c : ConnectionId) (h : HostTransceiver S V) : Prop :=
  h.isOpen c = false ∧ ∀ n, c ∉ h.groups n

theorem marked_memberReplies (m : DotsMember) :
    ∀ t ∈ (h.memberReplies τ m).map Transmission.wire, t.Marked := by
  intro t ht
  obtain ⟨u, hu, rfl⟩ := List.mem_map.mp ht
  refine Transmission.Marked.wire ?_
  have hreplay {m : String} {es : List (Clone V (S.descriptor m))} (hu : u ∈ replays τ m es) :
      u.Marked := by
    obtain ⟨e, -, modified, lastUpdateFrom, k, -, -, rfl⟩ := exists_of_mem_replays hu
    exact ⟨fun _ => ⟨rfl, rfl⟩, fun _ hm => by cases hm⟩
  unfold memberReplies at hu
  split at hu
  · split_ifs at hu
    · rcases List.mem_append.mp hu with hu | hu
      · exact hreplay hu
      · obtain rfl := List.mem_singleton.mp hu
        exact Transmission.marked_of_not_cached rfl fun _ hm => by cases hm
    · rw [List.append_nil] at hu
      exact hreplay hu
    · exact absurd hu List.not_mem_nil
  · exact absurd hu List.not_mem_nil

theorem tracks_handleMemberMessage (hne : c ≠ id) (m : DotsMember) :
    Tracks n c h (h.handleMemberMessage id τ m).1 := by
  rw [handleMemberMessage_fst]
  exact tracks_of_eq rfl (mem_memberGroups_of_ne hne m) rfl
    (by simp [send, Function.update_of_ne hne])

/-- **A member message** of the connection itself. -/
theorem answers_handleMemberMessage {m : DotsMember} (ht : t.instance_ = .member m) :
    Answers τ n t c h (h.handleMemberMessage c τ m).1 := by
  have hmarked := marked_memberReplies (h := h) (τ := τ) m
  have hops (hn : (S.descriptor n).cached = true) :
      operations n ((h.memberReplies τ m).map .wire) =
        operations n (if m.groupName = some n ∧ m.event = some .join ∧
          (h.registry.findStructType n).isSome = true then replays τ n (h.pool n).clones
          else []) := by
    rw [← operations_ofType, ofType_replies hn]
  have hout : (h.handleMemberMessage c τ m).1.outbox c =
      h.outbox c ++ (h.memberReplies τ m).map .wire := by
    rw [handleMemberMessage_fst]
    simp [send]
  have hgroups : (h.handleMemberMessage c τ m).1.groups = memberGroups h.groups c m := by
    rw [handleMemberMessage_fst]
  have hpool : (h.handleMemberMessage c τ m).1.pool = h.pool := by
    rw [handleMemberMessage_fst]
    rfl
  have hopen : (h.handleMemberMessage c τ m).1.isOpen c = h.isOpen c := by
    rw [handleMemberMessage_fst]
    rfl
  unfold Answers Transmission.memberEvent
  rw [ht]
  dsimp only
  by_cases hg : m.groupName = some n
  swap
  · rw [if_neg hg]
    refine ⟨hopen, ?_, _, hout, hmarked, fun hn => ⟨fun _ _ => ?_, fun _ => ?_⟩⟩
    · rw [hgroups]
      obtain ⟨_ | n', _ | ev, client⟩ := m
      · exact Iff.rfl
      · exact Iff.rfl
      · exact Iff.rfl
      have hnn : n ≠ n' := fun he => hg (by rw [he])
      cases ev <;> simp [memberGroups, Function.update_of_ne hnn]
    · rw [hops hn, hpool, if_neg fun hc => hg hc.1]
      rfl
    · rw [hops hn, if_neg fun hc => hg hc.1]
      rfl
  rw [if_pos hg]
  obtain ⟨groupName, event, client⟩ := m
  dsimp only at hg hops hout hgroups hpool hopen hmarked
  subst hg
  have hnil (he : event ≠ some .join) (hn : (S.descriptor n).cached = true) :
      operations n ((h.memberReplies τ
        { groupName := some n, event, client }).map Transmission.wire) = [] := by
    rw [hops hn, if_neg fun hc => he hc.2.1]
    rfl
  cases event with
  | none =>
    exact tracks_of_outbox _ hopen (by rw [hgroups]; rfl) (fun _ => by rw [hpool]) hout hmarked
      (hnil (by simp))
  | some ev =>
    cases ev with
    | kill =>
      exact tracks_of_outbox _ hopen (by rw [hgroups]; rfl) (fun _ => by rw [hpool]) hout hmarked
        (hnil (by simp))
    | leave =>
      refine ⟨hopen, ?_, by rw [hpool], _, hout, hmarked, hnil (by simp)⟩
      rw [hgroups]
      simp [memberGroups]
    | join =>
      refine ⟨hopen, ?_, by rw [hpool], _, hout, hmarked, fun hn => ?_⟩
      · rw [hgroups]
        simp [memberGroups]
      · rw [hops hn]
        simp only [true_and]
        split_ifs <;> rfl

/-- A reply to a guest. -/
theorem tracks_reply (x : AnyStruct S V) (hx : x.cached = false)
    (hr : ∀ m, x ≠ .connectResponse m) : Tracks n c h (h.sendInstance id τ x) := by
  refine tracks_send id (fun t ht => ?_) fun t ht => ?_
  · exact List.mem_singleton.mp ht ▸ hx
  · obtain rfl := List.mem_singleton.mp ht
    exact Transmission.marked_of_not_cached hx fun m hm => absurd hm (hr m)

/-- A transmission that is no member message. -/
theorem tracks_handleTransmission (ht : t.Sendable)
    (hm : c ≠ id ∨ ∀ m, t.instance_ ≠ .member m) :
    Tracks n c h (h.handleTransmission id τ t).1 := by
  unfold handleTransmission
  split
  · rename_i m he
    exact tracks_handleMemberMessage (hm.resolve_right fun hne => hne m he) m
  · exact tracks_reply _ rfl fun _ he => by cases he
  · unfold handleEchoRequest
    split_ifs
    · exact tracks_reply _ rfl fun _ he => by cases he
    · exact .refl n c h
  · rename_i m he
    have hc : Tracks n c h (h.handleClearCache τ m).1 := by
      unfold handleClearCache
      split
      · exact .refl n c h
      · exact tracks_removes (removes_clearTypes _ _)
    generalize h.handleClearCache τ m = re at hc
    obtain ⟨h', _ | u⟩ := re
    · exact hc
    · exact hc.trans (tracks_dispatchAndTransmit ht)
  · exact tracks_dispatchAndTransmit ht

/-- **A transmission of the connection itself.** -/
theorem answers_handleTransmission (ht : t.Sendable) :
    Answers τ n t c h (h.handleTransmission c τ t).1 := by
  cases hx : t.instance_ with
  | member m =>
    have he : h.handleTransmission c τ t = h.handleMemberMessage c τ m := by
      simp only [handleTransmission, hx]
    rw [he]
    exact answers_handleMemberMessage hx
  | _ =>
    unfold Answers Transmission.memberEvent
    rw [hx]
    exact tracks_handleTransmission ht (.inr fun m he => by rw [hx] at he; cases he)

/-! ## Turns of a connection -/

theorem tracks_handleTransition (hne : c ≠ id) :
    Tracks n c h (h.handleTransition id τ) := by
  have herase : Tracks n c h { h with groups := fun n => (h.groups n).erase id } :=
    tracks_of_eq rfl (by simp [hne]) rfl rfl
  unfold handleTransition
  generalize ({ h with groups := fun n => (h.groups n).erase id } : HostTransceiver S V) = h₁
    at herase
  have hclean := tracks_removes (n := n) (c := c)
    (removes_cleanup (h := h₁) (τ := τ) id h₁.poolTypes)
  simp only
  generalize cleanup τ id h₁.poolTypes h₁ = re at hclean
  obtain ⟨h₂, _ | u⟩ := re
  · exact herase.trans hclean
  · refine (herase.trans hclean).trans (tracks_of_eq ?_ Iff.rfl rfl rfl)
    simp [isOpen, Function.update_of_ne hne]

/-- **A connection has its turn**, as the other connections see it. -/
theorem tracks_finish (hne : c ≠ id) (ch : Channel)
    (r : Turn S V) : Tracks n c h (h.finish id τ ch r) := by
  have hset : Tracks n c h { h.send id r.sent with
      guestConnections := Function.update h.guestConnections id (some ⟨r.connection, ch⟩) } :=
    tracks_of_eq (by simp [isOpen, Function.update_of_ne hne]) Iff.rfl rfl
      (by simp [send, Function.update_of_ne hne])
  unfold finish
  simp only
  split_ifs
  · exact hset.trans (tracks_handleTransition hne)
  · exact hset

/-- **A transmission arrives**, as the other connections see it. -/
theorem tracks_receive (hs : h.Sound) (hw : t.wire = t)
    (hne : c ≠ id) : Tracks n c h (h.receive id τ t) := by
  unfold receive
  split
  · exact .refl n c h
  rename_i g hg
  have hself := (hs.known id g (Set.notMem_empty _) hg).hostSide.1
  split_ifs
  · exact .refl n c h
  · exact tracks_finish hne _ _
  unfold processReceive
  split
  · rename_i ch registry what _
    have hreg : Tracks n c h { h with registry } := tracks_of_eq rfl Iff.rfl rfl rfl
    exact hreg.trans (tracks_finish hne _ _)
  · rename_i ch registry u _
    have hreg : Tracks n c h { h with registry } := tracks_of_eq rfl Iff.rfl rfl rfl
    generalize ({ h with registry } : HostTransceiver S V) = h₁ at hreg
    simp only
    refine (hreg.trans ?_).trans (tracks_finish hne _ _)
    split
    · exact .refl n c h₁
    · rename_i u us hu
      obtain ⟨-, hsys', hkeys, rfl⟩ := Connection.of_received (hu ▸ List.mem_cons_self)
      exact tracks_handleTransmission (sendable_stamped hw hsys' hkeys hself) (.inl hne)

/-! ## A transmission arrives -/

/-- Groups and connections stay as they are. -/
structure Stays (h h' : HostTransceiver S V) : Prop where
  groups : h'.groups = h.groups
  guestConnections : h'.guestConnections = h.guestConnections

theorem Stays.refl (h : HostTransceiver S V) : Stays h h := ⟨rfl, rfl⟩

theorem Stays.trans (a : Stays h h') (b : Stays h' h'') : Stays h h'' :=
  ⟨b.groups.trans a.groups, b.guestConnections.trans a.guestConnections⟩

theorem Stays.isOpen (a : Stays h h') (c : ConnectionId) : h'.isOpen c = h.isOpen c := by
  rw [HostTransceiver.isOpen, HostTransceiver.isOpen, a.guestConnections]

theorem stays_dispatchAndTransmit (t : Transmission S V) :
    Stays h (h.dispatchAndTransmit τ t).1 := by
  obtain ⟨hgroups, hconn, -, -⟩ := dispatch_frame (t := t) (τ := τ) h
  unfold dispatchAndTransmit
  split <;> rename_i h₁ r he <;> rw [he] at hgroups hconn <;> exact ⟨hgroups, hconn⟩

theorem stays_removes (r : Removes h h') : Stays h h' :=
  r.relates Stays.refl (fun _ _ _ => Stays.trans) fun _ _ _ _ => stays_dispatchAndTransmit _

/-- **The transceiver learns that a connection has closed.** -/
theorem gone_handleTransition (hclosed : h.isOpen id = false) : Gone id (h.handleTransition id τ) := by
  unfold handleTransition
  have herase : ∀ n, id ∉ ({ h with groups := fun n => (h.groups n).erase id } :
      HostTransceiver S V).groups n := by simp
  have hclosed' : ({ h with groups := fun n => (h.groups n).erase id } :
      HostTransceiver S V).isOpen id = false := hclosed
  generalize ({ h with groups := fun n => (h.groups n).erase id } : HostTransceiver S V) = h₁
    at herase hclosed'
  have hs := stays_removes (removes_cleanup (h := h₁) (τ := τ) id h₁.poolTypes)
  simp only
  generalize cleanup τ id h₁.poolTypes h₁ = re at hs
  obtain ⟨h₂, _ | u⟩ := re
  · exact ⟨(hs.isOpen id).trans hclosed', fun n => by rw [hs.groups]; exact herase n⟩
  · refine ⟨by simp [isOpen], fun n => ?_⟩
    change id ∉ h₂.groups n
    rw [hs.groups]
    exact herase n

theorem gone_finish {ch : Channel} {r : Turn S V} (hst : r.connection.state = .closed)
    (hcl : .closed ∈ r.transitions) : Gone id (h.finish id τ ch r) := by
  unfold finish
  simp only
  rw [if_pos hcl]
  exact gone_handleTransition (by simp [isOpen, hst])

/-- **A connection that stays open has its turn**, as it sees it itself. -/
theorem answers_finish {ch : Channel} {r : Turn S V}
    (ha : Answers τ n t id h h') (hopen : h'.isOpen id = true)
    (hst : r.connection.state ≠ .closed) (hcl : .closed ∉ r.transitions)
    (hsent : ∀ u ∈ r.sent, u.instance_.isSystem = true)
    (hnames : ∀ u ∈ r.sent, u.instance_.Names id) (hid : id ≠ hostId) :
    Answers τ n t id h (h'.finish id τ ch r) := by
  have huncached : ∀ u ∈ r.sent, u.instance_.cached = false := fun u hu =>
    cached_of_isSystem (hsent u hu)
  have hfinish : h'.finish id τ ch r = { h'.send id r.sent with
      guestConnections := Function.update h'.guestConnections id (some ⟨r.connection, ch⟩) } := by
    unfold finish
    simp only
    rw [if_neg hcl]
  have hopen' : (h'.finish id τ ch r).isOpen id = h'.isOpen id := by
    rw [hopen, hfinish]
    simp [isOpen, hst]
  have hmarked : ∀ u ∈ r.sent, u.Marked := fun u hu =>
    Transmission.marked_of_not_cached (huncached u hu) fun m hm he => by
      rcases hnames u hu m hm with hnone | hsome
      · rw [hnone] at he
        cases he
      · exact hid (Option.some.inj (hsome.symm.trans he))
  obtain ⟨us, hout, hm, -⟩ :=
    (tracks_send (n := n) (h := h') (c := id) id huncached hmarked).sent
  have hops (hn : (S.descriptor n).cached = true) : operations n us = [] := by
    have he : us = r.sent.map .wire := by simpa [send] using hout.symm
    rw [he]
    exact operations_map_wire huncached hn
  have hout' : (h'.finish id τ ch r).outbox id = h'.outbox id ++ us := by
    rw [hfinish]
    exact hout
  have hgroups : (h'.finish id τ ch r).groups = h'.groups := by rw [hfinish]; rfl
  have hpool : (h'.finish id τ ch r).pool = h'.pool := by rw [hfinish]; rfl
  unfold Answers at ha ⊢
  split at ha
  · obtain ⟨ts, hout₀, hm₀, hops₀⟩ := ha.sent
    exact ⟨hopen'.trans ha.isOpen, by rw [hgroups]; exact ha.member, by rw [hpool, ha.pool],
      ts ++ us, by rw [hout', hout₀, List.append_assoc],
      fun u hu => (List.mem_append.mp hu).elim (hm₀ u) (hm u),
      fun hn => by rw [operations_append, hops₀ hn, hops hn, List.append_nil]⟩
  · obtain ⟨ts, hout₀, hm₀, hops₀⟩ := ha.sent
    exact ⟨hopen'.trans ha.isOpen, by rw [hgroups]; exact ha.member, by rw [hpool, ha.pool],
      ts ++ us, by rw [hout', hout₀, List.append_assoc],
      fun u hu => (List.mem_append.mp hu).elim (hm₀ u) (hm u),
      fun hn => by rw [operations_append, hops₀ hn, hops hn, List.append_nil]⟩
  · exact Tracks.trans ha (tracks_of_outbox _ hopen' (by rw [hgroups]) (fun _ => by rw [hpool]) hout'
      hm hops)

/-- An open connection has a channel that receives. -/
def Receiving (h : HostTransceiver S V) : Prop :=
  ∀ id g, h.guestConnections id = some g → g.connection.state ≠ .closed →
    g.channel.asyncReceiving = true

theorem Answers.isOpen (ha : Answers τ n t c h h') : h'.isOpen c = h.isOpen c := by
  unfold Answers at ha
  split at ha
  · exact Joins.isOpen ha
  · exact Quits.isOpen ha
  · exact Tracks.isOpen ha

theorem answers_of_tracks (ht : t.memberEvent n = none) : Answers τ n t c h h' ↔ Tracks n c h h' := by
  rw [Answers, ht]

/-- What reaches the transceiver of a transmission that does not close its connection. -/
theorem answers_received (hw : t.wire = t)
    {k : Connection} (hself : k.selfId = hostId) (htracks : Tracks n id h h')
    (hmember : ∀ m, t.instance_ = .member m → h' = h)
    (hopen : (k.processReceive (h'.owner id τ) τ t).1.connection.state ≠ .closed) :
    Answers τ n t id h (match (k.processReceive (h'.owner id τ) τ t).1.received with
      | [] => h'
      | u :: _ => (h'.handleTransmission id τ u).1) := by
  have hplain (hx : ∀ m, t.instance_ ≠ .member m) : t.memberEvent n = none := by
    unfold Transmission.memberEvent
    split
    · exact absurd ‹_› (hx _)
    · rfl
  by_cases hsys : t.instance_.isSystem = true
  · have hx : ∀ m, t.instance_ ≠ .member m := fun m he => by
      rw [he] at hsys
      cases hsys
    rw [answers_of_tracks (hplain hx), (Turn.does_of_isSystem hsys).received]
    exact htracks
  · split <;> rename_i hu
    · exact absurd (Connection.closed_of_not_received (by simpa using hsys) hu) hopen
    · obtain ⟨-, hsys', hkeys, rfl⟩ := Connection.of_received (hu ▸ List.mem_cons_self)
      have ha := answers_handleTransmission (h := h') (c := id) (n := n) (τ := τ)
        (sendable_stamped (τ := τ) hw hsys' hkeys hself)
      by_cases hx : ∃ m, t.instance_ = .member m
      · obtain ⟨m, hm⟩ := hx
        rw [hmember m hm] at ha ⊢
        exact ha
      · push Not at hx
        rw [answers_of_tracks (hplain hx)]
        exact htracks.trans ((answers_of_tracks (hplain hx)).mp ha)

/-- **A transmission arrives**, as its own connection sees it: it closes, or it is answered. -/
theorem receive_self (hs : h.Sound) (hr : h.Receiving)
    (hw : t.wire = t) (hopen : h.isOpen id = true) :
    Gone id (h.receive id τ t) ∨ Answers τ n t id h (h.receive id τ t) := by
  unfold receive
  cases hg : h.guestConnections id with
  | none => simp [isOpen, hg] at hopen
  | some g =>
    have hst : g.connection.state ≠ .closed := by simpa [isOpen, hg] using hopen
    have hknown := hs.known id g (Set.notMem_empty _) hg
    have hside := hknown.hostSide
    simp only [hr id g hg hst, Bool.true_eq_false, if_false]
    have hcloses (what : String) := Turn.closes_handleError (o := (Owner.silent : Owner S V))
      (τ := τ) (Connection.keeps_refl (c := g.connection)) what
    split_ifs
    · exact .inl (gone_finish (hcloses _).1 (by rw [(hcloses _).2.1]; simp))
    unfold processReceive
    split
    · exact .inl (gone_finish (hcloses _).1 (by rw [(hcloses _).2.1]; simp))
    rename_i ch registry u himport
    have hreg : ∀ m, t.instance_ = .member m → registry = h.registry := by
      intro m hm
      simp only [Channel.importDependencies, hm, Prod.mk.injEq] at himport
      exact himport.2.1.symm
    have htracks : Tracks n id h { h with registry } := tracks_of_eq rfl Iff.rfl rfl rfl
    simp only
    generalize hh : ({ h with registry } : HostTransceiver S V) = h₁ at htracks
    have hturn := hostTurn_processReceive (o := h₁.owner id τ) (τ := τ) (t := t) hside
    have hsent := Connection.sent_isSystem (o := h₁.owner id τ) (fun _ => rfl) (fun _ => rfl)
      g.connection τ t
    have hnames := Connection.sent_names (o := h₁.owner id τ) (fun _ => rfl) (fun _ => rfl)
      g.connection τ t
    rw [hknown.peerId] at hnames
    have hanswers := answers_received (τ := τ) hw hside.1 htracks fun m hm => by
      rw [← hh, hreg m hm]
    rcases hturn.2 with ⟨hc, hcl⟩ | ⟨htr, hstate, -⟩ | ⟨hcl, hest, -⟩
    · exact .inl (gone_finish hc hcl)
    · have hne : (g.connection.processReceive (h₁.owner id τ) τ t).1.connection.state ≠
          .closed := by rwa [hstate]
      exact .inr (answers_finish (hanswers hne) ((hanswers hne).isOpen.trans hopen) hne
        (by rw [htr]; exact List.not_mem_nil) hsent hnames hknown.ne_hostId)
    · have hne : (g.connection.processReceive (h₁.owner id τ) τ t).1.connection.state ≠
          .closed := by
        intro hc
        rw [hc] at hest
        cases hest
      exact .inr (answers_finish (hanswers hne) ((hanswers hne).isOpen.trans hopen) hne hcl
        hsent hnames hknown.ne_hostId)

theorem receive_of_closed (hs : h.Sound) (hc : h.isOpen id = false) : h.receive id τ t = h := by
  unfold receive
  split
  · rfl
  · rename_i g hg
    have hst : g.connection.state = .closed := by simpa [isOpen, hg] using hc
    rw [if_pos ((hs.known id g (Set.notMem_empty _) hg).closed hst)]

/-- **A transmission arrives**, for all types at once. -/
theorem receive_cases (hs : h.Sound) (hr : h.Receiving) (hw : t.wire = t) :
    h.isOpen id = false ∧ h.receive id τ t = h ∨ Gone id (h.receive id τ t) ∨
      h.isOpen id = true ∧ ∀ n, Answers τ n t id h (h.receive id τ t) := by
  cases hopen : h.isOpen id with
  | false => exact .inl ⟨rfl, receive_of_closed hs hopen⟩
  | true =>
    by_cases hg : Gone id (h.receive id τ t)
    · exact .inr (.inl hg)
    · exact .inr (.inr ⟨rfl, fun n => (receive_self hs hr hw hopen).resolve_left hg⟩)

/-! ## Channels that receive -/

theorem guestConnections_handleTransmission (t : Transmission S V) :
    (h.handleTransmission id τ t).1.guestConnections = h.guestConnections := by
  unfold handleTransmission
  split
  · rw [handleMemberMessage_fst]
    rfl
  · rfl
  · unfold handleEchoRequest
    split_ifs <;> rfl
  · rename_i m _
    have hc : (h.handleClearCache τ m).1.guestConnections = h.guestConnections := by
      unfold handleClearCache
      split
      · rfl
      · exact (stays_removes (removes_clearTypes _ _)).guestConnections
    generalize h.handleClearCache τ m = re at hc
    obtain ⟨h', _ | u⟩ := re
    · exact hc
    · exact (stays_dispatchAndTransmit t).guestConnections.trans hc
  · exact (stays_dispatchAndTransmit t).guestConnections

theorem guestConnections_handleTransition {id' : ConnectionId} {g : GuestConnection}
    (hg : (h.handleTransition id τ).guestConnections id' = some g) :
    h.guestConnections id' = some g := by
  unfold handleTransition at hg
  have hconn : ({ h with groups := fun n => (h.groups n).erase id } :
      HostTransceiver S V).guestConnections = h.guestConnections := rfl
  generalize ({ h with groups := fun n => (h.groups n).erase id } : HostTransceiver S V) = h₁
    at hg hconn
  have hs := (stays_removes (removes_cleanup (h := h₁) (τ := τ) id
    h₁.poolTypes)).guestConnections.trans hconn
  simp only at hg
  generalize cleanup τ id h₁.poolTypes h₁ = re at hs hg
  obtain ⟨h₂, _ | u⟩ := re
  · exact (congrFun hs id').symm.trans hg
  · simp only [Function.update_apply] at hg
    split_ifs at hg
    exact (congrFun hs id').symm.trans hg

/-- The connections after a turn are those before it, but for the connection whose turn it is. -/
theorem guestConnections_finish_cases {ch : Channel} {r : Turn S V} {id' : ConnectionId}
    {g : GuestConnection} (hg : (h.finish id τ ch r).guestConnections id' = some g) :
    id' ≠ id ∧ h.guestConnections id' = some g ∨ id' = id ∧ g = ⟨r.connection, ch⟩ := by
  have hset : Function.update h.guestConnections id (some ⟨r.connection, ch⟩) id' = some g := by
    unfold finish at hg
    simp only at hg
    split_ifs at hg
    · exact guestConnections_handleTransition hg
    · exact hg
  rw [Function.update_apply] at hset
  split_ifs at hset with hid
  · exact .inr ⟨hid, (Option.some.inj hset).symm⟩
  · exact .inl ⟨hid, hset⟩

theorem Receiving.finish (hr : h.Receiving) {ch : Channel} {r : Turn S V}
    (hch : r.connection.state ≠ .closed → ch.asyncReceiving = true) :
    (h.finish id τ ch r).Receiving := by
  intro id' g hg hst
  rcases guestConnections_finish_cases hg with ⟨-, hg'⟩ | ⟨-, rfl⟩
  · exact hr id' g hg' hst
  · exact hch hst

theorem Receiving.receive (hr : h.Receiving) (t : Transmission S V) :
    (h.receive id τ t).Receiving := by
  unfold HostTransceiver.receive
  split
  · exact hr
  rename_i g hg
  have hclosed (what : String) := (Turn.closes_handleError (o := (Owner.silent : Owner S V))
    (τ := τ) (Connection.keeps_refl (c := g.connection)) what).1
  split_ifs
  · exact hr
  · exact hr.finish fun hne => absurd (hclosed _) hne
  unfold processReceive
  split
  · rename_i ch registry what _
    have hreg : ({ h with registry } : HostTransceiver S V).Receiving := hr
    exact hreg.finish fun hne => absurd (hclosed _) hne
  · rename_i ch registry u _
    have hreg : ({ h with registry } : HostTransceiver S V).Receiving := hr
    generalize ({ h with registry } : HostTransceiver S V) = h₁ at hreg
    simp only
    refine Receiving.finish ?_ fun hne => ?_
    · split
      · exact hreg
      · intro id' g' hg' hst
        rw [guestConnections_handleTransmission] at hg'
        exact hreg id' g' hg' hst
    · have hnone := Connection.accepted_of_open hne
      rw [hnone]
      simpa using hne

theorem Receiving.accept (hr : h.Receiving) (a : Option AuthManager) :
    (h.accept τ a).Receiving := by
  unfold HostTransceiver.accept
  simp only
  split
  · exact hr
  · exact Receiving.finish (h := { h with nextGuestId := h.nextGuestId + 1 }) hr fun _ => rfl

theorem Receiving.channelError (hr : h.Receiving) (what : String) :
    (h.channelError id τ what).Receiving := by
  unfold HostTransceiver.channelError
  split
  · exact hr
  · rename_i g hg
    exact hr.finish fun hne => absurd (Turn.closes_handleError (o := (Owner.silent : Owner S V))
      (τ := τ) (Connection.keeps_refl (c := g.connection)) what).1 hne

/-! ## Instances of registered types -/

/-- Only instances of registered types are cached, each with who updated it last, and when. -/
structure Stocked (h : HostTransceiver S V) : Prop where
  registered : ∀ n, h.registry.findStructType n = none → ∀ k, (h.pool n).lookup k = none
  stamped : ∀ n k e, (h.pool n).lookup k = some e → e.Stamped

/-- The registry is the same, and what comes into the containers may be there. -/
structure Admits (h h' : HostTransceiver S V) : Prop where
  registry : h'.registry = h.registry
  nextGuestId : h'.nextGuestId = h.nextGuestId
  stocked : h.Stocked → h'.Stocked

theorem Admits.refl (h : HostTransceiver S V) : Admits h h := ⟨rfl, rfl, fun hr => hr⟩

theorem Admits.trans (a : Admits h h') (b : Admits h' h'') : Admits h h'' :=
  ⟨b.registry.trans a.registry, b.nextGuestId.trans a.nextGuestId,
    fun hr => b.stocked (a.stocked hr)⟩

theorem admits_of_eq (hreg : h'.registry = h.registry) (hnext : h'.nextGuestId = h.nextGuestId)
    (hpool : h'.pool = h.pool) : Admits h h' :=
  ⟨hreg, hnext, fun hs => ⟨fun n hn k => by rw [hpool]; rw [hreg] at hn; exact hs.registered n hn k,
    fun n k e he => by rw [hpool] at he; exact hs.stamped n k e he⟩⟩

theorem dispatchAndTransmit_frame (t : Transmission S V) :
    (h.dispatchAndTransmit τ t).1.pool = (h.pool.dispatchEvent t τ).1 ∧
      (h.dispatchAndTransmit τ t).1.registry = h.registry ∧
      (h.dispatchAndTransmit τ t).1.nextGuestId = h.nextGuestId := by
  have hd := (dispatch_frame (t := t) (τ := τ) h).2.2.2
  have hr : (h.dispatch τ t).1.registry = h.registry ∧
      (h.dispatch τ t).1.nextGuestId = h.nextGuestId := by
    simp only [dispatch]
    split <;> exact ⟨rfl, rfl⟩
  unfold dispatchAndTransmit
  split <;> rename_i h₁ r he <;> rw [he] at hd hr <;> exact ⟨hd, hr⟩

theorem admits_dispatchAndTransmit (hm : t.Marked)
    (ht : (h.registry.findStructType t.instance_.typeName).isSome = true ∨
      t.header.removeObj = some true) : Admits h (h.dispatchAndTransmit τ t).1 := by
  obtain ⟨hpool, hreg, hnext⟩ := dispatchAndTransmit_frame (h := h) (τ := τ) t
  -- an instance that is in the container afterwards was there before, or has been stored now
  have hlookup (n : String) (k : List (Option V)) (e : Clone V (S.descriptor n))
      (he : ((h.dispatchAndTransmit τ t).1.pool n).lookup k = some e) :
      (∃ e', (h.pool n).lookup k = some e' ∧ (e'.Stamped → e.Stamped)) ∨
        (h.registry.findStructType n).isSome = true ∧ e.Stamped := by
    rw [hpool] at he
    cases hc : t.instance_.cached with
    | false =>
      rw [ContainerPool.dispatchEvent_of_not_cached hc] at he
      exact .inl ⟨e, he, fun h => h⟩
    | true =>
      obtain ⟨m, x, hx, hm'⟩ := ContainerPool.exists_struct_of_cached hc
      rw [ContainerPool.dispatchEvent_fst hx hm'] at he
      by_cases hn : n = m
      swap
      · exact .inl ⟨e, by rwa [ContainerPool.set_of_ne _ _ hn] at he, fun h => h⟩
      subst hn
      rw [ContainerPool.set_self] at he
      by_cases hk : k = x.key
      · subst hk
        rw [ContainerPool.lookup_apply_self] at he
        split_ifs at he with hrem
        obtain rfl := Option.some.inj he
        obtain ⟨hsender, htime⟩ := hm.stamped hc
        refine .inr ⟨?_, ?_⟩
        · simpa [hx, AnyStruct.typeName] using ht.resolve_right hrem
        · cases (h.pool n).lookup x.key <;> exact ⟨htime, hsender⟩
      · exact .inl ⟨e, by rwa [ContainerPool.lookup_apply_of_ne hk] at he, fun h => h⟩
  refine ⟨hreg, hnext, fun hr => ⟨fun n hn k => ?_, fun n k e he => ?_⟩⟩
  · rw [hreg] at hn
    by_contra hne
    obtain ⟨e, he⟩ := Option.ne_none_iff_exists'.mp hne
    rcases hlookup n k e he with ⟨e', he', -⟩ | ⟨hsome, -⟩
    · rw [hr.registered n hn k] at he'
      cases he'
    · rw [hn] at hsome
      cases hsome
  · rcases hlookup n k e he with ⟨e', he', himp⟩ | ⟨-, hst⟩
    · exact himp (hr.stamped n k e' he')
    · exact hst

theorem admits_removes (r : Removes h h') : Admits h h' :=
  r.relates (R := Admits) Admits.refl (fun _ _ _ => Admits.trans) fun _ _ _ hp =>
    admits_dispatchAndTransmit ⟨fun _ => ⟨rfl, rfl⟩, fun _ hm => by cases hm⟩
      (.inr (congrArg some hp))

theorem admits_handleTransmission (hm : t.Marked)
    (ht : (h.registry.findStructType t.instance_.typeName).isSome = true) :
    Admits h (h.handleTransmission id τ t).1 := by
  unfold handleTransmission
  split
  · rw [handleMemberMessage_fst]
    exact admits_of_eq rfl rfl rfl
  · exact admits_of_eq rfl rfl rfl
  · unfold handleEchoRequest
    split_ifs <;> exact admits_of_eq rfl rfl rfl
  · rename_i m _
    have hc : Admits h (h.handleClearCache τ m).1 := by
      unfold handleClearCache
      split
      · exact .refl _
      · exact admits_removes (removes_clearTypes _ _)
    generalize h.handleClearCache τ m = re at hc
    obtain ⟨h', _ | u⟩ := re
    · exact hc
    · exact hc.trans (admits_dispatchAndTransmit hm (.inl (by rw [hc.registry]; exact ht)))
  · exact admits_dispatchAndTransmit hm (.inl ht)

theorem admits_handleTransition : Admits h (h.handleTransition id τ) := by
  unfold handleTransition
  have herase : Admits h { h with groups := fun n => (h.groups n).erase id } :=
    admits_of_eq rfl rfl rfl
  generalize ({ h with groups := fun n => (h.groups n).erase id } : HostTransceiver S V) = h₁
    at herase
  have hclean := admits_removes (removes_cleanup (h := h₁) (τ := τ) id h₁.poolTypes)
  simp only
  generalize cleanup τ id h₁.poolTypes h₁ = re at hclean
  obtain ⟨h₂, _ | u⟩ := re
  · exact herase.trans hclean
  · exact (herase.trans hclean).trans (admits_of_eq rfl rfl rfl)

theorem admits_finish (id : ConnectionId) (ch : Channel) (r : Turn S V) : Admits h (h.finish id τ ch r) := by
  have hset : Admits h { h.send id r.sent with
      guestConnections := Function.update h.guestConnections id (some ⟨r.connection, ch⟩) } :=
    admits_of_eq rfl rfl rfl
  unfold finish
  simp only
  split_ifs
  · exact hset.trans admits_handleTransition
  · exact hset

/-- **A transmission arrives**: what is registered stays so, and only that is cached. -/
theorem stocked_receive (id : ConnectionId) (hs : h.Sound) (hw : t.wire = t) (hr : h.Stocked) :
    h.registry.Extends (h.receive id τ t).registry ∧
      (h.receive id τ t).nextGuestId = h.nextGuestId ∧ (h.receive id τ t).Stocked := by
  unfold receive
  split
  · exact ⟨fun _ _ hd => hd, rfl, hr⟩
  rename_i g hg
  split_ifs with hasync hknown
  · exact ⟨fun _ _ hd => hd, rfl, hr⟩
  · have ha := admits_finish (h := h) (τ := τ) id
      { g.channel with asyncReceiving := false } (Turn.handleError .silent
        { connection := g.connection } τ ("encountered unknown type: " ++ t.header.typeName))
    exact ⟨by rw [ha.registry]; exact fun _ _ hd => hd, ha.nextGuestId, ha.stocked hr⟩
  have hext := Channel.importDependencies_extends g.channel h.registry t.instance_
  have hreg' (registry : Registry) (hx : h.registry.Extends registry) :
      ({ h with registry } : HostTransceiver S V).Stocked :=
    ⟨fun n hn k => hr.registered n (hx.findStructType hn) k, hr.stamped⟩
  unfold processReceive
  split <;> rename_i ch registry what himport <;> rw [himport] at hext
  · have ha := admits_finish (h := { h with registry }) (τ := τ) id
      { ch with asyncReceiving := false }
      (Turn.handleError .silent { connection := g.connection } τ what)
    exact ⟨by rw [ha.registry]; exact hext, ha.nextGuestId, ha.stocked (hreg' registry hext)⟩
  · have hreg := hreg' registry hext
    have hsome : (registry.findStructType t.instance_.typeName).isSome = true := by
      rw [← t.typed]
      by_contra hn
      exact hknown (by
        rw [Option.isNone_iff_eq_none]
        exact hext.findStructType (by simpa using hn))
    simp only
    generalize hh : ({ h with registry } : HostTransceiver S V) = h₁ at hreg
    have hmid : Admits h₁ (match (g.connection.processReceive (h₁.owner id τ) τ t).1.received with
        | [] => h₁
        | u :: _ => (h₁.handleTransmission id τ u).1) := by
      split
      · exact .refl h₁
      · rename_i u us hu
        obtain ⟨-, hsys, hkeys, rfl⟩ := Connection.of_received (hu ▸ List.mem_cons_self)
        have hself := (hs.known id g (Set.notMem_empty _) hg).hostSide.1
        refine admits_handleTransmission (sendable_stamped hw hsys hkeys hself).marked ?_
        rw [← hh]
        exact hsome
    have hregistry : h₁.registry = registry ∧ h₁.nextGuestId = h.nextGuestId := by
      rw [← hh]
      exact ⟨rfl, rfl⟩
    refine ⟨?_, ((admits_finish _ _ _).nextGuestId.trans hmid.nextGuestId).trans hregistry.2,
      (admits_finish _ _ _).stocked (hmid.stocked hreg)⟩
    refine Eq.subst (motive := h.registry.Extends) ?_ hext
    exact (((admits_finish _ _ _).registry.trans hmid.registry).trans hregistry.1).symm

/-! ## A channel fails, a channel is accepted -/

theorem tracks_channelError (hne : c ≠ id) (what : String) :
    Tracks n c h (h.channelError id τ what) := by
  unfold channelError
  split
  · exact .refl n c h
  · exact tracks_finish hne _ _

/-- A channel without a connection. -/
theorem channelError_of_absent {what : String} (hnone : h.guestConnections id = none) :
    h.channelError id τ what = h := by
  unfold channelError
  rw [hnone]

theorem closed_channelError (what : String) : (h.channelError id τ what).isOpen id = false := by
  unfold channelError
  split
  · rename_i hg
    simp [isOpen, hg]
  · rename_i g hg
    obtain ⟨hst, htr, -⟩ := Turn.closes_handleError (o := (Owner.silent : Owner S V)) (τ := τ)
      (Connection.keeps_refl (c := g.connection)) what
    exact (gone_finish hst (by rw [htr]; simp)).1

theorem admits_channelError (id : ConnectionId) (what : String) : Admits h (h.channelError id τ what) := by
  unfold channelError
  split
  · exact .refl h
  · exact admits_finish _ _ _

/-- **A channel is accepted**: the other connections do not see it, and the new one is a member of
no group. -/
theorem accept_spec (hs : h.Sound) (a : Option AuthManager) :
    (h.accept τ a).nextGuestId = h.nextGuestId + 1 ∧
      (h.accept τ a).registry = h.registry ∧ (h.accept τ a).pool = h.pool ∧
      (∀ n c, c ≠ h.nextGuestId → Tracks n c h (h.accept τ a)) ∧
      (h.accept τ a).isOpen h.nextGuestId = true ∧
      (∀ n, h.nextGuestId ∉ (h.accept τ a).groups n) ∧
      ∃ us, (h.accept τ a).outbox h.nextGuestId = h.outbox h.nextGuestId ++ us ∧
        (∀ t ∈ us, t.Marked) ∧ ∀ n, (S.descriptor n).cached = true → operations n us = [] := by
  obtain ⟨r, m, hr, hst, -, htr, -⟩ := Connection.asyncReceive_host (o := (.silent : Owner S V))
    (c := .host h.nextGuestId h.names) (τ := τ) (u := h.selfName) (a := a) rfl rfl
  have hd := Turn.does_asyncReceive hr
  have hsys := hd.sent (fun _ => rfl) (by simp)
  have hnames := hd.names (fun _ => rfl) (by simp)
  have huncached : ∀ u ∈ r.sent, u.instance_.cached = false := fun u hu =>
    cached_of_isSystem (hsys u hu)
  have hmarked : ∀ u ∈ r.sent, u.Marked := fun u hu =>
    Transmission.marked_of_not_cached (huncached u hu) fun m hm he => by
      rcases hnames u hu m hm with hnone | hsome
      · rw [hnone] at he
        cases he
      · exact absurd (Option.some.inj (hsome.symm.trans he)) (ne_of_gt hs.host_lt)
  have haccept : h.accept τ a =
      { ({ h with nextGuestId := h.nextGuestId + 1 } : HostTransceiver S V).send h.nextGuestId
          r.sent with
        guestConnections :=
          Function.update h.guestConnections h.nextGuestId (some ⟨r.connection, {}⟩) } := by
    unfold accept finish
    simp only [hr, htr]
    rfl
  rw [haccept]
  refine ⟨rfl, rfl, rfl, fun n c hne => ?_, ?_, fun n => ?_, r.sent.map .wire, ?_, fun t ht => ?_,
    fun n hn => operations_map_wire huncached hn⟩
  · exact tracks_of_eq (by simp [isOpen, Function.update_of_ne hne]) Iff.rfl rfl
      (by simp [send, Function.update_of_ne hne])
  · simp [isOpen, hst]
  · exact (hs.absent h.nextGuestId le_rfl).2.1 n
  · simp [send]
  · obtain ⟨u, hu, rfl⟩ := List.mem_map.mp ht
    exact (hmarked u hu).wire

end HostTransceiver

end Dots

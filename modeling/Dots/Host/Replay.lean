import Dots.Container.Replica
import Dots.Host.Model

/-!
# What a member message does

* `Clone.Stamped`: the clone information has what `transmitContainer` reads.
* `replays`: what `transmitContainer` sends of a list of clones; `operations_replays`.
* `memberGroups`, `memberReplies`: the groups after a member message, and what is sent for it.
  **`handleMemberMessage_fst`**, `handleMemberMessage_snd`.
* **`drain_clones_self`**: a replay to a replica that is up to date does nothing.
-/

set_option autoImplicit false
set_option linter.unusedSectionVars false

namespace Dots

open Replica

variable {S : Schema} {V : Type} {d : StructDescriptor}

/-- The clone information that a replay reads is valid. -/
def Clone.Stamped (e : Clone V d) : Prop :=
  e.2.modified.isSome = true ∧ e.2.lastUpdateFrom.isSome = true

instance (e : Clone V d) : Decidable e.Stamped := inferInstanceAs (Decidable (_ ∧ _))

variable [Ord V] [Std.TransOrd V] [Std.LawfulEqOrd V]

namespace HostTransceiver

variable {h : HostTransceiver S V} {id : ConnectionId} {τ : Timepoint} {n : String}

theorem send_nil : h.send id [] = h := by
  simp [send]

theorem send_send (ts us : List (Transmission S V)) :
    (h.send id ts).send id us = h.send id (ts ++ us) := by
  simp [send, List.append_assoc]

/-- A dispatch changes the pool and nothing that a connection sees. -/
theorem dispatch_frame {t : Transmission S V} (h : HostTransceiver S V) :
    (h.dispatch τ t).1.groups = h.groups ∧
      (h.dispatch τ t).1.guestConnections = h.guestConnections ∧
      (h.dispatch τ t).1.outbox = h.outbox ∧
      (h.dispatch τ t).1.pool = (h.pool.dispatchEvent t τ).1 := by
  simp only [HostTransceiver.dispatch]
  split <;> exact ⟨rfl, rfl, rfl, rfl⟩

/-! ## Replays -/

/-- What `transmitContainer` sends of a list of clones: it stops at one that it cannot read. -/
def replays (now : Timepoint) (n : String) :
    List (Clone V (S.descriptor n)) → List (Transmission S V)
  | [] => []
  | e :: es =>
    match e.2.modified, e.2.lastUpdateFrom with
    | some modified, some lastUpdateFrom =>
      replay now n e.1 modified lastUpdateFrom es.length :: replays now n es
    | _, _ => []

theorem transmitClones_fst (id : ConnectionId) (es : List (Clone V (S.descriptor n))) :
    (transmitClones id τ n es h).1 = h.send id (replays τ n es) := by
  induction es generalizing h with
  | nil => exact send_nil.symm
  | cons e es ih =>
    cases hm : e.2.modified with
    | none => simp only [transmitClones, replays, hm, send_nil]
    | some modified =>
      cases hl : e.2.lastUpdateFrom with
      | none => simp only [transmitClones, replays, hm, hl, send_nil]
      | some lastUpdateFrom =>
        simp only [transmitClones, replays, hm, hl, ih, send_send, List.singleton_append]

theorem transmitClones_snd (id : ConnectionId) {es : List (Clone V (S.descriptor n))} :
    (transmitClones id τ n es h).2 = .ok () ↔ ∀ e ∈ es, e.Stamped := by
  induction es generalizing h with
  | nil => simp [transmitClones]
  | cons e es ih =>
    rw [List.forall_mem_cons]
    cases hm : e.2.modified with
    | none => simp [transmitClones, Clone.Stamped, hm]
    | some modified =>
      cases hl : e.2.lastUpdateFrom with
      | none => simp [transmitClones, Clone.Stamped, hm, hl]
      | some lastUpdateFrom => simp [transmitClones, Clone.Stamped, hm, hl, ih]

theorem wire_replay (x : Struct V (S.descriptor n)) (modified : Timepoint)
    (lastUpdateFrom : ConnectionId) (k : ℕ) :
    (replay τ n x modified lastUpdateFrom k).wire =
      replay τ n x modified lastUpdateFrom k := by
  refine Transmission.ext rfl ?_
  change AnyStruct.struct n (x.restrict x.validProperties) = .struct n x
  rw [← Struct.restrict_eq_self_iff.mpr subset_rfl]

theorem operation_replay {e : Clone V (S.descriptor n)} {modified : Timepoint}
    {lastUpdateFrom : ConnectionId} (hm : e.2.modified = some modified)
    (hl : e.2.lastUpdateFrom = some lastUpdateFrom) (k : ℕ) :
    operation n (replay τ n e.1 modified lastUpdateFrom k) = some (cloneOp e) := by
  rw [operation_struct rfl]
  simp only [structOp, cloneOp, replay, Option.some.injEq, Op.mk.injEq, true_and]
  funext v
  cases v <;> simp [storedView, Clone.view, hm, hl]

/-- What is replayed are clones of the list. -/
theorem exists_of_mem_replays {es : List (Clone V (S.descriptor n))} {t : Transmission S V}
    (ht : t ∈ replays τ n es) :
    ∃ e ∈ es, ∃ modified lastUpdateFrom k, e.2.modified = some modified ∧
      e.2.lastUpdateFrom = some lastUpdateFrom ∧
      t = replay τ n e.1 modified lastUpdateFrom k := by
  induction es with
  | nil => exact absurd ht List.not_mem_nil
  | cons e es ih =>
    cases hm : e.2.modified with
    | none => simp [replays, hm] at ht
    | some modified =>
      cases hl : e.2.lastUpdateFrom with
      | none => simp [replays, hm, hl] at ht
      | some lastUpdateFrom =>
        simp only [replays, hm, hl] at ht
        rcases List.mem_cons.mp ht with rfl | ht
        · exact ⟨e, List.mem_cons_self, _, _, _, hm, hl, rfl⟩
        · obtain ⟨e', he', hex⟩ := ih ht
          exact ⟨e', List.mem_cons_of_mem _ he', hex⟩

theorem fromCache_of_mem_replays {es : List (Clone V (S.descriptor n))} {t : Transmission S V}
    (ht : t ∈ replays τ n es) : t.header.fromCache.isSome = true := by
  obtain ⟨e, -, modified, lastUpdateFrom, k, -, -, rfl⟩ := exists_of_mem_replays ht
  rfl

theorem map_wire_replays (es : List (Clone V (S.descriptor n))) :
    (replays τ n es).map .wire = replays τ n es := by
  refine (List.map_congr_left fun t ht => ?_).trans (List.map_id _)
  obtain ⟨e, -, modified, lastUpdateFrom, k, -, -, rfl⟩ := exists_of_mem_replays ht
  exact wire_replay ..

theorem ofType_replays {n' : String} (es : List (Clone V (S.descriptor n'))) :
    ofType n (replays τ n' es) = if n' = n then replays τ n' es else [] := by
  have htype (t : Transmission S V) (ht : t ∈ replays τ n' es) :
      t.instance_.typeName = n' := by
    obtain ⟨e, -, modified, lastUpdateFrom, k, -, -, rfl⟩ := exists_of_mem_replays ht
    rfl
  split_ifs with he
  · exact List.filter_eq_self.mpr fun t ht => by simp [htype t ht, he]
  · exact List.filter_eq_nil_iff.mpr fun t ht => by simp [htype t ht, he]

/-- The operations of a replay, of all clones if all are stamped. -/
theorem operations_replays {es : List (Clone V (S.descriptor n))} (hs : ∀ e ∈ es, e.Stamped) :
    operations n (replays τ n es) = es.map cloneOp := by
  induction es with
  | nil => rfl
  | cons e es ih =>
    obtain ⟨he, hs⟩ := List.forall_mem_cons.mp hs
    obtain ⟨modified, hm⟩ := Option.isSome_iff_exists.mp he.1
    obtain ⟨lastUpdateFrom, hl⟩ := Option.isSome_iff_exists.mp he.2
    have htail := ih hs
    simp only [operations] at htail
    simp only [replays, hm, hl, operations, List.filterMap_cons, operation_replay hm hl, htail,
      List.map_cons]

/-- **A replay to a replica that is up to date** does nothing, whether or not it is complete. -/
theorem drain_replays_self (c : Container V (S.descriptor n)) :
    drain c.view (operations n (replays τ n c.clones)) = c.view := by
  refine drain_of_forall_apply fun o ho => ?_
  obtain ⟨t, ht, hop⟩ := List.mem_filterMap.mp ho
  obtain ⟨e, he, modified, lastUpdateFrom, k, hm, hl, rfl⟩ := exists_of_mem_replays ht
  rw [operation_replay hm hl] at hop
  obtain rfl := Option.some.inj hop
  exact cloneOp_apply_self (Container.mem_clones.mp he)

/-! ## Member messages -/

/-- The groups after a member message. -/
def memberGroups (groups : String → Finset ConnectionId) (id : ConnectionId) (m : DotsMember) :
    String → Finset ConnectionId :=
  match m.groupName, m.event with
  | some n, some .join => Function.update groups n (insert id (groups n))
  | some n, some .leave => Function.update groups n ((groups n).erase id)
  | _, _ => groups

/-- Only a leave of its own takes a member out of a group. -/
theorem mem_memberGroups {groups : String → Finset ConnectionId} {c : ConnectionId}
    {m : DotsMember} (hm : id = c → m.groupName = some n → m.event ≠ some .leave)
    (hc : c ∈ groups n) : c ∈ memberGroups groups id m n := by
  obtain ⟨_ | n', _ | ev, client⟩ := m
  · exact hc
  · exact hc
  · exact hc
  by_cases hnn : n = n'
  swap
  · cases ev <;> simpa [memberGroups, Function.update_of_ne hnn] using hc
  subst hnn
  cases ev with
  | kill => exact hc
  | leave =>
    simp only [memberGroups, Function.update_self]
    exact Finset.mem_erase.mpr ⟨fun h => hm h.symm rfl rfl, hc⟩
  | join =>
    simp only [memberGroups, Function.update_self]
    exact Finset.mem_insert_of_mem hc

/-- What is sent for a member message. -/
def memberReplies (h : HostTransceiver S V) (now : Timepoint) (m : DotsMember) :
    List (Transmission S V) :=
  match m.groupName, m.event with
  | some n, some .join =>
    if (h.registry.findStructType n).isSome ∧ (S.descriptor n).cached then
      replays now n (h.pool n).clones ++
        if ∀ e ∈ (h.pool n).clones, e.Stamped then
          let x : AnyStruct S V := .cacheInfo { typeName := some n, endTransmission := some true }
          [.ofInstance x x.validProperties now false]
        else []
    else []
  | _, _ => []

/-- **What is sent of a cached type** for a member message is the replay. -/
theorem ofType_memberReplies (hn : (S.descriptor n).cached = true) (m : DotsMember) :
    ofType n (h.memberReplies τ m) =
      if m.groupName = some n ∧ m.event = some .join ∧
        (h.registry.findStructType n).isSome = true then replays τ n (h.pool n).clones else [] := by
  have hinfo (i : DotsCacheInfo) : ofType n
      [Transmission.ofInstance (.cacheInfo i : AnyStruct S V)
        (AnyStruct.validProperties (.cacheInfo i : AnyStruct S V)) τ false] = [] := by
    refine List.filter_cons_of_neg ?_
    simp only [Transmission.ofInstance, beq_iff_eq]
    rintro rfl
    rw [S.internalTypes_not_cached _ (by simp [AnyStruct.typeName, internalTypes])] at hn
    cases hn
  obtain ⟨_ | n', _ | ev, client⟩ := m
  · rfl
  · rfl
  · simp [memberReplies, ofType]
  cases ev with
  | kill => simp [memberReplies, ofType]
  | leave => simp [memberReplies, ofType]
  | join =>
    simp only [memberReplies, Option.some.injEq, true_and]
    by_cases hnn : n' = n
    · subst hnn
      simp only [hn, and_true, true_and]
      split_ifs
      · rw [ofType_append, hinfo, ofType_replays, if_pos rfl, List.append_nil]
      · rw [List.append_nil, ofType_replays, if_pos rfl]
      · rfl
    · simp only [hnn, false_and, if_false]
      split_ifs
      · rw [ofType_append, hinfo, ofType_replays, if_neg hnn]
        rfl
      · rw [List.append_nil, ofType_replays, if_neg hnn]
      · rfl

/-- What arrives of it. -/
theorem ofType_replies (hn : (S.descriptor n).cached = true) (m : DotsMember) :
    ofType n ((h.memberReplies τ m).map .wire) =
      if m.groupName = some n ∧ m.event = some .join ∧
        (h.registry.findStructType n).isSome = true then replays τ n (h.pool n).clones else [] := by
  rw [ofType_map_wire, ofType_memberReplies hn]
  split_ifs
  · exact map_wire_replays _
  · rfl

theorem joinGroup_fst : (h.joinGroup id τ n).1 =
    { h.send id (h.memberReplies τ { groupName := some n, event := some .join }) with
      groups := Function.update h.groups n (insert id (h.groups n)) } := by
  simp only [joinGroup, memberReplies]
  split_ifs with hc hs
  · -- the whole container, then the end of the transmission
    have hfst := transmitClones_fst id (τ := τ) (h :=
      { h with groups := Function.update h.groups n (insert id (h.groups n)) }) (h.pool n).clones
    have hsnd := (transmitClones_snd id (τ := τ) (h :=
      { h with groups := Function.update h.groups n (insert id (h.groups n)) })).mpr hs
    unfold transmitContainer
    generalize transmitClones id τ n (h.pool n).clones _ = re at hfst hsnd
    obtain ⟨h', r⟩ := re
    subst hfst hsnd
    simp only [sendInstance, send_send]
    rfl
  · have hfst := transmitClones_fst id (τ := τ) (h :=
      { h with groups := Function.update h.groups n (insert id (h.groups n)) }) (h.pool n).clones
    have hsnd := (transmitClones_snd id (τ := τ) (h :=
      { h with groups := Function.update h.groups n (insert id (h.groups n)) })).not.mpr hs
    unfold transmitContainer
    generalize transmitClones id τ n (h.pool n).clones _ = re at hfst hsnd
    obtain ⟨h', _ | u⟩ := re
    · subst hfst
      rw [List.append_nil]
      rfl
    · exact absurd rfl hsnd
  · rw [send_nil]

theorem joinGroup_snd (hs : ∀ e ∈ (h.pool n).clones, e.Stamped) :
    (h.joinGroup id τ n).2 = .ok () := by
  simp only [joinGroup]
  split_ifs
  · have hsnd := (transmitClones_snd id (τ := τ) (h :=
      { h with groups := Function.update h.groups n (insert id (h.groups n)) })).mpr hs
    unfold transmitContainer
    generalize transmitClones id τ n (h.pool n).clones _ = re at hsnd
    obtain ⟨h', _ | u⟩ := re
    · cases hsnd
    · rfl
  · rfl

/-- **A member message** changes the groups and answers the guest, and that is all. -/
theorem handleMemberMessage_fst (id : ConnectionId) (m : DotsMember) :
    (h.handleMemberMessage id τ m).1 =
      { h.send id (h.memberReplies τ m) with groups := memberGroups h.groups id m } := by
  obtain ⟨groupName, event, client⟩ := m
  cases groupName with
  | none => simp [handleMemberMessage, memberReplies, memberGroups, send_nil]
  | some n =>
    cases event with
    | none => simp [handleMemberMessage, memberReplies, memberGroups, send_nil]
    | some ev =>
      cases ev with
      | kill => simp [handleMemberMessage, memberReplies, memberGroups, send_nil]
      | leave => simp [handleMemberMessage, memberReplies, memberGroups, send_nil]
      | join =>
        simp only [handleMemberMessage, memberReplies, memberGroups]
        exact joinGroup_fst

/-- A complete member message about stamped clones is handled without an exception. -/
theorem handleMemberMessage_snd {m : DotsMember} (hg : m.groupName.isSome = true)
    (he : m.event.isSome = true) (hs : ∀ n, ∀ e ∈ (h.pool n).clones, e.Stamped) :
    (h.handleMemberMessage id τ m).2 = .ok () := by
  obtain ⟨_ | n, _ | ev, client⟩ := m
  · exact Bool.noConfusion hg
  · exact Bool.noConfusion hg
  · exact Bool.noConfusion he
  · cases ev with
    | kill => rfl
    | leave => rfl
    | join => exact joinGroup_snd (hs n)

end HostTransceiver

end Dots

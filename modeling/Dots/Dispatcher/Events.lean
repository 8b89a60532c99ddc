import Dots.Dispatcher.Law

/-!
# The event stream of a handler reconstructs the container

Folding the events a handler receives into a map of instances, a create or an update storing the
updated instance and a remove erasing it, gives the container of the type. It needs the initial
replay to be complete: `addEventHandler` does not catch what the handler throws, and a handler
that throws keeps its registration with part of the container missing.

* `View`, `Event.apply`, `view`: the fold. `WellFormed`: creates are of absent keys, updates and
  removes of present ones.
* **`dispatchEvent_spec`**: the container operation of a dispatch, as an event.
* `Machine.Reconstructs`: what holds of every handler at every point.
* **`reconstructs_of_run`**: it holds in the runs with complete replays.
-/

set_option autoImplicit false
set_option linter.unusedSectionVars false

namespace Dots

variable {S : Schema} {V : Type} [Ord V] [Std.TransOrd V] [Std.LawfulEqOrd V]

/-! ## Folding events -/

variable (S V) in
/-- A key-indexed map of instances. -/
abbrev View := List (Option V) → Option (AnyStruct S V)

/-- The map with another entry under one key. -/
def View.set (v : View S V) (k : List (Option V)) (x : Option (AnyStruct S V)) : View S V :=
  fun k' => if compare k k' = .eq then x else v k'

@[simp] theorem View.set_self (v : View S V) (k : List (Option V)) (x : Option (AnyStruct S V)) :
    v.set k x k = x := by
  simp [View.set]

theorem View.set_of_ne (v : View S V) {k k' : List (Option V)} (x : Option (AnyStruct S V))
    (h : k' ≠ k) : v.set k x k' = v k' :=
  if_neg fun hc => h (Std.LawfulEqOrd.eq_of_compare hc).symm

/-- Take in the updated instance of a create or an update, erase on a remove. -/
def Event.apply (e : Event S V) (v : View S V) : View S V :=
  v.set e.updated.key (if e.mt = .remove then none else some e.updated)

/-- The fold of a list of events, the last one first. -/
def view (es : List (Event S V)) : View S V := es.foldr Event.apply fun _ => none

/-- A create is of a key absent before, an update or a remove of a key present before. -/
def Event.Fits (e : Event S V) (v : View S V) : Prop := e.mt = .create ↔ v e.updated.key = none

/-- Every event fits what the events before it give. -/
def WellFormed : List (Event S V) → Prop
  | [] => True
  | e :: es => e.Fits (view es) ∧ WellFormed es

/-- The instances of a container. -/
def Container.contents {n : String} (c : Container V (S.descriptor n)) : View S V := fun k =>
  (c.lookup k).map fun e => .struct n e.1

/-- The container up to a key. -/
def Container.upTo {n : String} (c : Container V (S.descriptor n)) (k : List (Option V)) :
    View S V := fun k' =>
  if compare k' k = .gt then none else c.contents k'

/-- The events a handler has received, the last one first. -/
def received (log : List (Note S V)) (id : HandlerId) : List (Event S V) :=
  log.filterMap fun
    | .invoked id' _ (.event _ e) => if id' = id then some e else none
    | _ => none

/-! ## The law -/

/-- A handler follows the container of its type: its events fit, and their fold is the container.
Between the container operation and its own invocation it lacks the one event that is being
dispatched, and in its initial replay it has the container up to the key where the replay stands. -/
structure Follows (m : Machine S V) (n : String) (id : HandlerId) : Prop where
  wellFormed : WellFormed (received m.log id)
  uptodate : (∀ i e p, .loop i (.event n e) p ∈ m.stack → p ≤ id) →
    (∀ node fromCache, .replay n id node fromCache ∉ m.stack) →
    view (received m.log id) = (m.dispatcher.containerPool n).contents
  owed : ∀ i e p, .loop i (.event n e) p ∈ m.stack → id < p →
    e.Fits (view (received m.log id)) ∧
      e.apply (view (received m.log id)) = (m.dispatcher.containerPool n).contents
  replaying : ∀ k fromCache, .replay n id (some k) fromCache ∈ m.stack →
    view (received m.log id) = (m.dispatcher.containerPool n).upTo k

/-- **The event law** in a state: every handler of a cached type follows its container. -/
def Machine.Reconstructs (m : Machine S V) : Prop :=
  ∀ n id, (S.descriptor n).cached = true → id ∈ m.dispatcher.handlers .event n → Follows m n id

/-- Outside of all dispatches every handler has the container. -/
theorem Machine.Reconstructs.of_stack_nil {m : Machine S V} (h : m.Reconstructs)
    (hs : m.stack = []) {n : String} {id : HandlerId} (hc : (S.descriptor n).cached = true)
    (hid : id ∈ m.dispatcher.handlers .event n) :
    view (received m.log id) = (m.dispatcher.containerPool n).contents :=
  (h n id hc hid).uptodate (by simp [hs]) (by simp [hs])

/-- The calls of handlers that do not publish and that throw in no replay with instances left. -/
def Machine.Quiet (m : Machine S V) : Call S V → Prop
  | .dispatch _ _ => m.stack = []
  | .finish threw _ => threw = true → ∀ n id k fromCache rest,
      m.stack = .replay n id (some k) fromCache :: rest → m.nextClone n k = none
  | c => m.Safe c

/-! ## A dispatch as an event -/

section Spec

variable {pool : ContainerPool S V} {t : Transmission S V} {now : Timepoint}

theorem contents_insert {n : String} (c : Container V (S.descriptor n)) (h : DotsHeader)
    (x : Struct V (S.descriptor n)) :
    (c.insert h x now).1.contents = c.contents.set x.key (some (.struct n (c.insert h x now).2.1)) := by
  funext k
  by_cases hk : k = x.key
  · subst hk
    simp [Container.contents, Container.lookup_insert_self]
  · rw [View.set_of_ne _ _ hk]
    simp [Container.contents, Container.lookup_insert_of_ne hk]

theorem contents_remove {n : String} (c : Container V (S.descriptor n)) (h : DotsHeader)
    (x : Struct V (S.descriptor n)) :
    (c.remove h x now).1.contents = c.contents.set x.key none := by
  funext k
  by_cases hk : k = x.key
  · subst hk
    simp [Container.contents, Container.lookup_remove_self]
  · rw [View.set_of_ne _ _ hk]
    simp [Container.contents, Container.lookup_remove_of_ne hk]

/-- **The event of a dispatch of a cached type** is its effect on the container. -/
theorem dispatchEvent_spec {e : Event S V}
    (hc : (S.descriptor t.instance_.typeName).cached = true)
    (he : (pool.dispatchEvent t now).2 = .event e) :
    e.Fits (pool t.instance_.typeName).contents ∧
      e.apply (pool t.instance_.typeName).contents =
        ((pool.dispatchEvent t now).1 t.instance_.typeName).contents := by
  rw [← AnyStruct.cached_eq] at hc
  obtain ⟨n, x, ht, hn⟩ := ContainerPool.exists_struct_of_cached hc
  have hname : t.instance_.typeName = n := by rw [ht]; rfl
  rw [ContainerPool.dispatchEvent_struct ht hn] at he ⊢
  rw [hname]
  by_cases hr : t.header.removeObj = some true
  · -- a remove: there is an event only if the key was present
    cases hl : (pool n).lookup x.key with
    | none =>
      rw [ContainerPool.cachedEvent_remove_none hr hl] at he
      cases he
    | some c =>
      rw [ContainerPool.cachedEvent_remove_some hr hl] at he ⊢
      obtain rfl := EventResult.event.inj he
      have hkey : (c.1.updateWithoutKeys x t.header.attributes).key = x.key := by
        rw [Struct.key_updateWithoutKeys, Container.key_of_lookup hl]
      refine ⟨?_, ?_⟩
      · simp [Event.Fits, Event.of, AnyStruct.key, hkey, DotsCloneInformation.touch,
          Container.contents, hl]
      · show Event.apply _ _ = (pool.set n ((pool n).remove t.header x now).1 n).contents
        rw [ContainerPool.set_self, contents_remove]
        simp [Event.apply, Event.of, AnyStruct.key, DotsCloneInformation.touch, hkey]
  · rw [ContainerPool.cachedEvent_insert hr] at he ⊢
    have hkey : ((pool n).insert t.header x now).2.1.key = x.key :=
      (pool n).key_stored t.header x now
    obtain rfl := EventResult.event.inj he
    refine ⟨?_, ?_⟩
    · simp only [Event.Fits, Event.of, AnyStruct.key, hkey]
      cases hl : (pool n).lookup x.key with
      | none => simp [Container.contents, Container.stored, hl, DotsCloneInformation.created']
      | some c => simp [Container.contents, Container.stored, hl, DotsCloneInformation.touch]
    · show Event.apply _ _ = (pool.set n ((pool n).insert t.header x now).1 n).contents
      rw [ContainerPool.set_self, contents_insert]
      simp only [Event.apply, Event.of, AnyStruct.key, hkey]
      cases hl : (pool n).lookup x.key with
      | none => simp [Container.stored, hl, DotsCloneInformation.created']
      | some c => simp [Container.stored, hl, DotsCloneInformation.touch]

/-- A dispatch without an event changes no container. -/
theorem dispatchEvent_of_no_event (he : ∀ e, (pool.dispatchEvent t now).2 ≠ .event e) :
    (pool.dispatchEvent t now).1 = pool := by
  cases hc : t.instance_.cached with
  | false => rw [ContainerPool.dispatchEvent_of_not_cached hc]
  | true =>
    obtain ⟨m, x, ht, hm⟩ := ContainerPool.exists_struct_of_cached hc
    rw [ContainerPool.dispatchEvent_struct ht hm] at he ⊢
    by_cases hr : t.header.removeObj = some true
    · cases hl : (pool m).lookup x.key with
      | none => rw [ContainerPool.cachedEvent_remove_none hr hl]
      | some c =>
        rw [ContainerPool.cachedEvent_remove_some hr hl] at he
        exact absurd rfl (he _)
    · rw [ContainerPool.cachedEvent_insert hr] at he
      exact absurd rfl (he _)

/-- **Removing an absent key produces no event.** -/
theorem dispatchEvent_remove_absent {n : String} {x : Struct V (S.descriptor n)}
    (ht : t.instance_ = .struct n x) (hc : (S.descriptor n).cached = true)
    (hr : t.header.removeObj = some true) (hl : (pool n).lookup x.key = none) :
    (pool.dispatchEvent t now).2 = .none := by
  rw [ContainerPool.dispatchEvent_struct ht hc, ContainerPool.cachedEvent_remove_none hr hl]

end Spec

/-! ## The replay -/

section Replay

variable {m : Machine S V} {n : String} {e : Clone V (S.descriptor n)}

theorem contents_key {c : Container V (S.descriptor n)} (h : c.lookup e.1.key = some e) :
    c.contents e.1.key = some (.struct n e.1) := by
  simp [Container.contents, h]

theorem contents_eq_none {c : Container V (S.descriptor n)} {k : List (Option V)}
    (h : ∀ e', c.lookup e'.1.key = some e' → e'.1.key ≠ k) : c.contents k = none := by
  cases hl : c.lookup k with
  | none => simp [Container.contents, hl]
  | some e' =>
    have hk := Container.key_of_lookup hl
    exact absurd hk (h e' (hk.symm ▸ hl))

theorem gt_trans {a b k : List (Option V)} (hab : compare a b = .gt) (hbk : compare k b = .lt) :
    compare a k = .gt := by
  rw [Std.OrientedCmp.gt_iff_lt] at hab ⊢
  exact Std.TransCmp.lt_trans hbk hab

/-- The first replayed instance. -/
theorem set_first {c : Container V (S.descriptor n)} (h : c.clones.head? = some e) :
    View.set (fun _ => none) e.1.key (some (.struct n e.1)) = c.upTo e.1.key := by
  have hf : c.clones.find? (fun _ => true) = some e := by
    rw [← h]
    cases c.clones <;> rfl
  obtain ⟨-, hl, hmin⟩ := Container.find?_clones hf
  funext k
  unfold Container.upTo
  by_cases hk : k = e.1.key
  · subst hk
    rw [View.set_self, if_neg (by simp), contents_key hl]
  · rw [View.set_of_ne _ _ hk]
    split_ifs with hgt
    · rfl
    · refine (contents_eq_none fun e' hl' hk' => ?_).symm
      subst hk'
      rcases hmin e' hl' rfl with rfl | hlt
      · exact hk rfl
      · exact hgt (Std.OrientedCmp.gt_iff_lt.mpr hlt)

/-- **The next replayed instance.** -/
theorem set_next {k : List (Option V)} (h : m.nextClone n k = some e) :
    ((m.dispatcher.containerPool n).upTo k).set e.1.key (some (.struct n e.1)) =
      (m.dispatcher.containerPool n).upTo e.1.key := by
  obtain ⟨hlt, hl, hmin⟩ := Container.find?_clones h
  have hlt : compare k e.1.key = .lt := by simpa using hlt
  funext k'
  unfold Container.upTo
  by_cases hk : k' = e.1.key
  · subst hk
    rw [View.set_self, if_neg (by simp), contents_key hl]
  · rw [View.set_of_ne _ _ hk]
    by_cases hgt : compare k' e.1.key = .gt
    · rw [if_pos hgt, if_pos (gt_trans hgt hlt)]
    · rw [if_neg hgt]
      split_ifs with hgt'
      · -- between the two keys there is nothing
        refine (contents_eq_none fun e' hl' hk' => ?_).symm
        subst hk'
        rcases hmin e' hl' (by simp [Std.OrientedCmp.gt_iff_lt.mp hgt']) with rfl | hlt'
        · exact hk rfl
        · exact hgt (Std.OrientedCmp.gt_iff_lt.mpr hlt')
      · rfl

/-- The end of a replay. -/
theorem upTo_last {k : List (Option V)} (h : m.nextClone n k = none) :
    (m.dispatcher.containerPool n).upTo k = (m.dispatcher.containerPool n).contents := by
  funext k'
  unfold Container.upTo
  split_ifs with hgt
  · refine (contents_eq_none fun e' hl' hk' => ?_).symm
    subst hk'
    exact Container.find?_clones_none h hl' (by simp [Std.OrientedCmp.gt_iff_lt.mp hgt])
  · rfl

end Replay

/-! ## The invariant of the runs with complete replays -/

/-- Handlers do not publish: a loop stands only at the bottom of the stack, and the nodes that
replays stand on are not removed. -/
def LoopAtBottom : List (Frame S V) → Prop
  | [] => True
  | .replay _ _ node _ :: rest => node.isSome ∧ LoopAtBottom rest
  | .loop .. :: rest => rest = []

/-- **The invariant**: besides the law, the shape of the stack. -/
structure Heard (m : Machine S V) : Prop where
  reconstructs : m.Reconstructs
  descending : m.standing.Pairwise (· > ·)
  atBottom : LoopAtBottom m.stack
  unheard : ∀ id, m.dispatcher.nextId ≤ id → received m.log id = []

section Steps

variable {m m' : Machine S V} {n : String} {id : HandlerId} {e : Event S V} {b : HandlerId}
  {i : ℕ} {t : Transmission S V} {now : Timepoint}

theorem received_cons (x : Note S V) :
    received (x :: m.log) id =
      (match x with
        | .invoked id' _ (.event _ e) => if id' = id then [e] else []
        | _ => []) ++ received m.log id := by
  unfold received
  cases x with
  | invoked id' c item =>
    cases item with
    | transmission t => simp
    | event n e => by_cases h : id' = id <;> simp [h]
  | _ => simp

/-- Whether a handler follows its container depends on its own events and frames only. -/
theorem Follows.of_eq (h : Follows m n id)
    (hp : m'.dispatcher.containerPool n = m.dispatcher.containerPool n)
    (hr : received m'.log id = received m.log id)
    (hloop : ∀ i e p, .loop i (.event n e) p ∈ m'.stack ↔ .loop i (.event n e) p ∈ m.stack)
    (hreplay : ∀ node fc, .replay n id node fc ∈ m'.stack ↔ .replay n id node fc ∈ m.stack) :
    Follows m' n id where
  wellFormed := hr ▸ h.wellFormed
  uptodate hl hn := by
    rw [hr, hp]
    exact h.uptodate (fun i e p hm => hl i e p ((hloop i e p).mpr hm))
      fun node fc hm => hn node fc ((hreplay node fc).mpr hm)
  owed i e p hm hlt := by
    rw [hr, hp]
    exact h.owed i e p ((hloop i e p).mp hm) hlt
  replaying k fc hm := by
    rw [hr, hp]
    exact h.replaying k fc ((hreplay (some k) fc).mp hm)

/-- Where no event is being dispatched and nothing is replayed. -/
theorem follows_of_eq (hw : WellFormed (received m.log id))
    (hv : view (received m.log id) = (m.dispatcher.containerPool n).contents)
    (hs : ∀ f ∈ m.stack, f.kind = .transmission) : Follows m n id where
  wellFormed := hw
  uptodate _ _ := hv
  owed i e p hm _ := by cases hs _ hm
  replaying k fc hm := by cases hs _ hm

/-- The machine between two handlers of a loop over the handlers of the event `e` of type `n`: the
handlers below `b` have not received it yet. -/
structure Owing (m : Machine S V) (n : String) (e : Event S V) (b : HandlerId) : Prop where
  stack_nil : m.stack = []
  unheard : ∀ id, m.dispatcher.nextId ≤ id → received m.log id = []
  wellFormed : ∀ n' id, (S.descriptor n').cached = true → id ∈ m.dispatcher.handlers .event n' →
    WellFormed (received m.log id)
  owed : ∀ id, (S.descriptor n).cached = true → id ∈ m.dispatcher.handlers .event n → id < b →
    e.Fits (view (received m.log id)) ∧
      e.apply (view (received m.log id)) = (m.dispatcher.containerPool n).contents
  uptodate : ∀ n' id, (S.descriptor n').cached = true → id ∈ m.dispatcher.handlers .event n' →
    (n' = n → b ≤ id) → view (received m.log id) = (m.dispatcher.containerPool n').contents

theorem received_invoked_self (c : Caller) (k : String) (e : Event S V) :
    received (.invoked id c (.event k e) :: m.log) id = e :: received m.log id := by
  simp [received_cons]

theorem received_invoked_of_ne {j : HandlerId} (h : j ≠ id) (c : Caller) (k : String)
    (e : Event S V) : received (.invoked j c (.event k e) :: m.log) id = received m.log id := by
  simp [received_cons, h]

/-- **A loop over event handlers goes on.** -/
theorem Owing.loopTo (h : Owing m n e b) (hc : Core m) :
    Heard (m.loopTo i (.event n e) (m.nextHandler .event n b)) := by
  cases hid : m.nextHandler .event n b with
  | none =>
    have hsub : ∀ n' id, id ∈ (m.dispatcher.flush .event n).handlers .event n' →
        id ∈ m.dispatcher.handlers .event n' := by
      intro n' id hm
      rw [Dispatcher.handlers_flush] at hm
      split_ifs at hm with hn
      · obtain ⟨-, rfl⟩ := hn
        exact ((foldl_erase _ (hc.sorted _ _)).2 id |>.mp hm).1
      · exact hm
    refine ⟨fun n' id hcd hm => ?_, by simp [Machine.standing, Machine.loopTo, h.stack_nil], ?_, ?_⟩
    · have hmem := hsub n' id hm
      refine follows_of_eq (h.wellFormed n' id hcd hmem) (h.uptodate n' id hcd hmem ?_) ?_
      · rintro rfl
        exact not_lt.mp (nextHandler_none hid id hmem)
      · simp [Machine.loopTo, h.stack_nil]
    · simp [Machine.loopTo, h.stack_nil, LoopAtBottom]
    · exact h.unheard
  | some p =>
    obtain ⟨hmem, hlt, hnext⟩ := hc.nextHandler_some hid
    have hstack : (m.loopTo i (.event n e) (some p)).stack = [.loop i (.event n e) p] := by
      simp [Machine.loopTo, h.stack_nil]
    refine ⟨fun n' id hcd hm => ?_, ?_, ?_, fun id hle => ?_⟩
    · by_cases hpid : p = id
      · subst hpid
        obtain ⟨-, hn⟩ := hc.unique _ _ _ _ p (hc.added _ _ p hm) (hc.added _ _ p hmem)
        subst hn
        obtain ⟨hfit, happ⟩ := h.owed p hcd hmem hlt
        have hrec : received (m.loopTo i (.event n' e) (some p)).log p =
            e :: received m.log p := received_invoked_self _ _ e
        refine ⟨?_, fun _ _ => ?_, fun i' e' p' hm' hlt' => ?_, fun k fc hm' => ?_⟩
        · rw [hrec]
          exact ⟨hfit, h.wellFormed n' p hcd hmem⟩
        · rw [hrec]
          exact happ
        · rw [hstack] at hm'
          obtain rfl : p' = p := by cases List.mem_singleton.mp hm'; rfl
          exact absurd hlt' (lt_irrefl _)
        · rw [hstack] at hm'
          cases List.mem_singleton.mp hm'
      · have hrec : received (m.loopTo i (.event n e) (some p)).log id = received m.log id :=
          received_invoked_of_ne hpid _ _ e
        refine ⟨?_, fun hl _ => ?_, fun i' e' p' hm' hlt' => ?_, fun k fc hm' => ?_⟩
        · rw [hrec]
          exact h.wellFormed n' id hcd hm
        · rw [hrec]
          refine h.uptodate n' id hcd hm ?_
          rintro rfl
          by_contra hb
          have hpid' := hl i e p (hstack ▸ List.mem_cons_self)
          exact hpid (le_antisymm hpid' (hnext id hm (not_le.mp hb)))
        · rw [hstack] at hm'
          cases List.mem_singleton.mp hm'
          rw [hrec]
          exact h.owed id hcd hm (hlt'.trans hlt)
        · rw [hstack] at hm'
          cases List.mem_singleton.mp hm'
    · simp [Machine.standing, hstack]
    · rw [hstack]
      rfl
    · have hne : p ≠ id := by
        rintro rfl
        exact absurd (hc.below _ _ p (hc.added _ _ p hmem)) (not_lt.mpr hle)
      exact (received_invoked_of_ne hne _ _ e).trans (h.unheard id hle)

/-- The machine outside of all handlers, with every handler up to date. -/
structure Settled (m : Machine S V) : Prop where
  stack_nil : m.stack = []
  unheard : ∀ id, m.dispatcher.nextId ≤ id → received m.log id = []
  reconstructs : m.Reconstructs

theorem Settled.heard (h : Settled m) : Heard m where
  reconstructs := h.reconstructs
  descending := by simp [Machine.standing, h.stack_nil]
  atBottom := by rw [h.stack_nil]; trivial
  unheard := h.unheard

theorem Heard.settled (h : Heard m) (hs : m.stack = []) : Settled m where
  stack_nil := hs
  unheard := h.unheard
  reconstructs := h.reconstructs

/-- **The container operation and the first event handler.** -/
theorem Settled.startEvent (h : Settled m) (hi : Inv m) : Heard (m.startEvent i t now) := by
  have hc := (hi.store i t now).toCore
  have hstack : (m.store i t now).stack = [] := by
    simp [Machine.store, h.stack_nil]
  have hrec : ∀ id, received (m.store i t now).log id = received m.log id :=
    fun id => received_cons (m := m) _
  have hunheard : ∀ id, (m.store i t now).dispatcher.nextId ≤ id →
      received (m.store i t now).log id = [] := fun id hle => (hrec id).trans (h.unheard id hle)
  have hfollows : ∀ n id, (S.descriptor n).cached = true →
      id ∈ (m.store i t now).dispatcher.handlers .event n → Follows m n id := fun n id hcd hm =>
    h.reconstructs n id hcd (by rwa [handlers_store] at hm)
  have hview : ∀ n id, (S.descriptor n).cached = true →
      id ∈ (m.store i t now).dispatcher.handlers .event n →
        view (received m.log id) = (m.dispatcher.containerPool n).contents :=
    fun n id hcd hm => (hfollows n id hcd hm).uptodate (by simp [h.stack_nil]) (by simp [h.stack_nil])
  unfold Machine.startEvent
  by_cases hev : ∃ e, (m.dispatcher.containerPool.dispatchEvent t now).2 = .event e
  · obtain ⟨e, he⟩ := hev
    have how : Owing (m.store i t now) t.instance_.typeName e (m.store i t now).dispatcher.nextId := by
      refine ⟨hstack, hunheard, fun n id hcd hm => ?_, fun id hcd hm _ => ?_,
        fun n id hcd hm hn => ?_⟩
      · rw [hrec]
        exact (hfollows n id hcd hm).wellFormed
      · obtain ⟨hfit, happ⟩ := dispatchEvent_spec hcd he
        have hv := hview _ id hcd hm
        rw [hrec, hv]
        exact ⟨hfit, happ⟩
      · have hne : n ≠ t.instance_.typeName := fun hn' =>
          absurd (hc.below _ _ id (hc.added _ _ id hm)) (not_lt.mpr (hn hn'))
        rw [hrec, hview n id hcd hm]
        exact congrArg Container.contents (ContainerPool.dispatchEvent_of_ne hne).symm
    have hloop := how.loopTo (i := i) hc
    rw [← hc.head?_eq] at hloop
    rw [he]
    exact hloop
  · have hpool := dispatchEvent_of_no_event (not_exists.mp hev)
    have hset : Settled (m.store i t now) := by
      refine ⟨hstack, hunheard, fun n id hcd hm => ?_⟩
      refine (hfollows n id hcd hm).of_eq (congrFun hpool n) (hrec id) (fun _ _ _ => ?_) fun _ _ => ?_
      · rw [hstack, h.stack_nil]
      · rw [hstack, h.stack_nil]
    cases he : (m.dispatcher.containerPool.dispatchEvent t now).2 with
    | event e => exact absurd ⟨e, he⟩ hev
    | none => exact hset.heard
    | threw what =>
      refine Settled.heard ⟨hset.stack_nil, hset.unheard, fun n id hcd hm => ?_⟩
      exact (hset.reconstructs n id hcd hm).of_eq rfl rfl (fun _ _ _ => Iff.rfl) fun _ _ => Iff.rfl

/-- **A loop over transmission handlers** goes on, or ends in the event. -/
theorem Settled.goOn (h : Settled m) (hc : Between m i (.transmission t) b) (now : Timepoint) :
    Heard (m.goOn i (.transmission t) (m.nextHandler .transmission t.instance_.typeName b) now) := by
  cases hid : m.nextHandler .transmission t.instance_.typeName b with
  | some p =>
    have hstack : (m.goOn i (.transmission t) (some p) now).stack = [.loop i (.transmission t) p] := by
      simp [Machine.goOn, Machine.loopTo, h.stack_nil]
    refine ⟨fun n id hcd hm => ?_, ?_, ?_, h.unheard⟩
    · refine (h.reconstructs n id hcd hm).of_eq rfl rfl (fun i' e' p' => ?_) fun k fc => ?_
      · rw [hstack, h.stack_nil]
        simp
      · rw [hstack, h.stack_nil]
        simp
    · simp [Machine.standing, hstack]
    · rw [hstack]
      rfl
  | none =>
    have hinv : Inv (m.loopTo i (.transmission t) none) :=
      ⟨hc.loopTo_none (nextHandler_none hid), pendingOk_nil _ _⟩
    refine Settled.startEvent ⟨h.stack_nil, h.unheard, fun n id hcd hm => ?_⟩ hinv
    have hm : id ∈ m.dispatcher.handlers .event n := by
      have hm' : id ∈ (m.dispatcher.flush .transmission t.instance_.typeName).handlers .event n := hm
      rw [Dispatcher.handlers_flush, if_neg (by simp)] at hm'
      exact hm'
    exact (h.reconstructs n id hcd hm).of_eq rfl rfl (fun _ _ _ => Iff.rfl) fun _ _ => Iff.rfl

/-- **A dispatch from outside.** -/
theorem heard_dispatch (h : Heard m) (hi : Inv m) (hs : m.stack = []) :
    Heard (m.dispatch t now) := by
  have hcore := hi.toCore.beginDispatch t
  have hset : Settled (m.beginDispatch t) := by
    refine ⟨hs, h.unheard, fun n id hcd hm => ?_⟩
    exact (h.reconstructs n id hcd hm).of_eq rfl rfl (fun _ _ _ => Iff.rfl) fun _ _ => Iff.rfl
  obtain ⟨hw, hfresh⟩ := hi.toCore.waiting t
  simp only [Machine.dispatch]
  cases hp : m.dispatcher.handlerPool .transmission t.instance_.typeName with
  | none => exact hset.startEvent ⟨hcore, hi.pendingOk⟩
  | some ids =>
    have hr : m.dispatcher.removeIds = [] := by
      have hpend := hi.pendingOk
      rw [hs] at hpend
      exact hpend
    have hbet := hw.between hcore (.transmission t) rfl (hfresh _) hr
    have hgo := hset.goOn hbet now
    rw [← hcore.head?_eq] at hgo
    have hids : (m.beginDispatch t).dispatcher.handlers .transmission
        t.instance_.typeName = ids := Dispatcher.handlers_of_pool hp
    rw [← hids]
    exact hgo

/-- The machine between two instances of the replay for the handler `id` of type `n`, which has
received `v` so far. -/
structure Replaying (m : Machine S V) (n : String) (id : HandlerId) (v : View S V) : Prop where
  others : ∀ n' id', id' ≠ id → (S.descriptor n').cached = true →
    id' ∈ m.dispatcher.handlers .event n' → Follows m n' id'
  descending : m.standing.Pairwise (· > ·)
  atBottom : LoopAtBottom m.stack
  unheard : ∀ id, m.dispatcher.nextId ≤ id → received m.log id = []
  mem : id ∈ m.dispatcher.handlers .event n
  wellFormed : (S.descriptor n).cached = true → WellFormed (received m.log id)
  view_eq : (S.descriptor n).cached = true → view (received m.log id) = v
  above : ∀ j ∈ m.standing, j < id

/-- **The next instance of a replay.** -/
theorem Replaying.replayTo_some {v : View S V} {c : Clone V (S.descriptor n)}
    (h : Replaying m n id v) (hc : Core m)
    (hset : v.set c.1.key (some (.struct n c.1)) = (m.dispatcher.containerPool n).upTo c.1.key)
    (hnone : v c.1.key = none) (fromCache : ℕ) : Heard (m.replayTo n id fromCache (some c)) := by
  obtain ⟨fc, ev, hstack, hlog, hup, hmt⟩ : ∃ fc ev,
      (m.replayTo n id fromCache (some c)).stack = .replay n id (some c.1.key) fc :: m.stack ∧
      (m.replayTo n id fromCache (some c)).log = .invoked id .replay (.event n ev) :: m.log ∧
      ev.updated = .struct n c.1 ∧ ev.mt = .create := ⟨_, _, rfl, rfl, rfl, rfl⟩
  have hnew : received (m.replayTo n id fromCache (some c)).log id = ev :: received m.log id := by
    rw [hlog]
    exact received_invoked_self _ _ _
  have hkey : ev.updated.key = c.1.key := by rw [hup]; rfl
  refine ⟨fun n' id' hcd hm => ?_, ?_, ?_, fun id' hle => ?_⟩
  · have hm : id' ∈ m.dispatcher.handlers .event n' := hm
    by_cases hid : id' = id
    · subst hid
      obtain ⟨-, rfl⟩ := hc.unique _ _ _ _ id' (hc.added _ _ id' hm) (hc.added _ _ id' h.mem)
      refine ⟨?_, fun _ hr => ?_, fun i e p hl hlt => ?_, fun k fc' hr => ?_⟩
      · rw [hnew]
        refine ⟨iff_of_true hmt ?_, h.wellFormed hcd⟩
        rw [hkey, h.view_eq hcd]
        exact hnone
      · exact absurd (hstack ▸ List.mem_cons_self) (hr (some c.1.key) fc)
      · rw [hstack] at hl
        rcases List.mem_cons.mp hl with hl | hl
        · cases hl
        · exact absurd hlt (h.above p (List.mem_map_of_mem hl)).asymm
      · rw [hstack] at hr
        rcases List.mem_cons.mp hr with hr | hr
        · obtain ⟨-, -, hk, -⟩ := Frame.replay.inj hr
          obtain rfl := Option.some.inj hk
          rw [hnew]
          show ev.apply (view (received m.log id')) = _
          rw [h.view_eq hcd, Event.apply, hkey, hmt, hup, if_neg (by simp)]
          exact hset
        · exact absurd (h.above id' (List.mem_map_of_mem hr)) (lt_irrefl _)
    · refine (h.others n' id' hid hcd hm).of_eq rfl ?_ (fun i e p => ?_) fun k fc' => ?_
      · rw [hlog]
        exact received_invoked_of_ne (Ne.symm hid) _ _ _
      · rw [hstack]
        simp
      · rw [hstack]
        simp [hid]
  · rw [Machine.standing, hstack]
    exact List.pairwise_cons.mpr ⟨h.above, h.descending⟩
  · rw [hstack]
    exact ⟨rfl, h.atBottom⟩
  · rw [hlog, received_invoked_of_ne, h.unheard id' hle]
    rintro rfl
    exact absurd (hc.below _ _ id (hc.added _ _ id h.mem)) (not_lt.mpr hle)

/-- **The end of a replay.** -/
theorem Replaying.heard (h : Replaying m n id (m.dispatcher.containerPool n).contents)
    (hc : Core m) : Heard m := by
  refine ⟨fun n' id' hcd hm => ?_, h.descending, h.atBottom, h.unheard⟩
  by_cases hid : id' = id
  · subst hid
    obtain ⟨-, rfl⟩ := hc.unique _ _ _ _ id' (hc.added _ _ id' hm) (hc.added _ _ id' h.mem)
    refine ⟨h.wellFormed hcd, fun _ _ => h.view_eq hcd, fun i e p hl hlt => ?_, fun k fc hr => ?_⟩
    · exact absurd hlt (h.above p (List.mem_map_of_mem hl)).asymm
    · exact absurd (h.above id' (List.mem_map_of_mem hr)) (lt_irrefl _)
  · exact h.others n' id' hid hcd hm

/-- **An event handler is added**, at any moment. -/
theorem heard_addEventHandler (h : Heard m) (hi : Inv m) (n : String) :
    Heard (m.addEventHandler n) := by
  have hcore := hi.toCore.addHandler .event n
  have hbelow : ∀ n' id, id ∈ m.dispatcher.handlers .event n' → id < m.dispatcher.nextId :=
    fun n' id hm => hi.below _ _ id (hi.added _ _ id hm)
  have hnil : received m.log m.dispatcher.nextId = [] := h.unheard _ le_rfl
  have hrep : Replaying { m with
      dispatcher := m.dispatcher.addHandler .event n
      log := .added .event n m.dispatcher.nextId :: m.log } n m.dispatcher.nextId
      (fun _ => none) := by
    refine ⟨fun n' id hne hcd hm => ?_, h.descending, h.atBottom,
      fun id hle => h.unheard id (Nat.le_of_succ_le hle), ?_, ?_, ?_, fun j hj => ?_⟩
    · have hm : id ∈ (m.dispatcher.addHandler .event n).handlers .event n' := hm
      rw [Dispatcher.handlers_addHandler] at hm
      refine (h.reconstructs n' id hcd ?_).of_eq rfl rfl (fun _ _ _ => Iff.rfl) fun _ _ => Iff.rfl
      split_ifs at hm with hn
      · obtain ⟨-, rfl⟩ := hn
        exact (List.mem_cons.mp hm).resolve_left hne
      · exact hm
    · show m.dispatcher.nextId ∈ (m.dispatcher.addHandler .event n).handlers .event n
      rw [Dispatcher.handlers_addHandler, if_pos ⟨rfl, rfl⟩]
      exact List.mem_cons_self
    · show _ → WellFormed (received m.log m.dispatcher.nextId)
      rw [hnil]
      exact fun _ => trivial
    · show _ → view (received m.log m.dispatcher.nextId) = _
      rw [hnil]
      exact fun _ => rfl
    · obtain ⟨f, hf, rfl⟩ := List.mem_map.mp hj
      exact hi.below _ _ _ (hi.added _ _ _ (hi.standing f hf))
  simp only [Machine.addEventHandler]
  cases hh : (m.dispatcher.containerPool n).clones.head? with
  | some c => exact hrep.replayTo_some hcore (set_first hh) rfl _
  | none =>
    have hempty : (fun _ => none) = (m.dispatcher.containerPool n).contents := by
      funext k
      refine (contents_eq_none fun e he => ?_).symm
      have hm := Container.mem_clones.mpr he
      rw [List.head?_eq_none_iff.mp hh] at hm
      cases hm
    exact Replaying.heard (hempty ▸ hrep) hcore

/-- **A handler returns, or throws outside of a replay with instances left.** -/
theorem heard_finish (h : Heard m) (hi : Inv m) {threw : Bool}
    (hq : m.Quiet (.finish threw now)) (hm : m.finish threw now = some m') : Heard m' := by
  obtain ⟨i, item, id, rest, hs, rfl⟩ | ⟨n, id, node, fc, rest, hs, hm⟩ := finish_cases hm
  · have hbot := h.atBottom
    rw [hs] at hbot
    obtain rfl : rest = [] := hbot
    have hbet := hi.leaveLoop hs threw
    have hrec : ∀ id, received (m.leaveLoop item [] threw).log id = received m.log id := by
      intro id
      cases threw <;> rfl
    have hunheard : ∀ id, m.dispatcher.nextId ≤ id →
        received (m.leaveLoop item [] threw).log id = [] := fun id hle =>
      (hrec id).trans (h.unheard id hle)
    have hfollows := fun n id' hcd hm => h.reconstructs n id' hcd hm
    cases item with
    | transmission t =>
      refine Settled.goOn ⟨rfl, hunheard, fun n id' hcd hm => ?_⟩ hbet now
      refine (hfollows n id' hcd hm).of_eq rfl (hrec id') (fun i' e' p' => ?_) fun k fc => ?_
      · rw [hs]
        simp [Machine.leaveLoop]
      · rw [hs]
        simp [Machine.leaveLoop]
    | event n e =>
      have how : Owing (m.leaveLoop (.event n e) [] threw) n e id := by
        refine ⟨rfl, hunheard, fun n' id' hcd hm => ?_, fun id' hcd hm hlt => ?_,
          fun n' id' hcd hm hle => ?_⟩
        · rw [hrec]
          exact (hfollows n' id' hcd hm).wellFormed
        · rw [hrec]
          exact (hfollows n id' hcd hm).owed i e id (hs ▸ List.mem_cons_self) hlt
        · rw [hrec]
          refine (hfollows n' id' hcd hm).uptodate (fun i' e' p' hl => ?_) fun k fc hr => ?_
          · rw [hs] at hl
            cases List.mem_singleton.mp hl
            exact hle rfl
          · rw [hs] at hr
            cases List.mem_singleton.mp hr
      have hgo := how.loopTo (i := i) hbet.toCore
      show Heard (Machine.goOn _ i (.event n e) (Machine.nextHandler _ .event n id) now)
      unfold Machine.goOn
      split
      · contradiction
      · exact hgo
  · have hstanding := h.descending
    rw [Machine.standing, hs] at hstanding
    obtain ⟨habove, hdesc⟩ := List.pairwise_cons.mp hstanding
    have hbot := h.atBottom
    rw [hs] at hbot
    have hid : id ∈ m.dispatcher.handlers .event n :=
      hi.standing (.replay n id node fc) (hs ▸ List.mem_cons_self)
    have hcore : Core { m with stack := rest } :=
      hi.toCore.pop hs fun c hc => (hs ▸ hi.current c hc :)
    have hself : (S.descriptor n).cached = true → Follows m n id := fun hcd =>
      h.reconstructs n id hcd hid
    obtain ⟨k, rfl⟩ := Option.isSome_iff_exists.mp hbot.1
    have hrep : Replaying { m with stack := rest } n id
        ((m.dispatcher.containerPool n).upTo k) := by
      refine ⟨fun n' id' hne hcd hm => ?_, hdesc, hbot.2, h.unheard, hid,
        fun hcd => (hself hcd).wellFormed, fun hcd => ?_, habove⟩
      · refine (h.reconstructs n' id' hcd hm).of_eq rfl rfl (fun i e p => ?_) fun k' fc' => ?_
        · rw [hs]
          simp
        · rw [hs]
          simp [hne]
      · exact (hself hcd).replaying k fc (hs ▸ List.mem_cons_self)
    have hlast : m.nextClone n k = none → Heard { m with stack := rest } := fun hn =>
      Replaying.heard (upTo_last hn ▸ hrep) hcore
    obtain ⟨rfl, rfl⟩ | ⟨-, k', hk, rfl⟩ := hm
    · have hheard := hlast (hq rfl n id k fc rest hs)
      refine ⟨fun n' id' hcd hm => ?_, hheard.descending, hheard.atBottom, hheard.unheard⟩
      exact (hheard.reconstructs n' id' hcd hm).of_eq rfl rfl (fun _ _ _ => Iff.rfl)
        fun _ _ => Iff.rfl
    · obtain rfl := Option.some.inj hk
      cases hn : m.nextClone n k with
      | none => exact hlast hn
      | some c =>
        refine hrep.replayTo_some hcore (set_next hn) ?_ fc
        have hlt : compare k c.1.key = .lt := by
          simpa using (Container.find?_clones hn).1
        rw [Container.upTo, if_pos (Std.OrientedCmp.gt_iff_lt.mpr hlt)]

theorem heard_removeHandler (h : Heard m) (k : HandlerKind) :
    Heard (m.removeHandler k n id) := by
  unfold Machine.removeHandler Dispatcher.removeHandler
  split_ifs with hid hcur
  · exact ⟨fun n' id' hcd hm => (h.reconstructs n' id' hcd hm).of_eq rfl rfl
      (fun _ _ _ => Iff.rfl) fun _ _ => Iff.rfl, h.descending, h.atBottom, h.unheard⟩
  · refine ⟨fun n' id' hcd hm => ?_, h.descending, h.atBottom, h.unheard⟩
    have hm : id' ∈ (m.dispatcher.setHandlers k n
      ((m.dispatcher.handlers k n).erase id)).handlers .event n' := hm
    rw [Dispatcher.handlers_setHandlers] at hm
    refine (h.reconstructs n' id' hcd ?_).of_eq rfl rfl (fun _ _ _ => Iff.rfl) fun _ _ => Iff.rfl
    split_ifs at hm with hkn
    · rw [hkn.1, hkn.2]
      exact List.mem_of_mem_erase hm
    · exact hm
  · exact ⟨fun n' id' hcd hm => (h.reconstructs n' id' hcd hm).of_eq rfl rfl
      (fun _ _ _ => Iff.rfl) fun _ _ => Iff.rfl, h.descending, h.atBottom, h.unheard⟩

theorem heard_addTransmissionHandler (h : Heard m) (n : String) :
    Heard (m.addTransmissionHandler n) := by
  refine ⟨fun n' id' hcd hm => ?_, h.descending, h.atBottom,
    fun id' hle => h.unheard id' (Nat.le_of_succ_le hle)⟩
  have hm : id' ∈ (m.dispatcher.addHandler .transmission n).handlers .event n' := hm
  rw [Dispatcher.handlers_addHandler, if_neg (by simp)] at hm
  exact (h.reconstructs n' id' hcd hm).of_eq rfl rfl (fun _ _ _ => Iff.rfl) fun _ _ => Iff.rfl

end Steps

/-! ## The run -/

variable {m : Machine S V}

/-- Handlers that do not publish are out of the way of a deferred removal and of the nodes that
replays stand on. -/
theorem Machine.Quiet.safe (hi : Inv m) (hh : Heard m) : ∀ {c : Call S V}, m.Quiet c → m.Safe c
  | .addTransmissionHandler _, _ | .addEventHandler _, _ => trivial
  | .removeHandler .., h => h
  | .dispatch .., h => by
    have hpend := hi.pendingOk
    rw [show m.stack = [] from h] at hpend
    exact .inl hpend
  | .finish .., _ => by
    refine .inr ?_
    rintro ⟨n, id, fromCache, rest, hs⟩
    have hbot := hh.atBottom
    rw [hs] at hbot
    cases hbot.1

/-- **Every quiet step keeps the invariant.** -/
theorem heard_step {m' : Machine S V} {c : Call S V} (h : Heard m) (hi : Inv m) (hq : m.Quiet c)
    (hm : m.step c = some m') : Heard m' := by
  cases c with
  | addTransmissionHandler n =>
    obtain rfl := Option.some.inj hm
    exact heard_addTransmissionHandler h n
  | addEventHandler n =>
    obtain rfl := Option.some.inj hm
    exact heard_addEventHandler h hi n
  | removeHandler k n id =>
    obtain rfl := Option.some.inj hm
    exact heard_removeHandler h k
  | dispatch t now =>
    obtain rfl := Option.some.inj hm
    exact heard_dispatch h hi hq
  | finish threw now => exact heard_finish h hi hq hm

theorem heard_init : Heard ({} : Machine S V) where
  reconstructs _ _ _ hm := absurd hm List.not_mem_nil
  descending := List.Pairwise.nil
  atBottom := trivial
  unheard _ _ := rfl

theorem heard_of_run {cs : List (Call S V)} {m' : Machine S V} (h : Heard m ∧ Inv m)
    (r : Lts.Run (Lts.Guarded (Lts.ofPartial Machine.step) Machine.Quiet) m cs m') :
    Heard m' ∧ Inv m' :=
  r.invariant (I := fun m => Heard m ∧ Inv m)
    (fun _ _ _ hi hs => ⟨heard_step hi.1 hi.2 hs.2 hs.1, inv_step hi.2 (hs.2.safe hi.2 hi.1) hs.1⟩) h

/-- A handler is added to a container with one instance, which is then updated. -/
def completeReplay : List (Call testSchema ℕ) :=
  [.dispatch (testTransmission 1 5 false) 0, .addEventHandler "DotsTestStruct", .finish false 0,
    .dispatch (testTransmission 1 6 false) 0, .finish false 0]

/-- A handler that throws on the first of two replayed instances. -/
def incompleteReplay : List (Call testSchema ℕ) :=
  [.dispatch (testTransmission 1 5 false) 0, .dispatch (testTransmission 2 6 false) 0,
    .addEventHandler "DotsTestStruct", .finish true 0]

/-- The depth of the stack, the event handlers, and whether the first handler and the container
have an instance under the second key. -/
def Machine.secondKey (m : Machine testSchema ℕ) : ℕ × List HandlerId × Bool × Bool :=
  (m.stack.length, m.dispatcher.handlers .event "DotsTestStruct",
    (view (received m.log 0) [some 2]).isSome,
    (m.dispatcher.containerPool "DotsTestStruct").contents [some 2] |>.isSome)

end Dots

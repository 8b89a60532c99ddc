import Dots.Dispatcher.Invariant
import Dots.Lib.Run

/-!
# What each call does to the invariant

A removal of the handler that runs is deferred to the end of a loop, through two members that all
loops of the dispatcher share: any loop that ends meanwhile uses the deferred ids up on its own
table. The calls that keep out of the way of a deferred removal (`Machine.Safe`) keep the
invariant.

* `inv_dispatch`, `inv_removeHandler`, `inv_finish`: what each call does to the invariant.
* **`inv_step`**, `inv_of_run`: every safe step keeps it.
-/

set_option autoImplicit false
set_option linter.unusedSectionVars false

namespace Dots

variable {S : Schema} {V : Type} [Ord V] [Std.TransOrd V] [Std.LawfulEqOrd V]

/-! ## Safe calls -/

namespace Machine

variable (m : Machine S V)

/-- A handler can be removed if nothing stands on it, or if it is the one being dispatched and
nothing else stands on it. -/
def Removable (id : HandlerId) : Prop :=
  id ∉ m.standing ∨
    m.dispatcher.currentlyDispatchingId = some id ∧ m.standing.count id = 1

/-- Whether a dispatch reaches a handler loop. -/
def EntersLoop (t : Transmission S V) (now : Timepoint) : Prop :=
  (m.dispatcher.handlerPool .transmission t.instance_.typeName).isSome ∨
    ∃ e, (m.dispatcher.containerPool.dispatchEvent t now).2 = .event e

/-- The innermost handler would return to a replay whose node has been freed. -/
def Dangling : Prop := ∃ n id fromCache rest, m.stack = .replay n id none fromCache :: rest

/-- The calls that keep out of the way of a deferred removal, and the returns to a loop that still
has its node. -/
def Safe : Call S V → Prop
  | .removeHandler k n id => id ∈ m.dispatcher.handlers k n → m.Removable id
  | .dispatch t now => m.dispatcher.removeIds = [] ∨ ¬ m.EntersLoop t now
  | .finish threw _ => threw = true ∨ ¬ m.Dangling
  | _ => True

end Machine

variable {m : Machine S V} {i : ℕ}

/-! ## Dispatches -/

section Dispatch

variable {t : Transmission S V} {now : Timepoint}

/-- Dispatch number `i` of type `n` has no loop under way and its event loop is still to come. -/
structure Waiting (m : Machine S V) (i : ℕ) (n : String) : Prop where
  lt : i < m.dispatched
  not_standing : i ∉ m.stack.filterMap Frame.serial
  event_fresh : Fresh m.log i .event
  typed : ∀ t ids, .began i t ids ∈ m.log → t.instance_.typeName = n

/-- Before the first handler of a loop. -/
theorem Waiting.between {n : String} (h : Waiting m i n) (hc : Core m)
    (item : Dispatchable S V) (hn : item.typeName = n) (hf : Fresh m.log i item.kind)
    (hr : m.dispatcher.removeIds = []) : Between m i item m.dispatcher.nextId where
  toCore := hc
  lt := h.lt
  not_standing := h.not_standing
  underway := by
    refine ⟨hf.progress (fun t ids hm => hn ▸ h.typed t ids hm) ?_, hf.2, fun _ => h.event_fresh⟩
    exact fun t ids hm j hj => hc.below _ _ j (hc.began i t ids hm _ j hj)
  pendingOk := by simp [hr]

/-- The first handler of a loop is the one behind the next id. -/
theorem Core.head?_eq (h : Core m) (k : HandlerKind) (n : String) :
    (m.dispatcher.handlers k n).head? = m.nextHandler k n m.dispatcher.nextId := by
  unfold Machine.nextHandler
  have hlt := fun id hid => h.below k n id (h.added k n id hid)
  generalize m.dispatcher.handlers k n = l at hlt
  cases l with
  | nil => rfl
  | cons a l => simp [hlt a List.mem_cons_self]

theorem Core.nextHandler_some (h : Core m) {k : HandlerKind} {n : String} {b id : HandlerId}
    (hid : m.nextHandler k n b = some id) :
    id ∈ m.dispatcher.handlers k n ∧ id < b ∧
      ∀ j ∈ m.dispatcher.handlers k n, j < b → j ≤ id := by
  obtain ⟨hlt, as, bs, he, has⟩ := List.find?_eq_some_iff_append.mp hid
  have hs := h.sorted k n
  rw [he] at hs ⊢
  refine ⟨by simp, by simpa using hlt, fun j hj hjb => ?_⟩
  rcases List.mem_append.mp hj with hj | hj
  · exact absurd hjb (by simpa using has j hj)
  · rcases List.mem_cons.mp hj with rfl | hj
    · exact le_rfl
    · have hgt := (List.pairwise_append.mp hs).2.1
      exact (List.rel_of_pairwise_cons hgt hj).le

theorem nextHandler_none {k : HandlerKind} {n : String} {b : HandlerId}
    (hid : m.nextHandler k n b = none) : ∀ j ∈ m.dispatcher.handlers k n, ¬ j < b := by
  simpa [Machine.nextHandler] using hid

/-- A loop over event handlers goes on or ends. -/
theorem Between.loopTo {item : Dispatchable S V} {b : HandlerId} (h : Between m i item b) :
    Inv (m.loopTo i item (m.nextHandler item.kind item.typeName b)) := by
  cases hid : m.nextHandler item.kind item.typeName b with
  | none => exact ⟨h.loopTo_none (nextHandler_none hid), pendingOk_nil _ _⟩
  | some id =>
    obtain ⟨hmem, hlt, hnext⟩ := h.toCore.nextHandler_some hid
    exact h.loopTo_some hmem hlt hnext

/-- The invariant only looks at the tables and the ids of the dispatcher. -/
theorem Core.setDispatcher (h : Core m) {D : Dispatcher S V}
    (hh : D.handlers = m.dispatcher.handlers) (hn : D.nextId = m.dispatcher.nextId)
    (hr : D.removeIds = m.dispatcher.removeIds)
    (hc : D.currentlyDispatchingId = m.dispatcher.currentlyDispatchingId) :
    Core { m with dispatcher := D } :=
  { h with
    sorted := by simpa only [hh] using h.sorted
    added := by simpa only [hh] using h.added
    below := by simpa only [hn] using h.below
    kept := by simpa only [hh] using h.kept
    gone := by simpa only [hh, hr] using h.gone
    pending := by simpa only [hr] using h.pending
    standing := by simpa only [hh] using h.standing
    current := by simpa only [hc] using h.current }

theorem Waiting.store {n : String} (h : Waiting m i n) (now : Timepoint) :
    Waiting (m.store i t now) i n where
  lt := h.lt
  not_standing := (serials_settle _ m.stack).symm ▸ h.not_standing
  event_fresh := h.event_fresh.cons (fun _ _ he => by cases he) (fun he => by cases he)
  typed t' ids hm := h.typed t' ids (by simpa [Machine.store] using hm)

theorem handlers_store :
    (m.store i t now).dispatcher.handlers = m.dispatcher.handlers := by
  funext k' n'
  refine (m.dispatcher.handlers_setHandlers).trans ?_
  split_ifs with h
  · rw [h.1, h.2]
  · rfl

/-- A note about no handler and no dispatch. -/
theorem Inv.note (h : Inv m) {x : Note S V} (hx : x.Plain) (hs : x.serial = none)
    (hi : ∀ id c item, x ≠ .invoked id c item) : Inv (m.note x) where
  toCore := h.toCore.note hx (fun i he => by rw [hs] at he; cases he)
    (fun _ _ _ _ he => absurd he (hi _ _ _)) (fun i k he => by rw [he] at hs; cases hs)
    fun _ _ _ he => absurd he (hi _ _ _)
  pendingOk := h.pendingOk

/-- **The container operation**: the frames stay what they are but for the nodes of replays. -/
theorem Inv.store (h : Inv m) (i : ℕ) (t : Transmission S V) (now : Timepoint) :
    Inv (m.store i t now) := by
  have hstack := (h.settle (m.dispatcher.containerPool.dispatchEvent t now).1).toCore
  have hset := hstack.setDispatcher (D := (m.store i t now).dispatcher) handlers_store rfl rfl rfl
  refine ⟨hset.note (x := .stored i t now (m.dispatcher.containerPool.dispatchEvent t now).2)
    trivial (fun _ he => by cases he) (fun _ _ _ _ he => by cases he) (fun _ _ he => by cases he)
    (fun _ _ _ he => by cases he), ?_⟩
  rw [handlers_store]
  exact (h.settle (m.dispatcher.containerPool.dispatchEvent t now).1).pendingOk

/-- **The event of a dispatch.** -/
theorem inv_startEvent (h : Inv m) (hw : Waiting m i t.instance_.typeName)
    (hr : m.dispatcher.removeIds = [] ∨
      ∀ e, (m.dispatcher.containerPool.dispatchEvent t now).2 ≠ .event e) :
    Inv (m.startEvent i t now) := by
  simp only [Machine.startEvent]
  have hstore := h.store i t now
  cases he : (m.dispatcher.containerPool.dispatchEvent t now).2 with
  | none => exact hstore
  | threw what => exact hstore.note (x := .threw what) trivial rfl (by simp)
  | event e =>
    have hr := hr.resolve_right fun hne => hne e he
    have hb := (hw.store now).between hstore.toCore (.event t.instance_.typeName e) rfl
      (hw.store now).event_fresh hr
    have hloop := hb.loopTo
    rw [← hb.toCore.head?_eq] at hloop
    exact hloop

/-- **The rest of a loop**, with the event behind it. -/
theorem Between.goOn {item : Dispatchable S V} {b : HandlerId} (h : Between m i item b)
    (now : Timepoint) :
    Inv (m.goOn i item (m.nextHandler item.kind item.typeName b) now) := by
  cases item with
  | event n e =>
    unfold Machine.goOn
    split
    · contradiction
    · exact h.loopTo
  | transmission t =>
    cases hid : m.nextHandler (Dispatchable.transmission t).kind
        (Dispatchable.transmission t).typeName b with
    | some id =>
      have := h.loopTo
      rw [hid] at this
      exact this
    | none =>
      -- the loop over the transmission handlers has used the deferred ids up
      have hu := h.underway
      have hfresh := hu.event_fresh rfl
      refine inv_startEvent ⟨h.loopTo_none (nextHandler_none hid), pendingOk_nil _ _⟩
        ⟨h.lt, h.not_standing, hfresh.cons (by simp) (by simp [Dispatchable.kind]), ?_⟩ (.inl rfl)
      intro t' ids hm
      exact hu.progress.typed t' ids (by simpa [Machine.loopTo] using hm)

/-- A dispatch begins. -/
theorem Core.beginDispatch (h : Core m) (t : Transmission S V) : Core (m.beginDispatch t) := by
  have hserial : ∀ i', i' ≠ m.dispatched → (Note.began m.dispatched t fun k =>
      m.dispatcher.handlers k t.instance_.typeName : Note S V).serial ≠ some i' :=
    fun i' hi he => hi (Option.some.inj he).symm
  exact
    { h with
      added := fun k' n' id hid => List.mem_cons_of_mem _ (h.added k' n' id hid)
      below := fun k' n' id hm => h.below k' n' id (by simpa [Machine.beginDispatch] using hm)
      unique := fun k₁ n₁ k₂ n₂ id h₁ h₂ =>
        h.unique k₁ n₁ k₂ n₂ id (by simpa [Machine.beginDispatch] using h₁)
          (by simpa [Machine.beginDispatch] using h₂)
      kept := fun k' n' id hm => by
        simpa [Machine.beginDispatch] using h.kept k' n' id (by simpa [Machine.beginDispatch] using hm)
      known := fun id hm => by
        simpa [Machine.beginDispatch] using h.known id (by simpa [Machine.beginDispatch] using hm)
      gone := fun k' n' id hm => h.gone k' n' id (by simpa [Machine.beginDispatch] using hm)
      pending := fun id hid => List.mem_cons_of_mem _ (h.pending id hid)
      began := by
        intro i' t' ids hm k j hj
        refine List.mem_cons_of_mem _ ?_
        rcases List.mem_cons.mp hm with he | hm
        · cases he
          exact h.added k _ j hj
        · exact h.began i' t' ids hm k j hj
      loops := by
        intro i' item id hm
        obtain ⟨hi, hu⟩ := h.loops i' item id hm
        exact ⟨hi.trans (Nat.lt_succ_self _), hu.cons (hserial i' hi.ne)⟩
      fresh := by
        intro i' hi
        obtain ⟨hf, hb⟩ := h.fresh i' (Nat.le_of_succ_le hi)
        have hne : i' ≠ m.dispatched := by rintro rfl; exact absurd hi (Nat.not_succ_le_self _)
        refine ⟨fun k => (hf k).cons (by simp) (by simp), fun t' ids hm => ?_⟩
        rcases List.mem_cons.mp hm with he | hm
        · cases he
          exact hne rfl
        · exact hb t' ids hm
      done := by
        intro i' k hm
        have hm : .completed i' k ∈ m.log := by simpa [Machine.beginDispatch] using hm
        obtain ⟨n', hp⟩ := h.done i' k hm
        refine ⟨n', hp.cons (by simp) ?_⟩
        rintro t' ids he
        cases he
        exact ((h.fresh _ le_rfl).1 k).2 hm
      once := by
        intro i' k
        show (visits (_ :: m.log) i' k).Nodup
        rw [visits_cons]
        exact h.once i' k
      quiet := List.pairwise_cons.mpr ⟨fun y _ id c item he => (by cases he), h.quiet⟩ }

/-- The new dispatch waits for its loops. -/
theorem Core.waiting (h : Core m) (t : Transmission S V) :
    Waiting (m.beginDispatch t) m.dispatched t.instance_.typeName ∧
      ∀ k, Fresh (m.beginDispatch t).log m.dispatched k := by
  obtain ⟨hf, hb⟩ := h.fresh m.dispatched le_rfl
  have hfresh : ∀ k, Fresh (m.beginDispatch t).log m.dispatched k :=
    fun k => (hf k).cons (by simp) (by simp)
  refine ⟨⟨Nat.lt_succ_self _, fun hm => ?_, hfresh _, fun t' ids hm => ?_⟩, hfresh⟩
  · obtain ⟨f, hm, hs⟩ := List.mem_filterMap.mp hm
    cases f with
    | replay => cases hs
    | loop i item id =>
      obtain rfl := Option.some.inj hs
      exact lt_irrefl _ (h.loops _ item id hm).1
  · rcases List.mem_cons.mp hm with he | hm
    · cases he
      rfl
    · exact absurd hm (hb t' ids)

/-- **A dispatch.** -/
theorem inv_dispatch (h : Inv m) (hsafe : m.Safe (.dispatch t now)) : Inv (m.dispatch t now) := by
  have hcore := h.toCore.beginDispatch t
  obtain ⟨hw, hfresh⟩ := h.toCore.waiting t
  simp only [Machine.dispatch]
  cases hp : m.dispatcher.handlerPool .transmission t.instance_.typeName with
  | none =>
    exact inv_startEvent ⟨hcore, h.pendingOk⟩ hw (hsafe.imp_right fun hn e he => hn (.inr ⟨e, he⟩))
  | some ids =>
    have hr : m.dispatcher.removeIds = [] :=
      hsafe.resolve_right fun hn => hn (.inl (by rw [hp]; rfl))
    have hbet := hw.between hcore (.transmission t) rfl (hfresh _) hr
    have hgo := hbet.goOn now
    rw [← hbet.toCore.head?_eq] at hgo
    have hids : (m.beginDispatch t).dispatcher.handlers .transmission
        t.instance_.typeName = ids := Dispatcher.handlers_of_pool hp
    rw [← hids]
    exact hgo

end Dispatch

/-! ## Adding and removing handlers -/

section Table

variable {k : HandlerKind} {n : String} {id : HandlerId}

theorem Core.addHandler (h : Core m) (k : HandlerKind) (n : String) :
    Core { m with
      dispatcher := m.dispatcher.addHandler k n
      log := .added k n m.dispatcher.nextId :: m.log } := by
  have hnew : ∀ k' n', .added k' n' m.dispatcher.nextId ∉ m.log :=
    fun k' n' hm => lt_irrefl _ (h.below k' n' _ hm)
  have hmem : ∀ k' n' j, j ∈ (m.dispatcher.addHandler k n).handlers k' n' ↔
      (k' = k ∧ n' = n ∧ j = m.dispatcher.nextId) ∨ j ∈ m.dispatcher.handlers k' n' := by
    intro k' n' j
    rw [Dispatcher.handlers_addHandler]
    split_ifs with hkn
    · obtain ⟨rfl, rfl⟩ := hkn
      simp
    · rw [or_iff_right]
      exact fun hc => hkn ⟨hc.1, hc.2.1⟩
  exact
    { h with
      sorted := by
        intro k' n'
        show ((m.dispatcher.addHandler k n).handlers k' n').Pairwise (· > ·)
        rw [Dispatcher.handlers_addHandler]
        split_ifs
        · exact List.pairwise_cons.mpr ⟨fun j hj => h.below _ _ j (h.added _ _ j hj), h.sorted k n⟩
        · exact h.sorted k' n'
      added := by
        intro k' n' j hj
        rcases (hmem k' n' j).mp hj with ⟨rfl, rfl, rfl⟩ | hj
        · exact List.mem_cons_self
        · exact List.mem_cons_of_mem _ (h.added k' n' j hj)
      below := by
        intro k' n' j hm
        rcases List.mem_cons.mp hm with he | hm
        · cases he
          exact Nat.lt_succ_self _
        · exact (h.below k' n' j hm).trans (Nat.lt_succ_self _)
      unique := by
        intro k₁ n₁ k₂ n₂ j h₁ h₂
        rcases List.mem_cons.mp h₁ with e₁ | h₁ <;> rcases List.mem_cons.mp h₂ with e₂ | h₂
        · cases e₁; cases e₂; exact ⟨rfl, rfl⟩
        · cases e₁; exact absurd h₂ (hnew _ _)
        · cases e₂; exact absurd h₁ (hnew _ _)
        · exact h.unique k₁ n₁ k₂ n₂ j h₁ h₂
      kept := by
        intro k' n' j hm
        rcases List.mem_cons.mp hm with he | hm
        · cases he
          exact .inl ((hmem k n _).mpr (.inl ⟨rfl, rfl, rfl⟩))
        · exact (h.kept k' n' j hm).imp (fun hj => (hmem k' n' j).mpr (.inr hj))
            (List.mem_cons_of_mem _)
      known := by
        intro j hm
        obtain ⟨k', n', ha⟩ := h.known j (by simpa using hm)
        exact ⟨k', n', List.mem_cons_of_mem _ ha⟩
      gone := by
        intro k' n' j hm hj
        have hm : .requested j ∈ m.log := by simpa using hm
        rcases (hmem k' n' j).mp hj with ⟨-, -, rfl⟩ | hj
        · obtain ⟨k₁, n₁, ha⟩ := h.known _ hm
          exact absurd ha (hnew k₁ n₁)
        · exact h.gone k' n' j hm hj
      pending := fun j hj => List.mem_cons_of_mem _ (h.pending j hj)
      standing := fun f hf => (hmem _ _ _).mpr (.inr (h.standing f hf))
      began := fun i n' ids hm k' j hj =>
        List.mem_cons_of_mem _ (h.began i n' ids (by simpa using hm) k' j hj)
      loops := by
        intro i item j hm
        obtain ⟨hi, hu⟩ := h.loops i item j hm
        exact ⟨hi, hu.cons (by simp [Note.serial])⟩
      fresh := by
        intro i hi
        obtain ⟨hf, hb⟩ := h.fresh i hi
        exact ⟨fun k' => (hf k').cons (by simp) (by simp), fun n' ids hm =>
          hb n' ids (by simpa using hm)⟩
      done := by
        intro i k' hm
        obtain ⟨n', hp⟩ := h.done i k' (by simpa using hm)
        exact ⟨n', hp.cons (by simp) (by simp)⟩
      once := by
        intro i k
        show (visits (_ :: m.log) i k).Nodup
        rw [visits_cons]
        exact h.once i k
      quiet := List.pairwise_cons.mpr ⟨fun y _ j c item he => (by cases he), h.quiet⟩ }

/-- The next instance of a replay, or its end. -/
theorem Inv.replayTo (h : Inv m) (hid : id ∈ m.dispatcher.handlers .event n)
    (hreq : .requested id ∉ m.log) (fromCache : ℕ) (e : Option (Clone V (S.descriptor n))) :
    Inv (m.replayTo n id fromCache e) := by
  cases e with
  | none => exact h
  | some e =>
    refine ⟨?_, fun hp => hreq (h.pending id hp), h.pendingOk⟩
    refine Core.push (m := m.note _) (f := .replay n id _ _)
      (h.toCore.note (x := .invoked id .replay _) trivial (fun _ hs => by cases hs)
        (fun _ _ _ _ he => by cases he) (fun _ _ he => by cases he) ?_) hid
      (fun _ _ _ he => by cases he) h.current
    rintro id' c item he
    cases he
    exact hreq

theorem pendingOk_mono {handlers handlers' : HandlerKind → String → List HandlerId}
    {ids : List HandlerId}
    (hmono : ∀ p ∈ ids, ∀ k n, p ∈ handlers' k n → p ∈ handlers k n) :
    ∀ {stack : List (Frame S V)}, PendingOk handlers ids stack → PendingOk handlers' ids stack
  | [], h => h
  | .replay .. :: _, h => ⟨h.1, pendingOk_mono hmono h.2⟩
  | .loop .. :: _, h => fun p hp =>
    ⟨(h p hp).1, (h p hp).2.1, fun k n hm => (h p hp).2.2 k n (hmono p hp k n hm)⟩

/-- A handler is added. -/
theorem Inv.addHandler (h : Inv m) (k : HandlerKind) (n : String) :
    Inv { m with
      dispatcher := m.dispatcher.addHandler k n
      log := .added k n m.dispatcher.nextId :: m.log } := by
  refine ⟨h.toCore.addHandler k n, pendingOk_mono (fun p hp k' n' hm => ?_) h.pendingOk⟩
  rw [Dispatcher.handlers_addHandler] at hm
  split_ifs at hm with hkn
  · obtain ⟨rfl, rfl⟩ := hkn
    rcases List.mem_cons.mp hm with rfl | hm
    · -- the new id was not requested
      obtain ⟨k', n', ha⟩ := h.known _ (h.pending _ hp)
      exact absurd (h.below k' n' _ ha) (lt_irrefl _)
    · exact hm
  · exact hm

theorem inv_addEventHandler (h : Inv m) (n : String) : Inv (m.addEventHandler n) := by
  refine (h.addHandler .event n).replayTo ?_ (fun hm => ?_) _ _
  · show m.dispatcher.nextId ∈ (m.dispatcher.addHandler .event n).handlers .event n
    rw [Dispatcher.handlers_addHandler, if_pos ⟨rfl, rfl⟩]
    exact List.mem_cons_self
  · obtain ⟨k', n', ha⟩ := h.known _ (by simpa using hm)
    exact lt_irrefl _ (h.below k' n' _ ha)

/-- A removal is requested. -/
theorem Core.request (h : Core m) (id : HandlerId) {D : Dispatcher S V}
    (hD : D.nextId = m.dispatcher.nextId)
    (hcur : D.currentlyDispatchingId = m.dispatcher.currentlyDispatchingId)
    (hsorted : ∀ k n, (D.handlers k n).Pairwise (· > ·))
    (hsub : ∀ k n j, j ∈ D.handlers k n → j ∈ m.dispatcher.handlers k n)
    (hkept : ∀ k n j, j ∈ m.dispatcher.handlers k n → j ∈ D.handlers k n ∨ j = id)
    (hgone : ∀ k n, id ∈ D.handlers k n → id ∈ D.removeIds)
    (hids : ∀ j, j ∈ m.dispatcher.removeIds → j ∈ D.removeIds)
    (hids' : ∀ j, j ∈ D.removeIds → j ∈ m.dispatcher.removeIds ∨ j = id)
    (hadd : .added k n id ∈ m.log)
    (hstanding : ∀ f ∈ m.stack, f.id ∈ D.handlers f.kind f.typeName) :
    Core { m with dispatcher := D, log := .requested id :: m.log } :=
  { h with
    sorted := hsorted
    added := fun k' n' j hj => List.mem_cons_of_mem _ (h.added k' n' j (hsub k' n' j hj))
    below := fun k' n' j hm => hD ▸ h.below k' n' j (by simpa using hm)
    unique := fun k₁ n₁ k₂ n₂ j h₁ h₂ =>
      h.unique k₁ n₁ k₂ n₂ j (by simpa using h₁) (by simpa using h₂)
    kept := by
      intro k' n' j hm
      rcases h.kept k' n' j (by simpa using hm) with hj | hr
      · rcases hkept k' n' j hj with hj | rfl
        · exact .inl hj
        · exact .inr List.mem_cons_self
      · exact .inr (List.mem_cons_of_mem _ hr)
    known := by
      intro j hm
      rcases List.mem_cons.mp hm with he | hm
      · cases he
        exact ⟨k, n, List.mem_cons_of_mem _ hadd⟩
      · obtain ⟨k', n', ha⟩ := h.known j hm
        exact ⟨k', n', List.mem_cons_of_mem _ ha⟩
    gone := by
      intro k' n' j hm hj
      rcases List.mem_cons.mp hm with he | hm
      · cases he
        exact hgone k' n' hj
      · exact hids j (h.gone k' n' j hm (hsub k' n' j hj))
    pending := by
      intro j hj
      rcases hids' j hj with hj | rfl
      · exact List.mem_cons_of_mem _ (h.pending j hj)
      · exact List.mem_cons_self
    standing := hstanding
    current := fun c hc => h.current c (hcur ▸ hc)
    began := fun i n' ids hm k' j hj =>
      List.mem_cons_of_mem _ (h.began i n' ids (by simpa using hm) k' j hj)
    loops := by
      intro i item j hm
      obtain ⟨hi, hu⟩ := h.loops i item j hm
      exact ⟨hi, hu.cons (by simp [Note.serial])⟩
    fresh := by
      intro i hi
      obtain ⟨hf, hb⟩ := h.fresh i hi
      exact ⟨fun k' => (hf k').cons (by simp) (by simp), fun n' ids hm =>
        hb n' ids (by simpa using hm)⟩
    done := by
      intro i k' hm
      obtain ⟨n', hp⟩ := h.done i k' (by simpa using hm)
      exact ⟨n', hp.cons (by simp) (by simp)⟩
    once := by
      intro i k
      show (visits (_ :: m.log) i k).Nodup
      rw [visits_cons]
      exact h.once i k
    quiet := List.pairwise_cons.mpr ⟨fun y _ j c item he => (by cases he), h.quiet⟩ }

theorem topLoop_mem : ∀ {stack : List (Frame S V)} {id : HandlerId}, topLoop stack = some id →
    id ∈ stack.map Frame.id
  | .replay .. :: _, _, h => List.mem_cons_of_mem _ (topLoop_mem h)
  | .loop .. :: _, _, h => by
    obtain rfl := Option.some.inj h
    exact List.mem_cons_self

/-- The handler that is being dispatched, and that nothing else stands on, joins the ids to
remove. -/
theorem PendingOk.append {handlers : HandlerKind → String → List HandlerId}
    {ids : List HandlerId} (hown : ∀ k n k' n', id ∈ handlers k n → id ∈ handlers k' n' →
      k = k' ∧ n = n') :
    ∀ {stack : List (Frame S V)}, PendingOk handlers ids stack → topLoop stack = some id →
      (stack.map Frame.id).count id = 1 →
      (∀ f ∈ stack, f.id ∈ handlers f.kind f.typeName) → PendingOk handlers (ids ++ [id]) stack
  | [], _, htop, _, _ => by cases htop
  | .replay n j kk fc :: rest, h, htop, hcount, hst => by
    have hmem : id ∈ rest.map Frame.id := topLoop_mem htop
    have hne : j ≠ id := by
      rintro rfl
      have hpos := List.count_pos_iff.mpr hmem
      simp only [List.map_cons, Frame.id, List.count_cons_self] at hcount
      omega
    refine ⟨by simp [h.1, hne], PendingOk.append hown h.2 htop ?_ fun f hf =>
      hst f (List.mem_cons_of_mem _ hf)⟩
    simpa [Frame.id, List.count_cons, hne] using hcount
  | .loop i item j :: rest, h, htop, hcount, hst => by
    obtain rfl := Option.some.inj htop
    intro p hp
    rcases List.mem_append.mp hp with hp | hp
    · exact h p hp
    · obtain rfl := List.mem_singleton.mp hp
      refine ⟨le_rfl, ?_, fun k n hm => hown _ _ _ _ hm (hst _ List.mem_cons_self)⟩
      rw [← List.count_eq_zero]
      simpa [Frame.id] using hcount

/-- A removal leaves the containers and the next id as they are. -/
theorem Dispatcher.frame_removeHandler {D D' : Dispatcher S V} {k : HandlerKind} {n : String}
    {id : HandlerId} (h : D.removeHandler k n id = .ok D') :
    D'.containerPool = D.containerPool ∧ D'.nextId = D.nextId := by
  unfold Dispatcher.removeHandler at h
  split_ifs at h <;> cases h <;> exact ⟨rfl, rfl⟩

/-- **The removal of a handler.** -/
theorem inv_removeHandler (h : Inv m) (hsafe : m.Safe (.removeHandler k n id)) :
    Inv (m.removeHandler k n id) := by
  unfold Machine.removeHandler Dispatcher.removeHandler
  by_cases hid : id ∈ m.dispatcher.handlers k n
  swap
  · rw [if_neg hid]
    exact h.note trivial rfl (by simp)
  have hadd := h.added k n id hid
  have hown : ∀ k₁ n₁ k₂ n₂, id ∈ m.dispatcher.handlers k₁ n₁ → id ∈ m.dispatcher.handlers k₂ n₂ →
      k₁ = k₂ ∧ n₁ = n₂ := fun k₁ n₁ k₂ n₂ h₁ h₂ =>
    h.unique k₁ n₁ k₂ n₂ id (h.added k₁ n₁ id h₁) (h.added k₂ n₂ id h₂)
  rw [if_pos hid]
  by_cases hcur : m.dispatcher.currentlyDispatchingId = some id
  · -- the running handler: its removal waits for the end of its loop
    rw [if_pos hcur]
    have hcount : m.standing.count id = 1 := by
      rcases hsafe hid with hn | ⟨-, hc⟩
      · exact absurd (topLoop_mem (h.current id hcur)) hn
      · exact hc
    refine ⟨h.toCore.request id (D := { m.dispatcher with removeIds := m.dispatcher.removeIds ++ [id] })
      rfl rfl h.sorted (fun _ _ _ hj => hj) (fun _ _ _ hj => .inl hj) (fun _ _ _ => by simp)
      (fun j hj => List.mem_append_left _ hj) (fun j hj => by simpa using hj) hadd h.standing, ?_⟩
    exact h.pendingOk.append hown (h.current id hcur) hcount h.standing
  · -- a handler nothing stands on: it goes at once
    rw [if_neg hcur]
    have hst : id ∉ m.standing := (hsafe hid).resolve_right fun hc => hcur hc.1
    have hmem : ∀ k' n' j, j ∈ (m.dispatcher.setHandlers k n
        ((m.dispatcher.handlers k n).erase id)).handlers k' n' ↔
          j ∈ m.dispatcher.handlers k' n' ∧ j ≠ id := by
      intro k' n' j
      rw [Dispatcher.handlers_setHandlers]
      split_ifs with hkn
      · obtain ⟨rfl, rfl⟩ := hkn
        have hnd : (m.dispatcher.handlers k' n').Nodup := (h.sorted k' n').imp fun hab => hab.ne'
        rw [hnd.mem_erase_iff, and_comm]
      · refine (and_iff_left_of_imp ?_).symm
        rintro hj rfl
        exact hkn (hown _ _ _ _ hj hid)
    refine ⟨h.toCore.request id (k := k) (n := n) rfl rfl ?_
      (fun k' n' j hj => ((hmem k' n' j).mp hj).1) ?_ ?_ (fun j hj => hj) (fun j hj => .inl hj) hadd
      ?_, ?_⟩
    · intro k' n'
      rw [Dispatcher.handlers_setHandlers]
      split_ifs
      · exact (h.sorted k n).sublist List.erase_sublist
      · exact h.sorted k' n'
    · intro k' n' j hj
      by_cases hji : j = id
      · exact .inr hji
      · exact .inl ((hmem k' n' j).mpr ⟨hj, hji⟩)
    · intro k' n' hj
      exact absurd rfl ((hmem k' n' id).mp hj).2
    · intro f hf
      refine (hmem _ _ _).mpr ⟨h.standing f hf, ?_⟩
      rintro rfl
      exact hst (List.mem_map_of_mem hf)
    · exact pendingOk_mono (fun p _ k' n' hj => ((hmem k' n' p).mp hj).1) h.pendingOk

end Table

/-! ## The run -/

/-- A handler returns to its loop. -/
theorem Inv.leaveLoop (h : Inv m) {item : Dispatchable S V} {id : HandlerId}
    {rest : List (Frame S V)} (hs : m.stack = .loop i item id :: rest) (threw : Bool) :
    Between (m.leaveLoop item rest threw) i item id := by
  obtain ⟨hi, hu⟩ := h.loops i item id (hs ▸ List.mem_cons_self)
  have hpend := hs ▸ h.pendingOk
  have hser := h.serials
  rw [hs] at hser
  have hpop := h.toCore.pop (c := none) hs (fun c hc => by cases hc)
  cases threw with
  | false => exact ⟨hpop, hi, (List.nodup_cons.mp hser).1, hu, hpend⟩
  | true =>
    refine ⟨?_, hi, (List.nodup_cons.mp hser).1, hu.cons (by simp [Note.serial]), hpend⟩
    exact hpop.note (x := .error item.typeName) trivial (fun _ he => by cases he)
      (fun _ _ _ _ he => by cases he) (fun _ _ he => by cases he) fun _ _ _ he => by cases he

/-- **What a return can do**: it ends the innermost frame, and its caller goes on. -/
theorem finish_cases {m' : Machine S V} {threw : Bool} {now : Timepoint}
    (hm : m.finish threw now = some m') :
    (∃ i item id rest, m.stack = .loop i item id :: rest ∧
      m' = (m.leaveLoop item rest threw).goOn i item
        ((m.leaveLoop item rest threw).nextHandler item.kind item.typeName id) now) ∨
    ∃ n id node fromCache rest, m.stack = .replay n id node fromCache :: rest ∧
      (threw = true ∧ m' = Machine.note { m with stack := rest } (.aborted id) ∨
        threw = false ∧ ∃ k, node = some k ∧
          m' = Machine.replayTo { m with stack := rest } n id fromCache (m.nextClone n k)) := by
  unfold Machine.finish at hm
  split at hm
  · cases hm
  · rename_i i item id rest hs
    split_ifs at hm
    exact .inl ⟨i, item, id, rest, hs, (Option.some.inj hm).symm⟩
  · rename_i n id node fromCache rest hs
    split_ifs at hm with _ ht
    · exact .inr ⟨n, id, node, fromCache, rest, hs, .inl ⟨ht, (Option.some.inj hm).symm⟩⟩
    · obtain ⟨k, hk, hm⟩ := Option.map_eq_some_iff.mp hm
      exact .inr ⟨n, id, node, fromCache, rest, hs, .inr ⟨by simpa using ht, k, hk, hm.symm⟩⟩

/-- **A handler returns or throws.** -/
theorem inv_finish {m' : Machine S V} (h : Inv m) {threw : Bool} {now : Timepoint}
    (hm : m.finish threw now = some m') : Inv m' := by
  obtain ⟨i, item, id, rest, hs, rfl⟩ | ⟨n, id, node, fc, rest, hs, hm⟩ := finish_cases hm
  · exact (h.leaveLoop hs threw).goOn now
  · have hpend := hs ▸ h.pendingOk
    have hcur : ∀ c, m.dispatcher.currentlyDispatchingId = some c → topLoop rest = some c :=
      fun c hc => (hs ▸ h.current c hc :)
    have hpop : Inv { m with stack := rest } := ⟨h.toCore.pop hs hcur, hpend.2⟩
    have hid : id ∈ m.dispatcher.handlers .event n :=
      h.standing (.replay n id node fc) (hs ▸ List.mem_cons_self)
    obtain ⟨-, rfl⟩ | ⟨-, k, -, rfl⟩ := hm
    · exact hpop.note (x := .aborted id) trivial rfl (by simp)
    · exact hpop.replayTo hid (fun hr => hpend.1 (h.gone _ _ id hr hid)) _ _

/-- **Every safe step keeps the invariant.** -/
theorem inv_step {m' : Machine S V} {c : Call S V} (h : Inv m) (hsafe : m.Safe c)
    (hm : m.step c = some m') : Inv m' := by
  cases c with
  | addTransmissionHandler n =>
    obtain rfl := Option.some.inj hm
    exact h.addHandler .transmission n
  | addEventHandler n =>
    obtain rfl := Option.some.inj hm
    exact inv_addEventHandler h n
  | removeHandler k n id =>
    obtain rfl := Option.some.inj hm
    exact inv_removeHandler h hsafe
  | dispatch t now =>
    obtain rfl := Option.some.inj hm
    exact inv_dispatch h hsafe
  | finish threw now => exact inv_finish h hm

theorem inv_init : Inv ({} : Machine S V) where
  sorted _ _ := List.Pairwise.nil
  added _ _ _ h := absurd h List.not_mem_nil
  below _ _ _ h := absurd h List.not_mem_nil
  unique _ _ _ _ _ h := absurd h List.not_mem_nil
  kept _ _ _ h := absurd h List.not_mem_nil
  known _ h := absurd h List.not_mem_nil
  gone _ _ _ h := absurd h List.not_mem_nil
  pending _ h := absurd h List.not_mem_nil
  standing _ h := absurd h List.not_mem_nil
  current _ h := by cases h
  began _ _ _ h := absurd h List.not_mem_nil
  serials := List.nodup_nil
  loops _ _ _ h := absurd h List.not_mem_nil
  fresh _ _ := ⟨fun _ => ⟨rfl, List.not_mem_nil⟩, fun _ _ => List.not_mem_nil⟩
  done _ _ h := absurd h List.not_mem_nil
  once _ _ := List.nodup_nil
  quiet := List.Pairwise.nil
  pendingOk := rfl

theorem inv_of_run {cs : List (Call S V)} {m' : Machine S V} (h : Inv m)
    (r : Lts.Run (Lts.Guarded (Lts.ofPartial Machine.step) Machine.Safe) m cs m') : Inv m' :=
  r.invariant (I := Inv) (fun _ _ _ hi hs => inv_step hi hs.2 hs.1) h

end Dots

import Dots.Dispatcher.Steps

/-!
# A dispatch runs its loops

* `poolOf`: the containers, read off the container operations in the log.
* `Source`: the transmission or the event that a loop hands out is that of its dispatch.
* `Carried`: a dispatch that is not under way has run its loop over the transmission handlers, its
  container operation, and its loop over the event handlers where that operation has an event.
* **`carried_step`**: it holds in every state reached.
-/

set_option autoImplicit false
set_option linter.unusedSectionVars false

namespace Dots

variable {S : Schema} {V : Type} [Ord V] [Std.TransOrd V] [Std.LawfulEqOrd V]

/-! ## What the log says of a dispatch -/

/-- The containers that the dispatches of a log have made. -/
def poolOf : List (Note S V) → ContainerPool S V
  | [] => .empty
  | .stored _ t now _ :: log => ((poolOf log).dispatchEvent t now).1
  | _ :: log => poolOf log

variable {log : List (Note S V)} {i : ℕ}

/-- What a loop of dispatch number `i` hands out: the transmission that is dispatched, or the event
that its container operation gave. -/
def Source (log : List (Note S V)) (i : ℕ) : Dispatchable S V → Prop
  | .transmission t => ∃ ids, .began i t ids ∈ log
  | .event n e => ∃ t ids now, .began i t ids ∈ log ∧ .stored i t now (.event e) ∈ log ∧
      n = t.instance_.typeName

/-- The loop of dispatch number `i` over the transmission handlers is over, if there was one. -/
def TransmissionsDone (log : List (Note S V)) (i : ℕ) : Prop :=
  ∀ t ids, .began i t ids ∈ log → ids .transmission = [] ∨ .completed i .transmission ∈ log

/-- Dispatch number `i` of `t` has had its container operation, and its event the loop over the
event handlers. -/
def EventDone (log : List (Note S V)) (i : ℕ) (t : Transmission S V) : Prop :=
  ∃ now r, .stored i t now r ∈ log ∧ ∀ e, r = .event e → .completed i .event ∈ log

/-- A note of no dispatch, or of its course rather than its beginning or container operation. -/
def Note.Passing : Note S V → Prop
  | .began .. | .stored .. => False
  | _ => True

theorem Source.cons {item : Dispatchable S V} (h : Source log i item) (x : Note S V) :
    Source (x :: log) i item := by
  cases item with
  | transmission t =>
    obtain ⟨ids, hb⟩ := h
    exact ⟨ids, List.mem_cons_of_mem x hb⟩
  | event n e =>
    obtain ⟨t, ids, now, hb, hs, hn⟩ := h
    exact ⟨t, ids, now, List.mem_cons_of_mem x hb, List.mem_cons_of_mem x hs, hn⟩

theorem TransmissionsDone.cons (h : TransmissionsDone log i) {x : Note S V}
    (hx : ∀ t ids, x ≠ .began i t ids) : TransmissionsDone (x :: log) i := by
  intro t ids hm
  rcases List.mem_cons.mp hm with he | hm
  · exact absurd he.symm (hx t ids)
  · exact (h t ids hm).imp_right (List.mem_cons_of_mem x)

theorem EventDone.cons {t : Transmission S V} (h : EventDone log i t) (x : Note S V) :
    EventDone (x :: log) i t := by
  obtain ⟨now, r, hs, hr⟩ := h
  exact ⟨now, r, List.mem_cons_of_mem x hs, fun e he => List.mem_cons_of_mem x (hr e he)⟩

theorem Note.Passing.began_mem {x : Note S V} (hx : x.Passing) {t : Transmission S V}
    {ids : HandlerKind → List HandlerId} : .began i t ids ∈ x :: log ↔ .began i t ids ∈ log := by
  refine List.mem_cons.trans (or_iff_right ?_)
  rintro rfl
  exact hx

theorem Note.Passing.stored_mem {x : Note S V} (hx : x.Passing) {t : Transmission S V}
    {now : Timepoint} {r : EventResult S V} :
    .stored i t now r ∈ x :: log ↔ .stored i t now r ∈ log := by
  refine List.mem_cons.trans (or_iff_right ?_)
  rintro rfl
  exact hx

theorem Note.Passing.poolOf_cons {x : Note S V} (hx : x.Passing) : poolOf (x :: log) = poolOf log := by
  cases x <;> first | rfl | exact hx.elim

/-- Where a note of a longer log stands. -/
theorem split_cons {x y : Note S V} {newer older : List (Note S V)}
    (h : x :: log = newer ++ y :: older) :
    x = y ∧ log = older ∨ ∃ newer', log = newer' ++ y :: older := by
  cases newer with
  | nil => exact .inl (List.cons.inj h)
  | cons z newer => exact .inr ⟨newer, (List.cons.inj h).2⟩

/-! ## The invariant -/

/-- **The invariant** of the course of the dispatches; `busy` is the dispatch between two handlers
of a loop, or between its loops. -/
structure Carried (m : Machine S V) (busy : Option ℕ) : Prop where
  containers : m.dispatcher.containerPool = poolOf m.log
  stored : ∀ newer i t now r older, m.log = newer ++ .stored i t now r :: older →
    r = ((poolOf older).dispatchEvent t now).2
  registered : ∀ newer i t ids older, m.log = newer ++ .began i t ids :: older → ∀ k id,
    .added k t.instance_.typeName id ∈ older → id ∈ ids k ∨ .requested id ∈ older
  below : ∀ i t now r, .stored i t now r ∈ m.log → i < m.dispatched
  began_unique : ∀ i t ids t' ids', .began i t ids ∈ m.log → .began i t' ids' ∈ m.log → t = t'
  stored_unique : ∀ i t now r t' now' r', .stored i t now r ∈ m.log →
    .stored i t' now' r' ∈ m.log → r = r'
  items : ∀ i k id item, .invoked id (.loop i k) item ∈ m.log → item.kind = k ∧ Source m.log i item
  transmissions : ∀ i t id, .loop i (.transmission t) id ∈ m.stack →
    Source m.log i (.transmission t) ∧ ∀ t' now r, .stored i t' now r ∉ m.log
  events : ∀ i n e id, .loop i (.event n e) id ∈ m.stack →
    Source m.log i (.event n e) ∧ TransmissionsDone m.log i
  done : ∀ i t ids, .began i t ids ∈ m.log → i ∉ m.stack.filterMap Frame.serial →
    busy ≠ some i → TransmissionsDone m.log i ∧ EventDone m.log i t

variable {m : Machine S V} {busy : Option ℕ}

/-- Another dispatcher with the same containers, and other frames that stand for the same
dispatches. -/
theorem Carried.of_frames (h : Carried m busy) {D : Dispatcher S V} {stack : List (Frame S V)}
    {busy' : Option ℕ} (hD : D.containerPool = m.dispatcher.containerPool)
    (hloop : ∀ i item id, .loop i item id ∈ stack → .loop i item id ∈ m.stack)
    (hserial : ∀ i, i ∉ stack.filterMap Frame.serial → busy' ≠ some i →
      i ∉ m.stack.filterMap Frame.serial ∧ busy ≠ some i) :
    Carried { m with dispatcher := D, stack := stack } busy' :=
  { h with
    containers := hD.trans h.containers
    transmissions := fun i t id hm => h.transmissions i t id (hloop _ _ _ hm)
    events := fun i n e id hm => h.events i n e id (hloop _ _ _ hm)
    done := fun i t ids hm hs hb => h.done i t ids hm (hserial i hs hb).1 (hserial i hs hb).2 }

/-- A note that begins no dispatch and stores nothing. -/
theorem Carried.note (h : Carried m busy) {x : Note S V} (hx : x.Passing)
    (hitem : ∀ i k id item, x = .invoked id (.loop i k) item →
      item.kind = k ∧ Source m.log i item) : Carried (m.note x) busy where
  containers := h.containers.trans hx.poolOf_cons.symm
  stored := by
    intro newer i t now r older hlog
    obtain ⟨rfl, -⟩ | ⟨newer', hlog⟩ := split_cons hlog
    · exact hx.elim
    · exact h.stored newer' i t now r older hlog
  registered := by
    intro newer i t ids older hlog
    obtain ⟨rfl, -⟩ | ⟨newer', hlog⟩ := split_cons hlog
    · exact hx.elim
    · exact h.registered newer' i t ids older hlog
  below i t now r hm := h.below i t now r (hx.stored_mem.mp hm)
  began_unique i t ids t' ids' hm hm' :=
    h.began_unique i t ids t' ids' (hx.began_mem.mp hm) (hx.began_mem.mp hm')
  stored_unique i t now r t' now' r' hm hm' :=
    h.stored_unique i t now r t' now' r' (hx.stored_mem.mp hm) (hx.stored_mem.mp hm')
  items := by
    intro i k id item hm
    rcases List.mem_cons.mp hm with he | hm
    · obtain ⟨hk, hs⟩ := hitem i k id item he.symm
      exact ⟨hk, hs.cons x⟩
    · obtain ⟨hk, hs⟩ := h.items i k id item hm
      exact ⟨hk, hs.cons x⟩
  transmissions i t id hm := by
    obtain ⟨hs, hn⟩ := h.transmissions i t id hm
    exact ⟨hs.cons x, fun t' now r hm => hn t' now r (hx.stored_mem.mp hm)⟩
  events i n e id hm := by
    obtain ⟨hs, ht⟩ := h.events i n e id hm
    exact ⟨hs.cons x, ht.cons fun t ids he => (he ▸ hx :)⟩
  done i t ids hm hs hb := by
    obtain ⟨ht, he⟩ := h.done i t ids (hx.began_mem.mp hm) hs hb
    exact ⟨ht.cons fun t ids he => (he ▸ hx :), he.cons x⟩

/-! ## The course of a dispatch -/

/-- Between two handlers of the loop of dispatch number `i` over the handlers of `item`. -/
structure Amid (m : Machine S V) (i : ℕ) (item : Dispatchable S V) : Prop
    extends Carried m (some i) where
  not_standing : i ∉ m.stack.filterMap Frame.serial
  source : Source m.log i item
  unstored : item.kind = .transmission → ∀ t now r, .stored i t now r ∉ m.log
  past : item.kind = .event → TransmissionsDone m.log i

/-- Before the container operation of dispatch number `i` of `t`. -/
structure Ready (m : Machine S V) (i : ℕ) (t : Transmission S V) : Prop
    extends Carried m (some i) where
  not_standing : i ∉ m.stack.filterMap Frame.serial
  source : Source m.log i (.transmission t)
  unstored : ∀ t now r, .stored i t now r ∉ m.log
  past : TransmissionsDone m.log i
  lt : i < m.dispatched

/-- **The next handler of a loop.** -/
theorem Amid.loopTo_some {item : Dispatchable S V} (h : Amid m i item) (id : HandlerId) :
    Carried (m.loopTo i item (some id)) none := by
  have hnote := h.toCarried.note (x := .invoked id (.loop i item.kind) item) trivial
    fun i' k id' item' he => by
      cases he
      exact ⟨rfl, h.source⟩
  refine
    { hnote with
      transmissions := ?_
      events := ?_
      done := fun i' t ids hm hs hb => ?_ }
  · intro i' t id' hm
    rcases List.mem_cons.mp hm with he | hm
    · cases he
      exact ⟨h.source.cons _, fun t' now r hm => h.unstored rfl t' now r (by simpa [Machine.loopTo] using hm)⟩
    · exact hnote.transmissions i' t id' hm
  · intro i' n e id' hm
    rcases List.mem_cons.mp hm with he | hm
    · cases he
      exact ⟨h.source.cons _, (h.past rfl).cons (by simp)⟩
    · exact hnote.events i' n e id' hm
  · -- the frame stands for dispatch number `i`
    have hs : i' ∉ i :: m.stack.filterMap Frame.serial := hs
    refine hnote.done i' t ids hm (fun hm' => hs (List.mem_cons_of_mem _ hm')) fun he => hs ?_
    obtain rfl := Option.some.inj he
    exact List.mem_cons_self

/-- The end of a loop, before what comes behind it. -/
theorem Amid.loopTo_none {item : Dispatchable S V} (h : Amid m i item) :
    Carried (m.loopTo i item none) (some i) :=
  (h.toCarried.of_frames (D := m.dispatcher.flush item.kind item.typeName) rfl
    (fun _ _ _ hm => hm) fun _ hs hb => ⟨hs, hb⟩).note (x := .completed i item.kind) trivial
      fun _ _ _ _ he => by cases he

/-- **The end of an event loop** is the end of its dispatch. -/
theorem Amid.loopTo_none_event {n : String} {e : Event S V} (h : Amid m i (.event n e)) :
    Carried (m.loopTo i (.event n e) none) none := by
  have hcar := h.loopTo_none
  refine { hcar with done := fun i' t ids hm hs _ => ?_ }
  by_cases hi : i = i'
  · subst hi
    obtain ⟨t', ids', now, hb, hst, -⟩ := h.source
    have hb' : .began i t' ids' ∈ (m.loopTo i (.event n e) none).log := List.mem_cons_of_mem _ hb
    obtain rfl := hcar.began_unique i t' ids' t ids hb' hm
    refine ⟨(h.past rfl).cons (by simp), now, .event e, List.mem_cons_of_mem _ hst, ?_⟩
    exact fun _ _ => List.mem_cons_self
  · exact hcar.done i' t ids hm hs fun he => hi (Option.some.inj he)

section Course

variable {t : Transmission S V} {now : Timepoint}

/-- **The container operation.** -/
theorem Ready.store (h : Ready m i t) (now : Timepoint) : Carried (m.store i t now) (some i) where
  containers := by
    show (m.dispatcher.containerPool.dispatchEvent t now).1 = ((poolOf m.log).dispatchEvent t now).1
    rw [h.containers]
  stored := by
    intro newer i' t' now' r older hlog
    obtain ⟨he, rfl⟩ | ⟨newer', hlog⟩ := split_cons hlog
    · obtain ⟨rfl, rfl, rfl, rfl⟩ := Note.stored.inj he
      rw [h.containers]
    · exact h.stored newer' i' t' now' r older hlog
  registered := by
    intro newer i' t' ids older hlog
    obtain ⟨he, -⟩ | ⟨newer', hlog⟩ := split_cons hlog
    · cases he
    · exact h.registered newer' i' t' ids older hlog
  below := by
    intro i' t' now' r hm
    rcases List.mem_cons.mp hm with he | hm
    · obtain ⟨rfl, -⟩ := Note.stored.inj he
      exact h.lt
    · exact h.below i' t' now' r hm
  began_unique i' t₁ ids t₂ ids' hm hm' :=
    h.began_unique i' t₁ ids t₂ ids' (by simpa [Machine.store] using hm)
      (by simpa [Machine.store] using hm')
  stored_unique := by
    intro i' t₁ now₁ r₁ t₂ now₂ r₂ h₁ h₂
    rcases List.mem_cons.mp h₁ with he | hm <;> rcases List.mem_cons.mp h₂ with he' | hm'
    · obtain ⟨-, -, -, rfl⟩ := Note.stored.inj he
      obtain ⟨-, -, -, rfl⟩ := Note.stored.inj he'
      rfl
    · obtain ⟨rfl, -⟩ := Note.stored.inj he
      exact absurd hm' (h.unstored _ _ _)
    · obtain ⟨rfl, -⟩ := Note.stored.inj he'
      exact absurd hm (h.unstored _ _ _)
    · exact h.stored_unique i' t₁ now₁ r₁ t₂ now₂ r₂ hm hm'
  items i' k id item hm := by
    obtain ⟨hk, hs⟩ := h.items i' k id item (by simpa [Machine.store] using hm)
    exact ⟨hk, hs.cons _⟩
  transmissions := by
    intro i' t' id hframe
    have hframe := loop_mem_settle.mp hframe
    have hserial : i' ∈ m.stack.filterMap Frame.serial := List.mem_filterMap.mpr ⟨_, hframe, rfl⟩
    obtain ⟨hs, hn⟩ := h.transmissions i' t' id hframe
    refine ⟨hs.cons _, fun t'' now' r hm => ?_⟩
    rcases List.mem_cons.mp hm with he | hm
    · obtain ⟨rfl, -⟩ := Note.stored.inj he
      exact h.not_standing hserial
    · exact hn t'' now' r hm
  events i' n e id hm := by
    obtain ⟨hs, ht⟩ := h.events i' n e id (loop_mem_settle.mp hm)
    exact ⟨hs.cons _, ht.cons (by simp)⟩
  done := by
    intro i' t' ids hm hs hb
    obtain ⟨ht, he⟩ := h.done i' t' ids (by simpa [Machine.store] using hm)
      (serials_settle _ m.stack ▸ hs) hb
    exact ⟨ht.cons (by simp), he.cons _⟩

/-- **The event of a dispatch**, which ends the dispatch where there is none. -/
theorem Ready.startEvent (h : Ready m i t) (now : Timepoint) :
    Carried (m.startEvent i t now) none := by
  have hstore := h.store now
  have hpast : TransmissionsDone (m.store i t now).log i := h.past.cons (by simp)
  have hstored : .stored i t now (m.dispatcher.containerPool.dispatchEvent t now).2 ∈
      (m.store i t now).log := List.mem_cons_self
  obtain ⟨ids, hbegan⟩ := h.source
  have hbegan : .began i t ids ∈ (m.store i t now).log := List.mem_cons_of_mem _ hbegan
  -- without an event the dispatch is over
  have hover : (∀ e, (m.dispatcher.containerPool.dispatchEvent t now).2 ≠ .event e) →
      Carried (m.store i t now) none := by
    intro hne
    refine { hstore with done := fun i' t' ids' hm hs _ => ?_ }
    by_cases hi : i = i'
    · subst hi
      obtain rfl := hstore.began_unique i t ids t' ids' hbegan hm
      exact ⟨hpast, now, _, hstored, fun e he => absurd he (hne e)⟩
    · exact hstore.done i' t' ids' hm hs fun he => hi (Option.some.inj he)
  unfold Machine.startEvent
  cases hr : (m.dispatcher.containerPool.dispatchEvent t now).2 with
  | none => exact hover fun e he => by rw [hr] at he; cases he
  | threw what =>
    refine (hover fun e he => by rw [hr] at he; cases he).note (x := .threw what) trivial ?_
    exact fun _ _ _ _ he => by cases he
  | event e =>
    rw [hr] at hstored
    have hamid : Amid (m.store i t now) i (.event t.instance_.typeName e) :=
      { hstore with
        not_standing := (serials_settle _ m.stack).symm ▸ h.not_standing
        source := ⟨t, ids, now, hbegan, hstored, rfl⟩
        unstored := fun hk => by cases hk
        past := fun _ => hpast }
    show Carried ((m.store i t now).loopTo i (.event t.instance_.typeName e)
      ((m.store i t now).dispatcher.handlers .event t.instance_.typeName).head?) none
    cases ((m.store i t now).dispatcher.handlers .event t.instance_.typeName).head? with
    | none => exact hamid.loopTo_none_event
    | some id => exact hamid.loopTo_some id

/-- **The rest of a loop**, with the event behind it. -/
theorem Amid.goOn {item : Dispatchable S V} (h : Amid m i item) (hlt : i < m.dispatched)
    (next : Option HandlerId) (now : Timepoint) : Carried (m.goOn i item next now) none := by
  cases next with
  | some id => exact h.loopTo_some id
  | none =>
    cases item with
    | event n e => exact h.loopTo_none_event
    | transmission t =>
      have hready : Ready (m.loopTo i (.transmission t) none) i t :=
        { h.loopTo_none with
          not_standing := h.not_standing
          source := h.source.cons _
          unstored := fun t' now' r hm => h.unstored rfl t' now' r (by simpa [Machine.loopTo] using hm)
          past := fun _ _ _ => .inr List.mem_cons_self
          lt := hlt }
      exact hready.startEvent now

/-- **A dispatch begins.** -/
theorem Carried.beginDispatch (h : Carried m none) (hc : Core m) (t : Transmission S V) :
    Carried (m.beginDispatch t) (some m.dispatched) := by
  have hnew : ∀ t' ids, .began m.dispatched t' ids ∉ m.log := (hc.fresh m.dispatched le_rfl).2
  exact
    { containers := h.containers
      stored := by
        intro newer i t' now r older hlog
        obtain ⟨he, -⟩ | ⟨newer', hlog⟩ := split_cons hlog
        · cases he
        · exact h.stored newer' i t' now r older hlog
      registered := by
        intro newer i t' ids older hlog k id ha
        obtain ⟨he, rfl⟩ | ⟨newer', hlog⟩ := split_cons hlog
        · obtain ⟨-, rfl, rfl⟩ := Note.began.inj he
          exact hc.kept k _ id ha
        · exact h.registered newer' i t' ids older hlog k id ha
      below := fun i t' now r hm =>
        (h.below i t' now r (by simpa [Machine.beginDispatch] using hm)).trans (Nat.lt_succ_self _)
      began_unique := by
        intro i t₁ ids t₂ ids' h₁ h₂
        rcases List.mem_cons.mp h₁ with he | hm <;> rcases List.mem_cons.mp h₂ with he' | hm'
        · exact (Note.began.inj he).2.1.trans (Note.began.inj he').2.1.symm
        · obtain ⟨rfl, -⟩ := Note.began.inj he
          exact absurd hm' (hnew _ _)
        · obtain ⟨rfl, -⟩ := Note.began.inj he'
          exact absurd hm (hnew _ _)
        · exact h.began_unique i t₁ ids t₂ ids' hm hm'
      stored_unique := fun i t₁ now₁ r₁ t₂ now₂ r₂ hm hm' =>
        h.stored_unique i t₁ now₁ r₁ t₂ now₂ r₂ (by simpa [Machine.beginDispatch] using hm)
          (by simpa [Machine.beginDispatch] using hm')
      items := fun i k id item hm => by
        obtain ⟨hk, hs⟩ := h.items i k id item (by simpa [Machine.beginDispatch] using hm)
        exact ⟨hk, hs.cons _⟩
      transmissions := fun i t' id hm => by
        obtain ⟨hs, hn⟩ := h.transmissions i t' id hm
        exact ⟨hs.cons _, fun t'' now r hm => hn t'' now r (by simpa [Machine.beginDispatch] using hm)⟩
      events := fun i n e id hm => by
        obtain ⟨hs, ht⟩ := h.events i n e id hm
        refine ⟨hs.cons _, ht.cons fun t' ids he => ?_⟩
        obtain ⟨rfl, -⟩ := Note.began.inj he
        exact lt_irrefl _ (hc.loops _ _ id hm).1
      done := by
        intro i t' ids hm hs hb
        rcases List.mem_cons.mp hm with he | hm
        · obtain ⟨rfl, -⟩ := Note.began.inj he
          exact absurd rfl hb
        · obtain ⟨ht, he⟩ := h.done i t' ids hm hs fun he => by cases he
          refine ⟨ht.cons fun t'' ids' he => ?_, he.cons _⟩
          obtain ⟨rfl, -⟩ := Note.began.inj he
          exact hb rfl }

/-- **A dispatch.** -/
theorem Carried.dispatch (h : Carried m none) (hc : Core m) (t : Transmission S V)
    (now : Timepoint) : Carried (m.dispatch t now) none := by
  have hbegin := h.beginDispatch hc t
  obtain ⟨hw, -⟩ := hc.waiting t
  have hsource : Source (m.beginDispatch t).log m.dispatched (.transmission t) :=
    ⟨_, List.mem_cons_self⟩
  have hunstored : ∀ t' now' r, .stored m.dispatched t' now' r ∉ (m.beginDispatch t).log :=
    fun t' now' r hm =>
      lt_irrefl _ (h.below _ t' now' r (by simpa [Machine.beginDispatch] using hm))
  simp only [Machine.dispatch]
  cases hp : m.dispatcher.handlerPool .transmission t.instance_.typeName with
  | none =>
    have hready : Ready (m.beginDispatch t) m.dispatched t :=
      { hbegin with
        not_standing := hw.not_standing
        source := hsource
        unstored := hunstored
        lt := hw.lt
        past := by
          intro t' ids hm
          rcases List.mem_cons.mp hm with he | hm
          · obtain ⟨-, -, rfl⟩ := Note.began.inj he
            exact .inl (Option.getD_eq_iff.mpr (.inr ⟨hp, rfl⟩))
          · exact absurd hm ((hc.fresh m.dispatched le_rfl).2 _ _) }
    exact hready.startEvent now
  | some ids =>
    have hamid : Amid (m.beginDispatch t) m.dispatched (.transmission t) :=
      { hbegin with
        not_standing := hw.not_standing
        source := hsource
        unstored := fun _ => hunstored
        past := fun hk => by cases hk }
    exact hamid.goOn hw.lt ids.head? now

/-- **A handler returns to its loop.** -/
theorem Carried.leaveLoop (h : Carried m none) (hc : Core m) {item : Dispatchable S V}
    {id : HandlerId} {rest : List (Frame S V)} (hs : m.stack = .loop i item id :: rest)
    (threw : Bool) : Amid (m.leaveLoop item rest threw) i item := by
  have hser := hc.serials
  rw [hs] at hser
  have hframes : Carried { m with
      dispatcher := { m.dispatcher with currentlyDispatchingId := none }
      stack := rest } (some i) := by
    refine h.of_frames rfl (fun _ _ _ hm => hs ▸ List.mem_cons_of_mem _ hm) fun i' hi hb => ?_
    refine ⟨fun hm => ?_, fun he => by cases he⟩
    rw [hs] at hm
    rcases List.mem_cons.mp (show i' ∈ i :: rest.filterMap Frame.serial from hm) with rfl | hm
    · exact hb rfl
    · exact hi hm
  have hmem : .loop i item id ∈ m.stack := hs ▸ List.mem_cons_self
  have hcar : Carried (m.leaveLoop item rest threw) (some i) := by
    cases threw with
    | false => exact hframes
    | true => exact hframes.note (x := .error item.typeName) trivial fun _ _ _ _ he => by cases he
  have hlog : (m.leaveLoop item rest threw).log = m.log ∨
      (m.leaveLoop item rest threw).log = .error item.typeName :: m.log := by
    cases threw
    · exact .inl rfl
    · exact .inr rfl
  have hloop : Source m.log i item ∧
      (item.kind = .transmission → ∀ t now r, .stored i t now r ∉ m.log) ∧
      (item.kind = .event → TransmissionsDone m.log i) := by
    cases item with
    | transmission t =>
      obtain ⟨hsource, hn⟩ := h.transmissions i t id hmem
      exact ⟨hsource, fun _ => hn, fun hk => by cases hk⟩
    | event n e =>
      obtain ⟨hsource, ht⟩ := h.events i n e id hmem
      exact ⟨hsource, (fun hk => by cases hk), fun _ => ht⟩
  obtain ⟨hsource, hn, ht⟩ := hloop
  refine { hcar with
    not_standing := (List.nodup_cons.mp hser).1, source := ?_, unstored := ?_, past := ?_ }
  · rcases hlog with he | he <;> rw [he]
    · exact hsource
    · exact hsource.cons _
  · rcases hlog with he | he <;> rw [he]
    · exact hn
    · simpa using hn
  · rcases hlog with he | he <;> rw [he]
    · exact ht
    · exact fun hk => (ht hk).cons (by simp)

end Course

/-! ## The run -/

section Replay

variable {n : String} {id : HandlerId} {node : Option (List (Option V))} {fromCache : ℕ}

/-- The frame of a replay stands for no dispatch. -/
theorem Carried.push_replay (h : Carried m none) :
    Carried { m with stack := .replay n id node fromCache :: m.stack } none :=
  h.of_frames rfl (fun _ _ _ hm => (List.mem_cons.mp hm).resolve_left fun he => by cases he)
    fun _ hi hb => ⟨hi, hb⟩

theorem Carried.pop_replay (h : Carried m none) {rest : List (Frame S V)}
    (hs : m.stack = .replay n id node fromCache :: rest) : Carried { m with stack := rest } none := by
  refine h.of_frames rfl (fun _ _ _ hm => hs ▸ List.mem_cons_of_mem _ hm) fun _ hi hb => ⟨?_, hb⟩
  rw [hs]
  exact hi

end Replay

/-- The next instance of a replay, or its end. -/
theorem Carried.replayTo (h : Carried m none) (n : String) (id : HandlerId) (fromCache : ℕ)
    (e : Option (Clone V (S.descriptor n))) : Carried (m.replayTo n id fromCache e) none := by
  cases e with
  | none => exact h
  | some e =>
    exact h.push_replay.note (x := .invoked id .replay _) trivial fun _ _ _ _ he => by cases he

/-- **Every safe step keeps the invariant.** -/
theorem carried_step {m' : Machine S V} {c : Call S V} (h : Carried m none) (hi : Inv m)
    (hm : m.step c = some m') : Carried m' none := by
  cases c with
  | addTransmissionHandler n =>
    obtain rfl := Option.some.inj hm
    exact (h.of_frames (D := m.dispatcher.addHandler .transmission n) rfl (fun _ _ _ hm => hm)
      fun _ hs hb => ⟨hs, hb⟩).note (x := .added .transmission n m.dispatcher.nextId) trivial
        fun _ _ _ _ he => by cases he
  | addEventHandler n =>
    obtain rfl := Option.some.inj hm
    have hadd := (h.of_frames (D := m.dispatcher.addHandler .event n) rfl (fun _ _ _ hm => hm)
      fun _ hs hb => ⟨hs, hb⟩).note (x := .added .event n m.dispatcher.nextId) trivial
        fun _ _ _ _ he => by cases he
    exact hadd.replayTo n _ _ _
  | removeHandler k n id =>
    obtain rfl := Option.some.inj hm
    unfold Machine.removeHandler
    cases hr : m.dispatcher.removeHandler k n id with
    | error what =>
      exact h.note (x := .refused k n id what) trivial fun _ _ _ _ he => by cases he
    | ok D =>
      obtain ⟨hpool, -⟩ := Dispatcher.frame_removeHandler hr
      exact (h.of_frames hpool (fun _ _ _ hm => hm) fun _ hs hb => ⟨hs, hb⟩).note
        (x := .requested id) trivial fun _ _ _ _ he => by cases he
  | dispatch t now =>
    obtain rfl := Option.some.inj hm
    exact h.dispatch hi.toCore t now
  | finish threw now =>
    obtain ⟨i, item, id, rest, hs, rfl⟩ | ⟨n, id, node, fc, rest, hs, hm⟩ := finish_cases hm
    · exact (h.leaveLoop hi.toCore hs threw).goOn
        (hi.loops i item id (hs ▸ List.mem_cons_self)).1 _ now
    · have hpop := h.pop_replay hs
      obtain ⟨-, rfl⟩ | ⟨-, k, -, rfl⟩ := hm
      · exact hpop.note (x := .aborted id) trivial fun _ _ _ _ he => by cases he
      · exact hpop.replayTo n id fc _

theorem carried_init : Carried ({} : Machine S V) none where
  containers := rfl
  stored newer _ _ _ _ _ h := by cases newer <;> cases h
  registered newer _ _ _ _ h := by cases newer <;> cases h
  below _ _ _ _ h := absurd h List.not_mem_nil
  began_unique _ _ _ _ _ h := absurd h List.not_mem_nil
  stored_unique _ _ _ _ _ _ _ h := absurd h List.not_mem_nil
  items _ _ _ _ h := absurd h List.not_mem_nil
  transmissions _ _ _ h := absurd h List.not_mem_nil
  events _ _ _ _ h := absurd h List.not_mem_nil
  done _ _ _ h := absurd h List.not_mem_nil

end Dots

import Dots.Dispatcher.Replay

/-!
# The subscription law

A removal of the handler that runs is deferred to the end of a loop, through two members that all
loops of the dispatcher share: any loop that ends meanwhile uses the deferred ids up on its own
table. The law therefore holds in the runs that keep out of the way of a deferred removal
(`Machine.Safe`).

* `Machine.Lawful`: what the law says of a state. It reads the handlers, the dispatches and the
  containers off the log, and `Call.request` ties the log to the calls of the run.
* `step_log`: what a step adds to the log.
* **`lawful_of_run`**: the law holds in every state reached by safe steps.
-/

set_option autoImplicit false
set_option linter.unusedSectionVars false

namespace Dots

variable {S : Schema} {V : Type} [Ord V] [Std.TransOrd V] [Std.LawfulEqOrd V]

/-! ## The law -/

/-- Dispatch number `i` of `t` has been carried out: each handler that was registered when it began
and was not removed has been invoked with the transmission, or with the event that the container
operation of the dispatch gave. -/
structure CarriedOut (log : List (Note S V)) (i : ℕ) (t : Transmission S V)
    (before : List (Note S V)) : Prop where
  transmission : ∀ id, .added .transmission t.instance_.typeName id ∈ before →
    .requested id ∉ log → .invoked id (.loop i .transmission) (.transmission t) ∈ log
  event : ∃ now r, .stored i t now r ∈ log ∧ ∀ e, r = .event e → ∀ id,
    .added .event t.instance_.typeName id ∈ before → .requested id ∉ log →
      .invoked id (.loop i .event) (.event t.instance_.typeName e) ∈ log

namespace Machine

variable (m : Machine S V)

/-- **The subscription law** in a state. -/
structure Lawful : Prop where
  /-- No handler is invoked after its removal was requested. -/
  not_invoked : m.log.Pairwise fun newer older =>
    ∀ id caller item, newer = .invoked id caller item → older ≠ .requested id
  /-- No dispatch invokes a handler twice. -/
  at_most_once : ∀ i k, (visits m.log i k).Nodup
  /-- A dispatch that is not under way has invoked every handler that was there before it began
  and was not removed. -/
  carried_out : ∀ newer i t ids older, m.log = newer ++ .began i t ids :: older →
    i ∉ m.stack.filterMap Frame.serial → CarriedOut m.log i t older
  /-- The container operation of a dispatch is made on what the ones before it left, -/
  stored : ∀ newer i t now r older, m.log = newer ++ .stored i t now r :: older →
    r = ((poolOf older).dispatchEvent t now).2
  /-- and the containers hold what the last one left. -/
  containers : m.dispatcher.containerPool = poolOf m.log
  /-- No replay hands out an instance twice. -/
  replayed_once : ∀ id, (replays m.log id).Nodup
  /-- A replay that is not under way, and that no exception has ended, has handed out every
  instance that was in the container throughout. -/
  replayed : ∀ newer n id older, m.log = newer ++ .added .event n id :: older →
    id ∉ m.stack.filterMap Frame.replayed → .aborted id ∉ m.log →
      ∀ k, Throughout m.log (.added .event n id :: older) n k → k ∈ replays m.log id
  /-- The removal of a handler is refused only if it is not registered. -/
  refused : ∀ newer k n id what older, m.log = newer ++ .refused k n id what :: older →
    .added k n id ∈ older → .requested id ∈ older
  /-- A handler is deleted only if its removal was requested. -/
  deleted : ∀ k n id, .added k n id ∈ m.log → id ∉ m.dispatcher.handlers k n →
    .requested id ∈ m.log
  /-- No handler is deleted while it runs or while a loop stands on it. -/
  not_deleted : ∀ f ∈ m.stack, f.id ∈ m.dispatcher.handlers f.kind f.typeName
  /-- Outside of all dispatches the tables hold what was added and not removed. -/
  tables : m.stack = [] → ∀ k n id,
    id ∈ m.dispatcher.handlers k n ↔ .added k n id ∈ m.log ∧ .requested id ∉ m.log

end Machine

variable (S V) in
/-- What is asked of the dispatcher. -/
inductive Request
  | add (k : HandlerKind) (n : String)
  | remove (id : HandlerId)
  | dispatch (t : Transmission S V)

def Call.request : Call S V → Option (Request S V)
  | .addTransmissionHandler n => some (.add .transmission n)
  | .addEventHandler n => some (.add .event n)
  | .removeHandler _ _ id => some (.remove id)
  | .dispatch t _ => some (.dispatch t)
  | .finish .. => none

/-- The request that a note is the answer to. -/
def Note.request : Note S V → Option (Request S V)
  | .added k n _ => some (.add k n)
  | .requested id | .refused _ _ id _ => some (.remove id)
  | .began _ t _ => some (.dispatch t)
  | _ => none

/-! ## What a step adds to the log -/

/-- The longer log has only notes of what followed from the calls besides. -/
def Extends (log log' : List (Note S V)) : Prop :=
  ∃ notes, log' = notes ++ log ∧ ∀ x ∈ notes, x.request = none

namespace Extends

variable {log log' log'' : List (Note S V)}

theorem refl (log : List (Note S V)) : Extends log log := ⟨[], rfl, by simp⟩

theorem trans (h : Extends log log') (h' : Extends log' log'') : Extends log log'' := by
  obtain ⟨notes, rfl, hn⟩ := h
  obtain ⟨notes', rfl, hn'⟩ := h'
  exact ⟨notes' ++ notes, by simp, by simpa [or_imp, forall_and] using ⟨hn', hn⟩⟩

theorem cons {x : Note S V} (hx : x.request = none) : Extends log (x :: log) :=
  ⟨[x], rfl, by simpa using hx⟩

theorem filterMap_request (h : Extends log log') :
    log'.filterMap Note.request = log.filterMap Note.request := by
  obtain ⟨notes, rfl, hn⟩ := h
  rw [List.filterMap_append, List.filterMap_eq_nil_iff.mpr hn, List.nil_append]

end Extends

section Log

variable {m m' : Machine S V}

theorem extends_loopTo (i : ℕ) (item : Dispatchable S V) (next : Option HandlerId) :
    Extends m.log (m.loopTo i item next).log := by
  cases next <;> exact .cons rfl

theorem extends_startEvent (i : ℕ) (t : Transmission S V) (now : Timepoint) :
    Extends m.log (m.startEvent i t now).log := by
  have hstore : Extends m.log (m.store i t now).log := .cons rfl
  unfold Machine.startEvent
  cases (m.dispatcher.containerPool.dispatchEvent t now).2 with
  | none => exact hstore
  | threw what => exact hstore.trans (.cons rfl)
  | event e => exact hstore.trans (extends_loopTo i _ _)

theorem extends_goOn (i : ℕ) (item : Dispatchable S V) (next : Option HandlerId)
    (now : Timepoint) : Extends m.log (m.goOn i item next now).log := by
  cases next with
  | some id => exact extends_loopTo i item (some id)
  | none =>
    cases item with
    | event n e => exact extends_loopTo i _ none
    | transmission t => exact (extends_loopTo i _ none).trans (extends_startEvent i t now)

theorem extends_replayTo (n : String) (id : HandlerId) (fromCache : ℕ)
    (e : Option (Clone V (S.descriptor n))) :
    Extends m.log (m.replayTo n id fromCache e).log := by
  cases e with
  | none => exact .refl _
  | some e => exact .cons rfl

/-- The note that answers a call. -/
def Machine.answer (m : Machine S V) : Call S V → List (Note S V)
  | .addTransmissionHandler n => [.added .transmission n m.dispatcher.nextId]
  | .addEventHandler n => [.added .event n m.dispatcher.nextId]
  | .removeHandler k n id =>
    if id ∈ m.dispatcher.handlers k n then [.requested id]
    else [.refused k n id ("cannot remove unknown handler for type: " ++ n)]
  | .dispatch t _ => [.began m.dispatched t fun k => m.dispatcher.handlers k t.instance_.typeName]
  | .finish .. => []

/-- **What a step adds to the log**: the answer to the call, and what follows from it. -/
theorem step_log {c : Call S V} (hm : m.step c = some m') :
    Extends (m.answer c ++ m.log) m'.log := by
  cases c with
  | addTransmissionHandler n =>
    obtain rfl := Option.some.inj hm
    exact .refl _
  | addEventHandler n =>
    obtain rfl := Option.some.inj hm
    exact extends_replayTo n _ _ _
  | removeHandler k n id =>
    obtain rfl := Option.some.inj hm
    simp only [Machine.removeHandler, Dispatcher.removeHandler, Machine.answer]
    split_ifs <;> exact Extends.refl (_ :: m.log)
  | dispatch t now =>
    obtain rfl := Option.some.inj hm
    simp only [Machine.dispatch]
    cases m.dispatcher.handlerPool .transmission t.instance_.typeName with
    | none => exact extends_startEvent _ t now
    | some ids => exact extends_goOn _ _ _ now
  | finish threw now =>
    obtain ⟨i, item, id, rest, -, rfl⟩ | ⟨n, id, node, fc, rest, -, hm⟩ := finish_cases hm
    · have hleave : Extends m.log (m.leaveLoop item rest threw).log := by
        cases threw with
        | false => exact .refl _
        | true => exact .cons rfl
      exact hleave.trans (extends_goOn i item _ now)
    · obtain ⟨-, rfl⟩ | ⟨-, k, -, rfl⟩ := hm
      · exact .cons rfl
      · exact extends_replayTo n id fc _

theorem request_answer (c : Call S V) :
    (m.answer c).filterMap Note.request = c.request.toList := by
  cases c with
  | removeHandler k n id =>
    simp only [Machine.answer]
    split_ifs <;> rfl
  | _ => rfl

theorem request_step {c : Call S V} (hm : m.step c = some m') :
    m'.log.filterMap Note.request = c.request.toList ++ m.log.filterMap Note.request := by
  rw [(step_log hm).filterMap_request, List.filterMap_append, request_answer]

/-- **The log answers the calls of a run**, one by one. -/
theorem request_of_run {cs : List (Call S V)} (r : Lts.Run (Lts.ofPartial Machine.step) m cs m') :
    m'.log.filterMap Note.request =
      cs.reverse.filterMap Call.request ++ m.log.filterMap Note.request := by
  induction r with
  | nil s => rfl
  | @cons s t u c cs hs _ ih =>
    rw [ih, request_step hs, List.reverse_cons, List.filterMap_append, List.append_assoc]
    cases h : c.request <;> simp [h]

/-- Removals are refused for handlers that are not registered only. -/
def RefusedRightly (log : List (Note S V)) : Prop :=
  ∀ newer k n id what older, log = newer ++ .refused k n id what :: older →
    .added k n id ∈ older → .requested id ∈ older

theorem RefusedRightly.extend {log log' : List (Note S V)} (h : RefusedRightly log)
    (he : Extends log log') : RefusedRightly log' := by
  obtain ⟨notes, rfl, hn⟩ := he
  induction notes with
  | nil => exact h
  | cons x notes ih =>
    intro newer k n id what older hlog
    obtain ⟨rfl, -⟩ | ⟨newer', hlog⟩ := split_cons hlog
    · cases hn _ List.mem_cons_self
    · exact ih (fun y hy => hn y (List.mem_cons_of_mem x hy)) newer' k n id what older hlog

theorem refusedRightly_step {c : Call S V} (h : RefusedRightly m.log) (hc : Core m)
    (hm : m.step c = some m') : RefusedRightly m'.log := by
  refine RefusedRightly.extend ?_ (step_log hm)
  have hother : ∀ x : Note S V, (∀ k n id what, x ≠ .refused k n id what) →
      RefusedRightly (x :: m.log) := by
    intro x hx newer k n id what older hlog
    obtain ⟨he, -⟩ | ⟨newer', hlog⟩ := split_cons hlog
    · exact absurd he (hx k n id what)
    · exact h newer' k n id what older hlog
  cases c with
  | addTransmissionHandler n => exact hother _ fun _ _ _ _ he => by cases he
  | addEventHandler n => exact hother _ fun _ _ _ _ he => by cases he
  | dispatch t now => exact hother _ fun _ _ _ _ he => by cases he
  | finish threw now => exact h
  | removeHandler k n id =>
    simp only [Machine.answer]
    split_ifs with hid
    · exact hother _ fun _ _ _ _ he => by cases he
    · intro newer k' n' id' what older hlog ha
      obtain ⟨he, rfl⟩ | ⟨newer', hlog⟩ := split_cons hlog
      · obtain ⟨rfl, rfl, rfl, -⟩ := Note.refused.inj he
        exact (hc.kept _ _ _ ha).resolve_left hid
      · exact h newer' k' n' id' what older hlog ha

end Log

/-! ## The run -/

variable {m : Machine S V}

theorem mem_visits {log : List (Note S V)} {i : ℕ} {k : HandlerKind} {id : HandlerId} :
    id ∈ visits log i k ↔ ∃ item, .invoked id (.loop i k) item ∈ log := by
  constructor
  · intro h
    obtain ⟨x, hx, he⟩ := List.mem_filterMap.mp h
    cases x with
    | invoked id' caller item =>
      have he : (if caller = .loop i k then some id' else none) = some id := he
      obtain ⟨rfl, hid⟩ := Option.ite_none_right_eq_some.mp he
      exact ⟨item, Option.some.inj hid ▸ hx⟩
    | _ => cases he
  · rintro ⟨item, h⟩
    exact List.mem_filterMap.mpr ⟨_, h, if_pos rfl⟩

/-- **A dispatch that is not under way has been carried out.** -/
theorem carriedOut (h : Inv m) (hcar : Carried m none) {newer older : List (Note S V)} {i : ℕ}
    {t : Transmission S V} {ids : HandlerKind → List HandlerId}
    (hlog : m.log = newer ++ .began i t ids :: older)
    (hs : i ∉ m.stack.filterMap Frame.serial) : CarriedOut m.log i t older := by
  have hbegan : .began i t ids ∈ m.log := hlog ▸ List.mem_append_right _ List.mem_cons_self
  have holder : ∀ x ∈ older, x ∈ m.log := fun x hx =>
    hlog ▸ List.mem_append_right _ (List.mem_cons_of_mem _ hx)
  obtain ⟨htrans, now, r, hstored, hevent⟩ :=
    hcar.done i t ids hbegan hs fun he => by cases he
  -- the handlers registered before are the ones that the dispatch recorded
  have hids : ∀ k id, .added k t.instance_.typeName id ∈ older → .requested id ∉ m.log →
      id ∈ ids k := fun k id ha hr =>
    (hcar.registered newer i t ids older hlog k id ha).resolve_right fun hm => hr (holder _ hm)
  have hvisit : ∀ k id, .completed i k ∈ m.log → .added k t.instance_.typeName id ∈ older →
      .requested id ∉ m.log → ∃ item, .invoked id (.loop i k) item ∈ m.log := by
    intro k id hcomp ha hr
    obtain ⟨n, hp⟩ := h.done i k hcomp
    exact mem_visits.mp
      ((hp.left t ids hbegan id (hids k id ha hr) (Nat.zero_le id)).resolve_right hr)
  refine ⟨fun id ha hr => ?_, now, r, hstored, fun e he id ha hr => ?_⟩
  · obtain hnil | hcomp := htrans t ids hbegan
    · have hid := hids .transmission id ha hr
      rw [hnil] at hid
      cases hid
    · obtain ⟨item, hm⟩ := hvisit .transmission id hcomp ha hr
      obtain ⟨hk, hsource⟩ := hcar.items i _ id item hm
      cases item with
      | event n e => cases hk
      | transmission t' =>
        obtain ⟨ids', hbegan'⟩ := hsource
        exact hcar.began_unique i t ids t' ids' hbegan hbegan' ▸ hm
  · subst he
    obtain ⟨item, hm⟩ := hvisit .event id (hevent e rfl) ha hr
    obtain ⟨hk, hsource⟩ := hcar.items i _ id item hm
    cases item with
    | transmission t' => cases hk
    | event n e' =>
      obtain ⟨t', ids', now', hbegan', hstored', rfl⟩ := hsource
      obtain rfl := hcar.began_unique i t ids t' ids' hbegan hbegan'
      obtain rfl := EventResult.event.inj (hcar.stored_unique i t now _ t now' _ hstored hstored')
      exact hm

/-- The invariants give the law. -/
theorem Inv.lawful (h : Inv m) (hcar : Carried m none) (hrep : Replayed m none)
    (href : RefusedRightly m.log) : m.Lawful where
  not_invoked := h.quiet
  at_most_once := h.once
  carried_out _ _ _ _ _ hlog hs := carriedOut h hcar hlog hs
  stored := hcar.stored
  containers := hcar.containers
  replayed_once id := (hrep.sorted id).imp fun hlt he => by
    subst he
    simp at hlt
  replayed newer n id older hlog := hrep.ended newer n id older hlog fun he => by cases he
  refused := href
  deleted k n id ha hid := (h.kept k n id ha).resolve_left hid
  not_deleted := h.standing
  tables hs k n id := by
    have hnil : m.dispatcher.removeIds = [] := by
      have hp := h.pendingOk
      rw [hs] at hp
      exact hp
    constructor
    · intro hid
      refine ⟨h.added k n id hid, fun hr => ?_⟩
      have hp := h.gone k n id hr hid
      rw [hnil] at hp
      cases hp
    · rintro ⟨ha, hr⟩
      exact (h.kept k n id ha).resolve_right hr

/-- **The subscription law holds in every state** of a run in which no handler is removed while
something else stands on it, no loop begins while a removal is deferred and no replay goes on from
an instance that has been removed; and the log it speaks of answers the calls of the run. -/
theorem lawful_of_run (cs : List (Call S V)) {m' : Machine S V}
    (r : Lts.Run (Lts.Guarded (Lts.ofPartial Machine.step) Machine.Safe) {} cs m') :
    m'.Lawful ∧ m'.log.filterMap Note.request = cs.reverse.filterMap Call.request := by
  have hinv : Inv m' ∧ Carried m' none ∧ Replayed m' none ∧ RefusedRightly m'.log := by
    refine r.invariant
      (I := fun m => Inv m ∧ Carried m none ∧ Replayed m none ∧ RefusedRightly m.log) ?_
      ⟨inv_init, carried_init, replayed_init, fun newer _ _ _ _ _ h => by cases newer <;> cases h⟩
    rintro m c m'' ⟨hi, hcar, hrep, href⟩ ⟨hs, hsafe⟩
    exact ⟨inv_step hi hsafe hs, carried_step hcar hi hs, replayed_step hrep hi.toCore hcar hs,
      refusedRightly_step href hi.toCore hs⟩
  obtain ⟨hi, hcar, hrep, href⟩ := hinv
  refine ⟨hi.lawful hcar hrep href, ?_⟩
  have hreq := request_of_run (r.mono fun _ _ _ hs => hs.1)
  rw [hreq, List.filterMap_nil, List.append_nil]

/-! ## Runs on `DotsTestStruct` -/

/-- A transmission of one `DotsTestStruct`. -/
def testTransmission (key value : ℕ) (removeObj : Bool) : Transmission testSchema ℕ where
  header :=
    { typeName := "DotsTestStruct", sentTime := some 0, attributes := {2, 9}, sender := some 1
      removeObj := some removeObj }
  instance_ := .struct "DotsTestStruct" (dotsTestInstance key (some value))
  typed := rfl

def echoTransmission : Transmission testSchema ℕ :=
  .ofInstance (.echo { request := some true }) {1} 0 false

/-- A handler that removes itself, called from a dispatch. -/
def selfRemoval : List (Call testSchema ℕ) :=
  [.addEventHandler "DotsTestStruct", .dispatch (testTransmission 1 5 false) 0,
    .removeHandler .event "DotsTestStruct" 0, .finish false 0]

theorem lawful_of_run_selfRemoval :
    ∃ m : Machine testSchema ℕ, Lts.exec Machine.step {} selfRemoval = some m ∧ m.Lawful ∧
      m.log.filterMap Note.request = selfRemoval.reverse.filterMap Call.request := by
  refine ⟨_, rfl, lawful_of_run selfRemoval ?_⟩
  refine .cons ⟨rfl, trivial⟩ (.cons ⟨rfl, .inl rfl⟩ (.cons ⟨rfl, fun _ => .inr ⟨rfl, rfl⟩⟩
    (.cons ⟨rfl, .inr ?_⟩ (.nil _))))
  rintro ⟨n, id, fromCache, rest, hs⟩
  cases hs

/-- A handler that removes itself and then dispatches an item of another type. -/
def lostRemoval : List (Call testSchema ℕ) :=
  [.addEventHandler "DotsTestStruct", .dispatch (testTransmission 1 5 false) 0,
    .removeHandler .event "DotsTestStruct" 0, .dispatch echoTransmission 0, .finish false 0]

/-- A handler that dispatches an item of its own type, whose invocation for it removes it. -/
def earlyRemoval : List (Call testSchema ℕ) :=
  [.addEventHandler "DotsTestStruct", .dispatch (testTransmission 1 5 false) 0,
    .dispatch (testTransmission 1 6 false) 0, .removeHandler .event "DotsTestStruct" 0,
    .finish false 0]

/-- The removals requested so far, the frames of the stack and the event handlers left. -/
def Machine.summary (m : Machine testSchema ℕ) :
    List HandlerId × List (HandlerKind × String × HandlerId) × List HandlerId :=
  (m.log.filterMap fun
    | .requested id => some id
    | _ => none,
    m.stack.map fun f => (f.kind, f.typeName, f.id), m.dispatcher.handlers .event "DotsTestStruct")

theorem requested_of_summary {m : Machine testSchema ℕ} {id : HandlerId}
    (h : id ∈ m.summary.1) : .requested id ∈ m.log := by
  obtain ⟨x, hx, he⟩ := List.mem_filterMap.mp h
  cases x with
  | requested j => exact Option.some.inj he ▸ hx
  | _ => cases he

/-- **The law fails without the condition**: after the outermost dispatch a removed handler is
still registered, and a handler is deleted while it runs. -/
theorem removal_lost_and_early :
    (∃ m : Machine testSchema ℕ, Lts.exec Machine.step {} lostRemoval = some m ∧
      m.stack = [] ∧ .requested 0 ∈ m.log ∧ 0 ∈ m.dispatcher.handlers .event "DotsTestStruct" ∧
      ¬ m.Lawful) ∧
    ∃ m : Machine testSchema ℕ, Lts.exec Machine.step {} earlyRemoval = some m ∧
      (∃ f ∈ m.stack, f.id ∉ m.dispatcher.handlers f.kind f.typeName) ∧ ¬ m.Lawful := by
  have hlost : (Lts.exec Machine.step {} lostRemoval).map Machine.summary =
      some ([0], [], [0]) := by decide
  have hearly : (Lts.exec Machine.step {} earlyRemoval).map Machine.summary =
      some ([0], [(.event, "DotsTestStruct", 0)], []) := by decide
  obtain ⟨m, hm, hs⟩ := Option.map_eq_some_iff.mp hlost
  obtain ⟨m', hm', hs'⟩ := Option.map_eq_some_iff.mp hearly
  have hstack : m.stack = [] := List.map_eq_nil_iff.mp (congrArg (fun r => r.2.1) hs)
  have hreq : .requested 0 ∈ m.log := requested_of_summary (by simp [hs])
  have hin : 0 ∈ m.dispatcher.handlers .event "DotsTestStruct" := by
    have hh : m.dispatcher.handlers .event "DotsTestStruct" = [0] := congrArg (fun r => r.2.2) hs
    simp [hh]
  have hout : ∃ f ∈ m'.stack, f.id ∉ m'.dispatcher.handlers f.kind f.typeName := by
    have hh : m'.dispatcher.handlers .event "DotsTestStruct" = [] :=
      congrArg (fun r => r.2.2) hs'
    have hst : m'.stack.map (fun f => (f.kind, f.typeName, f.id)) =
        [(.event, "DotsTestStruct", 0)] := congrArg (fun r => r.2.1) hs'
    obtain ⟨f, hf, he⟩ := List.mem_map.mp (hst ▸ List.mem_cons_self)
    simp only [Prod.mk.injEq] at he
    exact ⟨f, hf, by rw [he.1, he.2.1, hh]; exact List.not_mem_nil⟩
  refine ⟨⟨m, hm, hstack, hreq, hin, fun hl => ?_⟩, ⟨m', hm', hout, fun hl => ?_⟩⟩
  · exact ((hl.tables hstack _ _ _).mp hin).2 hreq
  · obtain ⟨f, hf, hn⟩ := hout
    exact hn (hl.not_deleted f hf)

end Dots

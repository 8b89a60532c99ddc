import Dots.Dispatcher.Delivery

/-!
# A replay meets every instance

* `replays`: the keys that a handler has received in its replay.
* `Throughout`: an instance is in its container from the addition of a handler on.
* `Replayed`: a replay that is over, and that no exception has ended, has met every instance that
  was there throughout; one that is under way has met those up to the key where it stands.
* **`replayed_step`**: every step keeps it.
-/

set_option autoImplicit false
set_option linter.unusedSectionVars false

namespace Dots

variable {S : Schema} {V : Type} [Ord V] [Std.TransOrd V] [Std.LawfulEqOrd V]

/-! ## What the log says of a replay -/

/-- The keys that a handler has received in its replay, the last one first. -/
def replays (log : List (Note S V)) (id : HandlerId) : List (List (Option V)) :=
  log.filterMap fun
    | .invoked id' .replay (.event _ e) => if id' = id then some e.updated.key else none
    | _ => none

/-- Under the key `k` the container of `n` had an instance at all times since `old`. -/
def Throughout (log old : List (Note S V)) (n : String) (k : List (Option V)) : Prop :=
  ∀ l, old <:+ l → l <:+ log → ((poolOf l n).lookup k).isSome

/-- The handler whose replay a frame stands for. -/
def Frame.replayed : Frame S V → Option HandlerId
  | .replay _ id _ _ => some id
  | .loop .. => none

variable {log : List (Note S V)} {n : String} {id : HandlerId}

theorem Throughout.of_cons {x : Note S V} {old : List (Note S V)} {k : List (Option V)}
    (h : Throughout (x :: log) old n k) : Throughout log old n k :=
  fun l hl hl' => h l hl (hl'.trans (List.suffix_cons x log))

theorem Throughout.now {newer old : List (Note S V)} {k : List (Option V)}
    (h : Throughout log old n k) (hlog : log = newer ++ old) : ((poolOf log n).lookup k).isSome :=
  h log ⟨newer, hlog.symm⟩ List.suffix_rfl

/-- A note about no replayed instance. -/
def Note.NoReplay : Note S V → Prop
  | .invoked _ .replay _ => False
  | _ => True

theorem Note.NoReplay.replays_cons {x : Note S V} (hx : x.NoReplay) (log : List (Note S V))
    (id : HandlerId) :
    replays (x :: log) id = replays log id := by
  unfold replays
  cases x with
  | invoked id' caller item =>
    cases caller with
    | replay => exact hx.elim
    | loop i k => rfl
  | _ => rfl

theorem replays_invoked (id' : HandlerId) (k : String) (e : Event S V) :
    replays (.invoked id' .replay (.event k e) :: log) id =
      (if id' = id then [e.updated.key] else []) ++ replays log id := by
  unfold replays
  by_cases h : id' = id <;> simp [h]

/-- The replay for a handler has met the instances up to the key `k`. -/
structure UpTo (log : List (Note S V)) (n : String) (id : HandlerId) (k : List (Option V)) :
    Prop where
  le : ∀ k' ∈ replays log id, compare k' k ≠ .gt
  met : ∀ newer older, log = newer ++ .added .event n id :: older → ∀ k', compare k' k ≠ .gt →
    Throughout log (.added .event n id :: older) n k' → k' ∈ replays log id

theorem UpTo.cons {k : List (Option V)} (h : UpTo log n id k) {x : Note S V}
    (hrep : replays (x :: log) id = replays log id) (hadd : x ≠ .added .event n id) :
    UpTo (x :: log) n id k where
  le := hrep.symm ▸ h.le
  met newer older hlog k' hk ht := by
    obtain ⟨he, -⟩ | ⟨newer', hlog⟩ := split_cons hlog
    · exact absurd he hadd
    · exact hrep.symm ▸ h.met newer' older hlog k' hk ht.of_cons

/-! ## The invariant -/

/-- **The invariant** of the replays; `busy` is the handler whose replay is between two instances. -/
structure Replayed (m : Machine S V) (busy : Option HandlerId) : Prop where
  sorted : ∀ id, (replays m.log id).Pairwise fun k k' => compare k' k = .lt
  unheard : ∀ id, m.dispatcher.nextId ≤ id → replays m.log id = []
  single : (m.stack.filterMap Frame.replayed).Nodup
  upTo : ∀ n id k fromCache, .replay n id (some k) fromCache ∈ m.stack → UpTo m.log n id k
  ended : ∀ newer n id older, m.log = newer ++ .added .event n id :: older → busy ≠ some id →
    id ∉ m.stack.filterMap Frame.replayed → .aborted id ∉ m.log →
      ∀ k, Throughout m.log (.added .event n id :: older) n k → k ∈ replays m.log id

variable {m : Machine S V} {busy : Option HandlerId}

/-- Another dispatcher, and other frames that stand for the same replays. -/
theorem Replayed.of_frames (h : Replayed m busy) {D : Dispatcher S V} {stack : List (Frame S V)}
    (hD : m.dispatcher.nextId ≤ D.nextId)
    (hframe : ∀ n id k fc, .replay n id (some k) fc ∈ stack → .replay n id (some k) fc ∈ m.stack)
    (hids : stack.filterMap Frame.replayed = m.stack.filterMap Frame.replayed) :
    Replayed { m with dispatcher := D, stack := stack } busy :=
  { h with
    unheard := fun id hid => h.unheard id (hD.trans hid)
    single := hids.symm ▸ h.single
    upTo := fun n id k fc hm => h.upTo n id k fc (hframe n id k fc hm)
    ended := fun newer n id older hlog hb hs => h.ended newer n id older hlog hb (hids ▸ hs) }

/-- A note that adds no event handler and replays nothing. -/
theorem Replayed.note (h : Replayed m busy) {x : Note S V} (hx : x.NoReplay)
    (hadd : ∀ n id, x ≠ .added .event n id) : Replayed (m.note x) busy where
  sorted id := (hx.replays_cons m.log id).symm ▸ h.sorted id
  unheard id hid := (hx.replays_cons m.log id).trans (h.unheard id hid)
  single := h.single
  upTo n id k fc hm := (h.upTo n id k fc hm).cons (hx.replays_cons m.log id) (hadd n id)
  ended newer n id older hlog hb hs ha k ht := by
    obtain ⟨he, -⟩ | ⟨newer', hlog⟩ := split_cons hlog
    · exact absurd he (hadd n id)
    · refine (hx.replays_cons m.log id).symm ▸ ?_
      exact h.ended newer' n id older hlog hb hs (fun hm => ha (List.mem_cons_of_mem _ hm)) k ht.of_cons

/-! ## Dispatches do not replay -/

section Dispatch

variable {i : ℕ} {item : Dispatchable S V} {t : Transmission S V}

theorem Replayed.loopTo (h : Replayed m busy) (i : ℕ) (item : Dispatchable S V)
    (next : Option HandlerId) : Replayed (m.loopTo i item next) busy := by
  cases next with
  | none =>
    exact (h.of_frames (D := m.dispatcher.flush item.kind item.typeName) le_rfl
      (fun _ _ _ _ hm => hm) rfl).note (x := .completed i item.kind) trivial fun _ _ he => by cases he
  | some id =>
    have hframe : ∀ n id' k fc, .replay n id' (some k) fc ∈ Frame.loop i item id :: m.stack →
        .replay n id' (some k) fc ∈ m.stack := fun n id' k fc hm => by simpa using hm
    exact (h.of_frames (D := { m.dispatcher with currentlyDispatchingId := some id }) le_rfl hframe
      rfl).note (x := .invoked id (.loop i item.kind) item) trivial fun _ _ he => by cases he

theorem Frame.replayed_settle (pool : ContainerPool S V) (f : Frame S V) :
    (f.settle pool).replayed = f.replayed := by cases f <;> rfl

theorem Replayed.startEvent (h : Replayed m busy) (i : ℕ) (t : Transmission S V)
    (now : Timepoint) : Replayed (m.startEvent i t now) busy := by
  have hstore : Replayed (m.store i t now) busy := by
    refine (h.of_frames (D := (m.store i t now).dispatcher) le_rfl (fun n id k fc hm => ?_) ?_).note
      (x := .stored i t now (m.dispatcher.containerPool.dispatchEvent t now).2) trivial
      fun _ _ he => by cases he
    · obtain ⟨f, hf, he⟩ := List.mem_map.mp hm
      cases f with
      | loop i' item' id' => cases he
      | replay n' id' node fc' =>
        obtain ⟨rfl, rfl, hk, rfl⟩ := Frame.replay.inj he
        exact (Option.filter_eq_some_iff.mp hk).1 ▸ hf
    · simp [List.filterMap_map, Frame.replayed_settle]
  unfold Machine.startEvent
  cases (m.dispatcher.containerPool.dispatchEvent t now).2 with
  | none => exact hstore
  | threw what => exact hstore.note (x := .threw what) trivial fun _ _ he => by cases he
  | event e => exact hstore.loopTo i _ _

theorem Replayed.goOn (h : Replayed m busy) (i : ℕ) (item : Dispatchable S V)
    (next : Option HandlerId) (now : Timepoint) : Replayed (m.goOn i item next now) busy := by
  cases next with
  | some id => exact h.loopTo i item (some id)
  | none =>
    cases item with
    | event n e => exact h.loopTo i _ none
    | transmission t => exact (h.loopTo i _ none).startEvent i t now

theorem Replayed.dispatch (h : Replayed m busy) (t : Transmission S V) (now : Timepoint) :
    Replayed (m.dispatch t now) busy := by
  have hbegin : Replayed (m.beginDispatch t) busy :=
    { h.note (x := .began m.dispatched t fun k => m.dispatcher.handlers k t.instance_.typeName)
        trivial (fun _ _ he => by cases he) with }
  simp only [Machine.dispatch]
  cases m.dispatcher.handlerPool .transmission t.instance_.typeName with
  | none => exact hbegin.startEvent _ t now
  | some ids => exact hbegin.goOn _ _ _ now

end Dispatch

/-! ## A replay takes a turn -/

section Replay

variable {e : Clone V (S.descriptor n)}

/-- **The next instance of a replay.** -/
theorem Replayed.replayTo_some (h : Replayed m (some id)) (hid : id < m.dispatcher.nextId)
    (hfree : id ∉ m.stack.filterMap Frame.replayed)
    (hlt : ∀ k ∈ replays m.log id, compare k e.1.key = .lt)
    (hmet : ∀ newer older, m.log = newer ++ .added .event n id :: older → ∀ k,
      compare k e.1.key ≠ .gt → Throughout m.log (.added .event n id :: older) n k →
        k ∈ replays m.log id ∨ k = e.1.key) (fromCache : ℕ) :
    Replayed (m.replayTo n id fromCache (some e)) none := by
  obtain ⟨fc, ev, hstack, hlog, hkey⟩ : ∃ fc ev,
      (m.replayTo n id fromCache (some e)).stack = .replay n id (some e.1.key) fc :: m.stack ∧
      (m.replayTo n id fromCache (some e)).log = .invoked id .replay (.event n ev) :: m.log ∧
      ev.updated.key = e.1.key := ⟨_, _, rfl, rfl, rfl⟩
  have hself : replays (m.replayTo n id fromCache (some e)).log id =
      e.1.key :: replays m.log id := by
    rw [hlog, replays_invoked, if_pos rfl, hkey]
    rfl
  have hother : ∀ id', id' ≠ id →
      replays (m.replayTo n id fromCache (some e)).log id' = replays m.log id' := by
    intro id' hne
    rw [hlog, replays_invoked, if_neg (Ne.symm hne)]
    rfl
  refine ⟨fun id' => ?_, fun id' hle => ?_, ?_, fun n' id' k fc' hm => ?_,
    fun newer n' id' older hl _ hs ha k ht => ?_⟩
  · by_cases hne : id' = id
    · subst hne
      rw [hself]
      exact List.pairwise_cons.mpr ⟨hlt, h.sorted id'⟩
    · exact (hother id' hne).symm ▸ h.sorted id'
  · have hne : id' ≠ id := by
      rintro rfl
      exact absurd hid (not_lt.mpr hle)
    exact (hother id' hne).trans (h.unheard id' hle)
  · rw [hstack]
    exact List.nodup_cons.mpr ⟨hfree, h.single⟩
  · rw [hstack] at hm
    rcases List.mem_cons.mp hm with he | hm
    · obtain ⟨rfl, rfl, hk, -⟩ := Frame.replay.inj he
      obtain rfl := Option.some.inj hk
      refine ⟨fun k hk => ?_, fun newer older hl k hk ht => ?_⟩
      · rw [hself] at hk
        rcases List.mem_cons.mp hk with rfl | hk
        · simp
        · simp [hlt k hk]
      · rw [hlog] at hl ht
        rw [hself]
        obtain ⟨he, -⟩ | ⟨newer', hl⟩ := split_cons hl
        · cases he
        · rcases hmet newer' older hl k hk ht.of_cons with hm | rfl
          · exact List.mem_cons_of_mem _ hm
          · exact List.mem_cons_self
    · have hmem : id' ∈ m.stack.filterMap Frame.replayed := List.mem_filterMap.mpr ⟨_, hm, rfl⟩
      have hne : id' ≠ id := by
        rintro rfl
        exact hfree hmem
      rw [hlog]
      exact (h.upTo n' id' k fc' hm).cons (hlog ▸ hother id' hne) (by simp)
  · rw [hstack] at hs
    obtain ⟨hne, hs⟩ := not_or.mp (fun hc => hs (List.mem_cons.mpr hc))
    rw [hlog] at hl ha ht
    obtain ⟨he, -⟩ | ⟨newer', hl⟩ := split_cons hl
    · cases he
    · refine (hother id' hne).symm ▸ h.ended newer' n' id' older hl ?_ hs ?_ k ht.of_cons
      · exact fun he => hne (Option.some.inj he).symm
      · exact fun hm => ha (List.mem_cons_of_mem _ hm)

/-- **The end of a replay.** -/
theorem Replayed.replayTo_none (h : Replayed m (some id)) (hc : Core m)
    (hadd : .added .event n id ∈ m.log)
    (hmet : ∀ newer older, m.log = newer ++ .added .event n id :: older → ∀ k,
      Throughout m.log (.added .event n id :: older) n k → k ∈ replays m.log id) :
    Replayed m none := by
  refine { h with ended := fun newer n' id' older hl _ hs ha k ht => ?_ }
  by_cases hne : id' = id
  · subst hne
    have hadd' : .added .event n' id' ∈ m.log := hl ▸ List.mem_append_right _ List.mem_cons_self
    obtain ⟨-, rfl⟩ := hc.unique _ _ _ _ id' hadd hadd'
    exact hmet newer older hl k ht
  · exact h.ended newer n' id' older hl (fun he => hne (Option.some.inj he).symm) hs ha k ht

/-- The keys between a key and the next one in a container are in it at no time. -/
theorem met_nextClone {k k' : List (Option V)} {c : Container V (S.descriptor n)}
    (h : c.clones.find? (fun e => compare k e.1.key == .lt) = some e)
    (hle : compare k' e.1.key ≠ .gt) (hk : (c.lookup k').isSome) :
    compare k' k ≠ .gt ∨ k' = e.1.key := by
  obtain ⟨-, -, hmin⟩ := Container.find?_clones h
  by_cases hgt : compare k' k = .gt
  · obtain ⟨e', he'⟩ := Option.isSome_iff_exists.mp hk
    obtain rfl := Container.key_of_lookup he'
    rcases hmin e' he' (by simp [Std.OrientedCmp.gt_iff_lt.mp hgt]) with rfl | hlt
    · exact .inr rfl
    · exact absurd (Std.OrientedCmp.gt_iff_lt.mpr hlt) hle
  · exact .inl hgt

end Replay

/-! ## The run -/

/-- The handlers whose replays are under way have ids that were given out. -/
theorem Core.lt_of_replayed (h : Core m) {id : HandlerId}
    (hm : id ∈ m.stack.filterMap Frame.replayed) : id < m.dispatcher.nextId := by
  obtain ⟨f, hf, he⟩ := List.mem_filterMap.mp hm
  cases f with
  | loop i item id' => cases he
  | replay n id' node fc =>
    obtain rfl := Option.some.inj he
    exact h.below _ _ _ (h.added _ _ _ (h.standing _ hf))

/-- **An event handler is added.** -/
theorem replayed_addEventHandler (h : Replayed m none) (hc : Core m) (hcar : Carried m none)
    (n : String) : Replayed (m.addEventHandler n) none := by
  have hnil : replays m.log m.dispatcher.nextId = [] := h.unheard _ le_rfl
  have hadd : Replayed { m with
      dispatcher := m.dispatcher.addHandler .event n
      log := .added .event n m.dispatcher.nextId :: m.log } (some m.dispatcher.nextId) := by
    refine ⟨h.sorted, fun id hid => h.unheard id (Nat.le_of_succ_le hid), h.single,
      fun n' id k fc hm => ?_, fun newer n' id older hlog hb hs ha k ht => ?_⟩
    · refine (h.upTo n' id k fc hm).cons rfl fun he => ?_
      obtain ⟨-, -, rfl⟩ := Note.added.inj he
      exact lt_irrefl _ (hc.lt_of_replayed (List.mem_filterMap.mpr ⟨_, hm, rfl⟩))
    · obtain ⟨he, -⟩ | ⟨newer', hlog⟩ := split_cons hlog
      · obtain ⟨-, -, rfl⟩ := Note.added.inj he
        exact absurd rfl hb
      · exact h.ended newer' n' id older hlog (fun he => by cases he) hs (fun hm => ha (List.mem_cons_of_mem _ hm)) k
          ht.of_cons
  have hcore := hc.addHandler .event n
  have hpool : poolOf (.added .event n m.dispatcher.nextId :: m.log) = m.dispatcher.containerPool :=
    hcar.containers.symm
  -- the log begins with the new handler, so what was there throughout is there now
  have hnow : ∀ newer older, .added .event n m.dispatcher.nextId :: m.log =
      newer ++ .added .event n m.dispatcher.nextId :: older → ∀ k,
        Throughout (.added .event n m.dispatcher.nextId :: m.log)
          (.added .event n m.dispatcher.nextId :: older) n k →
            ((m.dispatcher.containerPool n).lookup k).isSome :=
    fun newer older hlog k ht => hpool ▸ ht.now hlog
  simp only [Machine.addEventHandler]
  cases hh : (m.dispatcher.containerPool n).clones.head? with
  | some c =>
    have hf : (m.dispatcher.containerPool n).clones.find? (fun _ => true) = some c := by
      rw [← hh]
      cases (m.dispatcher.containerPool n).clones <;> rfl
    obtain ⟨-, -, hmin⟩ := Container.find?_clones hf
    refine hadd.replayTo_some (Nat.lt_succ_self _) (fun hm => lt_irrefl _ (hc.lt_of_replayed hm))
      (fun k hk => ?_) (fun newer older hlog k hle ht => .inr ?_) _
    · have hk : k ∈ replays m.log m.dispatcher.nextId := hk
      rw [hnil] at hk
      cases hk
    · obtain ⟨e', he'⟩ := Option.isSome_iff_exists.mp (hnow newer older hlog k ht)
      obtain rfl := Container.key_of_lookup he'
      rcases hmin e' he' rfl with rfl | hlt
      · rfl
      · exact absurd (Std.OrientedCmp.gt_iff_lt.mpr hlt) hle
  | none =>
    refine hadd.replayTo_none hcore List.mem_cons_self fun newer older hlog k ht => ?_
    obtain ⟨e', he'⟩ := Option.isSome_iff_exists.mp (hnow newer older hlog k ht)
    obtain rfl := Container.key_of_lookup he'
    have hm := Container.mem_clones.mpr he'
    rw [List.head?_eq_none_iff.mp hh] at hm
    cases hm

/-- **A replayed handler returns or throws.** -/
theorem replayed_finish (h : Replayed m none) (hc : Core m) (hcar : Carried m none)
    {id : HandlerId} {node : Option (List (Option V))} {fromCache : ℕ} {rest : List (Frame S V)}
    (hs : m.stack = .replay n id node fromCache :: rest) :
    Replayed (Machine.note { m with stack := rest } (.aborted id)) none ∧
      ∀ k, node = some k →
        Replayed (Machine.replayTo { m with stack := rest } n id fromCache (m.nextClone n k)) none := by
  have hmem : .replay n id node fromCache ∈ m.stack := hs ▸ List.mem_cons_self
  have hadd : .added .event n id ∈ m.log := hc.added _ _ _ (hc.standing _ hmem)
  have hids : m.stack.filterMap Frame.replayed = id :: rest.filterMap Frame.replayed := by
    rw [hs]
    rfl
  have hsingle := List.nodup_cons.mp (hids ▸ h.single)
  have hpop : Replayed { m with stack := rest } (some id) :=
    { h with
      single := hsingle.2
      upTo := fun n' id' k fc hm => h.upTo n' id' k fc (hs ▸ List.mem_cons_of_mem _ hm)
      ended := fun newer n' id' older hlog hb hs' => by
        refine h.ended newer n' id' older hlog (fun he => by cases he) fun hm => ?_
        rcases List.mem_cons.mp (hids ▸ hm) with rfl | hm
        · exact hb rfl
        · exact hs' hm }
  refine ⟨?_, fun k hk => ?_⟩
  · have hnote := hpop.note (x := .aborted id) trivial fun _ _ he => by cases he
    refine { hnote with ended := fun newer n' id' older hlog _ hs' ha => ?_ }
    refine hnote.ended newer n' id' older hlog (fun he => ?_) hs' ha
    obtain rfl := Option.some.inj he
    exact ha List.mem_cons_self
  · subst hk
    have hup := h.upTo n id k fromCache hmem
    have hnow : ∀ newer older, m.log = newer ++ .added .event n id :: older → ∀ k',
        Throughout m.log (.added .event n id :: older) n k' →
          ((m.dispatcher.containerPool n).lookup k').isSome :=
      fun newer older hlog k' ht => hcar.containers ▸ ht.now hlog
    cases hn : m.nextClone n k with
    | none =>
      refine hpop.replayTo_none (hc.pop hs fun c hcur => (hs ▸ hc.current c hcur :)) hadd
        fun newer older hlog k' ht => hup.met newer older hlog k' (fun hgt => ?_) ht
      obtain ⟨e', he'⟩ := Option.isSome_iff_exists.mp (hnow newer older hlog k' ht)
      obtain rfl := Container.key_of_lookup he'
      exact Container.find?_clones_none hn he' (by simp [Std.OrientedCmp.gt_iff_lt.mp hgt])
    | some c =>
      have hlt : compare k c.1.key = .lt := by simpa using (Container.find?_clones hn).1
      refine hpop.replayTo_some (hc.below _ _ _ hadd) hsingle.1 (fun k' hk' => ?_)
        (fun newer older hlog k' hle ht => ?_) fromCache
      · have hle := hup.le k' hk'
        rcases hcmp : compare k' k with _ | _ | _
        · exact Std.TransCmp.lt_trans hcmp hlt
        · exact Std.LawfulEqOrd.eq_of_compare hcmp ▸ hlt
        · exact absurd hcmp hle
      · rcases met_nextClone hn hle (hnow newer older hlog k' ht) with hle' | he
        · exact .inl (hup.met newer older hlog k' hle' ht)
        · exact .inr he

/-- **Every step keeps the invariant.** -/
theorem replayed_step {m' : Machine S V} {c : Call S V} (h : Replayed m none) (hc : Core m)
    (hcar : Carried m none) (hm : m.step c = some m') : Replayed m' none := by
  cases c with
  | addTransmissionHandler n =>
    obtain rfl := Option.some.inj hm
    exact (h.of_frames (D := m.dispatcher.addHandler .transmission n) (Nat.le_succ _)
      (fun _ _ _ _ hm => hm) rfl).note (x := .added .transmission n m.dispatcher.nextId) trivial
        fun _ _ he => by cases he
  | addEventHandler n =>
    obtain rfl := Option.some.inj hm
    exact replayed_addEventHandler h hc hcar n
  | removeHandler k n id =>
    obtain rfl := Option.some.inj hm
    unfold Machine.removeHandler
    cases hr : m.dispatcher.removeHandler k n id with
    | error what => exact h.note (x := .refused k n id what) trivial fun _ _ he => by cases he
    | ok D =>
      obtain ⟨-, hid⟩ := Dispatcher.frame_removeHandler hr
      exact (h.of_frames hid.ge (fun _ _ _ _ hm => hm) rfl).note (x := .requested id) trivial
        fun _ _ he => by cases he
  | dispatch t now =>
    obtain rfl := Option.some.inj hm
    exact h.dispatch t now
  | finish threw now =>
    obtain ⟨i, item, id, rest, hs, rfl⟩ | ⟨n, id, node, fc, rest, hs, hm⟩ := finish_cases hm
    · have hframe : ∀ n id k fc, .replay n id (some k) fc ∈ rest →
          .replay n id (some k) fc ∈ m.stack := fun _ _ _ _ hm => hs ▸ List.mem_cons_of_mem _ hm
      have hpop := h.of_frames (D := { m.dispatcher with currentlyDispatchingId := none }) le_rfl
        hframe (by rw [hs]; rfl)
      have hleave : Replayed (m.leaveLoop item rest threw) none := by
        cases threw with
        | false => exact hpop
        | true => exact hpop.note (x := .error item.typeName) trivial fun _ _ he => by cases he
      exact hleave.goOn i item _ now
    · obtain ⟨habort, hnext⟩ := replayed_finish h hc hcar hs
      obtain ⟨-, rfl⟩ | ⟨-, k, hk, rfl⟩ := hm
      · exact habort
      · exact hnext k hk

theorem replayed_init : Replayed ({} : Machine S V) none where
  sorted _ := List.Pairwise.nil
  unheard _ _ := rfl
  single := List.nodup_nil
  upTo _ _ _ _ h := absurd h List.not_mem_nil
  ended newer _ _ _ h := by cases newer <;> cases h

end Dots

import Dots.Dispatcher.Model

/-!
# The invariant of the dispatcher

* `Progress`, `Underway`: what a handler loop has done so far, read off the log.
* `PendingOk`: the deferred removals belong to the innermost loop.
* `Core`, `Inv`, `Between`: the invariant; `Between` is its form between two handlers of a loop.
* **`Between.loopTo_some`**, **`Between.loopTo_none`**: what a turn and the end of a loop do to it.
-/

set_option autoImplicit false
set_option linter.unusedSectionVars false

namespace Dots

variable {S : Schema} {V : Type} [Ord V] [Std.TransOrd V] [Std.LawfulEqOrd V]

/-! ## Handler tables -/

namespace Dispatcher

variable (D : Dispatcher S V) {k k' : HandlerKind} {n n' : String} {ids : List HandlerId}

variable {D} in
theorem handlers_of_pool (h : D.handlerPool k n = some ids) : D.handlers k n = ids := by
  rw [handlers, h]
  rfl

theorem handlers_setHandlers :
    (D.setHandlers k n ids).handlers k' n' = if k' = k ∧ n' = n then ids else D.handlers k' n' := by
  unfold setHandlers handlers
  by_cases hk : k' = k
  · subst hk
    by_cases hn : n' = n
    · subst hn; simp
    · simp [hn]
  · simp [hk]

theorem handlers_addHandler :
    (D.addHandler k n).handlers k' n' =
      if k' = k ∧ n' = n then D.nextId :: D.handlers k n else D.handlers k' n' :=
  D.handlers_setHandlers

theorem handlers_flush :
    (D.flush k n).handlers k' n' =
      if k' = k ∧ n' = n then D.removeIds.foldl List.erase (D.handlers k n)
      else D.handlers k' n' :=
  D.handlers_setHandlers

end Dispatcher

/-- Erasing ids one by one keeps the order and takes out exactly these ids. -/
theorem foldl_erase (ids : List HandlerId) {l : List HandlerId} (h : l.Pairwise (· > ·)) :
    (ids.foldl List.erase l).Pairwise (· > ·) ∧
      ∀ j, j ∈ ids.foldl List.erase l ↔ j ∈ l ∧ j ∉ ids := by
  induction ids generalizing l with
  | nil => simp [h]
  | cons p ids ih =>
    obtain ⟨hs, hm⟩ := ih (h.sublist List.erase_sublist)
    refine ⟨hs, fun j => ?_⟩
    have hnd : l.Nodup := h.imp fun hab => Nat.ne_of_gt hab
    rw [List.foldl_cons, hm, hnd.mem_erase_iff]
    simp only [List.mem_cons, not_or]
    tauto

/-! ## What a loop has done so far -/

/-- The handlers invoked by the loop of dispatch number `i` over the handlers of kind `k`, the
last one first. -/
def visits (log : List (Note S V)) (i : ℕ) (k : HandlerKind) : List HandlerId :=
  log.filterMap fun
    | .invoked id caller _ => if caller = .loop i k then some id else none
    | _ => none

variable {log : List (Note S V)} {i j : ℕ} {k : HandlerKind}

theorem visits_cons (x : Note S V) :
    visits (x :: log) i k =
      (match x with
        | .invoked id caller _ => if caller = .loop i k then [id] else []
        | _ => []) ++ visits log i k := by
  unfold visits
  cases x with
  | invoked id caller item =>
    simp only [List.filterMap_cons]
    by_cases h : caller = .loop i k <;> simp [h]
  | _ => simp

theorem visits_cons_self (log : List (Note S V)) (i : ℕ) (k : HandlerKind) (id : HandlerId)
    (item : Dispatchable S V) :
    visits (.invoked id (.loop i k) item :: log) i k = id :: visits log i k := by
  rw [visits_cons]
  simp

/-- A note about no invocation by this loop. -/
theorem visits_cons_of_ne (log : List (Note S V)) {x : Note S V}
    (hv : ∀ id item, x ≠ .invoked id (.loop i k) item) :
    visits (x :: log) i k = visits log i k := by
  rw [visits_cons]
  cases x with
  | invoked id caller item =>
    have hc : caller ≠ .loop i k := by rintro rfl; exact hv id item rfl
    simp [hc]
  | _ => rfl

/-- The loop of dispatch number `i` over the handlers of kind `k` and type `n` has dealt with the
ids from `b` on. -/
structure Progress (log : List (Note S V)) (i : ℕ) (k : HandlerKind) (n : String) (b : ℕ) :
    Prop where
  sorted : (visits log i k).Pairwise (· < ·)
  le : ∀ j ∈ visits log i k, b ≤ j
  typed : ∀ t ids, .began i t ids ∈ log → t.instance_.typeName = n
  left : ∀ t ids, .began i t ids ∈ log → ∀ j ∈ ids k, b ≤ j →
    j ∈ visits log i k ∨ .requested j ∈ log

/-- The loop of dispatch number `i` over the handlers of kind `k` has not begun. -/
def Fresh (log : List (Note S V)) (i : ℕ) (k : HandlerKind) : Prop :=
  visits log i k = [] ∧ .completed i k ∉ log

/-- A note that is not of this loop and not a `began`. -/
theorem Progress.cons {n : String} {b : ℕ} (h : Progress log i k n b) {x : Note S V}
    (hv : ∀ id item, x ≠ .invoked id (.loop i k) item) (hb : ∀ t ids, x ≠ .began i t ids) :
    Progress (x :: log) i k n b := by
  have hvis := visits_cons_of_ne log hv
  have hbegan : ∀ t ids, .began i t ids ∈ x :: log → .began i t ids ∈ log := by
    intro t ids hm
    rcases List.mem_cons.mp hm with he | hm
    · exact absurd he.symm (hb t ids)
    · exact hm
  refine ⟨hvis ▸ h.sorted, hvis ▸ h.le, fun t ids hm => h.typed t ids (hbegan t ids hm), ?_⟩
  intro t ids hm j hj hbj
  rw [hvis]
  exact (h.left t ids (hbegan t ids hm) j hj hbj).imp_right (List.mem_cons_of_mem x)

theorem Fresh.cons (h : Fresh log i k) {x : Note S V}
    (hv : ∀ id item, x ≠ .invoked id (.loop i k) item) (hc : x ≠ .completed i k) :
    Fresh (x :: log) i k := by
  refine ⟨(visits_cons_of_ne log hv).trans h.1, ?_⟩
  simp only [List.mem_cons, not_or]
  exact ⟨hc.symm, h.2⟩

/-- A loop that has not begun has dealt with no id. -/
theorem Fresh.progress {n : String} {b : ℕ} (h : Fresh log i k)
    (htyped : ∀ t ids, .began i t ids ∈ log → t.instance_.typeName = n)
    (hb : ∀ t ids, .began i t ids ∈ log → ∀ j ∈ ids k, j < b) : Progress log i k n b where
  sorted := by simp [h.1]
  le := by simp [h.1]
  typed := htyped
  left t ids hm j hj hbj := absurd (hb t ids hm j hj) (by omega)

/-- The dispatch a frame or a note belongs to. -/
def Frame.serial : Frame S V → Option ℕ
  | .loop i _ _ => some i
  | .replay .. => none

def Note.serial : Note S V → Option ℕ
  | .invoked _ (.loop i _) _ => some i
  | .began i _ _ => some i
  | .completed i _ => some i
  | _ => none

/-- The loop of dispatch number `i` over the handlers of `item` is under way and has dealt with
the ids from `b` on. -/
structure Underway (log : List (Note S V)) (i : ℕ) (item : Dispatchable S V) (b : ℕ) : Prop where
  progress : Progress log i item.kind item.typeName b
  not_completed : .completed i item.kind ∉ log
  event_fresh : item.kind = .transmission → Fresh log i .event

theorem Underway.cons {item : Dispatchable S V} {b : ℕ} (h : Underway log i item b)
    {x : Note S V} (hx : x.serial ≠ some i) : Underway (x :: log) i item b where
  progress := h.progress.cons (by rintro id it rfl; exact hx rfl) (by rintro n ids rfl; exact hx rfl)
  not_completed := by
    simp only [List.mem_cons, not_or]
    exact ⟨by rintro rfl; exact hx rfl, h.not_completed⟩
  event_fresh hk := (h.event_fresh hk).cons (by rintro id it rfl; exact hx rfl)
    (by rintro rfl; exact hx rfl)

/-! ## The invariant -/

/-- The ids the running handlers and the loops around them stand on. -/
def Machine.standing (m : Machine S V) : List HandlerId := m.stack.map Frame.id

/-- The id the innermost loop stands on. -/
def topLoop : List (Frame S V) → Option HandlerId
  | [] => none
  | .replay .. :: rest => topLoop rest
  | .loop _ _ id :: _ => some id

/-- The ids to remove belong to the innermost loop, which has dealt with them, and nothing else
stands on them. -/
def PendingOk (handlers : HandlerKind → String → List HandlerId) (ids : List HandlerId) :
    List (Frame S V) → Prop
  | [] => ids = []
  | .replay _ id _ _ :: rest => id ∉ ids ∧ PendingOk handlers ids rest
  | .loop _ item id :: rest => ∀ p ∈ ids, id ≤ p ∧ p ∉ rest.map Frame.id ∧
      ∀ k n, p ∈ handlers k n → k = item.kind ∧ n = item.typeName

/-- The part of the invariant that does not look at the deferred removals' loop. -/
structure Core (m : Machine S V) : Prop where
  sorted : ∀ k n, (m.dispatcher.handlers k n).Pairwise (· > ·)
  added : ∀ k n id, id ∈ m.dispatcher.handlers k n → .added k n id ∈ m.log
  below : ∀ k n id, .added k n id ∈ m.log → id < m.dispatcher.nextId
  unique : ∀ k n k' n' id, .added k n id ∈ m.log → .added k' n' id ∈ m.log → k = k' ∧ n = n'
  kept : ∀ k n id, .added k n id ∈ m.log →
    id ∈ m.dispatcher.handlers k n ∨ .requested id ∈ m.log
  known : ∀ id, .requested id ∈ m.log → ∃ k n, .added k n id ∈ m.log
  gone : ∀ k n id, .requested id ∈ m.log → id ∈ m.dispatcher.handlers k n →
    id ∈ m.dispatcher.removeIds
  pending : ∀ id ∈ m.dispatcher.removeIds, .requested id ∈ m.log
  standing : ∀ f ∈ m.stack, f.id ∈ m.dispatcher.handlers f.kind f.typeName
  current : ∀ c, m.dispatcher.currentlyDispatchingId = some c → topLoop m.stack = some c
  began : ∀ i t ids, .began i t ids ∈ m.log → ∀ k, ∀ j ∈ ids k,
    .added k t.instance_.typeName j ∈ m.log
  serials : (m.stack.filterMap Frame.serial).Nodup
  loops : ∀ i item id, .loop i item id ∈ m.stack → i < m.dispatched ∧ Underway m.log i item id
  fresh : ∀ i, m.dispatched ≤ i → (∀ k, Fresh m.log i k) ∧ ∀ t ids, .began i t ids ∉ m.log
  done : ∀ i k, .completed i k ∈ m.log → ∃ n, Progress m.log i k n 0
  once : ∀ i k, (visits m.log i k).Nodup
  quiet : m.log.Pairwise fun newer older =>
    ∀ id caller item, newer = .invoked id caller item → older ≠ .requested id

/-- **The invariant** while a handler runs or nothing does. -/
structure Inv (m : Machine S V) : Prop extends Core m where
  pendingOk : PendingOk m.dispatcher.handlers m.dispatcher.removeIds m.stack

/-- The invariant between two handlers of the loop of dispatch number `i` over the handlers of
`item`, which has dealt with the ids from `b` on. -/
structure Between (m : Machine S V) (i : ℕ) (item : Dispatchable S V) (b : ℕ) : Prop
    extends Core m where
  lt : i < m.dispatched
  not_standing : i ∉ m.stack.filterMap Frame.serial
  underway : Underway m.log i item b
  pendingOk : ∀ p ∈ m.dispatcher.removeIds, b ≤ p ∧ p ∉ m.standing ∧
    ∀ k n, p ∈ m.dispatcher.handlers k n → k = item.kind ∧ n = item.typeName

/-! ## What notes and frames do to it -/

variable {m : Machine S V}

/-- A note about no handler as such. -/
def Note.Plain : Note S V → Prop
  | .added .. | .requested _ | .began .. => False
  | _ => True

theorem Core.note (h : Core m) {x : Note S V} (hx : x.Plain)
    (hstack : ∀ i, x.serial = some i → i < m.dispatched ∧ i ∉ m.stack.filterMap Frame.serial)
    (hdone : ∀ i k id item, x = .invoked id (.loop i k) item →
      .completed i k ∉ m.log ∧ id ∉ visits m.log i k)
    (hcomp : ∀ i k, x = .completed i k → ∃ n, Progress (x :: m.log) i k n 0)
    (hquiet : ∀ id c item, x = .invoked id c item → .requested id ∉ m.log) :
    Core (m.note x) := by
  have hadd : ∀ k n id, .added k n id ∈ x :: m.log ↔ .added k n id ∈ m.log := by
    intro k n id
    refine List.mem_cons.trans (or_iff_right ?_)
    rintro rfl
    exact hx
  have hreq : ∀ id, .requested id ∈ x :: m.log ↔ .requested id ∈ m.log := by
    intro id
    refine List.mem_cons.trans (or_iff_right ?_)
    rintro rfl
    exact hx
  have hbeg : ∀ i t ids, .began i t ids ∈ x :: m.log ↔ .began i t ids ∈ m.log := by
    intro i t ids
    refine List.mem_cons.trans (or_iff_right ?_)
    rintro rfl
    exact hx
  refine
    { sorted := h.sorted
      added := fun k n id hm => (hadd k n id).mpr (h.added k n id hm)
      below := fun k n id hm => h.below k n id ((hadd k n id).mp hm)
      unique := fun k n k' n' id hm hm' =>
        h.unique k n k' n' id ((hadd k n id).mp hm) ((hadd k' n' id).mp hm')
      kept := fun k n id hm => (h.kept k n id ((hadd k n id).mp hm)).imp_right (hreq id).mpr
      known := fun id hm => by
        obtain ⟨k, n, ha⟩ := h.known id ((hreq id).mp hm)
        exact ⟨k, n, (hadd k n id).mpr ha⟩
      gone := fun k n id hm => h.gone k n id ((hreq id).mp hm)
      pending := fun id hm => (hreq id).mpr (h.pending id hm)
      standing := h.standing
      current := h.current
      began := fun i t ids hm k j hj =>
        (hadd k _ j).mpr (h.began i t ids ((hbeg i t ids).mp hm) k j hj)
      serials := h.serials
      loops := ?_, fresh := ?_, done := ?_, once := ?_, quiet := ?_ }
  · intro i item id hm
    obtain ⟨hi, hu⟩ := h.loops i item id hm
    refine ⟨hi, hu.cons fun hs => (hstack i hs).2 ?_⟩
    exact List.mem_filterMap.mpr ⟨_, hm, rfl⟩
  · intro i hi
    obtain ⟨hf, hb⟩ := h.fresh i hi
    have hs : x.serial ≠ some i := fun hs => absurd (hstack i hs).1 (Nat.not_lt.mpr hi)
    refine ⟨fun k => (hf k).cons ?_ ?_, fun t ids hm => hb t ids ((hbeg i t ids).mp hm)⟩
    · rintro id item rfl; exact hs rfl
    · rintro rfl; exact hs rfl
  · intro i k hm
    rcases List.mem_cons.mp hm with he | hm
    · exact hcomp i k he.symm
    · obtain ⟨n, hp⟩ := h.done i k hm
      refine ⟨n, hp.cons (fun id item he => (hdone i k id item he).1 hm) ?_⟩
      rintro t ids rfl
      exact hx
  · intro i k
    by_cases hv : ∃ id item, x = .invoked id (.loop i k) item
    · obtain ⟨id, item, rfl⟩ := hv
      refine (visits_cons_self m.log i k id item).symm ▸ List.nodup_cons.mpr ?_
      exact ⟨(hdone i k id item rfl).2, h.once i k⟩
    · exact (visits_cons_of_ne m.log fun id item he => hv ⟨id, item, he⟩).symm ▸ h.once i k
  · refine List.pairwise_cons.mpr ⟨fun y hy id c item he hr => ?_, h.quiet⟩
    exact hquiet id c item he (hr ▸ hy)

/-- A handler is invoked. -/
theorem Core.push (h : Core m) {f : Frame S V} {c : Option HandlerId}
    (hid : f.id ∈ m.dispatcher.handlers f.kind f.typeName)
    (hloop : ∀ i item id, f = .loop i item id →
      i < m.dispatched ∧ i ∉ m.stack.filterMap Frame.serial ∧ Underway m.log i item id)
    (hcur : ∀ c', c = some c' → topLoop (f :: m.stack) = some c') :
    Core { m with
      dispatcher := { m.dispatcher with currentlyDispatchingId := c }
      stack := f :: m.stack } :=
  { h with
    standing := by
      intro g hg
      rcases List.mem_cons.mp hg with rfl | hg
      · exact hid
      · exact h.standing g hg
    current := hcur
    serials := by
      cases f with
      | replay n id k fc => exact h.serials
      | loop i item id => exact List.nodup_cons.mpr ⟨(hloop i item id rfl).2.1, h.serials⟩
    loops := by
      intro i item id hm
      rcases List.mem_cons.mp hm with he | hm
      · obtain ⟨hi, -, hu⟩ := hloop i item id he.symm
        exact ⟨hi, hu⟩
      · exact h.loops i item id hm }

/-- A handler returns. -/
theorem Core.pop (h : Core m) {f : Frame S V} {rest : List (Frame S V)} {c : Option HandlerId}
    (hs : m.stack = f :: rest) (hcur : ∀ c', c = some c' → topLoop rest = some c') :
    Core { m with
      dispatcher := { m.dispatcher with currentlyDispatchingId := c }
      stack := rest } :=
  { h with
    standing := fun g hg => h.standing g (hs ▸ List.mem_cons_of_mem f hg)
    current := hcur
    serials := by
      have hn := h.serials
      rw [hs] at hn
      exact hn.sublist ((List.sublist_cons_self f rest).filterMap _)
    loops := fun i item id hm => h.loops i item id (hs ▸ List.mem_cons_of_mem f hm) }

/-! ## What a container operation does to the frames -/

namespace Frame

variable (pool : ContainerPool S V) (f : Frame S V)

@[simp] theorem id_settle : (f.settle pool).id = f.id := by cases f <;> rfl

@[simp] theorem kind_settle : (f.settle pool).kind = f.kind := by cases f <;> rfl

@[simp] theorem typeName_settle : (f.settle pool).typeName = f.typeName := by cases f <;> rfl

@[simp] theorem serial_settle : (f.settle pool).serial = f.serial := by cases f <;> rfl

theorem settle_eq_loop {i : ℕ} {item : Dispatchable S V} {id : HandlerId} :
    f.settle pool = .loop i item id ↔ f = .loop i item id := by
  cases f <;> simp [settle]

end Frame

theorem loop_mem_settle {pool : ContainerPool S V} {stack : List (Frame S V)} {i : ℕ}
    {item : Dispatchable S V} {id : HandlerId} :
    .loop i item id ∈ stack.map (Frame.settle pool) ↔ .loop i item id ∈ stack := by
  simp [List.mem_map, Frame.settle_eq_loop]

theorem map_id_settle (pool : ContainerPool S V) (stack : List (Frame S V)) :
    (stack.map (Frame.settle pool)).map Frame.id = stack.map Frame.id := by
  simp [Function.comp_def]

theorem serials_settle (pool : ContainerPool S V) (stack : List (Frame S V)) :
    (stack.map (Frame.settle pool)).filterMap Frame.serial = stack.filterMap Frame.serial := by
  simp [List.filterMap_map, Function.comp_def]

theorem topLoop_settle (pool : ContainerPool S V) :
    ∀ stack : List (Frame S V), topLoop (stack.map (Frame.settle pool)) = topLoop stack
  | [] => rfl
  | .replay .. :: rest => topLoop_settle pool rest
  | .loop .. :: _ => rfl

theorem PendingOk.settle (pool : ContainerPool S V)
    {handlers : HandlerKind → String → List HandlerId} {ids : List HandlerId} :
    ∀ {stack : List (Frame S V)}, PendingOk handlers ids stack →
      PendingOk handlers ids (stack.map (Frame.settle pool))
  | [], h => h
  | .replay .. :: _, h => ⟨h.1, h.2.settle pool⟩
  | .loop .. :: rest, h => fun p hp => by
    obtain ⟨hle, hst, hown⟩ := h p hp
    exact ⟨hle, (map_id_settle pool rest).symm ▸ hst, hown⟩

/-- The invariant looks at who the frames are, not at the nodes they stand on. -/
theorem Inv.settle (h : Inv m) (pool : ContainerPool S V) :
    Inv { m with stack := m.stack.map (Frame.settle pool) } :=
  { h with
    standing := by
      intro g hg
      obtain ⟨f, hf, rfl⟩ := List.mem_map.mp hg
      simpa using h.standing f hf
    current := fun c hc => (topLoop_settle pool m.stack).trans (h.current c hc)
    serials := (serials_settle pool m.stack).symm ▸ h.serials
    loops := fun i item id hm => h.loops i item id (loop_mem_settle.mp hm)
    pendingOk := h.pendingOk.settle pool }

/-! ## A loop takes a turn -/

section Loop

variable {item : Dispatchable S V} {b id : HandlerId}

/-- Nothing between two handlers of a loop stands in the way of the next one's invocation. -/
theorem Between.not_requested (h : Between m i item b) (hlt : id < b)
    (hid : id ∈ m.dispatcher.handlers item.kind item.typeName) : .requested id ∉ m.log := by
  intro hr
  exact absurd hlt (not_lt.mpr (h.pendingOk id (h.gone _ _ id hr hid)).1)

/-- **The next handler of a loop.** -/
theorem Between.loopTo_some (h : Between m i item b)
    (hid : id ∈ m.dispatcher.handlers item.kind item.typeName) (hlt : id < b)
    (hnext : ∀ j ∈ m.dispatcher.handlers item.kind item.typeName, j < b → j ≤ id) :
    Inv (m.loopTo i item (some id)) := by
  have hquiet := h.not_requested hlt hid
  have hnote : Core (m.note (.invoked id (.loop i item.kind) item)) := by
    refine h.toCore.note trivial ?_ ?_ (fun i k he => by cases he) ?_
    · rintro i' he
      obtain rfl := Option.some.inj he
      exact ⟨h.lt, h.not_standing⟩
    · rintro i' k' id' item' he
      cases he
      refine ⟨h.underway.not_completed, fun hv => ?_⟩
      exact absurd hlt (not_lt.mpr (h.underway.progress.le id hv))
    · rintro id' c item' he
      cases he
      exact hquiet
  have hvis := visits_cons_self m.log i item.kind id item
  have hprog : Progress (.invoked id (.loop i item.kind) item :: m.log) i item.kind
      item.typeName id := by
    have hp := h.underway.progress
    refine ⟨?_, ?_, fun t ids hm => hp.typed t ids (by simpa using hm), ?_⟩
    · rw [hvis]
      exact List.pairwise_cons.mpr ⟨fun j hj => lt_of_lt_of_le hlt (hp.le j hj), hp.sorted⟩
    · rw [hvis]
      intro j hj
      rcases List.mem_cons.mp hj with rfl | hj
      · exact le_rfl
      · exact hlt.le.trans (hp.le j hj)
    · intro t ids hm j hj hjd
      have hm : .began i t ids ∈ m.log := by simpa using hm
      simp only [hvis, List.mem_cons]
      by_cases hjb : b ≤ j
      · rcases hp.left t ids hm j hj hjb with hv | hr
        · exact .inl (.inr hv)
        · exact .inr (.inr hr)
      · -- an id below the bound is still in the table, and the next handler is the largest
        have hadd := hp.typed t ids hm ▸ h.began i t ids hm _ j hj
        rcases h.kept _ _ j hadd with ht | hr
        · exact .inl (.inl (le_antisymm (hnext j ht (not_le.mp hjb)) hjd))
        · exact .inr (.inr hr)
  have hunder : Underway (.invoked id (.loop i item.kind) item :: m.log) i item id := by
    refine ⟨hprog, by simpa using h.underway.not_completed, fun hk => ?_⟩
    refine (h.underway.event_fresh hk).cons ?_ (by simp)
    rintro id' item' he
    rw [hk] at he
    cases he
  refine ⟨hnote.push (f := .loop i item id) (c := some id) hid ?_ fun c' hc => hc, ?_⟩
  · rintro i' item' id' he
    cases he
    exact ⟨h.lt, h.not_standing, hunder⟩
  · intro p hp
    obtain ⟨hb, hst, hown⟩ := h.pendingOk p hp
    exact ⟨hlt.le.trans hb, hst, hown⟩

/-- The ids to remove go at the end of their loop. -/
theorem Between.flush (h : Between m i item b) :
    Core { m with dispatcher := m.dispatcher.flush item.kind item.typeName } := by
  have herase := foldl_erase m.dispatcher.removeIds (h.sorted item.kind item.typeName)
  have hmem : ∀ k n j, j ∈ (m.dispatcher.flush item.kind item.typeName).handlers k n ↔
      j ∈ m.dispatcher.handlers k n ∧ j ∉ m.dispatcher.removeIds := by
    intro k n j
    rw [Dispatcher.handlers_flush]
    split_ifs with hkn
    · obtain ⟨rfl, rfl⟩ := hkn
      exact herase.2 j
    · refine (and_iff_left_of_imp fun hj hp => hkn ?_).symm
      exact (h.pendingOk j hp).2.2 k n hj
  exact
    { h.toCore with
      sorted := by
        intro k n
        show ((m.dispatcher.flush item.kind item.typeName).handlers k n).Pairwise (· > ·)
        rw [Dispatcher.handlers_flush]
        split_ifs
        · exact herase.1
        · exact h.sorted k n
      added := fun k n id hid => h.added k n id ((hmem k n id).mp hid).1
      kept := by
        intro k n id ha
        rcases h.kept k n id ha with hid | hr
        · by_cases hp : id ∈ m.dispatcher.removeIds
          · exact .inr (h.pending id hp)
          · exact .inl ((hmem k n id).mpr ⟨hid, hp⟩)
        · exact .inr hr
      gone := by
        intro k n id hr hid
        obtain ⟨hid, hp⟩ := (hmem k n id).mp hid
        exact absurd (h.gone k n id hr hid) hp
      pending := fun id hid => absurd hid List.not_mem_nil
      standing := by
        intro f hf
        refine (hmem _ _ _).mpr ⟨h.standing f hf, fun hp => ?_⟩
        exact (h.pendingOk _ hp).2.1 (List.mem_map_of_mem hf) }

/-- **The end of a loop.** -/
theorem Between.loopTo_none (h : Between m i item b)
    (hnext : ∀ j ∈ m.dispatcher.handlers item.kind item.typeName, ¬ j < b) :
    Core (m.loopTo i item none) := by
  refine h.flush.note trivial ?_ (fun _ _ _ _ he => by cases he) ?_ (fun _ _ _ he => by cases he)
  · rintro i' he
    obtain rfl := Option.some.inj he
    exact ⟨h.lt, h.not_standing⟩
  · rintro i' k' he
    cases he
    have hp := h.underway.progress
    refine ⟨item.typeName, Progress.cons ?_ (by simp) (by simp)⟩
    refine ⟨hp.sorted, fun j _ => Nat.zero_le j, hp.typed, fun t ids hm j hj _ => ?_⟩
    by_cases hjb : b ≤ j
    · exact hp.left t ids hm j hj hjb
    · have hadd := hp.typed t ids hm ▸ h.began i t ids hm _ j hj
      rcases h.kept _ _ j hadd with ht | hr
      · exact absurd (not_le.mp hjb) (hnext j ht)
      · exact .inr hr

theorem pendingOk_nil (handlers : HandlerKind → String → List HandlerId) :
    ∀ stack : List (Frame S V), PendingOk handlers [] stack
  | [] => rfl
  | .replay .. :: rest => ⟨List.not_mem_nil, pendingOk_nil handlers rest⟩
  | .loop .. :: _ => fun _ hp => absurd hp List.not_mem_nil

end Loop

end Dots

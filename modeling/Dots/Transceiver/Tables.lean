import Dots.Dispatcher.Invariant
import Dots.Transceiver.Model

/-!
# The handler tables of a transceiver

* `Tables H c`: the tables of `c` hold the handlers for which `H` holds, and those whose removal is
  pending.
* `Kept c c'`: what the actions of a handler leave as it is.
* **`Tables.add`**, **`Tables.unsubscribe`**, **`Tables.flush`**: what the functions of a transceiver do
  to its tables.
-/

set_option autoImplicit false
set_option linter.unusedSectionVars false

namespace Dots

variable {S : Schema} {V : Type} [Ord V] [Std.TransOrd V] [Std.LawfulEqOrd V]

namespace Transceiver

variable {c c' c'' : Transceiver S V} {t u : Target} {id : HandlerId}

/-! ## The members after a function -/

/-- A removal that is deferred, and one that is not. -/
def defer (c : Transceiver S V) (id : HandlerId) : Target → Transceiver S V
  | .handler _ _ => { c with dispatcher := { c.dispatcher with removeIds := c.dispatcher.removeIds ++ [id] } }
  | .newType => { c with removeIds := c.removeIds ++ [id] }

def erase (c : Transceiver S V) (id : HandlerId) : Target → Transceiver S V
  | .handler k n =>
    { c with dispatcher := c.dispatcher.setHandlers k n ((c.dispatcher.handlers k n).erase id) }
  | .newType => { c with newTypeHandlers := c.newTypeHandlers.erase id }

theorem unsubscribe_eq (h : id ∈ c.handlers t) :
    c.unsubscribe id t = .ok (if c.current t = some id then c.defer id t else c.erase id t) := by
  cases t with
  | handler k n =>
    have hid : id ∈ c.dispatcher.handlers k n := h
    rw [unsubscribe, Dispatcher.removeHandler, if_pos hid, current]
    split_ifs <;> rfl
  | newType =>
    rw [unsubscribe, current]
    split_ifs <;> rfl

theorem counter_congr (h : u.ofDispatcher = t.ofDispatcher) : c.counter u = c.counter t := by
  cases u <;> cases t <;> first | rfl | cases h

theorem pending_congr (h : u.ofDispatcher = t.ofDispatcher) : c.pending u = c.pending t := by
  cases u <;> cases t <;> first | rfl | cases h

theorem current_congr (h : u.ofDispatcher = t.ofDispatcher) : c.current u = c.current t := by
  cases u <;> cases t <;> first | rfl | cases h

theorem handlers_add : (c.add t).handlers u =
    if u = t then c.counter t :: c.handlers t else c.handlers u := by
  cases t <;> cases u
  · simp only [handlers, add, Dispatcher.handlers_addHandler, Target.handler.injEq]
    rfl
  all_goals rfl

theorem counter_add : (c.add t).counter u =
    if u.ofDispatcher = t.ofDispatcher then c.counter t + 1 else c.counter u := by
  cases t <;> cases u <;> rfl

@[simp] theorem pending_add : (c.add t).pending u = c.pending u := by
  cases t <;> cases u <;> rfl

@[simp] theorem current_add : (c.add t).current u = c.current u := by
  cases t <;> cases u <;> rfl

@[simp] theorem this_add : (c.add t).this_ = c.this_ := by
  cases t <;> rfl

theorem handlers_erase : (c.erase id t).handlers u =
    if u = t then (c.handlers t).erase id else c.handlers u := by
  cases t <;> cases u
  · simp only [handlers, erase, Dispatcher.handlers_setHandlers, Target.handler.injEq]
  all_goals rfl

@[simp] theorem counter_erase : (c.erase id t).counter u = c.counter u := by
  cases t <;> cases u <;> rfl

@[simp] theorem pending_erase : (c.erase id t).pending u = c.pending u := by
  cases t <;> cases u <;> rfl

@[simp] theorem current_erase : (c.erase id t).current u = c.current u := by
  cases t <;> cases u <;> rfl

@[simp] theorem this_erase : (c.erase id t).this_ = c.this_ := by
  cases t <;> rfl

@[simp] theorem handlers_defer : (c.defer id t).handlers u = c.handlers u := by
  cases t <;> cases u <;> rfl

@[simp] theorem counter_defer : (c.defer id t).counter u = c.counter u := by
  cases t <;> cases u <;> rfl

theorem pending_defer : (c.defer id t).pending u =
    if u.ofDispatcher = t.ofDispatcher then c.pending t ++ [id] else c.pending u := by
  cases t <;> cases u <;> rfl

@[simp] theorem current_defer : (c.defer id t).current u = c.current u := by
  cases t <;> cases u <;> rfl

@[simp] theorem this_defer : (c.defer id t).this_ = c.this_ := by
  cases t <;> rfl

@[simp] theorem handlers_setCurrent {i : Option HandlerId} :
    (c.setCurrent i t).handlers u = c.handlers u := by
  cases t <;> cases u <;> rfl

@[simp] theorem counter_setCurrent {i : Option HandlerId} :
    (c.setCurrent i t).counter u = c.counter u := by
  cases t <;> cases u <;> rfl

@[simp] theorem pending_setCurrent {i : Option HandlerId} :
    (c.setCurrent i t).pending u = c.pending u := by
  cases t <;> cases u <;> rfl

theorem current_setCurrent {i : Option HandlerId} : (c.setCurrent i t).current u =
    if u.ofDispatcher = t.ofDispatcher then i else c.current u := by
  cases t <;> cases u <;> rfl

@[simp] theorem this_setCurrent {i : Option HandlerId} : (c.setCurrent i t).this_ = c.this_ := by
  cases t <;> rfl

theorem handlers_flush : (c.flush t).handlers u =
    if u = t then (c.pending t).foldl List.erase (c.handlers t) else c.handlers u := by
  cases t <;> cases u
  · simp only [handlers, flush, Dispatcher.handlers_flush, Target.handler.injEq]
    rfl
  all_goals rfl

@[simp] theorem counter_flush : (c.flush t).counter u = c.counter u := by
  cases t <;> cases u <;> rfl

theorem pending_flush : (c.flush t).pending u =
    if u.ofDispatcher = t.ofDispatcher then [] else c.pending u := by
  cases t <;> cases u <;> rfl

@[simp] theorem current_flush : (c.flush t).current u = c.current u := by
  cases t <;> cases u <;> rfl

@[simp] theorem this_flush : (c.flush t).this_ = c.this_ := by
  cases t <;> rfl

/-! ## Tables and subscriptions -/

variable {H : Target → HandlerId → Prop}

/-- The tables hold the handlers for which `H` holds, and those whose removal is pending. -/
structure Tables (H : Target → HandlerId → Prop) (c : Transceiver S V) : Prop where
  sorted : ∀ t, (c.handlers t).Pairwise (· > ·)
  below : ∀ t id, id ∈ c.handlers t → id < c.counter t
  unique : ∀ t u id, u.ofDispatcher = t.ofDispatcher → id ∈ c.handlers t → id ∈ c.handlers u → u = t
  held : ∀ t id, H t id ↔ id ∈ c.handlers t ∧ id ∉ c.pending t
  current : ∀ t id, c.current t = some id → ∃ u, u.ofDispatcher = t.ofDispatcher ∧ id ∈ c.handlers u
  pending : ∀ t, ∀ id ∈ c.pending t, ∃ u, u.ofDispatcher = t.ofDispatcher ∧ id ∈ c.handlers u

/-- What the actions of a handler leave as it is: the handler that runs and those whose removal is
pending stay in their tables. -/
structure Kept (c c' : Transceiver S V) : Prop where
  this_ : c'.this_ = c.this_
  current : ∀ t, c'.current t = c.current t
  mono : ∀ t, ∀ id ∈ c.pending t, id ∈ c'.pending t
  pending : ∀ t, ∀ id ∈ c'.pending t, id ∈ c.pending t ∨ c.current t = some id
  standing : ∀ t, ∀ id ∈ c.handlers t, (id ∈ c.pending t ∨ c.current t = some id) → id ∈ c'.handlers t

theorem Kept.refl (c : Transceiver S V) : Kept c c :=
  ⟨rfl, fun _ => rfl, fun _ _ h => h, fun _ _ h => .inl h, fun _ _ h _ => h⟩

theorem Kept.trans (h : Kept c c') (h' : Kept c' c'') : Kept c c'' where
  this_ := h'.this_.trans h.this_
  current t := (h'.current t).trans (h.current t)
  mono t id hid := h'.mono t id (h.mono t id hid)
  pending t id hid := by
    obtain hid | hid := h'.pending t id hid
    · exact h.pending t id hid
    · exact .inr ((h.current t).symm.trans hid)
  standing t id hid hstands := by
    refine h'.standing t id (h.standing t id hid hstands) ?_
    obtain hpending | hcurrent := hstands
    · exact .inl (h.mono t id hpending)
    · exact .inr ((h.current t).trans hcurrent)

theorem Tables.congr {H' : Target → HandlerId → Prop} (h : Tables H c) (hH : ∀ t id, H' t id ↔ H t id) :
    Tables H' c := { h with held := fun t id => (hH t id).trans (h.held t id) }

/-- The next id belongs to no handler. -/
theorem Tables.counter_notMem (h : Tables H c) (hu : u.ofDispatcher = t.ofDispatcher) :
    c.counter t ∉ c.handlers u := by
  intro hmem
  have hlt := h.below u _ hmem
  rw [counter_congr hu] at hlt
  exact lt_irrefl _ hlt

theorem Tables.counter_notPending (h : Tables H c) : c.counter t ∉ c.pending t := by
  intro hmem
  obtain ⟨u, hu, hid⟩ := h.pending t _ hmem
  exact h.counter_notMem hu hid

theorem mem_add : id ∈ (c.add t).handlers u ↔ id ∈ c.handlers u ∨ (u = t ∧ id = c.counter t) := by
  rw [handlers_add]
  split_ifs with hu
  · subst hu
    rw [List.mem_cons]
    tauto
  · exact ⟨.inl, fun h => h.resolve_right fun h => hu h.1⟩

/-- **A handler is added**, and its subscription is held. -/
theorem Tables.add (h : Tables H c) (t : Target) :
    Tables (fun u id => H u id ∨ (u = t ∧ id = c.counter t)) (c.add t) where
  sorted u := by
    rw [handlers_add]
    split_ifs
    · exact List.pairwise_cons.mpr ⟨fun id hid => h.below t id hid, h.sorted t⟩
    · exact h.sorted u
  below u id hid := by
    rw [counter_add]
    obtain hid | ⟨rfl, rfl⟩ := mem_add.mp hid
    · have hlt := h.below u id hid
      split_ifs with hu
      · rw [counter_congr hu] at hlt
        exact Nat.lt_succ_of_lt hlt
      · exact hlt
    · rw [if_pos rfl]
      exact Nat.lt_succ_self _
  unique u u' id hu hid hid' := by
    obtain hmem | ⟨rfl, rfl⟩ := mem_add.mp hid
    · obtain hmem' | ⟨rfl, rfl⟩ := mem_add.mp hid'
      · exact h.unique u u' id hu hmem hmem'
      · exact absurd hmem (h.counter_notMem hu.symm)
    · obtain hmem' | ⟨rfl, -⟩ := mem_add.mp hid'
      · exact absurd hmem' (h.counter_notMem hu)
      · rfl
  held u id := by
    rw [mem_add, pending_add, h.held]
    refine ⟨?_, ?_⟩
    · rintro (⟨hid, hpending⟩ | ⟨rfl, rfl⟩)
      · exact ⟨.inl hid, hpending⟩
      · exact ⟨.inr ⟨rfl, rfl⟩, h.counter_notPending⟩
    · rintro ⟨hid, hpending⟩
      exact hid.imp_left fun hid => ⟨hid, hpending⟩
  current u id hid := by
    obtain ⟨u', hu', hid⟩ := h.current u id (current_add.symm.trans hid)
    exact ⟨u', hu', mem_add.mpr (.inl hid)⟩
  pending u id hid := by
    rw [pending_add] at hid
    obtain ⟨u', hu', hid⟩ := h.pending u id hid
    exact ⟨u', hu', mem_add.mpr (.inl hid)⟩

theorem kept_add (c : Transceiver S V) (t : Target) : Kept c (c.add t) where
  this_ := this_add
  current _ := current_add
  mono u id hid := by rwa [pending_add]
  pending u id hid := by rw [pending_add] at hid; exact .inl hid
  standing _ _ hid _ := mem_add.mpr (.inl hid)

theorem Tables.mem_erase (h : Tables H c) {j : HandlerId} :
    j ∈ (c.erase id t).handlers u ↔ j ∈ c.handlers u ∧ ¬(u = t ∧ j = id) := by
  rw [handlers_erase]
  split_ifs with hu
  · subst hu
    have hnodup : (c.handlers u).Nodup := (h.sorted u).imp fun hgt => Nat.ne_of_gt hgt
    rw [hnodup.mem_erase_iff]
    tauto
  · exact ⟨fun hj => ⟨hj, fun h => hu h.1⟩, fun h => h.1⟩

theorem mem_pending_defer {j : HandlerId} : j ∈ (c.defer id t).pending u ↔
    j ∈ c.pending u ∨ (u.ofDispatcher = t.ofDispatcher ∧ j = id) := by
  rw [pending_defer]
  split_ifs with hu
  · rw [List.mem_append, List.mem_singleton, pending_congr hu]
    tauto
  · tauto

/-- The removal of the handler that runs is deferred. -/
theorem Tables.defer (h : Tables H c) (hid : id ∈ c.handlers t) :
    Tables (fun u j => H u j ∧ ¬(u = t ∧ j = id)) (c.defer id t) where
  sorted := by simpa only [handlers_defer] using h.sorted
  below := by simpa only [handlers_defer, counter_defer] using h.below
  unique := by simpa only [handlers_defer] using h.unique
  held u j := by
    rw [mem_pending_defer, handlers_defer, h.held]
    constructor
    · rintro ⟨⟨hj, hnot⟩, hne⟩
      refine ⟨hj, not_or.mpr ⟨hnot, ?_⟩⟩
      rintro ⟨hu, rfl⟩
      exact hne ⟨h.unique t u j hu hid hj, rfl⟩
    · rintro ⟨hj, hnot⟩
      refine ⟨⟨hj, fun hp => hnot (.inl hp)⟩, ?_⟩
      rintro ⟨rfl, rfl⟩
      exact hnot (.inr ⟨rfl, rfl⟩)
  current := by simpa only [handlers_defer, current_defer] using h.current
  pending u j hj := by
    simp only [handlers_defer]
    obtain hpending | ⟨hu, rfl⟩ := mem_pending_defer.mp hj
    · exact h.pending u j hpending
    · exact ⟨t, hu.symm, hid⟩

theorem kept_defer (hcurrent : c.current t = some id) : Kept c (c.defer id t) where
  this_ := this_defer
  current _ := current_defer
  mono u j hj := mem_pending_defer.mpr (.inl hj)
  pending u j hj := by
    obtain hpending | ⟨hu, rfl⟩ := mem_pending_defer.mp hj
    · exact .inl hpending
    · exact .inr ((current_congr hu).trans hcurrent)
  standing u j hj _ := by rwa [handlers_defer]

theorem Tables.kept_erase (h : Tables H c) (hnot : id ∉ c.pending t) (hcurrent : c.current t ≠ some id) :
    Kept c (c.erase id t) where
  this_ := this_erase
  current _ := current_erase
  mono u j hj := by rwa [pending_erase]
  pending u j hj := by rw [pending_erase] at hj; exact .inl hj
  standing u j hj hstands := by
    refine h.mem_erase.mpr ⟨hj, ?_⟩
    rintro ⟨rfl, rfl⟩
    exact hstands.elim hnot hcurrent

/-- Another handler is removed at once. -/
theorem Tables.erase (h : Tables H c) (hnot : id ∉ c.pending t) (hcurrent : c.current t ≠ some id) :
    Tables (fun u j => H u j ∧ ¬(u = t ∧ j = id)) (c.erase id t) where
  sorted u := by
    rw [handlers_erase]
    split_ifs
    · exact (h.sorted t).sublist List.erase_sublist
    · exact h.sorted u
  below u j hj := by
    rw [counter_erase]
    exact h.below u j (h.mem_erase.mp hj).1
  unique u u' j hu hj hj' := h.unique u u' j hu (h.mem_erase.mp hj).1 (h.mem_erase.mp hj').1
  held u j := by
    rw [h.mem_erase, pending_erase, h.held]
    tauto
  current u j hj := by
    rw [current_erase] at hj
    obtain ⟨u', hu', hmem⟩ := h.current u j hj
    exact ⟨u', hu', (h.kept_erase hnot hcurrent).standing u' j hmem (.inr ((current_congr hu').trans hj))⟩
  pending u j hj := by
    rw [pending_erase] at hj
    obtain ⟨u', hu', hmem⟩ := h.pending u j hj
    have hj' : j ∈ c.pending u' := by rwa [pending_congr hu']
    exact ⟨u', hu', (h.kept_erase hnot hcurrent).standing u' j hmem (.inl hj')⟩

/-- **A subscription is dropped.** Its handler is removed, or its removal is pending. -/
theorem Tables.unsubscribe (h : Tables H c) (hid : H t id) :
    ∃ c', c.unsubscribe id t = .ok c' ∧ Tables (fun u j => H u j ∧ ¬(u = t ∧ j = id)) c' ∧
      Kept c c' := by
  obtain ⟨hmem, hnot⟩ := (h.held t id).mp hid
  rw [unsubscribe_eq hmem]
  by_cases hcurrent : c.current t = some id
  · rw [if_pos hcurrent]
    exact ⟨_, rfl, h.defer hmem, kept_defer hcurrent⟩
  · rw [if_neg hcurrent]
    exact ⟨_, rfl, h.erase hnot hcurrent, h.kept_erase hnot hcurrent⟩

/-- A loop comes to a handler, or leaves it. -/
theorem Tables.setCurrent (h : Tables H c) {i : Option HandlerId} (hi : ∀ id ∈ i, id ∈ c.handlers t) :
    Tables H (c.setCurrent i t) where
  sorted := by simpa only [handlers_setCurrent] using h.sorted
  below := by simpa only [handlers_setCurrent, counter_setCurrent] using h.below
  unique := by simpa only [handlers_setCurrent] using h.unique
  held := by simpa only [handlers_setCurrent, pending_setCurrent] using h.held
  current u j hj := by
    simp only [handlers_setCurrent]
    rw [current_setCurrent] at hj
    split_ifs at hj with hu
    · exact ⟨t, hu.symm, hi j hj⟩
    · exact h.current u j hj
  pending := by simpa only [handlers_setCurrent, pending_setCurrent] using h.pending

theorem Tables.mem_flush (h : Tables H c) {j : HandlerId} :
    j ∈ (c.flush t).handlers u ↔ j ∈ c.handlers u ∧ ¬(u = t ∧ j ∈ c.pending t) := by
  rw [handlers_flush]
  split_ifs with hu
  · subst hu
    rw [(foldl_erase (c.pending u) (h.sorted u)).2]
    tauto
  · tauto

/-- **A loop is over.** The handlers whose removal was pending are gone. -/
theorem Tables.flush (h : Tables H c) (hcurrent : c.current t = none)
    (hpending : ∀ id ∈ c.pending t, id ∈ c.handlers t) : Tables H (c.flush t) where
  sorted u := by
    rw [handlers_flush]
    split_ifs
    · exact (foldl_erase _ (h.sorted t)).1
    · exact h.sorted u
  below u j hj := by
    rw [counter_flush]
    exact h.below u j (h.mem_flush.mp hj).1
  unique u u' j hu hj hj' := h.unique u u' j hu (h.mem_flush.mp hj).1 (h.mem_flush.mp hj').1
  held u j := by
    rw [h.mem_flush, pending_flush, h.held]
    split_ifs with hu
    · rw [pending_congr hu]
      refine ⟨fun hj => ⟨⟨hj.1, fun hne => hj.2 hne.2⟩, List.not_mem_nil⟩, fun hj => ⟨hj.1.1, fun hp => ?_⟩⟩
      exact hj.1.2 ⟨h.unique t u j hu (hpending j hp) hj.1.1, hp⟩
    · have hne : u ≠ t := fun hut => hu (by rw [hut])
      tauto
  current u j hj := by
    rw [current_flush] at hj
    obtain ⟨u', hu', hmem⟩ := h.current u j hj
    refine ⟨u', hu', h.mem_flush.mpr ⟨hmem, ?_⟩⟩
    rintro ⟨rfl, -⟩
    rw [current_congr hu', hj] at hcurrent
    cases hcurrent
  pending u j hj := by
    rw [pending_flush] at hj
    split_ifs at hj with hu
    · cases hj
    · obtain ⟨u', hu', hmem⟩ := h.pending u j hj
      refine ⟨u', hu', h.mem_flush.mpr ⟨hmem, ?_⟩⟩
      rintro ⟨rfl, -⟩
      exact hu hu'.symm

end Transceiver

end Dots

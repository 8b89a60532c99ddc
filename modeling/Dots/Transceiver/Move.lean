import Dots.Lib.Run
import Dots.Transceiver.Tables

/-!
# Subscriptions and moves

The lambda of a subscription refers to the object on which the subscription was made, not to the one
that `m_this` points to.

* `Program.Survives`: the tables of each transceiver are those of the subscriptions that are held, and
  a loop invokes exactly the handlers among them.
* `Program.Home`: the transceiver of a subscription is where the subscription was made, or gone.
* `Sound`, `Looping`: the invariant, between the turns of a loop.
* **`run_survives`**: runs in which a subscription is dropped while its transceiver is there.
* **`mem_handlers_of_away`**: a drop elsewhere does not remove the handler.
* **`not_run_survives`**: behind a move, the lambda finds empty tables.
-/

set_option autoImplicit false
set_option linter.unusedSectionVars false

namespace Dots

open Lts (Run Guarded ofPartial run_of_exec)

variable {S : Schema} {V : Type} [Ord V] [Std.TransOrd V] [Std.LawfulEqOrd V]

namespace Program

variable {ι : Type} [DecidableEq ι] {w w' w'' : Program S V ι} {i : ι} {b : ℕ} {t : Target}
  {c : Transceiver S V} {s : Subscription ι}

/-! ## The law -/

/-- **The subscription law** across moves. -/
structure Survives (w : Program S V ι) : Prop where
  /-- No call of an unsubscribe lambda has failed. -/
  failures : w.failures = []
  /-- The object that owns a dispatcher has the handlers whose subscriptions are held, and no others. -/
  tables : ∀ b i c, w.pointers b = some i → w.objects i = some c →
    ∀ t id, id ∈ c.handlers t ↔ w.Held (b, t, id)
  /-- A loop has invoked a handler exactly if its subscription was held. -/
  invoked : ∀ x ∈ w.turns, x.invoked = x.held

/-- The transceiver is where the subscription was made, if it has not been destroyed. -/
def Home (w : Program S V ι) (s : Subscription ι) : Prop :=
  ∀ i, w.pointers s.this_ = some i → i = s.transceiver

/-- The subscriptions that are dropped are at home. -/
def Settled (w : Program S V ι) : Label ι → Prop
  | .drop s => w.Home s
  | .dispatch _ _ actions => ∀ id s, .drop s ∈ actions id → w.Home s
  | _ => True

/-! ## The invariant -/

/-- **The invariant**, also while a handler runs. -/
structure Sound (w : Program S V ι) : Prop where
  linked : ∀ b i, w.pointers b = some i ↔ ∃ c, w.objects i = some c ∧ c.this_ = some b
  made : ∀ b i, w.pointers b = some i → b < w.blocks
  known : ∀ s ∈ w.subscriptions, s.this_ < w.blocks
  nodup : (w.subscriptions.map Subscription.key).Nodup
  tables : ∀ i c b, w.objects i = some c → c.this_ = some b → c.Tables fun t id => w.Held (b, t, id)
  failures : w.failures = []
  invoked : ∀ x ∈ w.turns, x.invoked = x.held

/-- No loop is running. -/
def Idle (w : Program S V ι) : Prop :=
  ∀ i c t, w.objects i = some c → c.current t = none ∧ c.pending t = []

/-- What the actions of a handler leave as it is. -/
structure Frame (w w' : Program S V ι) : Prop where
  pointers : w'.pointers = w.pointers
  turns : w'.turns = w.turns
  objects : ∀ i, Option.Rel Transceiver.Kept (w.objects i) (w'.objects i)

theorem Frame.refl (w : Program S V ι) : Frame w w := by
  refine ⟨rfl, rfl, fun i => ?_⟩
  cases w.objects i with
  | none => exact .none
  | some c => exact .some (.refl c)

theorem Frame.trans (h : Frame w w') (h' : Frame w' w'') : Frame w w'' := by
  refine ⟨h'.pointers.trans h.pointers, h'.turns.trans h.turns, fun i => ?_⟩
  have hi := h.objects i
  have hi' := h'.objects i
  revert hi hi'
  generalize w.objects i = o, w'.objects i = o', w''.objects i = o''
  intro hi hi'
  cases hi with
  | none => exact hi'
  | some hkept =>
    cases hi' with
    | some hkept' => exact .some (hkept.trans hkept')

theorem Frame.of_object (h : Frame w w') (hc : w.objects i = some c) :
    ∃ c', w'.objects i = some c' ∧ c.Kept c' := by
  have hi := h.objects i
  rw [hc] at hi
  generalize w'.objects i = o at hi
  cases hi with
  | some hkept => exact ⟨_, rfl, hkept⟩

theorem Frame.to_object (h : Frame w w') (hc : w'.objects i = some c) :
    ∃ c₀, w.objects i = some c₀ ∧ c₀.Kept c := by
  have hi := h.objects i
  rw [hc] at hi
  generalize w.objects i = o at hi
  cases hi with
  | some hkept => exact ⟨_, rfl, hkept⟩

/-- The object is changed, and what is held of its transceiver. -/
theorem Frame.setObject {c' : Transceiver S V} (hc : w.objects i = some c) (h : c.Kept c')
    (subscriptions : List (Subscription ι)) :
    Frame w { w.setObject i (some c') with subscriptions } := by
  refine ⟨rfl, rfl, fun j => ?_⟩
  show Option.Rel _ (w.objects j) (Function.update w.objects i (some c') j)
  by_cases hj : j = i
  · subst hj
    rw [Function.update_self, hc]
    exact .some h
  · rw [Function.update_of_ne hj]
    exact (Frame.refl w).objects j

theorem held_erase (h : Sound w) (hs : s ∈ w.subscriptions) (key : ℕ × Target × HandlerId) :
    ({ w with subscriptions := w.subscriptions.erase s }).Held key ↔ w.Held key ∧ key ≠ s.key := by
  have hnodup : w.subscriptions.Nodup := h.nodup.of_map _
  have hinj := List.inj_on_of_nodup_map h.nodup
  simp only [Held, List.mem_map, hnodup.mem_erase_iff]
  constructor
  · rintro ⟨s', ⟨hne, hs'⟩, rfl⟩
    exact ⟨⟨s', hs', rfl⟩, fun hkey => hne (hinj hs' hs hkey)⟩
  · rintro ⟨⟨s', hs', rfl⟩, hne⟩
    exact ⟨s', ⟨fun heq => hne (by rw [heq]), hs'⟩, rfl⟩

/-- A change of one object, and of what is held of its transceiver. -/
theorem Sound.setObject (h : Sound w) (hc : w.objects i = some c) (hb : c.this_ = some b)
    {c' : Transceiver S V} (hthis : c'.this_ = c.this_) {subscriptions : List (Subscription ι)}
    (hknown : ∀ s ∈ subscriptions, s.this_ < w.blocks)
    (hnodup : (subscriptions.map Subscription.key).Nodup)
    (htables : c'.Tables fun t id => (b, t, id) ∈ subscriptions.map Subscription.key)
    (hothers : ∀ b' t id, b' ≠ b →
      ((b', t, id) ∈ subscriptions.map Subscription.key ↔ w.Held (b', t, id))) :
    Sound { w.setObject i (some c') with subscriptions } where
  linked b' j := by
    refine (h.linked b' j).trans ?_
    show _ ↔ ∃ d, Function.update w.objects i (some c') j = some d ∧ _
    by_cases hj : j = i
    · subst hj
      rw [Function.update_self, hc]
      simp only [Option.some.injEq, exists_eq_left', hthis]
    · rw [Function.update_of_ne hj]
  made := h.made
  known := hknown
  nodup := hnodup
  tables j d b' hd hb' := by
    change Function.update w.objects i (some c') j = some d at hd
    by_cases hj : j = i
    · subst hj
      rw [Function.update_self] at hd
      cases hd
      rw [hthis, hb] at hb'
      cases hb'
      exact htables
    · rw [Function.update_of_ne hj] at hd
      have hne : b' ≠ b := by
        rintro rfl
        have hi := (h.linked b' i).mpr ⟨c, hc, hb⟩
        have hj' := (h.linked b' j).mpr ⟨d, hd, hb'⟩
        rw [hi] at hj'
        exact hj (Option.some.inj hj').symm
      exact (h.tables j d b' hd hb').congr fun t id => hothers b' t id hne
  failures := h.failures
  invoked := h.invoked

/-! ## Subscriptions -/

/-- **A subscription is made.** -/
theorem Sound.subscribe (h : Sound w) (i : ι) (t : Target) :
    Sound (w.subscribe i t) ∧ Frame w (w.subscribe i t) := by
  rw [Program.subscribe]
  cases hc : w.objects i with
  | none => exact ⟨h, .refl w⟩
  | some c =>
    dsimp only
    cases hb : c.this_ with
    | none => exact ⟨h, .refl w⟩
    | some b =>
      have htables := h.tables i c b hc hb
      refine ⟨h.setObject hc hb Transceiver.this_add ?_ ?_ ((htables.add t).congr fun u id => ?_) ?_,
        Frame.setObject hc (Transceiver.kept_add c t) _⟩
      · refine List.forall_mem_cons.mpr ⟨?_, h.known⟩
        exact h.made b i ((h.linked b i).mpr ⟨c, hc, hb⟩)
      · refine List.nodup_cons.mpr ⟨fun hmem => ?_, h.nodup⟩
        exact htables.counter_notMem rfl ((htables.held t (c.counter t)).mp hmem).1
      · rw [List.map_cons, List.mem_cons, or_comm]
        refine or_congr Iff.rfl ?_
        simp only [Subscription.key, Prod.mk.injEq, true_and]
      · intro b' u id hne
        rw [List.map_cons, List.mem_cons]
        refine or_iff_right ?_
        simp only [Subscription.key, Prod.mk.injEq, hne, false_and, not_false_eq_true]

/-- **A subscription is dropped** at home. -/
theorem Sound.drop (h : Sound w) (hhome : w.Home s) :
    ∃ w', w.drop s = .ok w' ∧ Sound w' ∧ Frame w w' := by
  rw [Program.drop]
  split_ifs with hs
  · have hknown : ∀ s' ∈ w.subscriptions.erase s, s'.this_ < w.blocks :=
      fun s' hs' => h.known s' (List.mem_of_mem_erase hs')
    have hnodup : ((w.subscriptions.erase s).map Subscription.key).Nodup :=
      h.nodup.sublist (List.erase_sublist.map _)
    cases hpointer : w.pointers s.this_ with
    | none =>
      refine ⟨_, rfl, { h with known := hknown, nodup := hnodup, tables := fun i c b hc hb => ?_ },
        { Frame.refl w with }⟩
      refine (h.tables i c b hc hb).congr fun t id => ?_
      rw [held_erase h hs]
      refine and_iff_left fun hkey => ?_
      have hb' : b = s.this_ := congrArg Prod.fst hkey
      rw [hb'] at hb
      rw [(h.linked s.this_ i).mpr ⟨c, hc, hb⟩] at hpointer
      cases hpointer
    | some i =>
      obtain rfl := hhome i hpointer
      obtain ⟨c, hc, hb⟩ := (h.linked _ _).mp hpointer
      have hheld : w.Held (s.this_, s.target, s.id) := List.mem_map_of_mem hs
      obtain ⟨c', hunsubscribe, htables, hkept⟩ := (h.tables _ c _ hc hb).unsubscribe hheld
      rw [hc]
      dsimp only
      rw [hunsubscribe]
      refine ⟨_, rfl, h.setObject hc hb hkept.this_ hknown hnodup (htables.congr fun t id => ?_) ?_,
        Frame.setObject hc hkept _⟩
      · refine (held_erase h hs _).trans (and_congr_right fun _ => not_congr ?_)
        simp only [Subscription.key, Prod.mk.injEq, true_and]
      · intro b t id hne
        refine (held_erase h hs _).trans (and_iff_left fun hkey => hne ?_)
        exact congrArg Prod.fst hkey
  · exact ⟨w, rfl, h, .refl w⟩

/-- The drops among the actions are at home. -/
def AtHome (w : Program S V ι) (actions : List (Action ι)) : Prop :=
  ∀ s, .drop s ∈ actions → w.Home s

/-- **The actions of a handler** keep the invariant. -/
theorem Sound.perform (h : Sound w) (actions : List (Action ι)) (hhome : w.AtHome actions) :
    Sound (w.perform actions) ∧ Frame w (w.perform actions) := by
  induction actions generalizing w with
  | nil => exact ⟨h, .refl w⟩
  | cons a actions ih =>
    obtain ⟨w', hact, hsound, hframe⟩ : ∃ w', w.act a = .ok w' ∧ Sound w' ∧ Frame w w' := by
      cases a with
      | subscribe i t => exact ⟨_, rfl, h.subscribe i t⟩
      | drop s => exact h.drop (hhome s List.mem_cons_self)
    have hhome' : w'.AtHome actions := fun s hs i hi =>
      hhome s (List.mem_cons_of_mem _ hs) i (by rwa [← hframe.pointers])
    obtain ⟨hsound', hframe'⟩ := ih hsound hhome'
    rw [Program.perform, hact]
    exact ⟨hsound', hframe.trans hframe'⟩

/-! ## Loops -/

theorem Sound.modify (h : Sound w) (hc : w.objects i = some c) (hb : c.this_ = some b)
    {f : Transceiver S V → Transceiver S V} (hthis : (f c).this_ = c.this_)
    (htables : (f c).Tables fun t id => w.Held (b, t, id)) : Sound (w.modify i f) := by
  rw [Program.modify, hc]
  exact h.setObject hc hb hthis h.known h.nodup htables fun _ _ _ _ => Iff.rfl

/-- The invariant between the turns of a loop at `i` over the handlers of `t`, which has dealt with the
ids from `bound` on. -/
structure Looping (i : ι) (b : ℕ) (t : Target) (bound : HandlerId) (w : Program S V ι) : Prop
    extends Sound w where
  owner : ∃ c, w.objects i = some c ∧ c.this_ = some b
  current : ∀ j c u, w.objects j = some c → c.current u = none
  /-- The pending removals are those of handlers that the loop has dealt with. -/
  pending : ∀ j c u, w.objects j = some c → ∀ p ∈ c.pending u,
    j = i ∧ u.ofDispatcher = t.ofDispatcher ∧ bound ≤ p ∧ p ∈ c.handlers t

theorem objects_modify {f : Transceiver S V → Transceiver S V} {j : ι} :
    (w.modify i f).objects j = if j = i then (w.objects i).map f else w.objects j := by
  rw [Program.modify, setObject]
  split_ifs with hj
  · subst hj
    exact Function.update_self ..
  · exact Function.update_of_ne hj ..

/-- A turn at a handler whose subscription is not held. -/
theorem Looping.skip {id : HandlerId} (h : Looping i b t (id + 1) w) : Looping i b t id w :=
  { h with
    pending := fun j c u hc p hp => by
      obtain ⟨hj, hu, hle, hmem⟩ := h.pending j c u hc p hp
      exact ⟨hj, hu, Nat.le_of_succ_le hle, hmem⟩ }

theorem Looping.note {bound : HandlerId} (h : Looping i b t bound w) {x : HandlerTurn}
    (hx : x.invoked = x.held) : Looping i b t bound { w with turns := x :: w.turns } :=
  { h with invoked := List.forall_mem_cons.mpr ⟨hx, h.invoked⟩ }

/-- A turn at a handler whose subscription is held. -/
theorem Looping.invoke {id : HandlerId} (h : Looping i b t (id + 1) w) (hc : w.objects i = some c)
    (hid : id ∈ c.handlers t) {actions : List (Action ι)} (hhome : w.AtHome actions) :
    Looping i b t id (((w.modify i (Transceiver.setCurrent · (some id) t)).perform actions).modify i
      (Transceiver.setCurrent · none t)) := by
  obtain ⟨c₀, hc₀, hb⟩ := h.owner
  cases hc.symm.trans hc₀
  have hstart : Sound (w.modify i (Transceiver.setCurrent · (some id) t)) :=
    h.toSound.modify hc hb Transceiver.this_setCurrent ((h.tables i c b hc hb).setCurrent
      fun j hj => by cases hj; exact hid)
  obtain ⟨hsound, hframe⟩ := hstart.perform actions fun s hs j hj => hhome s hs j hj
  generalize (w.modify i (Transceiver.setCurrent · (some id) t)).perform actions = w₁ at hsound hframe
  have hi : (w.modify i (Transceiver.setCurrent · (some id) t)).objects i =
      some (c.setCurrent (some id) t) := by
    rw [objects_modify, if_pos rfl, hc]
    rfl
  obtain ⟨c₁, hc₁, hkept⟩ := hframe.of_object hi
  have hb₁ : c₁.this_ = some b := by rw [hkept.this_, Transceiver.this_setCurrent, hb]
  have hother {j : ι} {d : Transceiver S V} (hj : j ≠ i) (hd : w₁.objects j = some d) :
      ∃ d₀, w.objects j = some d₀ ∧ d₀.Kept d := by
    obtain ⟨d₀, hd₀, hkept⟩ := hframe.to_object hd
    rw [objects_modify, if_neg hj] at hd₀
    exact ⟨d₀, hd₀, hkept⟩
  refine ⟨hsound.modify hc₁ hb₁ Transceiver.this_setCurrent
    ((hsound.tables i c₁ b hc₁ hb₁).setCurrent fun j hj => by cases hj), ?_, fun j d u hd => ?_,
    fun j d u hd p hp => ?_⟩
  · exact ⟨_, by rw [objects_modify, if_pos rfl, hc₁]; rfl, Transceiver.this_setCurrent.trans hb₁⟩
  · rw [objects_modify] at hd
    split_ifs at hd with hj
    · rw [hc₁] at hd
      cases hd
      rw [Transceiver.current_setCurrent, hkept.current, Transceiver.current_setCurrent]
      split_ifs
      · rfl
      · exact h.current i c u hc
    · obtain ⟨d₀, hd₀, hkept₀⟩ := hother hj hd
      rw [hkept₀.current, h.current j d₀ u hd₀]
  · rw [objects_modify] at hd
    split_ifs at hd with hj
    · rw [hc₁] at hd
      cases hd
      rw [Transceiver.pending_setCurrent] at hp
      simp only [Transceiver.handlers_setCurrent]
      -- A pending removal is an older one, or that of the handler that has run.
      obtain hp | hp := hkept.pending u p hp
      · rw [Transceiver.pending_setCurrent] at hp
        obtain ⟨-, hu, hle, hmem⟩ := h.pending i c u hc p hp
        refine ⟨hj, hu, Nat.le_of_succ_le hle, hkept.standing t p ?_ (.inl ?_)⟩
        · rwa [Transceiver.handlers_setCurrent]
        · rwa [Transceiver.pending_setCurrent, ← Transceiver.pending_congr hu]
      · rw [Transceiver.current_setCurrent] at hp
        split_ifs at hp with hu
        · cases hp
          refine ⟨hj, hu, le_rfl, hkept.standing t id ?_ (.inr ?_)⟩
          · rwa [Transceiver.handlers_setCurrent]
          · rw [Transceiver.current_setCurrent, if_pos rfl]
        · rw [h.current i c u hc] at hp
          cases hp
    · obtain ⟨d₀, hd₀, hkept₀⟩ := hother hj hd
      obtain hp | hp := hkept₀.pending u p hp
      · exact absurd (h.pending j d₀ u hd₀ p hp).1 hj
      · rw [h.current j d₀ u hd₀] at hp
        cases hp

/-- **A turn** invokes a handler exactly if its subscription is held. -/
theorem Looping.turn {id : HandlerId} (h : Looping i b t (id + 1) w)
    {actions : HandlerId → List (Action ι)} (hhome : w.AtHome (actions id)) :
    Looping i b t id (w.turn i b t actions id) := by
  obtain ⟨c, hc, hb⟩ := h.owner
  have hheld : w.Held (b, t, id) ↔ id ∈ c.handlers t := by
    refine ((h.tables i c b hc hb).held t id).trans (and_iff_left fun hp => ?_)
    exact absurd (h.pending i c t hc id hp).2.2.1 (Nat.not_succ_le_self id)
  have hinvoked : (∃ c ∈ w.objects i, id ∈ c.handlers t) ↔ id ∈ c.handlers t := by
    rw [hc]
    exact ⟨fun ⟨_, hd, hid⟩ => by cases hd; exact hid, fun hid => ⟨c, rfl, hid⟩⟩
  have hnoted := h.note (x := ⟨(b, t, id), decide (∃ c ∈ w.objects i, id ∈ c.handlers t),
    decide (w.Held (b, t, id))⟩) (by rw [decide_eq_decide, hinvoked, hheld])
  rw [Program.turn]
  split_ifs with hid
  · exact hnoted.invoke hc (hinvoked.mp (of_decide_eq_true hid)) hhome
  · exact hnoted.skip

theorem pointers_act {a : Action ι} (h : w.act a = .ok w') : w'.pointers = w.pointers := by
  cases a with
  | subscribe i t =>
    cases h
    rw [Program.subscribe]
    split
    · split <;> rfl
    · rfl
  | drop s =>
    rw [act, Program.drop] at h
    split_ifs at h
    · split at h
      · cases h; rfl
      · split at h
        · cases h
        · split at h <;> cases h
          rfl
    · cases h; rfl

theorem pointers_perform (w : Program S V ι) (actions : List (Action ι)) :
    (w.perform actions).pointers = w.pointers := by
  induction actions generalizing w with
  | nil => rfl
  | cons a actions ih =>
    rw [Program.perform]
    cases hact : w.act a with
    | error e => rfl
    | ok w' => exact (ih w').trans (pointers_act hact)

theorem pointers_turn {actions : HandlerId → List (Action ι)} {id : HandlerId} :
    (w.turn i b t actions id).pointers = w.pointers := by
  rw [Program.turn]
  split_ifs
  · exact pointers_perform _ _
  · rfl

/-- **A loop** ends with the invariant. -/
theorem Looping.loop {actions : HandlerId → List (Action ι)} {bound : HandlerId}
    (h : Looping i b t bound w) (hhome : ∀ id, w.AtHome (actions id)) :
    Sound (loop i b t actions bound w) ∧ Idle (loop i b t actions bound w) := by
  induction bound generalizing w with
  | zero =>
    obtain ⟨c, hc, hb⟩ := h.owner
    have hcurrent := h.current i c t hc
    refine ⟨h.toSound.modify hc hb Transceiver.this_flush ((h.tables i c b hc hb).flush hcurrent
      fun p hp => (h.pending i c t hc p hp).2.2.2), fun j d u hd => ?_⟩
    rw [loop, objects_modify] at hd
    split_ifs at hd with hj
    · rw [hc] at hd
      cases hd
      refine ⟨Transceiver.current_flush.trans (h.current i c u hc), ?_⟩
      rw [Transceiver.pending_flush]
      split_ifs with hu
      · rfl
      · exact List.eq_nil_iff_forall_not_mem.mpr fun p hp => hu (h.pending i c u hc p hp).2.1
    · exact ⟨h.current j d u hd,
        List.eq_nil_iff_forall_not_mem.mpr fun p hp => hj (h.pending j d u hd p hp).1⟩
  | succ id ih =>
    refine ih (h.turn (hhome id)) fun id' s hs k hk => hhome id' s hs k ?_
    rwa [pointers_turn] at hk

/-! ## Objects -/

theorem objects_setObject {o : Option (Transceiver S V)} {j : ι} :
    (w.setObject i o).objects j = if j = i then o else w.objects j := Function.update_apply ..

theorem pointers_setPointer {o : Option ι} {b' : ℕ} :
    (w.setPointer b o).pointers b' = if b' = b then o else w.pointers b' := Function.update_apply ..

theorem objects_move {j k : ι} : (w.move i j c b).objects k =
    if k = i then some c.movedFrom else if k = j then some c else w.objects k := by
  show ((w.setObject j (some c)).setObject i (some c.movedFrom)).objects k = _
  rw [objects_setObject, objects_setObject]

theorem pointers_move {j : ι} {b' : ℕ} : (w.move i j c b).pointers b' =
    if b' = b then some j else w.pointers b' := by
  rw [move, pointers_setPointer]
  rfl

/-- **A move** hands the tables on. -/
theorem Sound.move {j : ι} (h : Sound w) (hc : w.objects i = some c) (hb : c.this_ = some b)
    (hj : w.objects j = none) : Sound (w.move i j c b) := by
  have hji : j ≠ i := by
    rintro rfl
    rw [hj] at hc
    cases hc
  have howner := (h.linked b i).mpr ⟨c, hc, hb⟩
  refine { h with linked := fun b' k => ?_, made := fun b' k hk => ?_, tables := fun k d b' hd hb' => ?_ }
  · rw [pointers_move, objects_move]
    by_cases hki : k = i
    · subst hki
      rw [if_pos rfl]
      refine iff_of_false (fun hk => ?_) (by rintro ⟨_, ⟨⟩, ⟨⟩⟩)
      split_ifs at hk with hb'
      · exact hji (Option.some.inj hk)
      · obtain ⟨d, hd, hdb⟩ := (h.linked b' k).mp hk
        cases hc.symm.trans hd
        exact hb' (Option.some.inj (hdb.symm.trans hb))
    · rw [if_neg hki]
      by_cases hkj : k = j
      · subst hkj
        rw [if_pos rfl]
        split_ifs with hb'
        · exact iff_of_true rfl ⟨c, rfl, by rw [hb, hb']⟩
        · refine iff_of_false (fun hk => ?_) ?_
          · obtain ⟨d, hd, -⟩ := (h.linked b' k).mp hk
            rw [hj] at hd
            cases hd
          · rintro ⟨_, ⟨⟩, hcb⟩
            exact hb' (Option.some.inj (hcb.symm.trans hb))
      · rw [if_neg hkj]
        split_ifs with hb'
        · subst hb'
          refine iff_of_false (fun hk => hkj (Option.some.inj hk).symm) fun hk => hki ?_
          exact Option.some.inj (((h.linked b' k).mpr hk).symm.trans howner)
        · exact h.linked b' k
  · rw [pointers_move] at hk
    split_ifs at hk with hb'
    · rw [hb']
      exact h.made b i howner
    · exact h.made b' k hk
  · rw [objects_move] at hd
    split_ifs at hd with hki hkj
    · cases hd
      cases hb'
    · cases hd
      exact h.tables i c b' hc hb'
    · exact h.tables k d b' hd hb'

theorem Idle.move {j : ι} (h : Idle w) (hc : w.objects i = some c) : Idle (w.move i j c b) := by
  intro k d u hd
  rw [objects_move] at hd
  split_ifs at hd
  · cases hd
    cases u
    · exact ⟨(h i c (.handler .event "") hc).1, rfl⟩
    · exact ⟨(h i c .newType hc).1, rfl⟩
  · cases hd
    exact h i c u hc
  · exact h k d u hd

theorem objects_release : (w.release c).objects = w.objects := by
  rw [release]
  split <;> rfl

theorem pointers_release {b' : ℕ} :
    (w.release c).pointers b' = if c.this_ = some b' then none else w.pointers b' := by
  rw [release]
  cases c.this_ with
  | none => rfl
  | some b =>
    dsimp only
    rw [pointers_setPointer]
    simp only [Option.some.injEq]
    exact if_congr eq_comm rfl rfl

theorem objects_destroy {k : ι} :
    ((w.release c).setObject i none).objects k = if k = i then none else w.objects k := by
  rw [objects_setObject, objects_release]

theorem pointers_destroy {b' : ℕ} : ((w.release c).setObject i none).pointers b' =
    if c.this_ = some b' then none else w.pointers b' := pointers_release

theorem move_setObject {j : ι} :
    (w.setObject j none).move i j c b = w.move i j c b := by
  have hset : (w.setObject j none).setObject j (some c) = w.setObject j (some c) := by
    simp only [setObject, Function.update_idem]
  rw [move, move, hset]

/-- **An object is destroyed**, and the pointer to its transceiver expires. -/
theorem Sound.destroy (h : Sound w) (hc : w.objects i = some c) :
    Sound ((w.release c).setObject i none) := by
  have hrest : (w.release c).blocks = w.blocks ∧ (w.release c).subscriptions = w.subscriptions ∧
      (w.release c).turns = w.turns ∧ (w.release c).failures = w.failures := by
    rw [release]
    split <;> exact ⟨rfl, rfl, rfl, rfl⟩
  obtain ⟨hblocks, hsubscriptions, hturns, hfailures⟩ := hrest
  refine ⟨fun b' k => ?_, fun b' k hk => ?_, ?_, ?_, fun k d b' hd hb' => ?_, hfailures.trans h.failures, ?_⟩
  · rw [pointers_destroy, objects_destroy]
    by_cases hk : k = i
    · subst hk
      rw [if_pos rfl]
      refine iff_of_false (fun hk => ?_) (by rintro ⟨_, ⟨⟩, -⟩)
      split_ifs at hk with hb'
      obtain ⟨d, hd, hdb⟩ := (h.linked b' k).mp hk
      cases hc.symm.trans hd
      exact hb' hdb
    · rw [if_neg hk]
      split_ifs with hb'
      · refine iff_of_false nofun fun hd => hk ?_
        have howner := (h.linked b' i).mpr ⟨c, hc, hb'⟩
        exact Option.some.inj (((h.linked b' k).mpr hd).symm.trans howner)
      · exact h.linked b' k
  · rw [pointers_destroy] at hk
    split_ifs at hk
    exact (h.made b' k hk).trans_eq hblocks.symm
  · show ∀ s ∈ (w.release c).subscriptions, s.this_ < (w.release c).blocks
    rw [hsubscriptions, hblocks]
    exact h.known
  · show ((w.release c).subscriptions.map _).Nodup
    rw [hsubscriptions]
    exact h.nodup
  · rw [objects_destroy] at hd
    split_ifs at hd
    refine (h.tables k d b' hd hb').congr fun t id => ?_
    show _ ∈ (w.release c).subscriptions.map _ ↔ _
    rw [hsubscriptions]
    exact Iff.rfl
  · show ∀ x ∈ (w.release c).turns, x.invoked = x.held
    rw [hturns]
    exact h.invoked

theorem Idle.destroy (h : Idle w) : Idle ((w.release c).setObject i none) := by
  intro k d u hd
  rw [objects_destroy] at hd
  split_ifs at hd
  exact h k d u hd

theorem tables_new (b : ℕ) {H : Target → HandlerId → Prop} (hH : ∀ t id, ¬H t id) :
    ({ this_ := some b } : Transceiver S V).Tables H := by
  have hhandlers (t : Target) : ({ this_ := some b } : Transceiver S V).handlers t = [] := by
    cases t <;> rfl
  have hpending (t : Target) : ({ this_ := some b } : Transceiver S V).pending t = [] := by
    cases t <;> rfl
  have hcurrent (t : Target) : ({ this_ := some b } : Transceiver S V).current t = none := by
    cases t <;> rfl
  refine ⟨fun t => ?_, fun t id hid => ?_, fun t u id _ hid => ?_, fun t id => ?_, fun t id hid => ?_,
    fun t id hid => ?_⟩
  · rw [hhandlers]
    exact List.Pairwise.nil
  · rw [hhandlers] at hid
    cases hid
  · rw [hhandlers] at hid
    cases hid
  · rw [hhandlers]
    exact iff_of_false (hH t id) fun h => List.not_mem_nil h.1
  · rw [hcurrent] at hid
    cases hid
  · rw [hpending] at hid
    cases hid

/-- **A transceiver is constructed.** -/
theorem Sound.construct (h : Sound w) (hi : w.objects i = none) :
    Sound { (w.setObject i (some { this_ := some w.blocks })).setPointer w.blocks (some i) with
      blocks := w.blocks + 1 } := by
  have hnone : w.pointers w.blocks = none :=
    Option.eq_none_iff_forall_ne_some.mpr fun j hj => lt_irrefl _ (h.made _ j hj)
  refine { h with
    linked := fun b' k => ?_, made := fun b' k hk => ?_
    known := fun s hs => (h.known s hs).trans (Nat.lt_succ_self _)
    tables := fun k d b' hd hb' => ?_ }
  · show ((w.setObject i _).setPointer w.blocks (some i)).pointers b' = some k ↔
      ∃ d, (w.setObject i _).objects k = some d ∧ _
    rw [pointers_setPointer, objects_setObject]
    by_cases hk : k = i
    · subst hk
      rw [if_pos rfl]
      split_ifs with hb'
      · exact iff_of_true rfl ⟨_, rfl, by rw [hb']⟩
      · refine iff_of_false (fun hk => ?_) ?_
        · obtain ⟨d, hd, -⟩ := (h.linked b' k).mp hk
          rw [hi] at hd
          cases hd
        · rintro ⟨_, ⟨⟩, ⟨⟩⟩
          exact hb' rfl
    · rw [if_neg hk]
      split_ifs with hb'
      · subst hb'
        refine iff_of_false (fun hk' => hk (Option.some.inj hk').symm) fun hd => ?_
        rw [(h.linked _ k).mpr hd] at hnone
        cases hnone
      · exact h.linked b' k
  · change ((w.setObject i _).setPointer w.blocks (some i)).pointers b' = some k at hk
    rw [pointers_setPointer] at hk
    split_ifs at hk with hb'
    · rw [hb']
      exact Nat.lt_succ_self _
    · exact (h.made b' k hk).trans (Nat.lt_succ_self _)
  · change (w.setObject i _).objects k = some d at hd
    rw [objects_setObject] at hd
    split_ifs at hd
    · cases hd
      cases hb'
      refine tables_new _ fun t id hheld => ?_
      obtain ⟨s, hs, hkey⟩ := List.mem_map.mp hheld
      have hlt := h.known s hs
      rw [show s.this_ = w.blocks from congrArg Prod.fst hkey] at hlt
      exact lt_irrefl _ hlt
    · exact h.tables k d b' hd hb'

theorem Idle.construct (h : Idle w) :
    Idle { (w.setObject i (some { this_ := some w.blocks })).setPointer w.blocks (some i) with
      blocks := w.blocks + 1 } := by
  intro k d u hd
  change (w.setObject i _).objects k = some d at hd
  rw [objects_setObject] at hd
  split_ifs at hd
  · cases hd
    cases u <;> exact ⟨rfl, rfl⟩
  · exact h k d u hd

theorem Idle.frame (h : Idle w) (hframe : Frame w w') : Idle w' := by
  intro j d u hd
  obtain ⟨d₀, hd₀, hkept⟩ := hframe.to_object hd
  obtain ⟨hcurrent, hpending⟩ := h j d₀ u hd₀
  refine ⟨(hkept.current u).trans hcurrent, List.eq_nil_iff_forall_not_mem.mpr fun p hp => ?_⟩
  obtain hp | hp := hkept.pending u p hp
  · rw [hpending] at hp
    cases hp
  · rw [hcurrent] at hp
    cases hp

/-! ## Runs -/

/-- **One step.** -/
theorem sound_step {l : Label ι} (h : Sound w) (hidle : Idle w) (hl : w.Settled l)
    (hstep : w.step l = some w') : Sound w' ∧ Idle w' := by
  cases l with
  | construct i =>
    rw [step] at hstep
    cases hi : w.objects i with
    | none =>
      rw [hi] at hstep
      cases hstep
      exact ⟨h.construct hi, hidle.construct⟩
    | some c =>
      rw [hi] at hstep
      cases hstep
  | moveConstruct i j =>
    rw [step] at hstep
    split at hstep
    · next c hc hj =>
      obtain ⟨b, hb, rfl⟩ := Option.map_eq_some_iff.mp hstep
      exact ⟨h.move hc hb hj, hidle.move hc⟩
    · cases hstep
  | moveAssign i j =>
    rw [step] at hstep
    split at hstep
    · next c c' hc hc' =>
      split_ifs at hstep with hij
      obtain ⟨b, hb, rfl⟩ := Option.map_eq_some_iff.mp hstep
      -- The transceiver that was at `j` is gone before the other one arrives.
      rw [← move_setObject]
      have hi : ((w.release c').setObject j none).objects i = some c := by
        rw [objects_destroy, if_neg hij, hc]
      have hj : ((w.release c').setObject j none).objects j = none := by
        rw [objects_destroy, if_pos rfl]
      exact ⟨(h.destroy hc').move hi hb hj, hidle.destroy.move hi⟩
    · cases hstep
  | destroy i =>
    obtain ⟨c, hc, rfl⟩ := Option.map_eq_some_iff.mp hstep
    exact ⟨h.destroy hc, hidle.destroy⟩
  | subscribe i t =>
    cases hstep
    exact ⟨(h.subscribe i t).1, hidle.frame (h.subscribe i t).2⟩
  | drop s =>
    obtain ⟨w₁, hdrop, hsound, hframe⟩ := h.drop hl
    rw [step, hdrop] at hstep
    cases hstep
    exact ⟨hsound, hidle.frame hframe⟩
  | dispatch i t actions =>
    rw [step] at hstep
    split at hstep
    · next c hc =>
      obtain ⟨b, hb, rfl⟩ := Option.map_eq_some_iff.mp hstep
      have hlooping : Looping i b t (c.counter t) w :=
        { h with
          owner := ⟨c, hc, hb⟩
          current := fun j d u hd => (hidle j d u hd).1
          pending := fun j d u hd p hp => by
            rw [(hidle j d u hd).2] at hp
            cases hp }
      exact hlooping.loop fun id s hs => hl id s hs
    · cases hstep

theorem Sound.survives (h : Sound w) (hidle : Idle w) : w.Survives where
  failures := h.failures
  tables b i c hb hc t id := by
    obtain ⟨d, hd, hdb⟩ := (h.linked b i).mp hb
    cases hc.symm.trans hd
    rw [(h.tables i c b hc hdb).held, (hidle i c t hc).2]
    exact ⟨fun hid => ⟨hid, List.not_mem_nil⟩, fun hid => hid.1⟩
  invoked := h.invoked

theorem sound_initial : Sound ({} : Program S V ι) where
  linked _ _ := iff_of_false nofun (by rintro ⟨_, ⟨⟩, -⟩)
  made _ _ := nofun
  known _ := nofun
  nodup := List.nodup_nil
  tables _ _ _ := nofun
  failures := rfl
  invoked _ := nofun

/-- **Subscriptions survive** the moves of their transceiver, in runs in which each of them is dropped
while its transceiver is where it was made, or after it has been destroyed. -/
theorem run_survives (ls : List (Label ι))
    (r : Run (Guarded (ofPartial (fun w : Program S V ι => w.step)) Settled) {} ls w) : w.Survives := by
  have hinv : Sound w ∧ Idle w := r.invariant (I := fun w => Sound w ∧ Idle w)
    (fun _ _ _ h hstep => sound_step h.1 h.2 hstep.2 hstep.1) ⟨sound_initial, fun _ _ _ => nofun⟩
  exact hinv.1.survives hinv.2

/-- **Away from home**, a drop does not remove the handler from the transceiver. -/
theorem mem_handlers_of_away (h : Sound w) (hs : s ∈ w.subscriptions) (hi : w.pointers s.this_ = some i)
    (haway : i ≠ s.transceiver) (hstep : w.step (.drop s) = some w') :
    ∃ c, w'.objects i = some c ∧ s.id ∈ c.handlers s.target := by
  obtain ⟨c, hc, hb⟩ := (h.linked _ i).mp hi
  have hheld : w.Held (s.this_, s.target, s.id) := List.mem_map_of_mem hs
  refine ⟨c, ?_, (((h.tables i c _ hc hb).held _ _).mp hheld).1⟩
  have hsame (c' : Transceiver S V) : (w.setObject s.transceiver (some c')).objects i = some c := by
    rw [objects_setObject, if_neg haway, hc]
  rw [step, Program.drop, if_pos hs, hi] at hstep
  cases hc₀ : w.objects s.transceiver with
  | none =>
    rw [hc₀] at hstep
    cases hstep
    exact hc
  | some c₀ =>
    rw [hc₀] at hstep
    dsimp only at hstep
    cases hunsubscribe : c₀.unsubscribe s.id s.target with
    | error what =>
      rw [hunsubscribe] at hstep
      cases hstep
      exact hc
    | ok c' =>
      rw [hunsubscribe] at hstep
      cases hstep
      exact hsame c'

/-- A transceiver with a subscription to events and one to new types moves from `false` to `true`. -/
def moved : List (Label Bool) :=
  [.construct false, .subscribe false (.handler .event "DotsTestStruct"), .subscribe false .newType,
    .moveConstruct false true, .dispatch true .newType fun _ => []]

/-- It moves back, and the handler of events drops both subscriptions while it runs. -/
def movedBack : List (Label Bool) :=
  moved ++ [.moveAssign true false, .dispatch false (.handler .event "DotsTestStruct") fun _ =>
    [.drop ⟨false, 0, .newType, 0⟩, .drop ⟨false, 0, .handler .event "DotsTestStruct", 0⟩]]

theorem run_survives_movedBack : ∃ w : Program testSchema ℕ Bool,
    Lts.exec (fun w => w.step) {} movedBack = some w ∧ w.subscriptions = [] ∧ w.Survives := by
  refine ⟨_, rfl, by decide, run_survives movedBack ?_⟩
  refine .cons ⟨rfl, trivial⟩ (.cons ⟨rfl, trivial⟩ (.cons ⟨rfl, trivial⟩ (.cons ⟨rfl, trivial⟩
    (.cons ⟨rfl, fun _ _ => nofun⟩ (.cons ⟨rfl, trivial⟩ (.cons ⟨rfl, fun id s hs i hi => ?_⟩ (.nil _)))))))
  obtain rfl : false = i := by
    rcases hs with _ | ⟨_, _ | ⟨_, ⟨⟩⟩⟩ <;> exact Option.some.inj hi
  rcases hs with _ | ⟨_, _ | ⟨_, ⟨⟩⟩⟩ <;> rfl

/-- The subscriptions are dropped behind the move: the lambdas find empty tables in the object that
has been moved. -/
theorem not_run_survives : ¬∀ (ls : List (Label Bool)) (w : Program testSchema ℕ Bool),
    Run (ofPartial fun w : Program testSchema ℕ Bool => w.step) {} ls w → w.Survives := by
  intro h
  have hexec : (Lts.exec (fun w : Program testSchema ℕ Bool => w.step) {}
      (moved ++ [.drop ⟨false, 0, .newType, 0⟩, .drop ⟨false, 0, .handler .event "DotsTestStruct", 0⟩])).map
      (fun w => w.failures) = some [.logicError "cannot remove unknown handler for type: DotsTestStruct"] := by
    decide
  obtain ⟨w, hw, hfailures⟩ := Option.map_eq_some_iff.mp hexec
  rw [(h _ w (run_of_exec hw)).failures] at hfailures
  cases hfailures

end Program

end Dots

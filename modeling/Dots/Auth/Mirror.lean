import Dots.Auth.Model
import Dots.Lib.Run

/-!
# The manager and the cache

A host with a `LegacyAuthManager`, which follows the events of the two types.

* `AuthHost`, `AuthHost.step`: a dispatch, and the construction of the manager at any time.
* `Mirrors`: the rules are the cached instances, in the order of their priorities.
* `PolicyMirrors`: the default policy is that of a cached instance.
* **`rules_mirror`**, **`policy_mirrors`**: when the two hold in every state.
-/

set_option autoImplicit false
set_option linter.unusedSectionVars false

namespace Dots

variable {A : AuthSchema} {V : Type} [AuthValue V] [DecidableEq V]
variable [Ord V] [Std.TransOrd V] [Std.LawfulEqOrd V]

/-! ## The host -/

namespace LegacyAuthManager

variable (m : LegacyAuthManager A V)

/-- The event handlers of the two subscriptions. -/
def handleEvent (e : Event A.toSchema V) : LegacyAuthManager A V :=
  match e.updated with
  | .struct "DotsAuthentication" x => m.handleDotsAuthentication e.mt x
  | .struct "DotsAuthenticationPolicy" x => m.handleDotsAuthenticationPolicy e.mt x
  | _ => m

/-- The constructor, in memory that holds `raw`. The subscriptions are initialised first, and
`addEventHandler` replays the cache to them; then `m_rules` and `m_defaultAcceptPolicy` are. -/
def construct (raw : LegacyAuthManager A V) (pool : ContainerPool A.toSchema V) :
    LegacyAuthManager A V :=
  let m := (pool "DotsAuthentication").clones.foldl
    (fun m e => m.handleDotsAuthentication .create e.1) raw
  let m := (pool "DotsAuthenticationPolicy").clones.foldl
    (fun m e => m.handleDotsAuthenticationPolicy .create e.1) m
  { m with rules := [], defaultAcceptPolicy := none }

end LegacyAuthManager

variable (A V) in
structure AuthHost where
  pool : ContainerPool A.toSchema V := .empty
  manager : Option (LegacyAuthManager A V) := none

namespace AuthHost

variable (A V) in
inductive Action
  | dispatch (t : Transmission A.toSchema V) (now : Timepoint)
  | construct (raw : LegacyAuthManager A V)

/-- A dispatch updates the container before the manager learns of it. -/
def step (s : AuthHost A V) : Action A V → AuthHost A V
  | .dispatch t now =>
    let r := s.pool.dispatchEvent t now
    { pool := r.1
      manager := s.manager.map fun m =>
        match r.2 with
        | .event e => m.handleEvent e
        | _ => m }
  | .construct raw => { s with manager := some (.construct raw s.pool) }

/-- The instances that are cached. -/
abbrev authentications (s : AuthHost A V) := s.pool "DotsAuthentication"

abbrev policies (s : AuthHost A V) := s.pool "DotsAuthenticationPolicy"

end AuthHost

/-! ## What a dispatch does -/

namespace Container

variable {d : StructDescriptor}

/-- What a dispatch of `x` does to a container: the operation and the instance of its event. -/
def change (c : Container V d) (h : DotsHeader) (x : Struct V d) : Option (DotsMt × Struct V d) :=
  if h.removeObj = some true then
    (c.lookup x.key).map fun e => (.remove, e.1.updateWithoutKeys x h.attributes)
  else
    match c.lookup x.key with
    | none => some (.create, x)
    | some e => some (.update, e.1.updateWithoutKeys x h.attributes)

/-- A change, as it shows under its key. -/
inductive Changes (c c' : Container V d) (k : List (Option V)) :
    Option (DotsMt × Struct V d) → Prop
  | none (h : c'.lookup k = c.lookup k) : Changes c c' k none
  | create (y : Struct V d) (i : DotsCloneInformation) (hk : y.key = k) (h : c.lookup k = .none)
      (h' : c'.lookup k = some (y, i)) : Changes c c' k (some (.create, y))
  | update (e : Clone V d) (y : Struct V d) (i : DotsCloneInformation) (hk : y.key = k)
      (h : c.lookup k = some e) (h' : c'.lookup k = some (y, i)) :
      Changes c c' k (some (.update, y))
  | remove (e : Clone V d) (y : Struct V d) (hk : y.key = k) (h : c.lookup k = some e)
      (h' : c'.lookup k = .none) : Changes c c' k (some (.remove, y))

theorem changes_apply (c : Container V d) (h : DotsHeader) (x : Struct V d) (τ : Timepoint) :
    Changes c (ContainerPool.apply c h x τ) x.key (c.change h x) := by
  have hself : (ContainerPool.apply c h x τ).lookup x.key = _ := ContainerPool.lookup_apply_self
  unfold change
  split_ifs at hself ⊢ with hr
  · cases he : c.lookup x.key with
    | none => exact .none (hself.trans he.symm)
    | some e =>
      exact .remove e _ ((Struct.key_updateWithoutKeys ..).trans (c.key_of_lookup he)) he hself
  · cases he : c.lookup x.key with
    | none =>
      rw [he] at hself
      exact .create x _ rfl he hself
    | some e =>
      rw [he] at hself
      exact .update e _ _ ((Struct.key_updateWithoutKeys ..).trans (c.key_of_lookup he)) he hself

/-- An instance is cached. -/
def Caches (c : Container V d) (x : Struct V d) : Prop := ∃ i, c.lookup x.key = some (x, i)

theorem caches_iff {c : Container V d} {x : Struct V d} :
    c.Caches x ↔ x ∈ c.clones.map Prod.fst := by
  simp only [Caches, List.mem_map, mem_clones, Prod.exists]
  constructor
  · rintro ⟨i, h⟩
    exact ⟨x, i, h, rfl⟩
  · rintro ⟨y, i, h, rfl⟩
    exact ⟨i, h⟩

/-- A list is the cached instances exactly if it has them, each under its own key. -/
theorem perm_clones_iff {c : Container V d} {xs : List (Struct V d)} :
    xs.Perm (c.clones.map Prod.fst) ↔ (xs.map Struct.key).Nodup ∧ ∀ x, x ∈ xs ↔ c.Caches x := by
  have hkeys : ((c.clones.map Prod.fst).map Struct.key).Nodup := by
    rw [List.map_map]
    exact c.clones_keys_nodup
  constructor
  · intro h
    refine ⟨(h.map Struct.key).nodup_iff.mpr hkeys, fun x => ?_⟩
    rw [h.mem_iff, caches_iff]
  · rintro ⟨hn, hm⟩
    refine (List.perm_ext_iff_of_nodup (hn.of_map _) (hkeys.of_map _)).mpr fun x => ?_
    rw [hm, caches_iff]

end Container

/-- **A dispatch of a cached type**: the event, if there is one, is the change. -/
theorem ContainerPool.dispatchEvent_change {S : Schema} (pool : ContainerPool S V)
    {t : Transmission S V} (τ : Timepoint) {n : String} {x : Struct V (S.descriptor n)}
    (ht : t.instance_ = .struct n x) (hc : (S.descriptor n).cached = true) :
    match (pool n).change t.header x with
    | none => (pool.dispatchEvent t τ).2 = .none
    | some (mt, y) => ∃ info, (pool.dispatchEvent t τ).2 =
        .event { header := t.header, transmitted := t.instance_, updated := .struct n y
                 cloneInfo := info, mt } := by
  rw [dispatchEvent_struct ht hc]
  unfold Container.change
  by_cases hr : t.header.removeObj = some true
  · rw [if_pos hr]
    cases he : (pool n).lookup x.key with
    | none => exact congrArg Prod.snd (cachedEvent_remove_none hr he)
    | some e =>
      rw [cachedEvent_remove_some hr he]
      exact ⟨_, rfl⟩
  · rw [if_neg hr, cachedEvent_insert hr, Container.insert_snd]
    cases he : (pool n).lookup x.key with
    | none => exact ⟨_, rfl⟩
    | some e => exact ⟨_, rfl⟩

/-- An event is about an instance of the type of its transmission. -/
theorem ContainerPool.dispatchEvent_typeName {S : Schema} {pool : ContainerPool S V}
    {t : Transmission S V} {τ : Timepoint} {e : Event S V}
    (h : (pool.dispatchEvent t τ).2 = .event e) : e.updated.typeName = t.instance_.typeName := by
  cases hc : t.instance_.cached with
  | false =>
    rw [dispatchEvent_of_not_cached hc] at h
    simp only [uncachedEvent] at h
    split_ifs at h
    obtain rfl := EventResult.event.inj h
    rfl
  | true =>
    obtain ⟨n, x, ht, hn⟩ := exists_struct_of_cached hc
    have hd := dispatchEvent_change pool τ ht hn
    cases hch : (pool n).change t.header x with
    | none =>
      simp only [hch] at hd
      rw [hd] at h
      cases h
    | some p =>
      simp only [hch] at hd
      obtain ⟨info, hd⟩ := hd
      rw [hd] at h
      obtain rfl := EventResult.event.inj h
      rw [ht]
      rfl

namespace AuthHost

variable {s : AuthHost A V} {t : Transmission A.toSchema V} {τ : Timepoint}

theorem step_authentication {x : DotsAuthentication A V}
    (ht : t.instance_ = .struct "DotsAuthentication" x) :
    (s.step (.dispatch t τ)).manager = s.manager.map fun m =>
      match s.authentications.change t.header x with
      | none => m
      | some (mt, y) => m.handleDotsAuthentication mt y := by
  have hc : (A.descriptor "DotsAuthentication").cached = true := by rw [A.authentication]; rfl
  have hd := ContainerPool.dispatchEvent_change s.pool τ ht hc
  simp only [step]
  cases hch : s.authentications.change t.header x with
  | none =>
    simp only [hch] at hd
    rw [hd]
  | some p =>
    simp only [hch] at hd
    obtain ⟨info, hd⟩ := hd
    rw [hd]
    rfl

theorem step_policy {x : DotsAuthenticationPolicy A V}
    (ht : t.instance_ = .struct "DotsAuthenticationPolicy" x) :
    (s.step (.dispatch t τ)).manager = s.manager.map fun m =>
      match s.policies.change t.header x with
      | none => m
      | some (mt, y) => m.handleDotsAuthenticationPolicy mt y := by
  have hc : (A.descriptor "DotsAuthenticationPolicy").cached = true := by rw [A.policy]; rfl
  have hd := ContainerPool.dispatchEvent_change s.pool τ ht hc
  simp only [step]
  cases hch : s.policies.change t.header x with
  | none =>
    simp only [hch] at hd
    rw [hd]
  | some p =>
    simp only [hch] at hd
    obtain ⟨info, hd⟩ := hd
    rw [hd]
    rfl

/-- A dispatch of another type than `DotsAuthentication` leaves the rules alone. -/
theorem step_rules_of_ne (h : t.instance_.typeName ≠ "DotsAuthentication") :
    (s.step (.dispatch t τ)).manager.map LegacyAuthManager.rules =
      s.manager.map LegacyAuthManager.rules := by
  simp only [step, Option.map_map]
  congr 1
  funext m
  cases hr : (s.pool.dispatchEvent t τ).2 with
  | event e =>
    have hn := ContainerPool.dispatchEvent_typeName hr
    simp only [Function.comp_apply, LegacyAuthManager.handleEvent]
    split
    · rename_i x hu
      rw [hu] at hn
      exact absurd hn.symm h
    · simp only [LegacyAuthManager.handleDotsAuthenticationPolicy]
      split_ifs
      · rfl
      · split <;> rfl
    · rfl
  | none => rfl
  | threw what => rfl

/-- A dispatch of another type than `DotsAuthenticationPolicy` leaves the policy alone. -/
theorem step_policy_of_ne (h : t.instance_.typeName ≠ "DotsAuthenticationPolicy") :
    (s.step (.dispatch t τ)).manager.map LegacyAuthManager.defaultAcceptPolicy =
      s.manager.map LegacyAuthManager.defaultAcceptPolicy := by
  simp only [step, Option.map_map]
  congr 1
  funext m
  cases hr : (s.pool.dispatchEvent t τ).2 with
  | event e =>
    have hn := ContainerPool.dispatchEvent_typeName hr
    simp only [Function.comp_apply, LegacyAuthManager.handleEvent]
    split
    · simp only [LegacyAuthManager.handleDotsAuthentication]
      split <;> rfl
    · rename_i x hu
      rw [hu] at hn
      exact absurd hn.symm h
    · rfl
  | none => rfl
  | threw what => rfl

end AuthHost

/-! ## The rules -/

namespace LegacyAuthManager

theorem emplace_perm (k : ℕ) (rule : DotsAuthentication A V)
    (rules : List (ℕ × DotsAuthentication A V)) :
    (emplace k rule rules).Perm ((k, rule) :: rules) := by
  induction rules with
  | nil => exact .refl _
  | cons e rules ih =>
    unfold emplace
    split_ifs
    · exact .refl _
    · exact (ih.cons e).trans (.swap _ _ _)

theorem emplace_sorted (k : ℕ) (rule : DotsAuthentication A V)
    {rules : List (ℕ × DotsAuthentication A V)} (h : rules.Pairwise fun a b => a.1 ≤ b.1) :
    (emplace k rule rules).Pairwise fun a b => a.1 ≤ b.1 := by
  induction rules with
  | nil => exact List.pairwise_singleton _ _
  | cons e rules ih =>
    unfold emplace
    obtain ⟨he, hrules⟩ := List.pairwise_cons.mp h
    split_ifs with hk
    · refine List.pairwise_cons.mpr ⟨fun a ha => ?_, h⟩
      rcases List.mem_cons.mp ha with rfl | ha
      · exact hk.le
      · exact hk.le.trans (he a ha)
    · refine List.pairwise_cons.mpr ⟨fun a ha => ?_, ih hrules⟩
      rcases List.mem_cons.mp ((emplace_perm k rule rules).mem_iff.mp ha) with rfl | ha
      · exact Nat.le_of_not_lt hk
      · exact he a ha

theorem copy_univ {d : StructDescriptor} (x y : Struct V d) : x.copy y Finset.univ = y := by
  ext1
  funext t
  simp only [Struct.copy, Finset.inter_univ, Finset.mem_union]
  split_ifs with h
  · rfl
  · obtain ⟨hx, hy⟩ := not_or.mp h
    rw [Struct.value_eq_none_iff.mpr hx, Struct.value_eq_none_iff.mpr hy]

/-- With distinct keys, `_copy` replaces the rule of the same key. -/
theorem copyRule_eq_map (y : DotsAuthentication A V) {rules : List (ℕ × DotsAuthentication A V)}
    (h : (rules.map fun e => e.2.key).Nodup) :
    copyRule y rules = rules.map fun e => if e.2.key = y.key then (e.1, y) else e := by
  induction rules with
  | nil => rfl
  | cons e rules ih =>
    obtain ⟨he, hrules⟩ := List.nodup_cons.mp h
    rw [copyRule, List.map_cons]
    split_ifs with hk
    · rw [copy_univ]
      congr 1
      refine (List.map_id'' (fun a => rfl) rules).symm.trans (List.map_congr_left fun a ha => ?_)
      rw [if_neg]
      intro hak
      exact he (List.mem_map.mpr ⟨a, ha, hak.trans hk.symm⟩)
    · rw [ih hrules]

/-- With distinct keys, `erase` drops the rule of the same key. -/
theorem eraseP_eq_filter (y : DotsAuthentication A V) {rules : List (ℕ × DotsAuthentication A V)}
    (h : (rules.map fun e => e.2.key).Nodup) :
    (rules.eraseP fun e => decide (e.2.key = y.key)) =
      rules.filter fun e => decide (e.2.key ≠ y.key) := by
  induction rules with
  | nil => rfl
  | cons e rules ih =>
    obtain ⟨he, hrules⟩ := List.nodup_cons.mp h
    by_cases hk : e.2.key = y.key
    · rw [List.eraseP_cons_of_pos (by simpa using hk), List.filter_cons_of_neg (by simpa using hk)]
      refine (List.filter_eq_self.mpr fun a ha => ?_).symm
      simp only [decide_eq_true_eq]
      intro hak
      exact he (List.mem_map.mpr ⟨a, ha, hak.trans hk.symm⟩)
    · rw [List.eraseP_cons_of_neg (by simpa using hk), List.filter_cons_of_pos (by simpa using hk),
        ih hrules]

end LegacyAuthManager

open LegacyAuthManager

/-- The priority is a key property. -/
theorem DotsAuthentication.priority_congr {x y : DotsAuthentication A V} (h : x.key = y.key) :
    x.priority = y.priority := by
  have h6 : (6 : Tag) ∈ (A.descriptor "DotsAuthentication").keyProperties := by
    rw [A.authentication]
    decide
  exact congrArg (Option.map AuthValue.uint16) (Struct.agreeOn_of_key_eq h 6 h6)

/-- The rules are the cached instances, in the order of their priorities. -/
structure Mirrors (m : LegacyAuthManager A V)
    (c : Container V (A.descriptor "DotsAuthentication")) : Prop where
  perm : (m.rules.map Prod.snd).Perm (c.clones.map Prod.fst)
  keyed : ∀ e ∈ m.rules, e.1 = e.2.priority.getD 0
  sorted : m.rules.Pairwise fun a b => a.1 ≤ b.1

namespace Mirrors

variable {m : LegacyAuthManager A V} {c c' : Container V (A.descriptor "DotsAuthentication")}

theorem nodup (h : Mirrors m c) : (m.rules.map fun e => e.2.key).Nodup := by
  have := (Container.perm_clones_iff.mp h.perm).1
  rwa [List.map_map] at this

theorem mem (h : Mirrors m c) (x : DotsAuthentication A V) :
    x ∈ m.rules.map Prod.snd ↔ c.Caches x := (Container.perm_clones_iff.mp h.perm).2 x

theorem of_mem {rules : List (ℕ × DotsAuthentication A V)} {policy : Option Bool}
    (hn : (rules.map fun e => e.2.key).Nodup)
    (hm : ∀ x, x ∈ rules.map Prod.snd ↔ c.Caches x)
    (hk : ∀ e ∈ rules, e.1 = e.2.priority.getD 0)
    (hs : rules.Pairwise fun a b => a.1 ≤ b.1) : Mirrors ⟨rules, policy⟩ c where
  perm := Container.perm_clones_iff.mpr ⟨by rwa [List.map_map], hm⟩
  keyed := hk
  sorted := hs

/-- Only the rules matter, and what the container has under each key. -/
theorem congr {m' : LegacyAuthManager A V} (hr : m'.rules = m.rules) (h : Mirrors m c) :
    Mirrors m' c := ⟨hr ▸ h.perm, hr ▸ h.keyed, hr ▸ h.sorted⟩

section Follows

variable {k : List (Option V)} {y : DotsAuthentication A V} {i : DotsCloneInformation}

theorem caches_of_ne (hother : ∀ k', k' ≠ k → c'.lookup k' = c.lookup k')
    {x : DotsAuthentication A V} (hx : x.key ≠ k) : c'.Caches x ↔ c.Caches x := by
  simp only [Container.Caches, hother _ hx]

theorem caches_of_key (h' : c'.lookup k = some (y, i)) {x : DotsAuthentication A V}
    (hx : x.key = k) : c'.Caches x ↔ x = y := by
  simp only [Container.Caches, hx, h', Option.some.injEq, Prod.mk.injEq]
  constructor
  · rintro ⟨_, rfl, _⟩
    rfl
  · rintro rfl
    exact ⟨i, rfl, rfl⟩

theorem follows_create (h : Mirrors m c) (hother : ∀ k', k' ≠ k → c'.lookup k' = c.lookup k')
    (hk : y.key = k) (hnone : c.lookup k = none) (h' : c'.lookup k = some (y, i)) :
    Mirrors (m.handleDotsAuthentication .create y) c' := by
  have hperm := emplace_perm (DotsAuthentication.priority y |>.getD 0) y m.rules
  have hnew : ∀ e ∈ m.rules, e.2.key ≠ k := by
    intro e he hek
    obtain ⟨j, hj⟩ := (h.mem e.2).mp (List.mem_map_of_mem he)
    rw [hek, hnone] at hj
    cases hj
  refine of_mem ?_ (fun x => ?_) (fun e he => ?_) (emplace_sorted _ _ h.sorted)
  · refine (hperm.map fun e => e.2.key).nodup_iff.mpr
      (List.nodup_cons.mpr ⟨fun hmem => ?_, h.nodup⟩)
    obtain ⟨e, he, hek⟩ := List.mem_map.mp hmem
    exact hnew e he (hek.trans hk)
  · rw [(hperm.map Prod.snd).mem_iff, List.map_cons, List.mem_cons]
    by_cases hx : x.key = k
    · rw [caches_of_key h' hx]
      refine or_iff_left fun hmem => ?_
      obtain ⟨e, he, rfl⟩ := List.mem_map.mp hmem
      exact hnew e he hx
    · rw [caches_of_ne hother hx, ← h.mem x]
      exact or_iff_right fun hxy => hx (hxy ▸ hk)
  · rcases List.mem_cons.mp (hperm.mem_iff.mp he) with rfl | he
    · rfl
    · exact h.keyed e he

theorem follows_update (h : Mirrors m c) (hother : ∀ k', k' ≠ k → c'.lookup k' = c.lookup k')
    (hk : y.key = k) {e₀ : Clone V (A.descriptor "DotsAuthentication")}
    (hsome : c.lookup k = some e₀) (h' : c'.lookup k = some (y, i)) :
    Mirrors (m.handleDotsAuthentication .update y) c' := by
  have hold : e₀.1 ∈ m.rules.map Prod.snd := (h.mem _).mpr ⟨e₀.2, by
    rw [c.key_of_lookup hsome, hsome]⟩
  have hrules : m.handleDotsAuthentication .update y =
      ⟨m.rules.map fun e => if e.2.key = y.key then (e.1, y) else e, m.defaultAcceptPolicy⟩ := by
    rw [handleDotsAuthentication, copyRule_eq_map y h.nodup]
  have hkeys : ((m.rules.map fun e => if e.2.key = y.key then (e.1, y) else e).map
      fun e => e.2.key) = m.rules.map fun e => e.2.key := by
    rw [List.map_map]
    refine List.map_congr_left fun e _ => ?_
    simp only [Function.comp_apply]
    split_ifs with hek
    · exact hek.symm
    · rfl
  rw [hrules]
  refine of_mem (hkeys ▸ h.nodup) (fun x => ?_) (fun e he => ?_) ?_
  · rw [List.map_map, List.mem_map]
    by_cases hx : x.key = k
    · rw [caches_of_key h' hx]
      constructor
      · rintro ⟨e, he, rfl⟩
        simp only [Function.comp_apply] at hx ⊢
        split_ifs at hx ⊢ with hek
        · rfl
        · exact absurd (hx.trans hk.symm) hek
      · rintro rfl
        obtain ⟨e, he, hee⟩ := List.mem_map.mp hold
        have hek : e.2.key = x.key := by rw [hee, c.key_of_lookup hsome, hk]
        exact ⟨e, he, by simp only [Function.comp_apply, if_pos hek]⟩
    · rw [caches_of_ne hother hx, ← h.mem x, List.mem_map]
      constructor
      · rintro ⟨e, he, rfl⟩
        simp only [Function.comp_apply] at hx ⊢
        split_ifs at hx ⊢ with hek
        · exact absurd hk hx
        · exact ⟨e, he, rfl⟩
      · rintro ⟨e, he, rfl⟩
        have hek : e.2.key ≠ y.key := fun hek => hx (hek.trans hk)
        exact ⟨e, he, by simp only [Function.comp_apply, if_neg hek]⟩
  · obtain ⟨e', hm', rfl⟩ := List.mem_map.mp he
    split_ifs with hek
    · rw [h.keyed e' hm', DotsAuthentication.priority_congr hek]
    · exact h.keyed e' hm'
  · rw [List.pairwise_map]
    refine h.sorted.imp fun {a b} hab => ?_
    split_ifs <;> exact hab

theorem follows_remove (h : Mirrors m c) (hother : ∀ k', k' ≠ k → c'.lookup k' = c.lookup k')
    (hk : y.key = k) (h' : c'.lookup k = none) :
    Mirrors (m.handleDotsAuthentication .remove y) c' := by
  have hrules : m.handleDotsAuthentication .remove y =
      ⟨m.rules.filter fun e => decide (e.2.key ≠ y.key), m.defaultAcceptPolicy⟩ := by
    rw [handleDotsAuthentication, eraseP_eq_filter y h.nodup]
  have hsub : (m.rules.filter fun e => decide (e.2.key ≠ y.key)).Sublist m.rules :=
    List.filter_sublist
  rw [hrules]
  refine of_mem (h.nodup.sublist (hsub.map _)) (fun x => ?_)
    (fun e he => h.keyed e (hsub.subset he)) (h.sorted.sublist hsub)
  simp only [List.mem_map, List.mem_filter, decide_eq_true_eq]
  by_cases hx : x.key = k
  · have hno : ¬ c'.Caches x := by
      rintro ⟨j, hj⟩
      rw [hx, h'] at hj
      cases hj
    refine iff_of_false ?_ hno
    rintro ⟨e, ⟨-, hek⟩, rfl⟩
    exact hek (hx.trans hk.symm)
  · rw [caches_of_ne hother hx, ← h.mem x, List.mem_map]
    constructor
    · rintro ⟨e, ⟨he, -⟩, rfl⟩
      exact ⟨e, he, rfl⟩
    · rintro ⟨e, he, rfl⟩
      exact ⟨e, ⟨he, fun hek : e.2.key = y.key => hx (hek.trans hk)⟩, rfl⟩

/-- **Each event restores the mirror.** -/
theorem follows {ch : Option (DotsMt × DotsAuthentication A V)} (h : Mirrors m c)
    (hother : ∀ k', k' ≠ k → c'.lookup k' = c.lookup k') (hch : c.Changes c' k ch) :
    Mirrors (match ch with
      | none => m
      | some (mt, y) => m.handleDotsAuthentication mt y) c' := by
  cases hch with
  | none heq =>
    have : c' = c := by
      ext1 k'
      by_cases hk : k' = k
      · rw [hk, heq]
      · exact hother k' hk
    exact this ▸ h
  | create y i hk hnone h' => exact h.follows_create hother hk hnone h'
  | update e y i hk hsome h' => exact h.follows_update hother hk hsome h'
  | remove e y hk hsome h' => exact h.follows_remove hother hk h'

end Follows

/-- A manager that is constructed has no rules. -/
theorem construct_iff {raw : LegacyAuthManager A V} {pool : ContainerPool A.toSchema V} :
    Mirrors (.construct raw pool) (pool "DotsAuthentication") ↔
      (pool "DotsAuthentication").clones = [] := by
  constructor
  · intro h
    have hperm : [].Perm ((pool "DotsAuthentication").clones.map Prod.fst) := h.perm
    exact List.map_eq_nil_iff.mp hperm.nil_eq.symm
  · intro h
    refine ⟨?_, fun e he => absurd he List.not_mem_nil, List.Pairwise.nil⟩
    rw [h]
    exact .refl _

end Mirrors

namespace AuthHost

/-- What the manager knows of the rules is what is cached. -/
def RulesMirror (s : AuthHost A V) : Prop := ∀ m, s.manager = some m → Mirrors m s.authentications

/-- The manager is constructed before any rule is cached. -/
def rulesAllowed (s : AuthHost A V) : Action A V → Prop
  | .dispatch .. => True
  | .construct _ => s.authentications.clones = []

theorem rulesMirror_dispatch {s : AuthHost A V} (h : s.RulesMirror)
    (t : Transmission A.toSchema V) (τ : Timepoint) : (s.step (.dispatch t τ)).RulesMirror := by
  intro m' hm'
  by_cases hn : t.instance_.typeName = "DotsAuthentication"
  · have hcached : t.instance_.cached = true := by
      rw [AnyStruct.cached_eq, hn, A.authentication]
      rfl
    obtain ⟨n, x, ht, hc⟩ := ContainerPool.exists_struct_of_cached hcached
    obtain rfl : n = "DotsAuthentication" := by rw [ht] at hn; exact hn
    rw [step_authentication ht] at hm'
    obtain ⟨m, hm, rfl⟩ := Option.map_eq_some_iff.mp hm'
    have hpool : (s.step (.dispatch t τ)).authentications =
        ContainerPool.apply s.authentications t.header x τ := by
      show (s.pool.dispatchEvent t τ).1 "DotsAuthentication" = _
      rw [ContainerPool.dispatchEvent_fst ht hc, ContainerPool.set_self]
    rw [hpool]
    exact (h m hm).follows (fun k' hk' => ContainerPool.lookup_apply_of_ne hk')
      (Container.changes_apply ..)
  · have hrules := step_rules_of_ne (s := s) (τ := τ) hn
    rw [hm', Option.map_some] at hrules
    obtain ⟨m, hm, hmr⟩ := Option.map_eq_some_iff.mp hrules.symm
    have hpool : (s.step (.dispatch t τ)).authentications = s.authentications :=
      ContainerPool.dispatchEvent_of_ne (Ne.symm hn)
    rw [hpool]
    exact (h m hm).congr hmr.symm

/-- The state after a list of actions. -/
def run (s : AuthHost A V) (as : List (Action A V)) : AuthHost A V := as.foldl step s

theorem run_run (s : AuthHost A V) (as : List (Action A V)) :
    Lts.Run (fun s a t => s.step a = t) s as (s.run as) := by
  induction as generalizing s with
  | nil => exact .nil s
  | cons a as ih => exact .cons rfl (ih (s.step a))

/-- A publish or a removal of an instance of one of the two types. -/
def testDispatch (n : String) (x : Struct ℕ (testAuthSchema.descriptor n)) (remove : Bool) :
    Action testAuthSchema ℕ :=
  .dispatch (.ofInstance (.struct n x) (testAuthSchema.descriptor n).properties 0 remove) 0

end AuthHost

/-! ## The policy -/

/-- The default policy is unset exactly if no cached instance has one, and otherwise that of a
cached instance. -/
structure PolicyMirrors (m : LegacyAuthManager A V)
    (c : Container V (A.descriptor "DotsAuthenticationPolicy")) : Prop where
  unset : m.defaultAcceptPolicy = none ↔
    ∀ y : DotsAuthenticationPolicy A V, c.Caches y → y.accept = none
  cached : ∀ accept, m.defaultAcceptPolicy = some accept →
    ∃ y : DotsAuthenticationPolicy A V, c.Caches y ∧ y.accept = some accept

namespace PolicyMirrors

variable {m : LegacyAuthManager A V} {c c' : Container V (A.descriptor "DotsAuthenticationPolicy")}

theorem congr {m' : LegacyAuthManager A V} (hp : m'.defaultAcceptPolicy = m.defaultAcceptPolicy)
    (h : PolicyMirrors m c) : PolicyMirrors m' c := ⟨hp ▸ h.unset, hp ▸ h.cached⟩

/-- The operations after which the policy is still that of a cached instance: a removal, if no
other instance has a policy; an update that takes the policy from its instance, if there was none
or another instance has it. -/
def Keeps (m : LegacyAuthManager A V) (c : Container V (A.descriptor "DotsAuthenticationPolicy"))
    (k : List (Option V)) : Option (DotsMt × DotsAuthenticationPolicy A V) → Prop
  | none => True
  | some (.remove, _) =>
    ∀ y : DotsAuthenticationPolicy A V, c.Caches y → y.key ≠ k → y.accept = none
  | some (_, y) => y.accept = none → m.defaultAcceptPolicy = none ∨
    ∃ y : DotsAuthenticationPolicy A V, c.Caches y ∧ y.key ≠ k ∧ y.accept = m.defaultAcceptPolicy

section Follows

variable {k : List (Option V)} {y : DotsAuthenticationPolicy A V} {i : DotsCloneInformation}

theorem caches_iff_of_stored (hother : ∀ k', k' ≠ k → c'.lookup k' = c.lookup k')
    (hk : y.key = k) (h' : c'.lookup k = some (y, i)) (x : DotsAuthenticationPolicy A V) :
    c'.Caches x ↔ x = y ∨ x.key ≠ k ∧ c.Caches x := by
  by_cases hx : x.key = k
  · simp only [Container.Caches, hx, h', Option.some.injEq, Prod.mk.injEq, ne_eq, not_true_eq_false,
      false_and, or_false]
    exact ⟨fun ⟨_, h, _⟩ => h.symm, fun h => ⟨i, h.symm, rfl⟩⟩
  · simp only [Container.Caches, hother _ hx, ne_eq, hx, not_false_eq_true, true_and]
    exact (or_iff_right fun h : x = y => hx (h ▸ hk)).symm

theorem caches_iff_of_removed (hother : ∀ k', k' ≠ k → c'.lookup k' = c.lookup k')
    (h' : c'.lookup k = none) (x : DotsAuthenticationPolicy A V) :
    c'.Caches x ↔ x.key ≠ k ∧ c.Caches x := by
  by_cases hx : x.key = k
  · simp [Container.Caches, hx, h']
  · simp [Container.Caches, hother _ hx, hx]

/-- An instance that is stored gives the policy its own, if it has one. -/
theorem follows_stored (h : PolicyMirrors m c)
    (hother : ∀ k', k' ≠ k → c'.lookup k' = c.lookup k') (hk : y.key = k)
    (h' : c'.lookup k = some (y, i)) {mt : DotsMt} (hmt : mt ≠ .remove) :
    PolicyMirrors (m.handleDotsAuthenticationPolicy mt y) c' ↔
      (y.accept = none → m.defaultAcceptPolicy = none ∨ ∃ y : DotsAuthenticationPolicy A V,
        c.Caches y ∧ y.key ≠ k ∧ y.accept = m.defaultAcceptPolicy) := by
  have hcaches := caches_iff_of_stored hother hk h'
  cases ha : y.accept with
  | some accept =>
    have hm : m.handleDotsAuthenticationPolicy mt y =
        { m with defaultAcceptPolicy := some accept } := by
      simp only [handleDotsAuthenticationPolicy, if_neg hmt, ha]
    rw [hm]
    refine iff_of_true ⟨?_, ?_⟩ fun hno => by cases hno
    · refine iff_of_false (by simp) fun hall => ?_
      have := hall y ((hcaches y).mpr (.inl rfl))
      rw [ha] at this
      cases this
    · intro b hb
      exact ⟨y, (hcaches y).mpr (.inl rfl), ha.trans hb⟩
  | none =>
    have hm : m.handleDotsAuthenticationPolicy mt y = m := by
      simp only [handleDotsAuthenticationPolicy, if_neg hmt, ha]
    rw [hm]
    simp only [true_implies]
    constructor
    · intro hnew
      cases hp : m.defaultAcceptPolicy with
      | none => exact .inl rfl
      | some b =>
        obtain ⟨z, hz, hb⟩ := hnew.cached b hp
        rcases (hcaches z).mp hz with rfl | ⟨hzk, hzc⟩
        · rw [ha] at hb
          cases hb
        · exact .inr ⟨z, hzc, hzk, hb⟩
    · rintro (hp | ⟨z, hz, hzk, hb⟩)
      · refine ⟨iff_of_true hp fun z hz => ?_, fun b hb => by rw [hp] at hb; cases hb⟩
        rcases (hcaches z).mp hz with rfl | ⟨-, hzc⟩
        · exact ha
        · exact h.unset.mp hp z hzc
      · have hz' : c'.Caches z := (hcaches z).mpr (.inr ⟨hzk, hz⟩)
        refine ⟨⟨fun hp => ?_, fun hall => ?_⟩, fun b hp => ⟨z, hz', hb.trans hp⟩⟩
        · intro x hx
          rcases (hcaches x).mp hx with rfl | ⟨-, hxc⟩
          · exact ha
          · exact h.unset.mp hp x hxc
        · rw [← hb, hall z hz']

/-- A removal unsets the policy. -/
theorem follows_removed (hother : ∀ k', k' ≠ k → c'.lookup k' = c.lookup k')
    (h' : c'.lookup k = none) :
    PolicyMirrors (m.handleDotsAuthenticationPolicy .remove y) c' ↔
      ∀ y : DotsAuthenticationPolicy A V, c.Caches y → y.key ≠ k → y.accept = none := by
  have hcaches := caches_iff_of_removed hother h'
  have hm : m.handleDotsAuthenticationPolicy .remove y = { m with defaultAcceptPolicy := none } :=
    if_pos rfl
  rw [hm]
  constructor
  · intro hnew z hz hzk
    exact hnew.unset.mp rfl z ((hcaches z).mpr ⟨hzk, hz⟩)
  · intro hall
    refine ⟨iff_of_true rfl fun z hz => ?_, fun b hb => by cases hb⟩
    obtain ⟨hzk, hzc⟩ := (hcaches z).mp hz
    exact hall z hzc hzk

/-- **Each event** keeps the mirror exactly under its condition. -/
theorem follows_iff {ch : Option (DotsMt × DotsAuthenticationPolicy A V)} (h : PolicyMirrors m c)
    (hother : ∀ k', k' ≠ k → c'.lookup k' = c.lookup k') (hch : c.Changes c' k ch) :
    PolicyMirrors (match ch with
      | none => m
      | some (mt, y) => m.handleDotsAuthenticationPolicy mt y) c' ↔ Keeps m c k ch := by
  cases hch with
  | none heq =>
    have hcc : c' = c := by
      ext1 k'
      by_cases hk : k' = k
      · rw [hk, heq]
      · exact hother k' hk
    exact iff_of_true (hcc ▸ h) trivial
  | create y i hk hnone h' => exact h.follows_stored hother hk h' (by decide)
  | update e y i hk hsome h' => exact h.follows_stored hother hk h' (by decide)
  | remove e y hk hsome h' => exact follows_removed hother h'

end Follows

end PolicyMirrors

namespace AuthHost

/-- What the manager knows of the policy is what is cached. -/
def PolicyMirror (s : AuthHost A V) : Prop :=
  ∀ m, s.manager = some m → PolicyMirrors m s.policies

/-- The manager is constructed before any policy is cached, and no operation takes the policy from
under it. -/
def policyAllowed (s : AuthHost A V) : Action A V → Prop
  | .dispatch t _ => ∀ m, s.manager = some m → ∀ x : DotsAuthenticationPolicy A V,
    t.instance_ = .struct "DotsAuthenticationPolicy" x →
      PolicyMirrors.Keeps m s.policies x.key (s.policies.change t.header x)
  | .construct _ => ∀ y : DotsAuthenticationPolicy A V, s.policies.Caches y → y.accept = none

theorem policyMirror_dispatch_iff {s : AuthHost A V} (h : s.PolicyMirror)
    (t : Transmission A.toSchema V) (τ : Timepoint) :
    (s.step (.dispatch t τ)).PolicyMirror ↔ s.policyAllowed (.dispatch t τ) := by
  by_cases hn : t.instance_.typeName = "DotsAuthenticationPolicy"
  · have hcached : t.instance_.cached = true := by
      rw [AnyStruct.cached_eq, hn, A.policy]
      rfl
    obtain ⟨n, x, ht, hc⟩ := ContainerPool.exists_struct_of_cached hcached
    obtain rfl : n = "DotsAuthenticationPolicy" := by rw [ht] at hn; exact hn
    have hpool : (s.step (.dispatch t τ)).policies =
        ContainerPool.apply s.policies t.header x τ := by
      show (s.pool.dispatchEvent t τ).1 "DotsAuthenticationPolicy" = _
      rw [ContainerPool.dispatchEvent_fst ht hc, ContainerPool.set_self]
    have hiff (m : LegacyAuthManager A V) (hm : s.manager = some m) :=
      (h m hm).follows_iff (fun k' hk' => ContainerPool.lookup_apply_of_ne hk')
        (Container.changes_apply s.policies t.header x τ)
    unfold PolicyMirror
    rw [hpool, step_policy ht]
    constructor
    · intro h' m hm x' hx'
      obtain rfl : x = x' := by
        rw [ht] at hx'
        exact eq_of_heq (AnyStruct.struct.inj hx').2
      exact (hiff m hm).mp (h' _ (by rw [hm]; rfl))
    · intro hok m' hm'
      obtain ⟨m, hm, rfl⟩ := Option.map_eq_some_iff.mp hm'
      exact (hiff m hm).mpr (hok m hm x ht)
  · have hpolicy := step_policy_of_ne (s := s) (τ := τ) hn
    have hpool : (s.step (.dispatch t τ)).policies = s.policies :=
      ContainerPool.dispatchEvent_of_ne (Ne.symm hn)
    refine iff_of_true (fun m' hm' => ?_) fun m _ x hx => absurd (by rw [hx]; rfl) hn
    rw [hm', Option.map_some] at hpolicy
    obtain ⟨m, hm, hmp⟩ := Option.map_eq_some_iff.mp hpolicy.symm
    rw [hpool]
    exact (h m hm).congr hmp.symm

/-- A manager that is constructed has no policy. -/
theorem policyMirror_construct_iff {s : AuthHost A V} {raw : LegacyAuthManager A V} :
    (s.step (.construct raw)).PolicyMirror ↔ s.policyAllowed (.construct raw) := by
  constructor
  · intro h
    exact (h _ rfl).unset.mp rfl
  · intro hall m hm
    obtain rfl := Option.some.inj hm
    exact ⟨iff_of_true rfl hall, fun b hb => by cases hb⟩

/-- The policy of a name space. -/
def testPolicy (nameSpace : ℕ) (accept : Option ℕ) :
    DotsAuthenticationPolicy testAuthSchema ℕ where
  value t := if t = 1 then some nameSpace else if t = 2 then accept else none
  value_eq_none t ht := by
    have h : ∀ i : Tag, i ∈ dotsAuthenticationPolicy.properties → t ≠ i := by
      rintro i hi rfl
      exact ht hi
    simp only [h 1 (by decide), h 2 (by decide), if_false]

/-- A publish or a removal of a policy. -/
def testPublishPolicy (nameSpace : ℕ) (accept : Option ℕ) (remove : Bool) :
    Action testAuthSchema ℕ :=
  testDispatch "DotsAuthenticationPolicy" (testPolicy nameSpace accept) remove

end AuthHost

end Dots

import Dots.Host.Sync

/-!
# What a host removes on its own

A connection that closes, and a `DotsClearCache`, make the host remove instances.

* `publishAll`: a list of dispatches and transmits, with the events of the dispatches.
* `selected`, `removeSelected`: the loops over the container pool.
* `Tidy`: what holds of the containers and groups of every host. **`tidy_step`**.
* `Exact`: one remove for each selected instance, and nothing else.
* **`handleTransition_exact_iff`**, **`handleClearCache_exact_iff`**.
-/

set_option autoImplicit false
set_option linter.unusedSectionVars false

namespace Dots

variable {S : Schema} {V : Type} [Ord V] [Std.TransOrd V] [Std.LawfulEqOrd V]

namespace HostTransceiver

variable {h h' : HostTransceiver S V} {id c : ConnectionId} {τ : Timepoint} {n : String}

/-! ## A list of removes -/

variable (S V) in
/-- A clone with its type. -/
abbrev AnyClone := (n : String) × Clone V (S.descriptor n)

/-- The transmission of a remove. -/
def removal (now : Timepoint) (n : String) (x : Struct V (S.descriptor n)) : Transmission S V where
  header :=
    { typeName := n, sentTime := some now, serverSentTime := some now
      attributes := (S.descriptor n).keyProperties, sender := some hostId, removeObj := some true
      isFromMyself := some true }
  instance_ := .struct n x
  typed := rfl

/-- Dispatch and transmit a list of transmissions, and list the events. -/
def publishAll (now : Timepoint) :
    List (Transmission S V) → HostTransceiver S V → HostTransceiver S V × List (Event S V)
  | [], h => (h, [])
  | t :: ts, h =>
    let r := publishAll now ts (h.dispatchAndTransmit now t).1
    (r.1, (match (h.pool.dispatchEvent t now).2 with
      | .event e => [e]
      | _ => []) ++ r.2)

theorem publishAll_append (ts us : List (Transmission S V)) : publishAll τ (ts ++ us) h =
    ((publishAll τ us (publishAll τ ts h).1).1,
      (publishAll τ ts h).2 ++ (publishAll τ us (publishAll τ ts h).1).2) := by
  induction ts generalizing h with
  | nil => rfl
  | cons t ts ih => simp only [List.cons_append, publishAll, ih, List.append_assoc]

/-- A remove is a publish of its transmission. -/
theorem remove_eq {x : Struct V (S.descriptor n)} (hx : publishCheck x = .ok ()) :
    h.remove τ x = h.dispatchAndTransmit τ (removal τ n x) := by
  have hp : (⟨n, x, some (S.descriptor n).keyProperties, true, hx⟩ : Publish S V).hostTransmission
      τ = removal τ n x := by
    have hattr : (⟨n, x, some (S.descriptor n).keyProperties, true, hx⟩ : Publish S V).attributes =
        (S.descriptor n).keyProperties := by
      simp only [Publish.attributes, Finset.union_self]
      exact Finset.inter_eq_left.mpr StructDescriptor.keyProperties_subset
    simp only [Publish.hostTransmission, hattr]
    rfl
  unfold remove publish
  split
  · rename_i what hc
    rw [hx] at hc
    cases hc
  · rw [hp]

/-- An instance whose keys are valid can be published exactly if its type is not substruct-only. -/
theorem publishCheck_iff {d : StructDescriptor} {x : Struct V d}
    (hk : d.keyProperties ⊆ x.validProperties) :
    publishCheck x = .ok () ↔ d.substructOnly = false := by
  cases hs : d.substructOnly <;> simp [publishCheck, hs, hk]

section Removal

variable {e : Clone V (S.descriptor n)}

theorem dispatchAndTransmit_removal (hc : (S.descriptor n).cached = true)
    (x : Struct V (S.descriptor n)) : h.dispatchAndTransmit τ (removal τ n x) =
      ((h.dispatch τ (removal τ n x)).1.transmit (removal τ n x), .ok ()) := by
  have hok : (h.dispatch τ (removal τ n x)).2 = .ok () := by
    have hcached : (removal τ n x).instance_.cached = true := hc
    unfold dispatch
    cases hr : (h.pool.dispatchEvent (removal τ n x) τ).2 with
    | threw what =>
      rw [ContainerPool.cached_of_threw hr] at hcached
      cases hcached
    | event e => simp [hr]
    | none => simp [hr]
  unfold dispatchAndTransmit
  generalize h.dispatch τ (removal τ n x) = r at hok ⊢
  obtain ⟨h₁, r₂⟩ := r
  obtain rfl : r₂ = .ok () := hok
  rfl

theorem pool_removal (hc : (S.descriptor n).cached = true) (x : Struct V (S.descriptor n)) :
    (h.dispatchAndTransmit τ (removal τ n x)).1.pool =
      h.pool.set n ((h.pool n).remove (removal τ n x).header x τ).1 := by
  rw [(dispatchAndTransmit_frame (h := h) (τ := τ) (removal τ n x)).1,
    ContainerPool.dispatchEvent_fst rfl hc, ContainerPool.apply]
  rfl

theorem lookup_removal_self (hc : (S.descriptor n).cached = true) (x : Struct V (S.descriptor n)) :
    ((h.dispatchAndTransmit τ (removal τ n x)).1.pool n).lookup x.key = none := by
  rw [pool_removal hc, ContainerPool.set_self, Container.lookup_remove_self]

theorem lookup_removal_of_ne (hc : (S.descriptor n).cached = true) (x : Struct V (S.descriptor n))
    {m : String} {k : List (Option V)} (hne : n = m → x.key ≠ k) :
    ((h.dispatchAndTransmit τ (removal τ n x)).1.pool m).lookup k = (h.pool m).lookup k := by
  rw [pool_removal hc]
  by_cases hm : m = n
  · subst hm
    rw [ContainerPool.set_self, Container.lookup_remove_of_ne (Ne.symm (hne rfl))]
  · rw [ContainerPool.set_of_ne _ _ hm]

/-- The event of a remove is about the instance as it was. -/
theorem event_removal (hc : (S.descriptor n).cached = true)
    (he : (h.pool n).lookup e.1.key = some e) :
    ∃ ev, (h.pool.dispatchEvent (removal τ n e.1) τ).2 = .event ev ∧ ev.mt = .remove ∧
      ev.updated = .struct n e.1 := by
  rw [ContainerPool.dispatchEvent_struct rfl hc, ContainerPool.cachedEvent_remove_some rfl he]
  refine ⟨_, rfl, rfl, ?_⟩
  have hsame : e.1.updateWithoutKeys e.1 (removal τ n e.1).header.attributes = e.1 := by
    ext1
    funext t
    rw [Struct.updateWithoutKeys_value]
    split_ifs <;> rfl
  exact congrArg (AnyStruct.struct n) hsame

theorem outbox_removal (hc : (S.descriptor n).cached = true) (x : Struct V (S.descriptor n)) :
    (h.dispatchAndTransmit τ (removal τ n x)).1.outbox c =
      if c ∈ h.groups n ∧ h.isOpen c = true then h.outbox c ++ [(removal τ n x).wire]
      else h.outbox c := by
  rw [dispatchAndTransmit_removal hc]
  obtain ⟨hgroups, hconn, hout, -⟩ := dispatch_frame (t := removal τ n x) (τ := τ) h
  simp only [transmit, isOpen, hgroups, hconn, hout]
  rfl

end Removal

/-- The removes of a list of clones. -/
def removals (now : Timepoint) (rs : List (AnyClone S V)) : List (Transmission S V) :=
  rs.map fun r => removal now r.1 r.2.1

/-- What the removes of clones that are cached do. -/
structure Removed (now : Timepoint) (rs : List (AnyClone S V)) (h h' : HostTransceiver S V)
    (es : List (Event S V)) : Prop where
  gone : ∀ r ∈ rs, (h'.pool r.1).lookup r.2.1.key = none
  kept : ∀ n k, (∀ r ∈ rs, r.1 = n → r.2.1.key ≠ k) → (h'.pool n).lookup k = (h.pool n).lookup k
  /-- One remove event for each clone, about the instance as it was. -/
  events : es.map (fun e => (e.mt, e.updated)) = rs.map fun r => (.remove, .struct r.1 r.2.1)
  /-- One remove for each clone to every open member of its group. -/
  sent : ∀ c, h'.outbox c = h.outbox c ++ (removals now
    (rs.filter fun r => decide (c ∈ h.groups r.1 ∧ h.isOpen c = true))).map .wire

/-- **The removes of cached clones** with distinct keys. -/
theorem removed_publishAll (rs : List (AnyClone S V))
    (hnodup : (rs.map fun r => (r.1, r.2.1.key)).Nodup)
    (hcached : ∀ r ∈ rs, (S.descriptor r.1).cached = true)
    (hlookup : ∀ r ∈ rs, (h.pool r.1).lookup r.2.1.key = some r.2) :
    Removed τ rs h (publishAll τ (removals τ rs) h).1 (publishAll τ (removals τ rs) h).2 := by
  induction rs generalizing h with
  | nil => exact ⟨fun r hr => absurd hr List.not_mem_nil, fun _ _ _ => rfl, rfl, fun c => by
      simp [removals, publishAll]⟩
  | cons r rs ih =>
    obtain ⟨hr, hrs⟩ := List.nodup_cons.mp hnodup
    have hc := hcached r List.mem_cons_self
    have hne : ∀ r' ∈ rs, r.1 = r'.1 → r.2.1.key ≠ r'.2.1.key := fun r' hr' h1 h2 =>
      hr (List.mem_map.mpr ⟨r', hr', Prod.ext h1.symm h2.symm⟩)
    have hother (m : String) (k : List (Option V)) (hmk : r.1 = m → r.2.1.key ≠ k) :
        ((h.dispatchAndTransmit τ (removal τ r.1 r.2.1)).1.pool m).lookup k =
          (h.pool m).lookup k := lookup_removal_of_ne hc r.2.1 hmk
    have hrest := ih hrs (fun r' hr' => hcached r' (List.mem_cons_of_mem _ hr'))
      (h := (h.dispatchAndTransmit τ (removal τ r.1 r.2.1)).1) fun r' hr' => by
        rw [hother r'.1 r'.2.1.key (hne r' hr')]
        exact hlookup r' (List.mem_cons_of_mem _ hr')
    have hstays := stays_dispatchAndTransmit (h := h) (τ := τ) (removal τ r.1 r.2.1)
    refine ⟨fun r' hr' => ?_, fun m k hmk => ?_, ?_, fun c => ?_⟩
    · rcases List.mem_cons.mp hr' with rfl | hr'
      · refine (hrest.kept _ _ fun r'' hr'' h1 h2 => hne r'' hr'' h1.symm h2.symm).trans ?_
        exact lookup_removal_self hc _
      · exact hrest.gone r' hr'
    · refine (hrest.kept m k fun r' hr' => hmk r' (List.mem_cons_of_mem _ hr')).trans ?_
      exact hother m k (hmk r List.mem_cons_self)
    · obtain ⟨ev, hev, hmt, hupd⟩ := event_removal (τ := τ) hc (hlookup r List.mem_cons_self)
      have hfirst : (publishAll τ (removals τ (r :: rs)) h).2 = ev :: (publishAll τ (removals τ rs)
          (h.dispatchAndTransmit τ (removal τ r.1 r.2.1)).1).2 := by
        simp only [removals, List.map_cons, publishAll, hev]
        rfl
      rw [hfirst, List.map_cons, List.map_cons, hrest.events, hmt, hupd]
    · have hrest' := hrest.sent c
      rw [hstays.groups, hstays.isOpen, outbox_removal hc] at hrest'
      refine hrest'.trans ?_
      rw [List.filter_cons]
      split_ifs with h1 h2 h2
      · simp [removals]
      · exact absurd h1 (by simpa using h2)
      · exact absurd (by simpa using h2) h1
      · rfl

/-! ## The loops over the container pool -/

/-- The clones of some types that are selected. -/
def selected (sel : (n : String) → Clone V (S.descriptor n) → Bool) (ns : List String)
    (h : HostTransceiver S V) : List (AnyClone S V) :=
  ns.flatMap fun n => ((h.pool n).clones.filter (sel n)).map (Sigma.mk n)

/-- A loop over the container pool that removes the selected clones. -/
def removeSelected (now : Timepoint) (sel : (n : String) → Clone V (S.descriptor n) → Bool) :
    List String → HostTransceiver S V → HostTransceiver S V × Except String Unit
  | [], h => (h, .ok ())
  | n :: ns, h =>
    match removeAll now (((h.pool n).clones.filter (sel n)).map Prod.fst) h with
    | (h, .error what) => (h, .error what)
    | (h, .ok _) => removeSelected now sel ns h

/-- The instances that `handleTransitionImpl` removes. -/
def cleansUp (id : ConnectionId) (n : String) (e : Clone V (S.descriptor n)) : Bool :=
  (S.descriptor n).cleanup && e.2.lastUpdateFrom == some id

/-- The instances that `handleClearCache` removes. -/
def clears (typeNames : List String) (n : String) (_e : Clone V (S.descriptor n)) : Bool :=
  decide (n ∈ typeNames)

theorem cleanup_eq (ns : List String) :
    cleanup τ id ns h = removeSelected τ (cleansUp id) ns h := by
  induction ns generalizing h with
  | nil => rfl
  | cons n ns ih =>
    unfold cleanup removeSelected
    cases hn : (S.descriptor n).cleanup with
    | true =>
      have hsel : cleansUp id n = fun e : Clone V (S.descriptor n) =>
          e.2.lastUpdateFrom == some id := by
        funext e
        simp [cleansUp, hn]
      rw [if_pos rfl, hsel]
      generalize removeAll τ (((h.pool n).clones.filter fun e =>
        e.2.lastUpdateFrom == some id).map Prod.fst) h = r
      obtain ⟨h₁, _ | _⟩ := r
      · rfl
      · exact ih
    | false =>
      have hsel : (h.pool n).clones.filter (cleansUp id n) = [] := by
        rw [List.filter_eq_nil_iff]
        intro e _
        simp [cleansUp, hn]
      rw [if_neg Bool.false_ne_true, hsel, ih]
      rfl

theorem clearTypes_eq (typeNames ns : List String) :
    clearTypes τ typeNames ns h = removeSelected τ (clears typeNames) ns h := by
  induction ns generalizing h with
  | nil => rfl
  | cons n ns ih =>
    unfold clearTypes removeSelected
    split_ifs with hn
    · have hsel : (h.pool n).clones.filter (clears typeNames n) = (h.pool n).clones :=
        List.filter_eq_self.mpr fun e _ => by simp [clears, hn]
      rw [hsel]
      generalize removeAll τ ((h.pool n).clones.map Prod.fst) h = r
      obtain ⟨h₁, _ | _⟩ := r
      · rfl
      · exact ih
    · have hsel : (h.pool n).clones.filter (clears typeNames n) = [] := by
        rw [List.filter_eq_nil_iff]
        intro e _
        simp [clears, hn]
      rw [hsel, ih]
      rfl

section Selected

variable {sel : (n : String) → Clone V (S.descriptor n) → Bool} {ns : List String}

theorem mem_selected {e : Clone V (S.descriptor n)} :
    (⟨n, e⟩ : AnyClone S V) ∈ selected sel ns h ↔
      n ∈ ns ∧ (h.pool n).lookup e.1.key = some e ∧ sel n e = true := by
  simp only [selected, List.mem_flatMap, List.mem_map, List.mem_filter, Container.mem_clones]
  constructor
  · rintro ⟨m, hm, e', ⟨hl, hs⟩, heq⟩
    cases heq
    exact ⟨hm, hl, hs⟩
  · rintro ⟨hn, hl, hs⟩
    exact ⟨n, hn, e, ⟨hl, hs⟩, rfl⟩

variable (h sel) in
theorem selected_nodup (hns : ns.Nodup) :
    ((selected sel ns h).map fun r => (r.1, r.2.1.key)).Nodup := by
  rw [selected, List.map_flatMap, List.nodup_flatMap]
  constructor
  · intro n _
    rw [List.map_map]
    have hkeys := (((h.pool n).clones.filter_sublist (p := sel n)).map fun e => e.1.key).nodup
      (h.pool n).clones_keys_nodup
    refine List.Nodup.of_map Prod.snd ?_
    rwa [List.map_map]
  · refine hns.imp fun {a b} hab => ?_
    simp only [Function.onFun, List.disjoint_left, List.map_map, List.mem_map, Function.comp_apply]
    rintro x ⟨e, _, rfl⟩ ⟨e', _, heq⟩
    exact hab (congrArg Prod.fst heq).symm

theorem selected_congr (hp : ∀ n ∈ ns, h'.pool n = h.pool n) :
    selected sel ns h' = selected sel ns h := by
  refine List.flatMap_congr fun n hn => ?_
  rw [hp n hn]

/-- Removing publishable instances of a cached type is publishing their removes. -/
theorem removeAll_eq (hc : (S.descriptor n).cached = true) (xs : List (Struct V (S.descriptor n)))
    (hx : ∀ x ∈ xs, publishCheck x = .ok ()) :
    removeAll τ xs h = ((publishAll τ (xs.map (removal τ n)) h).1, .ok ()) := by
  induction xs generalizing h with
  | nil => rfl
  | cons x xs ih =>
    unfold removeAll
    rw [remove_eq (hx x List.mem_cons_self), dispatchAndTransmit_removal hc]
    simp only
    rw [ih fun y hy => hx y (List.mem_cons_of_mem _ hy)]
    simp only [List.map_cons, publishAll, dispatchAndTransmit_removal hc]

theorem pool_publishAll_of_ne {rs : List (Transmission S V)}
    (hr : ∀ t ∈ rs, t.instance_.typeName ≠ n) : (publishAll τ rs h).1.pool n = h.pool n := by
  induction rs generalizing h with
  | nil => rfl
  | cons t rs ih =>
    refine (ih fun u hu => hr u (List.mem_cons_of_mem _ hu)).trans ?_
    rw [(dispatchAndTransmit_frame t).1]
    exact ContainerPool.dispatchEvent_of_ne (Ne.symm (hr t List.mem_cons_self))

/-- **The loop publishes one remove for each selected clone.** -/
theorem removeSelected_eq (hns : ns.Nodup)
    (hc : ∀ r ∈ selected sel ns h, (S.descriptor r.1).cached = true)
    (hx : ∀ r ∈ selected sel ns h, publishCheck r.2.1 = .ok ()) :
    removeSelected τ sel ns h =
      ((publishAll τ (removals τ (selected sel ns h)) h).1, .ok ()) := by
  induction ns generalizing h with
  | nil => rfl
  | cons n ns ih =>
    obtain ⟨hn, hns'⟩ := List.nodup_cons.mp hns
    have hcons : selected sel (n :: ns) h =
        ((h.pool n).clones.filter (sel n)).map (Sigma.mk n) ++ selected sel ns h := rfl
    have hfirst : removeAll τ (((h.pool n).clones.filter (sel n)).map Prod.fst) h =
        ((publishAll τ (removals τ (((h.pool n).clones.filter (sel n)).map (Sigma.mk n))) h).1,
          .ok ()) := by
      cases hl : (h.pool n).clones.filter (sel n) with
      | nil => rfl
      | cons e es =>
        have hmem (e' : Clone V (S.descriptor n)) (he' : e' ∈ e :: es) :
            (⟨n, e'⟩ : AnyClone S V) ∈ selected sel (n :: ns) h := by
          rw [hcons, hl]
          exact List.mem_append_left _ (List.mem_map_of_mem he')
        rw [removeAll_eq (hc _ (hmem e List.mem_cons_self)) _ fun x hx' => ?_]
        · simp only [removals, List.map_map]
          rfl
        · obtain ⟨e', he', rfl⟩ := List.mem_map.mp hx'
          exact hx _ (hmem e' he')
    unfold removeSelected
    rw [hfirst]
    simp only
    have hsame : selected sel ns (publishAll τ (removals τ
        (((h.pool n).clones.filter (sel n)).map (Sigma.mk n))) h).1 = selected sel ns h := by
      refine selected_congr fun m hm => pool_publishAll_of_ne fun t ht => ?_
      simp only [removals, List.map_map, List.mem_map] at ht
      obtain ⟨e, _, rfl⟩ := ht
      exact fun hnm : n = m => hn (hnm ▸ hm)
    rw [ih hns', hsame, hcons]
    · simp only [removals, List.map_append, publishAll_append]
    · rw [hsame]
      exact fun r hr => hc r (hcons ▸ List.mem_append_right _ hr)
    · rw [hsame]
      exact fun r hr => hx r (hcons ▸ List.mem_append_right _ hr)

end Selected

/-! ## Containers and groups -/

/-- The container pool has one entry for each type that is in it, with instances of cached types
whose keys are valid, and the members of the groups are open, `skip` left out. -/
structure Tidy (h : HostTransceiver S V) (skip : Set ConnectionId) : Prop where
  nodup : h.poolTypes.Nodup
  pooled : ∀ n k e, (h.pool n).lookup k = some e → n ∈ h.poolTypes ∧
    (S.descriptor n).cached = true ∧ (S.descriptor n).keyProperties ⊆ e.1.validProperties
  members : ∀ n c, c ∈ h.groups n → c ∉ skip → h.isOpen c = true

theorem poolTypes_dispatchAndTransmit (t : Transmission S V) :
    (h.dispatchAndTransmit τ t).1.poolTypes =
      if t.instance_.cached then insert t.instance_.typeName h.poolTypes else h.poolTypes := by
  have hd : (h.dispatch τ t).1.poolTypes =
      if t.instance_.cached then insert t.instance_.typeName h.poolTypes else h.poolTypes := by
    simp only [dispatch]
    split <;> rfl
  unfold dispatchAndTransmit
  split <;> rename_i h₁ r he <;> rw [he] at hd <;> exact hd

theorem validProperties_stored {d : StructDescriptor} {c : Container V d} {hd : DotsHeader}
    {x : Struct V d} (hx : d.keyProperties ⊆ x.validProperties)
    (hc : ∀ e, c.lookup x.key = some e → d.keyProperties ⊆ e.1.validProperties) :
    d.keyProperties ⊆ (Container.stored (c.lookup x.key) hd x τ).1.validProperties := by
  cases he : c.lookup x.key with
  | none => exact hx
  | some e =>
    intro t ht
    obtain ⟨v, hv⟩ := Struct.mem_validProperties.mp (hc e he ht)
    refine Struct.mem_validProperties.mpr ⟨v, ?_⟩
    show (e.1.updateWithoutKeys x hd.attributes).value t = some v
    rw [Struct.updateWithoutKeys_value, if_neg fun hn => hn.2 ht, hv]

theorem Tidy.dispatchAndTransmit {skip : Set ConnectionId} (ht : h.Tidy skip)
    {t : Transmission S V} (hk : t.instance_.hasKeyProperties = true) :
    (h.dispatchAndTransmit τ t).1.Tidy skip := by
  have hs := stays_dispatchAndTransmit (h := h) (τ := τ) t
  have htypes := poolTypes_dispatchAndTransmit (h := h) (τ := τ) t
  refine ⟨?_, fun m k e he => ?_, fun m c hm hc => ?_⟩
  · rw [htypes]
    split_ifs
    · exact ht.nodup.insert
    · exact ht.nodup
  · rw [(dispatchAndTransmit_frame t).1] at he
    cases hc : t.instance_.cached with
    | false =>
      rw [ContainerPool.dispatchEvent_of_not_cached hc] at he
      rw [htypes, hc]
      exact ht.pooled m k e he
    | true =>
      obtain ⟨n, x, hx, hn⟩ := ContainerPool.exists_struct_of_cached hc
      rw [ContainerPool.dispatchEvent_fst hx hn] at he
      have hkeys : (S.descriptor n).keyProperties ⊆ x.validProperties := by
        rw [hx] at hk
        simpa [AnyStruct.hasKeyProperties] using hk
      have hold (e' : Clone V (S.descriptor m)) (he' : (h.pool m).lookup k = some e')
          (hsub : (S.descriptor m).keyProperties ⊆ e'.1.validProperties →
            (S.descriptor m).keyProperties ⊆ e.1.validProperties) :
          m ∈ (h.dispatchAndTransmit τ t).1.poolTypes ∧ (S.descriptor m).cached = true ∧
            (S.descriptor m).keyProperties ⊆ e.1.validProperties := by
        obtain ⟨hm, hmc, hmk⟩ := ht.pooled m k e' he'
        rw [htypes, if_pos hc]
        exact ⟨List.mem_insert_of_mem hm, hmc, hsub hmk⟩
      by_cases hm : m = n
      swap
      · rw [ContainerPool.set_of_ne _ _ hm] at he
        exact hold e he fun h => h
      subst hm
      rw [ContainerPool.set_self] at he
      by_cases hkx : k = x.key
      · subst hkx
        rw [ContainerPool.lookup_apply_self] at he
        split_ifs at he
        obtain rfl := Option.some.inj he
        refine ⟨?_, hn, validProperties_stored hkeys fun e' he' => (ht.pooled m _ e' he').2.2⟩
        rw [htypes, if_pos hc, hx]
        exact List.mem_insert_self
      · rw [ContainerPool.lookup_apply_of_ne hkx] at he
        exact hold e he fun h => h
  · rw [hs.groups] at hm
    rw [hs.isOpen]
    exact ht.members m c hm hc

theorem hasKeyProperties_hostTransmission (p : Publish S V) :
    (p.hostTransmission τ).instance_.hasKeyProperties = true := decide_eq_true p.keyProperties_valid

theorem Tidy.removes {skip : Set ConnectionId} (ht : h.Tidy skip) (r : Removes h h') :
    h'.Tidy skip := by
  induction r with
  | refl => exact ht
  | publish p _ τ _ ih => exact ih.dispatchAndTransmit (hasKeyProperties_hostTransmission p)

theorem Tidy.congr {skip : Set ConnectionId} (ht : h.Tidy skip)
    (htypes : h'.poolTypes = h.poolTypes) (hpool : h'.pool = h.pool)
    (hm : ∀ n c, c ∈ h'.groups n → c ∉ skip → h'.isOpen c = true) : h'.Tidy skip :=
  ⟨htypes ▸ ht.nodup, fun n k e he => by rw [htypes]; rw [hpool] at he; exact ht.pooled n k e he, hm⟩

/-- A guest that is open is a member of the groups it joins. -/
theorem Tidy.handleTransmission (ht : h.Tidy ∅) (hopen : h.isOpen id = true)
    {t : Transmission S V} (hk : t.instance_.hasKeyProperties = true) :
    (h.handleTransmission id τ t).1.Tidy ∅ := by
  unfold HostTransceiver.handleTransmission
  split
  · rename_i m _
    rw [handleMemberMessage_fst]
    refine ht.congr rfl rfl fun n c hc _ => ?_
    show h.isOpen c = true
    by_cases hcid : c = id
    · rw [hcid, hopen]
    · exact ht.members n c ((mem_memberGroups_of_ne hcid m).mp hc) (Set.notMem_empty c)
  · exact ht.congr rfl rfl ht.members
  · unfold handleEchoRequest
    split_ifs
    · exact ht.congr rfl rfl ht.members
    · exact ht
  · rename_i m _
    have hc : (h.handleClearCache τ m).1.Tidy ∅ := by
      unfold handleClearCache
      split
      · exact ht
      · exact ht.removes (removes_clearTypes _ _)
    generalize h.handleClearCache τ m = re at hc
    obtain ⟨h₁, _ | _⟩ := re
    · exact hc
    · exact hc.dispatchAndTransmit hk
  · exact ht.dispatchAndTransmit hk

/-- A connection that has closed is in no group. -/
theorem Tidy.handleTransition (ht : h.Tidy {id}) : (h.handleTransition id τ).Tidy ∅ := by
  unfold HostTransceiver.handleTransition
  have herase : ({ h with groups := fun n => (h.groups n).erase id } :
      HostTransceiver S V).Tidy ∅ := by
    refine ⟨ht.nodup, ht.pooled, fun n c hc _ => ?_⟩
    obtain ⟨hne, hmem⟩ := Finset.mem_erase.mp hc
    exact ht.members n c hmem hne
  have hno : ∀ n, id ∉ ({ h with groups := fun n => (h.groups n).erase id } :
      HostTransceiver S V).groups n := by simp
  generalize ({ h with groups := fun n => (h.groups n).erase id } : HostTransceiver S V) = h₁
    at herase hno
  have hr := removes_cleanup (h := h₁) (τ := τ) id h₁.poolTypes
  have hclean := herase.removes hr
  have hs := stays_removes hr
  simp only
  generalize cleanup τ id h₁.poolTypes h₁ = re at hclean hs
  obtain ⟨h₂, _ | _⟩ := re
  · exact hclean
  · refine hclean.congr rfl rfl fun n c hc hskip => ?_
    have hcid : c ≠ id := by
      rintro rfl
      have hc' : c ∈ h₂.groups n := hc
      rw [hs.groups] at hc'
      exact hno n hc'
    have hopen := hclean.members n c hc hskip
    simpa [isOpen, Function.update_of_ne hcid] using hopen

theorem Tidy.finish (ht : h.Tidy {id}) (ch : Channel) {r : Turn S V}
    (hcl : r.connection.state = .closed → .closed ∈ r.transitions ∨ ∀ n, id ∉ h.groups n) :
    (h.finish id τ ch r).Tidy ∅ := by
  have hmembers : ∀ n c, c ∈ h.groups n → c ≠ id →
      ({ h.send id r.sent with
        guestConnections := Function.update h.guestConnections id (some ⟨r.connection, ch⟩) } :
        HostTransceiver S V).isOpen c = true := by
    intro n c hc hne
    have hopen := ht.members n c hc hne
    simpa [isOpen, Function.update_of_ne hne] using hopen
  unfold HostTransceiver.finish
  simp only
  split_ifs with hclosed
  · exact Tidy.handleTransition (ht.congr rfl rfl hmembers)
  · refine ⟨ht.nodup, ht.pooled, fun n c hc _ => ?_⟩
    by_cases hne : c = id
    · subst hne
      have hst : r.connection.state ≠ .closed := fun hst =>
        (hcl hst).elim hclosed fun hno => hno n hc
      simp [isOpen, hst]
    · exact hmembers n c hc hne

theorem Tidy.skip (ht : h.Tidy ∅) (id : ConnectionId) : h.Tidy {id} :=
  ⟨ht.nodup, ht.pooled, fun n c hc _ => ht.members n c hc (Set.notMem_empty c)⟩

theorem Tidy.finish_error (ht : h.Tidy ∅) (registry : Registry) (ch : Channel) (g : GuestConnection)
    (what : String) : (({ h with registry } : HostTransceiver S V).finish id τ ch
      (Turn.handleError .silent { connection := g.connection } τ what)).Tidy ∅ := by
  have hreg : ({ h with registry } : HostTransceiver S V).Tidy {id} :=
    (ht.skip id).congr rfl rfl (ht.skip id).members
  refine hreg.finish ch fun _ => .inl ?_
  rw [(Turn.closes_handleError Connection.keeps_refl what).2.1]
  exact List.mem_singleton_self _

theorem Tidy.receive (ht : h.Tidy ∅) (t : Transmission S V) : (h.receive id τ t).Tidy ∅ := by
  unfold HostTransceiver.receive
  split
  · exact ht
  rename_i g hg
  split_ifs
  · exact ht
  · exact ht.finish_error h.registry _ g _
  unfold processReceive
  split
  · exact ht.finish_error _ _ g _
  · rename_i ch registry u _
    have hreg : ({ h with registry } : HostTransceiver S V).Tidy ∅ := ht.congr rfl rfl ht.members
    have hconn : ({ h with registry } : HostTransceiver S V).guestConnections id = some g := hg
    simp only
    generalize ({ h with registry } : HostTransceiver S V) = h₁ at hreg hconn
    have hclosed (hst : (g.connection.processReceive (h₁.owner id τ) τ t).1.connection.state =
        .closed) : .closed ∈ (g.connection.processReceive (h₁.owner id τ) τ t).1.transitions ∨
          g.connection.state = .closed := Connection.closed_processReceive hst
    have hno (hst : g.connection.state = .closed) : ∀ n, id ∉ h₁.groups n := by
      intro n hn
      have hopen := hreg.members n id hn (Set.notMem_empty id)
      simp [isOpen, hconn, hst] at hopen
    split
    · exact (hreg.skip id).finish _ fun hst => (hclosed hst).imp_right hno
    · rename_i u us hu
      obtain ⟨hest, -, hkeys, rfl⟩ := Connection.of_received (hu ▸ List.mem_cons_self)
      have hne : g.connection.state ≠ .closed := by
        intro hst
        rw [hst] at hest
        cases hest
      have hopen : h₁.isOpen id = true := by simp [isOpen, hconn, hne]
      have hstamped : (g.connection.stamped t τ).instance_.hasKeyProperties = true := hkeys
      exact ((hreg.handleTransmission hopen hstamped).skip id).finish _ fun hst =>
        .inl ((hclosed hst).resolve_right hne)

/-- **Step lemma.** -/
theorem tidy_step (ht : h.Tidy ∅) (a : HostAct S V) : (h.step a).Tidy ∅ := by
  cases a with
  | accept authManager now =>
    simp only [step, accept]
    split
    · exact ht
    · rename_i r hr
      have hnext : ({ h with nextGuestId := h.nextGuestId + 1 } : HostTransceiver S V).Tidy
          {h.nextGuestId} := (ht.skip _).congr rfl rfl (ht.skip _).members
      obtain ⟨r', -, hr', hst, -⟩ := Connection.asyncReceive_host
        (o := (.silent : Owner S V)) (c := .host h.nextGuestId h.names) (τ := now)
        (u := h.selfName) (a := authManager) rfl rfl
      obtain rfl := Option.some.inj (hr.symm.trans hr')
      exact hnext.finish _ fun hcl => by rw [hst] at hcl; cases hcl
  | receive id t now => exact ht.receive t
  | publish n x includedProperties remove now =>
    simp only [step, publish]
    split
    · exact ht
    · exact ht.dispatchAndTransmit (hasKeyProperties_hostTransmission _)
  | channelError id what now =>
    simp only [step, channelError]
    split
    · exact ht
    · rename_i g _
      exact ht.finish_error h.registry _ g what

/-! ## Exactness -/

/-- The host removes the selected instances and does nothing else: it publishes one remove for
each of them. -/
structure Exact (now : Timepoint) (sel : (n : String) → Clone V (S.descriptor n) → Bool)
    (h h' : HostTransceiver S V) : Prop where
  groups : h'.groups = h.groups
  /-- The selected instances are gone; the others have the properties and the clone information
  they had. -/
  pool : ∀ n k, (h'.pool n).lookup k = ((h.pool n).lookup k).filter fun e => !sel n e
  removes : ∃ rs : List (AnyClone S V), (rs.map fun r => (r.1, r.2.1.key)).Nodup ∧
    (∀ n e, (⟨n, e⟩ : AnyClone S V) ∈ rs ↔
      (h.pool n).lookup e.1.key = some e ∧ sel n e = true) ∧
    h'.pool = (publishAll now (removals now rs) h).1.pool ∧
    (publishAll now (removals now rs) h).2.map (fun e => (e.mt, e.updated)) =
      rs.map (fun r => (.remove, .struct r.1 r.2.1)) ∧
    ∀ c, h'.outbox c = h.outbox c ++
      (removals now (rs.filter fun r => decide (c ∈ h.groups r.1))).map .wire

section Exactness

variable {sel : (n : String) → Clone V (S.descriptor n) → Bool}

variable (h τ sel) in
theorem removes_removeSelected (ns : List String) : Removes h (removeSelected τ sel ns h).1 := by
  induction ns generalizing h with
  | nil => exact .refl h
  | cons n ns ih =>
    have hr := removes_removeAll (h := h) (τ := τ) (((h.pool n).clones.filter (sel n)).map Prod.fst)
    unfold removeSelected
    generalize removeAll τ (((h.pool n).clones.filter (sel n)).map Prod.fst) h = re at hr
    obtain ⟨h₁, _ | _⟩ := re
    · exact hr
    · exact hr.trans (ih h₁)

/-- What cannot be published cannot be removed. -/
theorem Removes.pool_of_substructOnly (r : Removes h h') (hn : (S.descriptor n).substructOnly = true) :
    h'.pool n = h.pool n := by
  induction r with
  | refl => rfl
  | publish p _ τ _ ih =>
    have hne : n ≠ p.typeName := by
      rintro rfl
      have hcheck := (publishCheck_iff p.keyProperties_valid).mp p.check
      rw [hn] at hcheck
      cases hcheck
    rw [(dispatchAndTransmit_frame _).1]
    exact (ContainerPool.dispatchEvent_of_ne hne).trans ih

/-- **The loop is exact** if and only if no instance of a substruct-only type is selected, which
the host cannot publish. -/
theorem exact_iff (ht : h.Tidy ∅) (hgroups : h'.groups = h.groups)
    (hpool : h'.pool = (removeSelected τ sel h.poolTypes h).1.pool)
    (hout : h'.outbox = (removeSelected τ sel h.poolTypes h).1.outbox) :
    Exact τ sel h h' ↔ ∀ n e, (h.pool n).lookup e.1.key = some e → sel n e = true →
      (S.descriptor n).substructOnly = false := by
  constructor
  · intro hx n e he hs
    by_contra hsub
    have hsame := (removes_removeSelected h τ sel
      h.poolTypes).pool_of_substructOnly (by simpa using hsub : (S.descriptor n).substructOnly = true)
    have hgone := hx.pool n e.1.key
    rw [hpool, hsame, he, Option.filter_some, hs] at hgone
    cases hgone
  · intro hsub
    have hpooled (r : AnyClone S V) (hr : r ∈ selected sel h.poolTypes h) :
        (h.pool r.1).lookup r.2.1.key = some r.2 ∧ sel r.1 r.2 = true := (mem_selected.mp hr).2
    have hcached (r : AnyClone S V) (hr : r ∈ selected sel h.poolTypes h) :
        (S.descriptor r.1).cached = true := (ht.pooled _ _ _ (hpooled r hr).1).2.1
    have hpublish (r : AnyClone S V) (hr : r ∈ selected sel h.poolTypes h) :
        publishCheck r.2.1 = .ok () :=
      (publishCheck_iff (ht.pooled _ _ _ (hpooled r hr).1).2.2).mpr
        (hsub r.1 r.2 (hpooled r hr).1 (hpooled r hr).2)
    have hmem (n : String) (e : Clone V (S.descriptor n)) :
        (⟨n, e⟩ : AnyClone S V) ∈ selected sel h.poolTypes h ↔
          (h.pool n).lookup e.1.key = some e ∧ sel n e = true :=
      mem_selected.trans ⟨And.right, fun he => ⟨(ht.pooled _ _ _ he.1).1, he⟩⟩
    rw [removeSelected_eq ht.nodup hcached hpublish] at hpool hout
    have hnodup := selected_nodup h sel ht.nodup
    have hr := removed_publishAll (h := h) (τ := τ) (selected sel h.poolTypes h) hnodup hcached
      fun r hr => (hpooled r hr).1
    refine ⟨hgroups, fun n k => ?_, selected sel h.poolTypes h, hnodup, hmem, hpool, hr.events,
      fun c => ?_⟩
    · rw [hpool]
      cases hk : (h.pool n).lookup k with
      | none =>
        refine (hr.kept n k ?_).trans hk
        rintro ⟨n', e⟩ hmem' hn' hk'
        obtain rfl : n = n' := hn'.symm
        have hl := (hpooled _ hmem').1
        have hk'' : e.1.key = k := hk'
        rw [hk'', hk] at hl
        cases hl
      | some e =>
        have hke := (h.pool n).key_of_lookup hk
        cases hs : sel n e with
        | true =>
          have hgone := hr.gone ⟨n, e⟩ ((hmem n e).mpr ⟨hke ▸ hk, hs⟩)
          rw [hke] at hgone
          rw [Option.filter_some, hs]
          exact hgone
        | false =>
          rw [Option.filter_some, hs]
          refine (hr.kept n k ?_).trans hk
          rintro ⟨n', e'⟩ hmem' hn' hk'
          obtain rfl : n = n' := hn'.symm
          obtain ⟨hl, hs'⟩ := hpooled _ hmem'
          have hk'' : e'.1.key = k := hk'
          rw [hk'', hk] at hl
          obtain rfl := Option.some.inj hl
          rw [hs] at hs'
          cases hs'
    · rw [hout, hr.sent c]
      congr 3
      refine List.filter_congr fun r _ => ?_
      have hopen : c ∈ h.groups r.1 → h.isOpen c = true := fun hc =>
        ht.members r.1 c hc (Set.notMem_empty c)
      exact decide_eq_decide.mpr ⟨And.left, fun hc => ⟨hc, hopen hc⟩⟩

end Exactness

/-- The host after a connection has left its groups. -/
def leaveGroups (h : HostTransceiver S V) (id : ConnectionId) : HostTransceiver S V :=
  { h with groups := fun n => (h.groups n).erase id }

theorem Tidy.leaveGroups (ht : h.Tidy {id}) : (h.leaveGroups id).Tidy ∅ :=
  ⟨ht.nodup, ht.pooled, fun n c hc _ =>
    ht.members n c (Finset.mem_of_mem_erase hc) (Finset.ne_of_mem_erase hc)⟩

/-- What `handleTransition` does besides the loop. -/
theorem handleTransition_spec : (h.handleTransition id τ).groups = (h.leaveGroups id).groups ∧
    (h.handleTransition id τ).pool =
      (removeSelected τ (cleansUp id) h.poolTypes (h.leaveGroups id)).1.pool ∧
    (h.handleTransition id τ).outbox =
      (removeSelected τ (cleansUp id) h.poolTypes (h.leaveGroups id)).1.outbox := by
  have hs := stays_removes (removes_removeSelected (h.leaveGroups id) τ (cleansUp id)
    h.poolTypes)
  have hloop : cleanup τ id h.poolTypes (h.leaveGroups id) =
      removeSelected τ (cleansUp id) h.poolTypes (h.leaveGroups id) := cleanup_eq h.poolTypes
  unfold HostTransceiver.handleTransition
  simp only [leaveGroups] at hs hloop ⊢
  rw [hloop]
  generalize removeSelected τ (cleansUp id) h.poolTypes
    { h with groups := fun n => (h.groups n).erase id } = re at hs
  obtain ⟨h₁, _ | _⟩ := re
  · exact ⟨hs.groups, rfl, rfl⟩
  · exact ⟨hs.groups, rfl, rfl⟩

/-- **Cleanup is exact.** A connection that closes leaves every group, and one remove is published
for each instance it has updated last, of the types that are to be cleaned up; a `DotsClearCache`
removes the instances of its types in the same way. Both fail exactly on instances of a
substruct-only type, which the host can receive and cannot publish. -/
theorem removes_exact_iff (h : HostTransceiver S V) (id : ConnectionId) (τ : Timepoint)
    (typeNames : List String) :
    (h.Tidy {id} → (∀ n, id ∉ (h.handleTransition id τ).groups n) ∧
      (Exact τ (cleansUp id) (h.leaveGroups id) (h.handleTransition id τ) ↔
        ∀ n e, (h.pool n).lookup e.1.key = some e → (S.descriptor n).cleanup = true →
          e.2.lastUpdateFrom = some id → (S.descriptor n).substructOnly = false)) ∧
    (h.Tidy ∅ → (Exact τ (clears typeNames) h
        (h.handleClearCache τ { typeNames := some typeNames }).1 ↔
      ∀ n e, (h.pool n).lookup e.1.key = some e → n ∈ typeNames →
        (S.descriptor n).substructOnly = false)) := by
  constructor
  · intro ht
    obtain ⟨hgroups, hpool, hout⟩ := @handleTransition_spec _ _ _ _ _ h id τ
    refine ⟨fun n => ?_, ?_⟩
    · rw [hgroups]
      exact Finset.notMem_erase id (h.groups n)
    rw [exact_iff ht.leaveGroups hgroups hpool hout]
    simp only [cleansUp, Bool.and_eq_true, beq_iff_eq, and_imp]
    rfl
  · intro ht
    have hloop : h.handleClearCache τ { typeNames := some typeNames } =
        removeSelected τ (clears typeNames) h.poolTypes h := clearTypes_eq typeNames h.poolTypes
    have hs := stays_removes (removes_removeSelected h τ (clears typeNames)
      h.poolTypes)
    rw [hloop, exact_iff ht hs.groups rfl rfl]
    simp only [clears, decide_eq_true_eq]

/-! ## A guest that leaves an instance behind -/

/-- `DotsTestStruct`, to be cleaned up. -/
def cleanupStruct (substructOnly : Bool) : StructDescriptor :=
  { dotsTestStruct with cleanup := true, substructOnly }

/-- A space whose only type with properties is `DotsTestStruct`, to be cleaned up. -/
def cleanupSchema (substructOnly : Bool) : Schema where
  descriptor n :=
    if n = "DotsTestStruct" then cleanupStruct substructOnly
    else
      { name := n, propertyDescriptors := [], cached := false, internal := false
        cleanup := false, substructOnly := false, tags_nodup := List.nodup_nil }
  name_eq n := by
    split_ifs with h
    · exact h.symm
    · rfl
  internalTypes_not_cached := by decide +revert

/-- An instance that the guest `2` has sent. -/
def leftInstance (substructOnly : Bool) : Transmission (cleanupSchema substructOnly) ℕ where
  header :=
    { typeName := "DotsTestStruct", sentTime := some 0, attributes := {2, 9}, sender := some 2 }
  instance_ := .struct "DotsTestStruct"
    ⟨(dotsTestInstance 1 (some 5)).value, (dotsTestInstance 1 (some 5)).value_eq_none⟩
  typed := rfl

/-- A host whose guest `2` has just closed and whose guest `3` is a member of the same group. -/
def hostOfTwo (substructOnly : Bool) : HostTransceiver (cleanupSchema substructOnly) ℕ where
  selfName := "dotsd"
  registry := ⟨fun _ => none⟩
  guestConnections c :=
    if c = 2 then some ⟨{ selfId := hostId, peerId := 2, state := .closed }, {}⟩
    else if c = 3 then some ⟨{ selfId := hostId, peerId := 3, state := .connected }, {}⟩
    else none
  groups n := if n = "DotsTestStruct" then {2, 3} else ∅

/-- The host with the instance that the guest `2` leaves behind. -/
def leftBehind (substructOnly : Bool) : HostTransceiver (cleanupSchema substructOnly) ℕ :=
  ((hostOfTwo substructOnly).dispatchAndTransmit 0 (leftInstance substructOnly)).1

theorem tidy_leftBehind (substructOnly : Bool) : (leftBehind substructOnly).Tidy {2} := by
  refine Tidy.dispatchAndTransmit ⟨List.nodup_nil, fun n k e he => ?_, fun n c hc hne => ?_⟩ ?_
  · rw [show (hostOfTwo substructOnly).pool n = .empty from rfl, Container.lookup_empty] at he
    cases he
  · have hc' : c ∈ (if n = "DotsTestStruct" then {2, 3} else ∅ : Finset ConnectionId) := hc
    split_ifs at hc'
    · obtain rfl : c = 3 := by simpa [show c ≠ 2 from hne] using hc'
      rfl
    · exact absurd hc' (Finset.notMem_empty c)
  · cases substructOnly <;> decide

/-- The host removes the instance, and the guest `3` learns of it. -/
theorem removes_exact_iff_leftBehind :
    Exact 0 (cleansUp 2) ((leftBehind false).leaveGroups 2) ((leftBehind false).handleTransition 2 0) ∧
      (((leftBehind false).handleTransition 2 0).outbox 3).length = 2 := by
  refine ⟨((removes_exact_iff (leftBehind false) 2 0 []).1 (tidy_leftBehind false)).2.mpr
    fun n _ _ _ _ => ?_, by decide +kernel⟩
  by_cases hn : n = "DotsTestStruct"
  · rw [hn]
    rfl
  · simp [cleanupSchema, hn]

/-- **An instance of a substruct-only type stays**, and the closed connection with it. -/
theorem removes_not_exact :
    ¬ Exact 0 (cleansUp 2) ((leftBehind true).leaveGroups 2) ((leftBehind true).handleTransition 2 0) ∧
      ((((leftBehind true).handleTransition 2 0).pool "DotsTestStruct").lookup
        [some 1]).isSome = true ∧
      (((leftBehind true).handleTransition 2 0).guestConnections 2).isSome = true := by
  refine ⟨fun hx => ?_, by decide +kernel, by decide +kernel⟩
  have hgone := congrArg Option.isSome (hx.pool "DotsTestStruct" [some 1])
  exact absurd hgone (by decide +kernel)

end HostTransceiver

end Dots

import Dots.ContainerPool
import Dots.Lib.Replica

/-!
# Containers as replicas

* `Container.view`: what a container has in common with a replica: for each key the instance, who
  updated it last, and when.
* `operation`, `operations`: what a transmission does to the view of a type.
* **`view_dispatchEvent`**: a dispatch does just that.
* **`operation_wire`**: what arrives of a transmission does the same, if the header names all
  valid properties of an instance that is new.
* `replayed`, **`drain_snapshot_iff`**: when the replay of a container brings a replica up.
-/

set_option autoImplicit false
set_option linter.unusedSectionVars false

namespace Dots

open Replica

variable {S : Schema} {V : Type} {d : StructDescriptor}

/-! ## Views -/

/-- An instance, who updated it last, and when. -/
abbrev CloneView (V : Type) (d : StructDescriptor) :=
  Struct V d × Option ConnectionId × Option Timepoint

def Clone.view (e : Clone V d) : CloneView V d := (e.1, e.2.lastUpdateFrom, e.2.modified)

/-- What an insert stores, given the view of what was there. -/
def storedView (v : Option (CloneView V d)) (h : DotsHeader) (x : Struct V d) : CloneView V d :=
  match v with
  | none => (x, h.sender, h.sentTime)
  | some v => (v.1.updateWithoutKeys x h.attributes, h.sender, h.sentTime)

/-- What a transmission does to the view of its type. -/
def structOp (h : DotsHeader) (x : Struct V d) : Op (List (Option V)) (CloneView V d) where
  key := x.key
  effect v := if h.removeObj = some true then none else some (storedView v h x)

/-- What a transmission does to the view of the type `n`. -/
def operation (n : String) (t : Transmission S V) :
    Option (Op (List (Option V)) (CloneView V (S.descriptor n))) :=
  match t.instance_ with
  | .struct m x => if hm : m = n then some (structOp t.header (hm ▸ x)) else none
  | _ => none

/-- What a list of transmissions does to the view of the type `n`. -/
def operations (n : String) (ts : List (Transmission S V)) :
    List (Op (List (Option V)) (CloneView V (S.descriptor n))) :=
  ts.filterMap (operation n)

theorem operations_append (n : String) (ts us : List (Transmission S V)) :
    operations n (ts ++ us) = operations n ts ++ operations n us := List.filterMap_append

theorem operation_struct {n : String} {x : Struct V (S.descriptor n)} {t : Transmission S V}
    (ht : t.instance_ = .struct n x) : operation n t = some (structOp t.header x) := by
  simp [operation, ht]

theorem operation_of_ne {n : String} {t : Transmission S V} (ht : t.instance_.typeName ≠ n) :
    operation n t = none := by
  unfold operation
  split
  · rename_i m x hx
    rw [dif_neg]
    rwa [hx] at ht
  · rfl

theorem operation_of_isSystem {n : String} {t : Transmission S V}
    (ht : t.instance_.isSystem = true) : operation n t = none := by
  unfold operation
  split
  · rename_i m x hx
    rw [hx] at ht
    cases ht
  · rfl

theorem operations_singleton {n : String} {x : Struct V (S.descriptor n)} {t : Transmission S V}
    (ht : t.instance_ = .struct n x) : operations n [t] = [structOp t.header x] := by
  simp [operations, operation_struct ht]

/-- The transmissions of one type. -/
def ofType (n : String) (ts : List (Transmission S V)) : List (Transmission S V) :=
  ts.filter fun t => t.instance_.typeName == n

theorem ofType_append (n : String) (ts us : List (Transmission S V)) :
    ofType n (ts ++ us) = ofType n ts ++ ofType n us := List.filter_append ..

theorem ofType_map_wire (n : String) (ts : List (Transmission S V)) :
    ofType n (ts.map .wire) = (ofType n ts).map .wire := by
  simp only [ofType, List.filter_map]
  congr 1
  exact List.filter_congr fun t _ => by simp [Transmission.wire]

theorem operations_ofType (n : String) (ts : List (Transmission S V)) :
    operations n (ofType n ts) = operations n ts := by
  induction ts with
  | nil => rfl
  | cons t ts ih =>
    by_cases ht : t.instance_.typeName = n
    · rw [ofType, List.filter_cons_of_pos (by simpa using ht)]
      have htail : (List.filter _ ts).filterMap (operation n) = _ := ih
      simp only [operations, List.filterMap_cons, htail]
    · rw [ofType, List.filter_cons_of_neg (by simpa using ht)]
      simp only [operations, List.filterMap_cons, operation_of_ne ht]
      exact ih

section Container

variable [Ord V] [Std.TransOrd V] [Std.LawfulEqOrd V]

def Container.view (c : Container V d) : Table (List (Option V)) (CloneView V d) := fun k =>
  (c.lookup k).map Clone.view

theorem view_stored (e : Option (Clone V d)) (h : DotsHeader) (x : Struct V d)
    (now : Timepoint) :
    Clone.view (Container.stored e h x now) = storedView (e.map Clone.view) h x := by
  cases e <;> rfl

/-- The container operation of a dispatch, on views. -/
theorem view_apply (c : Container V d) (h : DotsHeader) (x : Struct V d) (now : Timepoint) :
    (ContainerPool.apply c h x now).view = (structOp h x).apply c.view := by
  funext k
  by_cases hk : k = x.key
  · subst hk
    rw [show x.key = (structOp h x).key from rfl, Op.apply_self]
    simp only [structOp, Container.view, ContainerPool.lookup_apply_self]
    split_ifs
    · rfl
    · rw [Option.map_some, view_stored]
  · rw [Op.apply_of_ne hk, Container.view, ContainerPool.lookup_apply_of_ne hk]
    rfl

/-- **A dispatch** does to the view of a cached type what its transmission stands for. -/
theorem view_dispatchEvent {n : String} (hn : (S.descriptor n).cached = true)
    (pool : ContainerPool S V) (t : Transmission S V) (now : Timepoint) :
    ((pool.dispatchEvent t now).1 n).view = drain (pool n).view (operations n [t]) := by
  by_cases ht : t.instance_.typeName = n
  · have hc : t.instance_.cached = true := by rw [AnyStruct.cached_eq, ht, hn]
    obtain ⟨m, x, hx, hm⟩ := ContainerPool.exists_struct_of_cached hc
    obtain rfl : m = n := by rwa [hx] at ht
    rw [ContainerPool.dispatchEvent_fst hx hm, ContainerPool.set_self, view_apply,
      operations_singleton hx]
    rfl
  · rw [ContainerPool.dispatchEvent_of_ne fun h => ht h.symm]
    simp [operations, operation_of_ne ht]

end Container

/-! ## What arrives -/

/-- The header names what a replica needs: the keys, and all valid properties if the instance is
new there. -/
def Covers (v : Option (CloneView V d)) (h : DotsHeader) (x : Struct V d) : Prop :=
  d.keyProperties ⊆ h.attributes ∧
    (h.removeObj = some true ∨ v ≠ none ∨ x.validProperties ⊆ h.attributes)

/-- **What arrives of a transmission** does the same to a view that it covers. -/
theorem structOp_restrict {h : DotsHeader} {x : Struct V d}
    {m : Table (List (Option V)) (CloneView V d)} (hc : Covers (m x.key) h x) :
    (structOp h (x.restrict h.attributes)).apply m = (structOp h x).apply m := by
  refine Op.apply_congr (Struct.key_restrict hc.1) ?_
  simp only [structOp]
  split_ifs with hr
  · rfl
  · congr 1
    cases hm : m x.key with
    | none =>
      rcases hc.2 with hr' | hm' | hv
      · exact absurd hr' hr
      · exact absurd hm hm'
      · simp only [storedView]
        rw [← Struct.restrict_eq_self_iff.mpr hv]
    | some v =>
      simp only [storedView]
      rw [Struct.updateWithoutKeys_congr (Struct.restrict_agreeOn x h.attributes)]

theorem operations_wire {n : String} {x : Struct V (S.descriptor n)} {t : Transmission S V}
    (ht : t.instance_ = .struct n x) :
    operations n [t.wire] = [structOp t.header (x.restrict t.header.attributes)] :=
  operations_singleton (by simp [Transmission.wire, ht, AnyStruct.restrict])

/-! ## The replay of a container -/

/-- The transmission of a clone in a replay. -/
def cloneOp (e : Clone V d) : Op (List (Option V)) (CloneView V d) where
  key := e.1.key
  effect v := some (match v with
    | none => e.view
    | some v =>
      (v.1.updateWithoutKeys e.1 e.1.validProperties, e.2.lastUpdateFrom, e.2.modified))

/-- An update by all valid properties of an instance leaves that instance exactly if nothing else
was valid. -/
theorem updateWithoutKeys_eq_iff {x y : Struct V d} (hk : x.key = y.key) :
    x.updateWithoutKeys y y.validProperties = y ↔ x.validProperties ⊆ y.validProperties := by
  constructor
  · intro h t ht
    by_contra hn
    have hv := congrArg (fun z : Struct V d => z.value t) h
    simp only [Struct.updateWithoutKeys_value] at hv
    rw [if_neg fun hc => hn hc.1] at hv
    obtain ⟨v, hx⟩ := Struct.mem_validProperties.mp ht
    rw [hx] at hv
    exact hn (Struct.mem_validProperties.mpr ⟨v, hv.symm⟩)
  · intro h
    ext1; funext t
    rw [Struct.updateWithoutKeys_value]
    split_ifs with hc
    · rfl
    · by_cases ht : t ∈ y.validProperties
      · -- a key, on which the two agree
        have hkey : t ∈ d.keyProperties := by
          by_contra hn
          exact hc ⟨ht, hn⟩
        exact Struct.agreeOn_of_key_eq hk t hkey
      · rw [Struct.value_eq_none_iff.mpr ht, Struct.value_eq_none_iff.mpr fun hx => ht (h hx)]

variable [Ord V] [Std.TransOrd V] [Std.LawfulEqOrd V]

/-- A clone of the container itself is no news. -/
theorem cloneOp_apply_self {c : Container V d} {e : Clone V d}
    (he : c.lookup e.1.key = some e) : (cloneOp e).apply c.view = c.view := by
  funext k
  by_cases hk : k = e.1.key
  · subst hk
    refine (Op.apply_self (cloneOp e) c.view).trans ?_
    simp only [cloneOp, Container.view, he, Option.map_some, Clone.view]
    rw [(updateWithoutKeys_eq_iff rfl).mpr subset_rfl]
  · exact Op.apply_of_ne hk c.view

/-- The operations of the replay of a container. -/
def replayed (c : Container V d) : List (Op (List (Option V)) (CloneView V d)) :=
  c.clones.map cloneOp

theorem replayed_nodup (c : Container V d) : ((replayed c).map Op.key).Nodup := by
  rw [replayed, List.map_map]
  exact c.clones_keys_nodup

/-- The replica has a key that the container lacks, or a valid property that the container's
instance lacks. -/
def Stale (m : Table (List (Option V)) (CloneView V d)) (c : Container V d) : Prop :=
  ∃ k v, m k = some v ∧ ∀ e, c.lookup k = some e → ¬ v.1.validProperties ⊆ e.1.validProperties

/-- **The replay of a container** brings a replica up exactly if the replica holds nothing
stale. -/
theorem drain_replayed_iff {c : Container V d} {m : Table (List (Option V)) (CloneView V d)}
    (hkeyed : ∀ k v, m k = some v → v.1.key = k) :
    drain m (replayed c) = c.view ↔ ¬ Stale m c := by
  rw [drain_eq_iff (replayed_nodup c)]
  have hmem (k : List (Option V)) :
      (∀ o ∈ replayed c, k ≠ o.key) ↔ c.lookup k = none := by
    constructor
    · intro h
      by_contra hne
      obtain ⟨e, he⟩ := Option.ne_none_iff_exists'.mp hne
      have hk := Container.key_of_lookup he
      refine h (cloneOp e) (List.mem_map_of_mem (Container.mem_clones.mpr ?_)) hk.symm
      rwa [hk]
    · intro h o ho hk
      obtain ⟨e, he, rfl⟩ := List.mem_map.mp ho
      have hl := Container.mem_clones.mp he
      rw [show e.1.key = k from hk.symm, h] at hl
      cases hl
  have heffect (e : Clone V d) (he : c.lookup e.1.key = some e) :
      (cloneOp e).effect (m e.1.key) = c.view e.1.key ↔
        ∀ v, m e.1.key = some v → v.1.validProperties ⊆ e.1.validProperties := by
    rw [Container.view, he, Option.map_some]
    cases hm : m e.1.key with
    | none => simp [cloneOp]
    | some v =>
      simp only [cloneOp, Option.some.injEq, forall_eq', Clone.view, Prod.mk.injEq, and_true]
      exact updateWithoutKeys_eq_iff (hkeyed _ _ hm)
  constructor
  · rintro ⟨hself, hrest⟩ ⟨k, v, hv, hstale⟩
    cases hl : c.lookup k with
    | none =>
      have hr := hrest k ((hmem k).mpr hl)
      rw [hv, Container.view, hl] at hr
      cases hr
    | some e =>
      obtain rfl := Container.key_of_lookup hl
      have hs := hself (cloneOp e) (List.mem_map_of_mem (Container.mem_clones.mpr hl))
      exact hstale e hl ((heffect e hl).mp hs v hv)
  · intro hns
    refine ⟨fun o ho => ?_, fun k hk => ?_⟩
    · obtain ⟨e, he, rfl⟩ := List.mem_map.mp ho
      have hl := Container.mem_clones.mp he
      refine (heffect e hl).mpr fun v hv => ?_
      by_contra hn
      refine hns ⟨e.1.key, v, hv, fun e' he' => ?_⟩
      obtain rfl := Option.some.inj (hl.symm.trans he')
      exact hn
    · have hl := (hmem k).mp hk
      rw [Container.view, hl]
      by_contra hne
      obtain ⟨v, hv⟩ := Option.ne_none_iff_exists'.mp hne
      exact hns ⟨k, v, hv, fun e he => by rw [hl] at he; cases he⟩

/-! ## Keyed tables -/

/-- Every instance is under its own key. -/
def Keyed (m : Table (List (Option V)) (CloneView V d)) : Prop :=
  ∀ k v, m k = some v → v.1.key = k

theorem keyed_view (c : Container V d) : Keyed c.view := by
  intro k v hv
  obtain ⟨e, he, rfl⟩ := Option.map_eq_some_iff.mp hv
  exact Container.key_of_lookup he

theorem keyed_structOp {m : Table (List (Option V)) (CloneView V d)} (hm : Keyed m)
    (h : DotsHeader) (x : Struct V d) : Keyed ((structOp h x).apply m) := by
  intro k v hv
  by_cases hk : k = x.key
  · subst hk
    have hself := (structOp h x).apply_self m
    rw [show (structOp h x).key = x.key from rfl, hv] at hself
    simp only [structOp] at hself
    split_ifs at hself
    obtain rfl := Option.some.inj hself
    cases hx : m x.key with
    | none => rfl
    | some w => simpa [storedView] using hm _ _ hx
  · rw [Op.apply_of_ne hk] at hv
    exact hm k v hv

theorem keyed_drain {n : String} {m : Table (List (Option V)) (CloneView V (S.descriptor n))}
    (hm : Keyed m) (ts : List (Transmission S V)) : Keyed (drain m (operations n ts)) := by
  induction ts generalizing m with
  | nil => exact hm
  | cons t ts ih =>
    cases ht : operation n t with
    | none =>
      simp only [operations, List.filterMap_cons, ht]
      exact ih hm
    | some o =>
      simp only [operations, List.filterMap_cons, ht, drain_cons]
      refine ih ?_
      unfold operation at ht
      split at ht
      · split_ifs at ht with hmn
        subst hmn
        obtain rfl := Option.some.inj ht
        exact keyed_structOp hm _ _
      · cases ht

/-- A replica that agrees with a container holds nothing stale. -/
theorem not_stale_view (c : Container V d) : ¬ Stale c.view c := by
  rintro ⟨k, v, hv, hstale⟩
  obtain ⟨e, he, rfl⟩ := Option.map_eq_some_iff.mp hv
  exact hstale e he subset_rfl

theorem not_stale_empty (c : Container V d) : ¬ Stale (fun _ => none) c := by
  rintro ⟨k, v, hv, -⟩
  cases hv

end Dots

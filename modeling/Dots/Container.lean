import Dots.Message
import Std.Data.ExtTreeMap.Lemmas

/-!
# Containers

A container is an ordered map of the instances of one type, each stored under its own key and
with its clone information.

* `updateWithoutKeys`, **`updateWithoutKeys_value`**: an update overwrites the non-key properties
  of the header's attributes and nothing else.
* `insert`, `remove`: the source's operations; `lookup_insert`, `lookup_remove` say what they do
  to every key.
-/

set_option autoImplicit false
set_option linter.unusedSectionVars false

namespace Dots

variable {V : Type} {d : StructDescriptor}

/-! ## Updating an instance -/

namespace Struct

/-- Give the property `t` the value it has in `rhs`. -/
def assignProperty (lhs rhs : Struct V d) (t : Tag) : Struct V d where
  value := Function.update lhs.value t (rhs.value t)
  value_eq_none s hs := by
    rcases eq_or_ne s t with rfl | hst
    · rw [Function.update_self, rhs.value_eq_none s hs]
    · rw [Function.update_of_ne hst, lhs.value_eq_none s hs]

/-- Make the property `t` invalid. -/
def destructProperty (lhs : Struct V d) (t : Tag) : Struct V d where
  value := Function.update lhs.value t none
  value_eq_none s hs := by
    rcases eq_or_ne s t with rfl | hst
    · exact Function.update_self ..
    · rw [Function.update_of_ne hst, lhs.value_eq_none s hs]

/-- One turn of the loop in `updateWithoutKeys`. -/
def updateProperty (rhs : Struct V d) (updateSet : PropertySet) (lhs : Struct V d)
    (p : PropertyDescriptor) : Struct V d :=
  if p.set ⊆ updateSet then
    if p.set ⊆ rhs.validProperties then lhs.assignProperty rhs p.tag
    else lhs.destructProperty p.tag
  else lhs

/-- `Container::updateWithoutKeys`. -/
def updateWithoutKeys (lhs rhs : Struct V d) (includedSet : PropertySet) : Struct V d :=
  let updateSet := (lhs.validProperties ∪ rhs.validProperties) ∩ includedSet
  d.noKeyPropertyDescriptors.foldl (updateProperty rhs updateSet) lhs

theorem updateProperty_value (rhs lhs : Struct V d) (u : PropertySet) (p : PropertyDescriptor)
    (t : Tag) : (updateProperty rhs u lhs p).value t =
      if t = p.tag ∧ t ∈ u then rhs.value t else lhs.value t := by
  simp only [updateProperty, PropertyDescriptor.set, Finset.singleton_subset_iff]
  by_cases ht : t = p.tag
  · subst ht
    by_cases hu : p.tag ∈ u
    · by_cases hr : p.tag ∈ rhs.validProperties
      · simp [hu, hr, assignProperty]
      · simp [hu, hr, destructProperty, value_eq_none_iff.mpr hr]
    · simp [hu]
  · have hnot : ¬ (t = p.tag ∧ t ∈ u) := fun h => ht h.1
    rw [if_neg hnot]
    by_cases hu : p.tag ∈ u
    · by_cases hr : p.tag ∈ rhs.validProperties
      · simp [hu, hr, assignProperty, Function.update_of_ne ht]
      · simp [hu, hr, destructProperty, Function.update_of_ne ht]
    · simp [hu]

theorem foldl_updateProperty_value (rhs : Struct V d) (u : PropertySet) (t : Tag)
    (ps : List PropertyDescriptor) (lhs : Struct V d) :
    (ps.foldl (updateProperty rhs u) lhs).value t =
      if t ∈ ps.map PropertyDescriptor.tag ∧ t ∈ u then rhs.value t else lhs.value t := by
  induction ps generalizing lhs with
  | nil => simp
  | cons p ps ih =>
    rw [List.foldl_cons, ih, updateProperty_value]
    simp only [List.map_cons, List.mem_cons]
    split_ifs with h1 h2 h3 h4 h5
    all_goals first | rfl | (exfalso; tauto)

/-- **An update** overwrites the non-key properties in the included set and nothing else. -/
theorem updateWithoutKeys_value (lhs rhs : Struct V d) (s : PropertySet) (t : Tag) :
    (updateWithoutKeys lhs rhs s).value t =
      if t ∈ s ∧ t ∉ d.keyProperties then rhs.value t else lhs.value t := by
  simp only [updateWithoutKeys, foldl_updateProperty_value, StructDescriptor.mem_noKey_tags,
    Finset.mem_inter, Finset.mem_union]
  by_cases hv : t ∈ lhs.validProperties ∨ t ∈ rhs.validProperties
  · have hd : t ∈ d.properties :=
      hv.elim (fun h => validProperties_subset _ h) fun h => validProperties_subset _ h
    simp only [hv, hd, true_and, and_comm]
  · -- a property valid on neither side stays as it is, and both sides read the same there
    obtain ⟨hl, hr⟩ := not_or.mp hv
    rw [← value_eq_none_iff] at hl hr
    rw [hl, hr]
    split_ifs <;> rfl

@[simp] theorem key_updateWithoutKeys (lhs rhs : Struct V d) (s : PropertySet) :
    (updateWithoutKeys lhs rhs s).key = lhs.key :=
  key_congr fun t ht => by rw [updateWithoutKeys_value, if_neg fun h => h.2 ht]

/-- An update only looks at the included non-key properties. -/
theorem updateWithoutKeys_congr {lhs a b : Struct V d} {s : PropertySet} (h : AgreeOn s a b) :
    updateWithoutKeys lhs a s = updateWithoutKeys lhs b s := by
  ext1; funext t
  simp only [updateWithoutKeys_value]
  split_ifs with hc
  · exact h t hc.1
  · rfl

end Struct

/-! ## The container -/

/-- The clone information of an instance that is created by `h`. -/
def DotsCloneInformation.created' (h : DotsHeader) (now : Timepoint) : DotsCloneInformation where
  lastOperation := .create
  lastUpdateFrom := h.sender
  created := h.sentTime
  createdFrom := h.sender
  modified := h.sentTime
  localUpdateTime := now

/-- The clone information after an update or a remove by `h`. -/
def DotsCloneInformation.touch (i : DotsCloneInformation) (mt : DotsMt) (h : DotsHeader)
    (now : Timepoint) : DotsCloneInformation :=
  { i with
    lastOperation := mt
    lastUpdateFrom := h.sender
    modified := h.sentTime
    localUpdateTime := now }

/-- An instance with its clone information. -/
abbrev Clone (V : Type) (d : StructDescriptor) := Struct V d × DotsCloneInformation

variable [Ord V] [Std.TransOrd V] [Std.LawfulEqOrd V]

variable (V d) in
/-- `Container`: the instances of one type in the order of their keys. -/
structure Container where
  instances : Std.ExtTreeMap (List (Option V)) (Clone V d)
  keyed : ∀ (k : List (Option V)) (e : Clone V d), instances[k]? = some e → e.1.key = k

namespace Container

variable (c : Container V d)

def empty : Container V d where
  instances := ∅
  keyed := by simp

/-- The clone stored under a key. -/
def lookup (k : List (Option V)) : Option (Clone V d) := c.instances[k]?

def findClone (x : Struct V d) : Option (Clone V d) := c.lookup x.key

/-- The clones in the order in which a loop over the container meets them. -/
def clones : List (Clone V d) := c.instances.toList.map Prod.snd

/-- What `insert` stores for the key of `x`, given what was there. -/
def stored (e : Option (Clone V d)) (h : DotsHeader) (x : Struct V d) (now : Timepoint) :
    Clone V d :=
  match e with
  | none => (x, .created' h now)
  | some e => (e.1.updateWithoutKeys x h.attributes, e.2.touch .update h now)

theorem key_stored (h : DotsHeader) (x : Struct V d) (now : Timepoint) :
    (stored (c.findClone x) h x now).1.key = x.key := by
  cases he : c.findClone x with
  | none => rfl
  | some e => simpa [stored] using c.keyed _ _ he

/-- `Container::insert`: the container and the clone it returns. -/
def insert (h : DotsHeader) (x : Struct V d) (now : Timepoint) : Container V d × Clone V d :=
  let e := stored (c.findClone x) h x now
  ({ instances := c.instances.insert x.key e
     keyed := fun k e' he' => by
      rw [Std.ExtTreeMap.getElem?_insert] at he'
      split at he'
      · obtain rfl := Option.some.inj he'
        rw [c.key_stored]
        exact Std.LawfulEqOrd.eq_of_compare ‹_›
      · exact c.keyed _ _ he' }, e)

/-- `Container::remove`: the container and the extracted clone, if there was one. -/
def remove (h : DotsHeader) (x : Struct V d) (now : Timepoint) :
    Container V d × Option (Clone V d) :=
  ({ instances := c.instances.erase x.key
     keyed := fun k e' he' => by
      rw [Std.ExtTreeMap.getElem?_erase] at he'
      split at he'
      · cases he'
      · exact c.keyed _ _ he' },
    (c.findClone x).map fun e =>
      (e.1.updateWithoutKeys x h.attributes, e.2.touch .remove h now))

variable {c}

@[ext] theorem ext {c c' : Container V d} (h : ∀ k, c.lookup k = c'.lookup k) : c = c' := by
  obtain ⟨m, hm⟩ := c
  obtain ⟨m', hm'⟩ := c'
  obtain rfl : m = m' := Std.ExtTreeMap.ext_getElem? h
  rfl

theorem key_of_lookup {k : List (Option V)} {e : Clone V d} (h : c.lookup k = some e) :
    e.1.key = k := c.keyed k e h

@[simp] theorem lookup_empty (k : List (Option V)) :
    (empty : Container V d).lookup k = none := by
  simp [lookup, empty]

theorem lookup_insert_self (h : DotsHeader) (x : Struct V d) (now : Timepoint) :
    (c.insert h x now).1.lookup x.key = some (stored (c.lookup x.key) h x now) := by
  simp [lookup, insert, findClone]

theorem lookup_insert_of_ne {h : DotsHeader} {x : Struct V d} {now : Timepoint}
    {k : List (Option V)} (hk : k ≠ x.key) :
    (c.insert h x now).1.lookup k = c.lookup k := by
  simp [lookup, insert, Std.ExtTreeMap.getElem?_insert, Ne.symm hk]

@[simp] theorem insert_snd (h : DotsHeader) (x : Struct V d) (now : Timepoint) :
    (c.insert h x now).2 = stored (c.lookup x.key) h x now := rfl

theorem lookup_remove_self (h : DotsHeader) (x : Struct V d) (now : Timepoint) :
    (c.remove h x now).1.lookup x.key = none := by
  simp [lookup, remove]

theorem lookup_remove_of_ne {h : DotsHeader} {x : Struct V d} {now : Timepoint}
    {k : List (Option V)} (hk : k ≠ x.key) :
    (c.remove h x now).1.lookup k = c.lookup k := by
  simp [lookup, remove, Std.ExtTreeMap.getElem?_erase, Ne.symm hk]

theorem mem_clones {e : Clone V d} : e ∈ c.clones ↔ c.lookup e.1.key = some e := by
  simp only [clones, List.mem_map]
  constructor
  · rintro ⟨⟨k, e'⟩, hm, rfl⟩
    have hk := Std.ExtTreeMap.mem_toList_iff_getElem?_eq_some.mp hm
    rw [c.keyed k e' hk]
    exact hk
  · intro h
    exact ⟨(e.1.key, e), Std.ExtTreeMap.mem_toList_iff_getElem?_eq_some.mpr h, rfl⟩

/-- A loop over a container meets the clones in the order of their keys. -/
theorem clones_sorted : c.clones.Pairwise fun a b => compare a.1.key b.1.key = .lt := by
  have hkeys : ∀ p ∈ c.instances.toList, p.2.1.key = p.1 := fun p hp =>
    c.keyed p.1 p.2 (Std.ExtTreeMap.mem_toList_iff_getElem?_eq_some.mp hp)
  rw [clones, List.pairwise_map]
  refine (Std.ExtTreeMap.ordered_keys_toList (t := c.instances)).imp_of_mem fun ha hb hab => ?_
  rw [hkeys _ ha, hkeys _ hb]
  exact hab

/-- The first clone with a property is the one with the smallest key. -/
theorem find?_clones {p : Clone V d → Bool} {e : Clone V d} (h : c.clones.find? p = some e) :
    p e = true ∧ c.lookup e.1.key = some e ∧
      ∀ e', c.lookup e'.1.key = some e' → p e' = true → e' = e ∨
        compare e.1.key e'.1.key = .lt := by
  obtain ⟨hp, as, bs, he, has⟩ := List.find?_eq_some_iff_append.mp h
  refine ⟨hp, mem_clones.mp (he ▸ by simp), fun e' hl hp' => ?_⟩
  have hm := mem_clones.mpr hl
  have hs := c.clones_sorted
  rw [he] at hm hs
  rcases List.mem_append.mp hm with hm | hm
  · exact absurd (has e' hm) (by simp [hp'])
  · rcases List.mem_cons.mp hm with rfl | hm
    · exact .inl rfl
    · exact .inr (List.rel_of_pairwise_cons (List.pairwise_append.mp hs).2.1 hm)

theorem find?_clones_none {p : Clone V d → Bool} (h : c.clones.find? p = none) {e : Clone V d}
    (he : c.lookup e.1.key = some e) : ¬ p e = true :=
  List.find?_eq_none.mp h e (mem_clones.mpr he)

/-- No two clones of a container have the same key. -/
theorem clones_keys_nodup : (c.clones.map fun e => e.1.key).Nodup := by
  have hkeys : c.clones.map (fun e => e.1.key) = c.instances.toList.map Prod.fst := by
    rw [clones, List.map_map]
    refine List.map_congr_left fun p hp => ?_
    exact c.keyed p.1 p.2 (Std.ExtTreeMap.mem_toList_iff_getElem?_eq_some.mp hp)
  rw [hkeys, List.Nodup, List.pairwise_map]
  refine Std.ExtTreeMap.distinct_keys_toList.imp fun {a b} hab heq => hab ?_
  exact Std.LawfulEqOrd.compare_eq_iff_eq.mpr heq

end Container

end Dots

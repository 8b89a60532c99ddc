import Dots.Type.Operations

/-!
# Compiled structs and descriptors agree

* `constructValue_eq`, `assignValue_eq`, `swapValue_eq`, `equalValue_eq`, `lessValue_eq`: what the
  descriptor of a type does to a value is what the compiler does.
* One lemma for each operation: the loop of the descriptor is the fold of the compiled struct.
* **`operations_agree`**: all operations agree, on all instances and property sets.
-/

set_option autoImplicit false

namespace Dots

mutual

/-- The properties of a struct have distinct tags, at every level. -/
def TypeDescriptor.DistinctTags : TypeDescriptor → Prop
  | .fundamental _ => True
  | .enumeration _ _ => True
  | .vector d => d.DistinctTags
  | .struct ps => ps.DistinctTags

def PropertyDescriptors.DistinctTags : PropertyDescriptors → Prop
  | .nil => True
  | .cons p d ps => p.tag ∉ ps.tags ∧ d.DistinctTags ∧ ps.DistinctTags

end

mutual

theorem TypeDescriptor.WellFormed.distinctTags : (d : TypeDescriptor) → d.WellFormed →
    d.DistinctTags
  | .fundamental _, _ => trivial
  | .enumeration _ _, _ => trivial
  | .vector d, h => TypeDescriptor.WellFormed.distinctTags d h
  | .struct ps, h => PropertyDescriptors.WellFormed.distinctTags ps h

theorem PropertyDescriptors.WellFormed.distinctTags : (ps : PropertyDescriptors) → ps.WellFormed →
    ps.DistinctTags
  | .nil, _ => trivial
  | .cons _ d ps, ⟨hp, hd, hps⟩ => ⟨hp, TypeDescriptor.WellFormed.distinctTags d hd,
      PropertyDescriptors.WellFormed.distinctTags ps hps⟩

end

/-! ## Valid properties -/

namespace Instance

variable {p : PropertyDescriptor} {d : TypeDescriptor} {ps : PropertyDescriptors}
  {v : Option (Value d)} {x : Instance ps}

theorem mem_validProperties_cons {t : Tag} :
    t ∈ validProperties (.cons p d ps) (v, x) ↔
      (v.isSome = true ∧ t = p.tag) ∨ t ∈ validProperties ps x := by
  cases v <;> simp [validProperties, PropertyDescriptor.set]

theorem mem_tags {t : Tag} (h : t ∈ validProperties ps x) : t ∈ ps.tags :=
  List.mem_toFinset.mp (validProperties_subset ps x h)

/-- The bit of a property tells whether it is valid. -/
theorem tag_mem_validProperties (hp : p.tag ∉ ps.tags) :
    p.tag ∈ validProperties (.cons p d ps) (v, x) ↔ v.isSome = true := by
  rw [mem_validProperties_cons]
  have hx : p.tag ∉ validProperties ps x := fun h => hp (mem_tags h)
  simp [hx]

theorem mem_validProperties_tail {t : Tag} (hp : p.tag ∉ ps.tags) (ht : t ∈ ps.tags) :
    t ∈ validProperties (.cons p d ps) (v, x) ↔ t ∈ validProperties ps x := by
  rw [mem_validProperties_cons]
  have hne : t ≠ p.tag := fun h => hp (h ▸ ht)
  simp [hne]

end Instance

/-! ## The values of a descriptor -/

/-- A property is assigned like its value. -/
theorem Property.assign_eq {α : Type} {construct : α → α} {assign : α → α → α}
    (hc : ∀ w, construct w = w) (ha : ∀ v w, assign v w = w) (v w : Option α) :
    Property.assign construct assign v w = w := by
  cases w with
  | none => rfl
  | some w =>
    cases v with
    | none => exact congrArg some (hc w)
    | some v => exact congrArg some (ha v w)

namespace StaticStruct

theorem assignProperty_eq {α : Type} (v w : Option α) : assignProperty v w = w :=
  Property.assign_eq (fun _ => rfl) (fun _ _ => rfl) v w

/-- All properties are assigned. -/
theorem assign_univ : ∀ (ps : PropertyDescriptors) (x y : Instance ps),
    assign Finset.univ ps x y = y
  | .nil, _, _ => rfl
  | .cons p d ps, (v, x), (w, y) => by
    rw [assign, assign_univ ps x y, if_pos (Finset.subset_univ _), assignProperty_eq]

/-- All properties are swapped. -/
theorem swap_univ : ∀ (ps : PropertyDescriptors) (x y : Instance ps),
    swap Finset.univ ps x y = (y, x)
  | .nil, _, _ => rfl
  | .cons p d ps, (v, x), (w, y) => by
    rw [swap, swap_univ ps x y, if_pos (Finset.subset_univ _)]
    cases v <;> cases w <;> rfl

end StaticStruct

namespace StructDescriptor

mutual

theorem constructValue_eq : ∀ (d : TypeDescriptor) (v : Value d), constructValue d v = v
  | .fundamental _, _ => rfl
  | .enumeration _ _, _ => rfl
  | .vector d, vs => by
    have hd : constructValue d = id := funext (constructValue_eq d)
    refine Subtype.ext ?_
    simp only [constructValue, hd, List.map_id]
  | .struct ps, x => constructLoop_eq ps x _ fun _ h => h

theorem constructLoop_eq : ∀ (ps : PropertyDescriptors) (x : Instance ps) (s : PropertySet),
    x.validProperties ps ⊆ s → constructLoop s ps x = x
  | .nil, _, _, _ => rfl
  | .cons p d ps, (v, x), s, h => by
    have hx : constructLoop s ps x = x := constructLoop_eq ps x s fun t ht =>
      h (Instance.mem_validProperties_cons.mpr (.inr ht))
    rw [constructLoop, hx]
    cases v with
    | none => split_ifs <;> rfl
    | some v =>
      have hp : p.tag ∈ s := h (Instance.mem_validProperties_cons.mpr (.inl ⟨rfl, rfl⟩))
      rw [if_pos (PropertyDescriptor.set_subset_iff.mpr hp), Option.map_some,
        constructValue_eq d v]

end

mutual

theorem assignValue_eq : ∀ (d : TypeDescriptor) (v w : Value d), assignValue d v w = w
  | .fundamental _, _, _ => rfl
  | .enumeration _ _, _, _ => rfl
  | .vector d, _, w => constructValue_eq (.vector d) w
  | .struct ps, x, y => by
    have h := assignLoop_eq ps x y (y.validProperties ps ∩ Finset.univ) Finset.univ
      fun t ht => by simp [ht]
    exact h.trans (StaticStruct.assign_univ ps x y)

/-- The loop may ask for the included properties or for the valid ones among them. -/
theorem assignLoop_eq : ∀ (ps : PropertyDescriptors) (x y : Instance ps) (s included : PropertySet),
    (∀ t ∈ y.validProperties ps, t ∈ s ↔ t ∈ included) →
      assignLoop s ps x y = StaticStruct.assign included ps x y
  | .nil, _, _, _, _, _ => rfl
  | .cons p d ps, (v, x), (w, y), s, included, h => by
    have hx := assignLoop_eq ps x y s included fun t ht =>
      h t (Instance.mem_validProperties_cons.mpr (.inr ht))
    rw [assignLoop, StaticStruct.assign, hx, StaticStruct.assignProperty_eq,
      Property.assign_eq (constructValue_eq d) (assignValue_eq d)]
    simp only [PropertyDescriptor.set_subset_iff]
    cases w with
    | none => split_ifs <;> rfl
    | some w =>
      have hp : p.tag ∈ s ↔ p.tag ∈ included :=
        h p.tag (Instance.mem_validProperties_cons.mpr (.inl ⟨rfl, rfl⟩))
      simp only [hp]
      rfl

end

theorem assignProperty_eq (d : TypeDescriptor) (v w : Option (Value d)) :
    assignProperty d v w = w :=
  Property.assign_eq (constructValue_eq d) (assignValue_eq d) v w

mutual

theorem swapValue_eq : ∀ (d : TypeDescriptor) (v w : Value d), swapValue d v w = (w, v)
  | .fundamental _, _, _ => rfl
  | .enumeration _ _, _, _ => rfl
  | .vector _, _, _ => rfl
  | .struct ps, x, y => (swap_eq Finset.univ ps x y).trans (StaticStruct.swap_univ ps x y)

theorem swap_eq (included : PropertySet) : ∀ (ps : PropertyDescriptors) (x y : Instance ps),
    swap included ps x y = StaticStruct.swap included ps x y
  | .nil, _, _ => rfl
  | .cons p d ps, (v, x), (w, y) => by
    have hd : swapValue d = fun v w => (w, v) := funext fun v => funext (swapValue_eq d v)
    have hc : constructValue d = id := funext (constructValue_eq d)
    rw [swap, StaticStruct.swap, swap_eq included ps x y, hd, hc]

end

theorem clear_eq (included : PropertySet) : ∀ (ps : PropertyDescriptors) (x : Instance ps),
    clear included ps x = StaticStruct.clear included ps x
  | .cons p d ps, (v, x) => by rw [clear, StaticStruct.clear, clear_eq included ps x]
  | .nil, _ => rfl

/-! ## Assignment, copy and merge -/

variable {included : PropertySet} {ps : PropertyDescriptors}

theorem assign_eq (x y : Instance ps) :
    assign included ps x y = StaticStruct.assign included ps x y :=
  assignLoop_eq ps x y _ included fun t ht => by simp [ht]

/-- A copied property is valid in one of the instances, or the copy changes nothing. -/
theorem copyLoop_eq {s : PropertySet} : ∀ (ps : PropertyDescriptors) (x y : Instance ps),
    (∀ t ∈ x.validProperties ps ∪ y.validProperties ps, t ∈ s ↔ t ∈ included) →
      copyLoop s ps x y = StaticStruct.copy included ps x y
  | .nil, _, _, _ => rfl
  | .cons p d ps, (v, x), (w, y), h => by
    have hx : copyLoop s ps x y = StaticStruct.copy included ps x y :=
      copyLoop_eq ps x y fun t ht => h t <| by
        simp only [Finset.mem_union, Instance.mem_validProperties_cons] at ht ⊢
        exact ht.imp .inr .inr
    have hp : v.isSome = true ∨ w.isSome = true → (p.tag ∈ s ↔ p.tag ∈ included) := by
      intro hvw
      refine h p.tag ?_
      simp only [Finset.mem_union, Instance.mem_validProperties_cons, and_true]
      exact hvw.imp .inl .inl
    have hw : (if w.isSome then assignProperty d v w else none) = w := by
      cases w with
      | none => rfl
      | some w => exact assignProperty_eq d v (some w)
    rw [copyLoop, StaticStruct.copy, hx, hw, StaticStruct.assignProperty_eq]
    simp only [PropertyDescriptor.set_subset_iff]
    by_cases hvw : v.isSome = true ∨ w.isSome = true
    · simp only [hp hvw]
      rfl
    · simp only [not_or, Bool.not_eq_true, Option.isSome_eq_false_iff, Option.isNone_iff_eq_none]
        at hvw
      rw [hvw.1, hvw.2, ite_self, ite_self]

theorem copy_eq (x y : Instance ps) : copy included ps x y = StaticStruct.copy included ps x y :=
  copyLoop_eq ps x y fun t ht => by simp [ht]

mutual

theorem mergeProperty_eq : ∀ (d : TypeDescriptor), d.DistinctTags → ∀ (v : Option (Value d))
    (w : Value d), mergeProperty d v (some w) = StaticStruct.mergeProperty d v w
  | .fundamental _, _, v, w => by
    rw [mergeProperty, StaticStruct.mergeProperty, assignProperty_eq, StaticStruct.assignProperty_eq]
  | .enumeration _ _, _, v, w => by
    rw [mergeProperty, StaticStruct.mergeProperty, assignProperty_eq, StaticStruct.assignProperty_eq]
  | .vector _, _, v, w => by
    rw [mergeProperty, StaticStruct.mergeProperty, assignProperty_eq, StaticStruct.assignProperty_eq]
  | .struct ps, h, v, w => by
    have hm := mergeLoop_eq ps h (v.getD (Instance.fresh ps)) w
      (Instance.validProperties ps w ∩ Finset.univ) Finset.univ fun t _ => by simp
    rw [mergeProperty, hm, StaticStruct.mergeProperty]

/-- The bits of the loop are those of the valid included properties. -/
theorem mergeLoop_eq : ∀ (ps : PropertyDescriptors), ps.DistinctTags → ∀ (x y : Instance ps)
    (s included : PropertySet),
    (∀ t ∈ ps.tags, t ∈ s ↔ t ∈ y.validProperties ps ∧ t ∈ included) →
      mergeLoop s ps x y = StaticStruct.merge included ps x y
  | .nil, _, _, _, _, _, _ => rfl
  | .cons p d ps, ⟨hp, hd, hps⟩, (v, x), (w, y), s, included, h => by
    have hx : mergeLoop s ps x y = StaticStruct.merge included ps x y :=
      mergeLoop_eq ps hps x y s included fun t ht => by
        rw [h t (List.mem_cons_of_mem _ ht), Instance.mem_validProperties_tail hp ht]
    have hw : p.tag ∈ s ↔ w.isSome = true ∧ p.tag ∈ included := by
      rw [h p.tag List.mem_cons_self, Instance.tag_mem_validProperties hp]
    cases w with
    | none =>
      simp only [mergeLoop, StaticStruct.merge, hx, PropertyDescriptor.set_subset_iff, hw,
        Option.isSome_none, Bool.false_eq_true, false_and, if_false, ite_self]
      rfl
    | some w =>
      simp only [mergeLoop, StaticStruct.merge, hx, PropertyDescriptor.set_subset_iff, hw,
        Option.isSome_some, true_and, mergeProperty_eq d hd v w]
      rfl

end

theorem merge_eq (h : ps.DistinctTags) (x y : Instance ps) :
    merge included ps x y = StaticStruct.merge included ps x y :=
  mergeLoop_eq ps h x y _ included fun t _ => by simp

/-! ## Comparisons -/

variable (c : Comparison)

mutual

theorem equalValue_eq : ∀ (d : TypeDescriptor), equalValue c d = StaticStruct.equalValue c d
  | .fundamental _ => rfl
  | .enumeration _ _ => rfl
  | .vector d => by
    funext v w
    rw [equalValue, StaticStruct.equalValue, equalValue_eq d]
  | .struct ps => by
    funext x y
    exact equal_eq ps Finset.univ x y

theorem equal_eq : ∀ (ps : PropertyDescriptors) (included : PropertySet) (x y : Instance ps),
    equal c included ps x y = StaticStruct.equal c included ps x y
  | .nil, _, _, _ => rfl
  | .cons p d ps, included, (v, x), (w, y) => by
    rw [equal, StaticStruct.equal, equal_eq ps included x y, equalValue_eq d]
    split_ifs with hp he
    · rw [Bool.not_eq_true'] at he
      rw [he, Bool.false_and]
    · rw [Bool.not_eq_true', Bool.not_eq_false] at he
      rw [he, Bool.true_and]
    · rw [Bool.true_and]

end

theorem keySet_subset : ∀ (ps : PropertyDescriptors), keySet ps ⊆ ps.tags.toFinset
  | .nil => by simp [keySet]
  | .cons p d ps => by
    have ih := keySet_subset ps
    simp only [keySet, PropertyDescriptors.tags, List.toFinset_cons, PropertyDescriptor.set]
    apply Finset.union_subset
    · split_ifs <;> simp
    · exact ih.trans (Finset.subset_insert ..)

theorem tag_mem_keySet {p : PropertyDescriptor} {d : TypeDescriptor} (hp : p.tag ∉ ps.tags) :
    p.tag ∈ keySet (.cons p d ps) ↔ p.isKey = true := by
  have hn : p.tag ∉ keySet ps := fun hk => hp (List.mem_toFinset.mp (keySet_subset ps hk))
  rw [keySet]
  cases p.isKey <;> simp [PropertyDescriptor.set, hn]

theorem mem_keySet_tail {p : PropertyDescriptor} {d : TypeDescriptor} {t : Tag}
    (hp : p.tag ∉ ps.tags) (ht : t ∈ ps.tags) : t ∈ keySet (.cons p d ps) ↔ t ∈ keySet ps := by
  have hne : t ≠ p.tag := fun h => hp (h ▸ ht)
  rw [keySet]
  cases p.isKey <;> simp [PropertyDescriptor.set, hne]

/-- The bits of the key properties select the key properties. -/
theorem equal_keySet : ∀ (ps : PropertyDescriptors), ps.DistinctTags → ∀ (s : PropertySet)
    (x y : Instance ps), (∀ t ∈ ps.tags, t ∈ s ↔ t ∈ keySet ps) →
      equal c s ps x y = StaticStruct.same c ps x y
  | .nil, _, _, _, _, _ => rfl
  | .cons p d ps, ⟨hp, _, hps⟩, s, (v, x), (w, y), h => by
    have hk : p.tag ∈ s ↔ p.isKey = true := (h p.tag List.mem_cons_self).trans (tag_mem_keySet hp)
    have hx : equal c s ps x y = StaticStruct.same c ps x y :=
      equal_keySet ps hps s x y fun t ht =>
        (h t (List.mem_cons_of_mem _ ht)).trans (mem_keySet_tail hp ht)
    rw [equal, StaticStruct.same, hx, equalValue_eq]
    simp only [PropertyDescriptor.set_subset_iff, hk]
    split_ifs with hkey he
    · rw [Bool.not_eq_true'] at he
      rw [he, Bool.false_and]
    · rw [Bool.not_eq_true', Bool.not_eq_false] at he
      rw [he, Bool.true_and]
    · rfl

theorem same_eq (h : ps.DistinctTags) (x y : Instance ps) :
    same c ps x y = StaticStruct.same c ps x y :=
  equal_keySet c ps h _ x y fun _ _ => Iff.rfl

mutual

theorem lessValue_eq : ∀ (d : TypeDescriptor), lessValue c d = StaticStruct.lessValue c d
  | .fundamental _ => rfl
  | .enumeration _ _ => rfl
  | .vector d => by
    funext v w
    rw [lessValue, StaticStruct.lessValue, lessValue_eq d]
  | .struct ps => by
    funext x y
    exact lessLoop_eq ps Finset.univ x y Finset.univ_nonempty.ne_empty

/-- The nested ifs of the loop are the lexicographic fold. -/
theorem lessLoop_eq : ∀ (ps : PropertyDescriptors) (included : PropertySet) (x y : Instance ps),
    included ≠ ∅ → lessLoop c included ps x y = StaticStruct.less c included ps x y
  | .nil, _, _, _, _ => rfl
  | .cons p d ps, included, (v, x), (w, y), h => by
    have hx := lessLoop_eq ps included x y h
    simp only [lessLoop, StaticStruct.less, if_neg h, hx, lessValue_eq d]
    by_cases hp : p.set ⊆ included
    · simp only [hp, if_true, decide_true, Bool.true_and]
      split_ifs with hlt hgt
      · rw [hlt, Bool.true_or]
      · rw [Bool.not_eq_true] at hlt
        rw [hlt, hgt, Bool.not_true, Bool.false_and, Bool.false_or]
      · rw [Bool.not_eq_true] at hlt hgt
        rw [hlt, hgt, Bool.not_false, Bool.true_and, Bool.false_or]
    · simp only [hp, if_false, decide_false, Bool.false_and, Bool.not_false, Bool.true_and,
        Bool.false_or]

end

theorem less_eq (x y : Instance ps) :
    less c included ps x y = StaticStruct.less c included ps x y := by
  rw [less]
  split_ifs with h
  · cases ps with
    | nil => rfl
    | cons p d ps =>
      obtain ⟨v, x⟩ := x
      obtain ⟨w, y⟩ := y
      rw [StaticStruct.less, if_pos h]
  · exact lessLoop_eq c ps included x y h

theorem diffLoop_eq {s : PropertySet} : ∀ (ps : PropertyDescriptors) (x y : Instance ps),
    diffLoop c s ps x y = StaticStruct.checkInequality c s ps x y
  | .nil, _, _ => rfl
  | .cons p d ps, (v, x), (w, y) => by
    rw [diffLoop, StaticStruct.checkInequality, diffLoop_eq ps x y, equalValue_eq]
    by_cases hp : p.set ⊆ s
    · simp only [hp, if_true, true_and, Bool.not_eq_true', Bool.not_eq_true]
    · simp only [hp, if_false, false_and, Finset.empty_union]

theorem diffProperties_eq (x y : Instance ps) :
    diffProperties c included ps x y = StaticStruct.diffProperties c included ps x y := by
  rw [diffProperties, StaticStruct.diffProperties, diffLoop_eq]

end StructDescriptor

/-! ## All operations -/

/-- **Compiled structs and descriptors agree** on the result of every operation, whatever is valid
in the instances and whichever properties are included. -/
theorem StaticStruct.operations_agree (c : Comparison) (ps : PropertyDescriptors)
    (h : ps.DistinctTags) (included : PropertySet) (x y : Instance ps) :
    StaticStruct.assign included ps x y = StructDescriptor.assign included ps x y ∧
    StaticStruct.copy included ps x y = StructDescriptor.copy included ps x y ∧
    StaticStruct.merge included ps x y = StructDescriptor.merge included ps x y ∧
    StaticStruct.swap included ps x y = StructDescriptor.swap included ps x y ∧
    StaticStruct.clear included ps x = StructDescriptor.clear included ps x ∧
    StaticStruct.equal c included ps x y = StructDescriptor.equal c included ps x y ∧
    StaticStruct.same c ps x y = StructDescriptor.same c ps x y ∧
    StaticStruct.less c included ps x y = StructDescriptor.less c included ps x y ∧
    StaticStruct.diffProperties c included ps x y =
      StructDescriptor.diffProperties c included ps x y :=
  ⟨(StructDescriptor.assign_eq x y).symm, (StructDescriptor.copy_eq x y).symm,
    (StructDescriptor.merge_eq h x y).symm, (StructDescriptor.swap_eq included ps x y).symm,
    (StructDescriptor.clear_eq included ps x).symm,
    (StructDescriptor.equal_eq c ps included x y).symm, (StructDescriptor.same_eq c h x y).symm,
    (StructDescriptor.less_eq c x y).symm, (StructDescriptor.diffProperties_eq c x y).symm⟩

def positionProperties : PropertyDescriptors :=
  .cons ⟨"x", 1, false⟩ (.fundamental .int32) (.cons ⟨"y", 2, false⟩ (.fundamental .int32) .nil)

def position (x y : Option (BitVec 32)) : Instance positionProperties := (x, y, ())

/-- A struct with a key, a nested struct and a vector of structs. -/
def vehicleProperties : PropertyDescriptors :=
  .cons ⟨"id", 1, true⟩ (.fundamental .int32)
    (.cons ⟨"position", 2, false⟩ (.struct positionProperties)
      (.cons ⟨"stops", 5, false⟩ (.vector (.struct positionProperties)) .nil))

def parkedVehicle : Instance vehicleProperties :=
  (some (7 : BitVec 32), some (position (some 1) none), none, ())

def movingVehicle : Instance vehicleProperties :=
  (some (7 : BitVec 32), some (position none (some 2)),
    some ⟨[position (some 3) (some 4), position none none], by decide⟩, ())

/-- Integers only. -/
def int32Comparison : Comparison where
  equal
    | .int32 => fun (v w : BitVec 32) => v == w
    | _ => fun _ _ => false
  less
    | .int32 => fun (v w : BitVec 32) => v.slt w
    | _ => fun _ _ => false

/-- The merge of the two vehicles keeps the one coordinate and takes the other. -/
theorem StaticStruct.operations_agree_vehicle :
    StructDescriptor.merge {2} vehicleProperties parkedVehicle movingVehicle =
      (some (7 : BitVec 32), some (position (some 1) (some 2)), none, ()) ∧
    StructDescriptor.diffProperties int32Comparison Finset.univ vehicleProperties parkedVehicle
      movingVehicle = {2, 5} := by
  have h := StaticStruct.operations_agree int32Comparison vehicleProperties
    ⟨by decide, trivial, by decide, ⟨by decide, trivial, by decide, trivial, trivial⟩, by decide,
      ⟨by decide, trivial, by decide, trivial, trivial⟩, trivial⟩
  refine ⟨(h {2} parkedVehicle movingVehicle).2.2.1.symm.trans ?_,
    (h Finset.univ parkedVehicle movingVehicle).2.2.2.2.2.2.2.2.symm.trans ?_⟩
  · rfl
  · decide

end Dots

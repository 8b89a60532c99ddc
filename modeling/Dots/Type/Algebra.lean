import Dots.Type.Comparison

/-!
# The algebra of copy, merge and difference

* `PropertyDescriptors.Index`, `Instance.get`: a property of a list with its type, and its value.
* `get_copy`, `get_merge`, `equal_iff`, `mem_diffProperties`: each operation, property by property.
* `merge_self`, **`merge_assoc`**: merges of nested structs follow those of their properties.
* **`struct_algebra`**: the laws that relate the operations. A copy is equal to its original except
  for a NaN, which equals nothing.
-/

set_option autoImplicit false

namespace Dots

/-- A property of a list, with the descriptor of its values. -/
inductive PropertyDescriptors.Index :
    PropertyDescriptors → PropertyDescriptor → TypeDescriptor → Type
  | head {p : PropertyDescriptor} {d : TypeDescriptor} {ps : PropertyDescriptors} :
      Index (.cons p d ps) p d
  | tail {q p : PropertyDescriptor} {e d : TypeDescriptor} {ps : PropertyDescriptors}
      (i : Index ps p d) : Index (.cons q e ps) p d

/-- `type() == Type::Struct`. -/
def TypeDescriptor.isStruct : TypeDescriptor → Bool
  | .struct _ => true
  | _ => false

/-- The value of a property. -/
def Instance.get : {ps : PropertyDescriptors} → {p : PropertyDescriptor} → {d : TypeDescriptor} →
    ps.Index p d → Instance ps → Option (Value d)
  | _, _, _, .head, (v, _) => v
  | _, _, _, .tail i, (_, x) => get i x

variable {ps : PropertyDescriptors} {p : PropertyDescriptor} {d : TypeDescriptor}
  {included : PropertySet}

@[simp] theorem Instance.get_head (v : Option (Value d)) (x : Instance ps) :
    Instance.get (.head : (PropertyDescriptors.cons p d ps).Index p d) (v, x) = v := rfl

@[simp] theorem Instance.get_tail {q : PropertyDescriptor} {e : TypeDescriptor}
    (i : ps.Index p d) (v : Option (Value e)) (x : Instance ps) :
    Instance.get (.tail i : (PropertyDescriptors.cons q e ps).Index p d) (v, x) = x.get i := rfl

/-- A property of a longer list is the first one or one of the others. -/
theorem PropertyDescriptors.Index.exists_cons {q : PropertyDescriptor} {e : TypeDescriptor}
    {P : ∀ p d, (PropertyDescriptors.cons q e ps).Index p d → Prop} :
    (∃ p d, ∃ i, P p d i) ↔ P q e .head ∨ ∃ p d, ∃ i : ps.Index p d, P p d (.tail i) := by
  constructor
  · rintro ⟨p, d, i, h⟩
    cases i with
    | head => exact .inl h
    | tail i => exact .inr ⟨p, d, i, h⟩
  · rintro (h | ⟨p, d, i, h⟩)
    · exact ⟨q, e, .head, h⟩
    · exact ⟨p, d, .tail i, h⟩

theorem Instance.isSome_get : ∀ {ps : PropertyDescriptors} {p : PropertyDescriptor}
    {d : TypeDescriptor} (i : ps.Index p d) (x : Instance ps),
    (x.get i).isSome = true → p.tag ∈ x.validProperties ps
  | _, _, _, .head, (_, _), h => mem_validProperties_cons.mpr (.inl ⟨h, rfl⟩)
  | _, _, _, .tail i, (_, x), h => mem_validProperties_cons.mpr (.inr (isSome_get i x h))

theorem Instance.exists_get : ∀ {ps : PropertyDescriptors} {x : Instance ps} {t : Tag},
    t ∈ x.validProperties ps → ∃ p d, ∃ i : ps.Index p d, p.tag = t ∧ (x.get i).isSome = true
  | .nil, _, _, h => by simp [validProperties] at h
  | .cons p d ps, (v, x), t, h => by
    obtain ⟨hv, rfl⟩ | hx := mem_validProperties_cons.mp h
    · exact ⟨p, d, .head, rfl, hv⟩
    · obtain ⟨q, e, i, hq, hi⟩ := exists_get hx
      exact ⟨q, e, .tail i, hq, hi⟩

/-! ## Copy, equality and difference -/

namespace StructDescriptor

theorem get_staticCopy : ∀ {ps : PropertyDescriptors} (x y : Instance ps) (i : ps.Index p d),
    (StaticStruct.copy included ps x y).get i = if p.tag ∈ included then y.get i else x.get i
  | .cons _ _ _, (v, x), (w, y), .head => by
    rw [StaticStruct.copy, Instance.get_head, StaticStruct.assignProperty_eq]
    simp only [PropertyDescriptor.set_subset_iff, Instance.get_head]
  | .cons _ _ _, (_, x), (_, y), .tail i => get_staticCopy x y i

/-- **A copy** has the properties of the set from the other instance. -/
theorem get_copy (x y : Instance ps) (i : ps.Index p d) :
    (copy included ps x y).get i = if p.tag ∈ included then y.get i else x.get i := by
  rw [copy_eq, get_staticCopy]

theorem equal_iff (c : Comparison) : ∀ {ps : PropertyDescriptors} {x y : Instance ps},
    equal c included ps x y = true ↔ ∀ p d (i : ps.Index p d), p.tag ∈ included →
      Property.equal (equalValue c d) (x.get i) (y.get i) = true
  | .cons p d ps, (v, x), (w, y) => by
    rw [equal_cons, Bool.and_eq_true, equal_iff c]
    simp only [PropertyDescriptor.set_subset_iff]
    refine ⟨fun h q e i hq => ?_, fun h => ⟨?_, fun q e i => h q e (.tail i)⟩⟩
    · cases i with
      | head => simpa only [hq, if_true, Instance.get_head] using h.1
      | tail i => exact h.2 q e i hq
    · split_ifs with hp
      · exact h p d .head hp
      · rfl
  | .nil, _, _ => iff_of_true rfl fun _ _ i => nomatch i

theorem mem_diffLoop (c : Comparison) {s : PropertySet} {t : Tag} : ∀ {ps : PropertyDescriptors}
    {x y : Instance ps}, t ∈ diffLoop c s ps x y ↔ t ∈ s ∧ ∃ p d, ∃ i : ps.Index p d, p.tag = t ∧
      Property.equal (equalValue c d) (x.get i) (y.get i) = false
  | .cons p d ps, (v, x), (w, y) => by
    have ih : t ∈ diffLoop c s ps x y ↔ _ := mem_diffLoop c
    rw [PropertyDescriptors.Index.exists_cons, diffLoop]
    simp only [Instance.get_head, Instance.get_tail, PropertyDescriptor.set_subset_iff]
    split_ifs with hp he
    · rw [Finset.mem_union, ih, PropertyDescriptor.set, Finset.mem_singleton]
      grind
    · rw [Finset.empty_union, ih]
      grind
    · rw [ih]
      grind
  | .nil, _, _ => iff_of_false (by simp [diffLoop]) fun ⟨_, _, _, i, _⟩ => nomatch i

theorem diffProperties_eq_union (c : Comparison) (x y : Instance ps) :
    diffProperties c included ps x y =
      symmDiff (x.validProperties ps) (y.validProperties ps) ∩ included ∪
        diffLoop c (x.validProperties ps ∩ y.validProperties ps ∩ included) ps x y := by
  rw [diffProperties]
  split_ifs with h
  · have hloop : diffLoop c ∅ ps x y = ∅ := by
      refine Finset.eq_empty_of_forall_notMem fun t ht => ?_
      exact Finset.notMem_empty t ((mem_diffLoop c).mp ht).1
    rw [h, hloop, Finset.union_empty]
  · rfl

/-- Properties that are valid in one instance only are not equal. -/
theorem Property.equal_of_isSome_ne {α : Type} {equal : α → α → Bool} {v w : Option α}
    (h : v.isSome ≠ w.isSome) : Property.equal equal v w = false := by
  cases v <;> cases w <;> simp [Property.equal] at h ⊢

/-- **The difference** of two instances are the properties of the set that are not equal. -/
theorem mem_diffProperties (c : Comparison) {x y : Instance ps} {t : Tag} :
    t ∈ diffProperties c included ps x y ↔ t ∈ included ∧ ∃ p d, ∃ i : ps.Index p d, p.tag = t ∧
      Property.equal (equalValue c d) (x.get i) (y.get i) = false := by
  rw [diffProperties_eq_union, Finset.mem_union, mem_diffLoop, Finset.mem_inter,
    Finset.mem_symmDiff]
  simp only [Finset.mem_inter]
  constructor
  · rintro (⟨⟨hx, hy⟩ | ⟨hy, hx⟩, ht⟩ | ⟨ht, hequal⟩)
    · obtain ⟨p, d, i, rfl, hi⟩ := Instance.exists_get hx
      have hyi : (y.get i).isSome ≠ true := fun hyi => hy (Instance.isSome_get i y hyi)
      exact ⟨ht, p, d, i, rfl, Property.equal_of_isSome_ne (by rw [hi]; exact hyi.symm)⟩
    · obtain ⟨p, d, i, rfl, hi⟩ := Instance.exists_get hy
      have hxi : (x.get i).isSome ≠ true := fun hxi => hx (Instance.isSome_get i x hxi)
      exact ⟨ht, p, d, i, rfl, Property.equal_of_isSome_ne (by rw [hi]; exact hxi)⟩
    · exact ⟨ht.2, hequal⟩
  · rintro ⟨ht, p, d, i, rfl, hequal⟩
    have hx := Instance.isSome_get i x
    have hy := Instance.isSome_get i y
    by_cases hxt : p.tag ∈ x.validProperties ps
    · by_cases hyt : p.tag ∈ y.validProperties ps
      · exact .inr ⟨⟨⟨hxt, hyt⟩, ht⟩, p, d, i, rfl, hequal⟩
      · exact .inl ⟨.inl ⟨hxt, hyt⟩, ht⟩
    · by_cases hyt : p.tag ∈ y.validProperties ps
      · exact .inl ⟨.inr ⟨hyt, hxt⟩, ht⟩
      · -- invalid in both, so that the properties are equal
        have hxi : x.get i = none := Option.not_isSome_iff_eq_none.mp fun h => hxt (hx h)
        have hyi : y.get i = none := Option.not_isSome_iff_eq_none.mp fun h => hyt (hy h)
        rw [hxi, hyi] at hequal
        exact Bool.noConfusion hequal

theorem diffProperties_eq_empty_iff (c : Comparison) (x y : Instance ps) :
    diffProperties c included ps x y = ∅ ↔ equal c included ps x y = true := by
  rw [equal_iff, Finset.eq_empty_iff_forall_notMem]
  simp only [mem_diffProperties, not_and, not_exists, Bool.not_eq_false]
  exact ⟨fun h p d i hp => h p.tag hp p d i rfl, fun h t ht p d i he => h p d i (he ▸ ht)⟩

/-- **A copy equals its original** up to the NaNs of the original. -/
theorem equal_copy_iff (x y : Instance ps) :
    equal operators included ps (copy included ps x y) y = true ↔ y.Regular included ps := by
  rw [← equal_self_iff, equal_iff, equal_iff]
  refine forall_congr' fun p => forall_congr' fun d => forall_congr' fun i => ?_
  refine forall_congr' fun hp => ?_
  rw [get_copy, if_pos hp]

/-- A copy of what differs equals its original up to the NaNs of the original. -/
theorem equal_copy_diffProperties_iff (x y : Instance ps) :
    equal operators included ps
        (copy (diffProperties operators included ps x y) ps x y) y = true ↔
      y.Regular included ps := by
  refine ⟨fun h => regular_of_equal included ps _ y h, fun h => ?_⟩
  rw [← equal_self_iff, equal_iff] at h
  rw [equal_iff]
  intro p d i hp
  rw [get_copy]
  split_ifs with hdiff
  · exact h p d i hp
  · by_contra hequal
    exact hdiff ((mem_diffProperties operators).mpr
      ⟨hp, p, d, i, rfl, Bool.not_eq_true _ ▸ hequal⟩)

end StructDescriptor

/-! ## Merge -/

namespace StaticStruct

/-- A property in a merge: what is invalid in the other instance stays as it is. -/
def mergeOption (d : TypeDescriptor) (v w : Option (Value d)) : Option (Value d) :=
  match w with
  | some w => mergeProperty d v w
  | none => v

theorem merge_cons (v w : Option (Value d)) (x y : Instance ps) :
    merge included (.cons p d ps) (v, x) (w, y) =
      (if p.tag ∈ included then mergeOption d v w else v, merge included ps x y) := by
  simp only [merge, PropertyDescriptor.set_subset_iff]
  rfl

/-- What is no struct is assigned. -/
theorem mergeProperty_of_not_struct (hd : d.isStruct = false) (v : Option (Value d)) (w : Value d) :
    mergeProperty d v w = some w := by
  cases d with
  | struct qs => cases hd
  | fundamental _ | enumeration _ _ | vector _ =>
    rw [mergeProperty]
    exact assignProperty_eq _ _

theorem get_merge : ∀ {ps : PropertyDescriptors} (x y : Instance ps) (i : ps.Index p d),
    (merge included ps x y).get i =
      if p.tag ∈ included then mergeOption d (x.get i) (y.get i) else x.get i
  | .cons _ _ _, (_, _), (_, _), .head => by
    rw [merge_cons, Instance.get_head, Instance.get_head, Instance.get_head]
  | .cons _ _ _, (_, x), (_, y), .tail i => by
    rw [merge_cons, Instance.get_tail, Instance.get_tail, Instance.get_tail]
    exact get_merge x y i

mutual

/-- An invalid property becomes the other one. -/
theorem mergeProperty_none : ∀ (d : TypeDescriptor) (w : Value d), mergeProperty d none w = some w
  | .fundamental _, w | .enumeration _ _, w | .vector _, w => mergeProperty_of_not_struct rfl _ w
  | .struct ps, x => congrArg some (merge_fresh ps x)

theorem merge_fresh : ∀ (ps : PropertyDescriptors) (x : Instance ps),
    merge Finset.univ ps (Instance.fresh ps) x = x
  | .nil, _ => rfl
  | .cons p d ps, (v, x) => by
    have hv : mergeOption d none v = v := by
      cases v with
      | none => rfl
      | some v => exact mergeProperty_none d v
    rw [Instance.fresh, merge_cons, merge_fresh ps x, if_pos (Finset.mem_univ _), hv]

end

mutual

theorem mergeProperty_self : ∀ (d : TypeDescriptor) (w : Value d),
    mergeProperty d (some w) w = some w
  | .fundamental _, w | .enumeration _ _, w | .vector _, w => mergeProperty_of_not_struct rfl _ w
  | .struct ps, x => congrArg some (merge_self Finset.univ ps x)

/-- An instance is merged into itself. -/
theorem merge_self (included : PropertySet) : ∀ (ps : PropertyDescriptors) (x : Instance ps),
    merge included ps x x = x
  | .nil, _ => rfl
  | .cons p d ps, (v, x) => by
    have hv : mergeOption d v v = v := by
      cases v with
      | none => rfl
      | some v => exact mergeProperty_self d v
    rw [merge_cons, merge_self included ps x, hv, ite_self]

end

mutual

theorem mergeProperty_assoc : ∀ (d : TypeDescriptor) (v : Option (Value d)) (w u : Value d),
    mergeProperty d (mergeProperty d v w) u = mergeOption d v (mergeProperty d (some w) u)
  | .fundamental _, v, w, u | .enumeration _ _, v, w, u | .vector _, v, w, u => by
    rw [mergeProperty_of_not_struct rfl, mergeProperty_of_not_struct rfl]
    exact (mergeProperty_of_not_struct rfl v u).symm
  | .struct ps, v, w, u =>
    congrArg some (merge_assoc Finset.univ ps (v.getD (Instance.fresh ps)) w u)

/-- **Merges are associative**, nested structs being merged property by property. -/
theorem merge_assoc (included : PropertySet) : ∀ (ps : PropertyDescriptors) (x y z : Instance ps),
    merge included ps (merge included ps x y) z = merge included ps x (merge included ps y z)
  | .nil, _, _, _ => rfl
  | .cons p d ps, (v, x), (w, y), (u, z) => by
    have hv : mergeOption d (mergeOption d v w) u = mergeOption d v (mergeOption d w u) := by
      cases u with
      | none => rfl
      | some u =>
        cases w with
        | none =>
          change mergeProperty d v u = mergeOption d v (mergeProperty d none u)
          rw [mergeProperty_none]
          rfl
        | some w => exact mergeProperty_assoc d v w u
    simp only [merge_cons, merge_assoc included ps x y z]
    split_ifs
    · rw [hv]
    · rfl

end

/-- Merging twice is merging once. -/
theorem merge_merge (x y : Instance ps) :
    merge included ps (merge included ps x y) y = merge included ps x y := by
  rw [merge_assoc, merge_self]

end StaticStruct

namespace StructDescriptor

/-- **A merge** takes the valid properties of the set from the other instance; a struct is merged
into what is there, or into a new one. -/
theorem get_merge (h : ps.DistinctTags) (x y : Instance ps) (i : ps.Index p d) :
    (merge included ps x y).get i =
      if p.tag ∈ included then StaticStruct.mergeOption d (x.get i) (y.get i) else x.get i := by
  rw [merge_eq h, StaticStruct.get_merge]

theorem distinctTags_of_index : ∀ {ps : PropertyDescriptors}, ps.DistinctTags →
    ps.Index p d → d.DistinctTags
  | .cons _ _ _, h, .head => h.2.1
  | .cons _ _ _, h, .tail i => distinctTags_of_index h.2.2 i

/-- **The algebra of structs.** A copy makes the properties of the set equal unless a NaN is inside,
and leaves the others; the difference is empty for equal instances only, and copying it makes
instances equal unless a NaN is inside; a merge takes valid properties, structs being merged
recursively, and leaves the others; merges are idempotent and associative. -/
theorem struct_algebra (h : ps.DistinctTags) (included : PropertySet) (a b c : Instance ps) :
    ((equal operators included ps (copy included ps a b) b = true ↔ b.Regular included ps) ∧
      ∀ p d (i : ps.Index p d), p.tag ∉ included → (copy included ps a b).get i = a.get i) ∧
    (diffProperties operators included ps a b = ∅ ↔ equal operators included ps a b = true) ∧
    (equal operators included ps
        (copy (diffProperties operators included ps a b) ps a b) b = true ↔
      b.Regular included ps) ∧
    (∀ p d (i : ps.Index p d) (v : Value d), p.tag ∈ included → b.get i = some v →
      d.isStruct = false → (merge included ps a b).get i = b.get i) ∧
    (∀ p qs (i : ps.Index p (.struct qs)) (y : Instance qs), p.tag ∈ included →
      b.get i = some y → (merge included ps a b).get i =
        some (merge Finset.univ qs ((a.get i).getD (Instance.fresh qs)) y)) ∧
    (∀ p d (i : ps.Index p d), p.tag ∉ included ∨ b.get i = none →
      (merge included ps a b).get i = a.get i) ∧
    merge included ps (merge included ps a b) b = merge included ps a b ∧
    merge included ps (merge included ps a b) c = merge included ps a (merge included ps b c) := by
  refine ⟨⟨equal_copy_iff a b, fun p d i hp => ?_⟩, diffProperties_eq_empty_iff operators a b,
    equal_copy_diffProperties_iff a b, fun p d i v hp hv hstruct => ?_,
    fun p qs i y hp hy => ?_, fun p d i hp => ?_, ?_, ?_⟩
  · rw [get_copy, if_neg hp]
  · rw [get_merge h, if_pos hp, hv]
    exact StaticStruct.mergeProperty_of_not_struct hstruct _ v
  · have hmerge := (get_merge h a b i).trans (if_pos hp)
    have hnested : merge Finset.univ qs ((a.get i).getD (Instance.fresh qs)) y = _ :=
      merge_eq (distinctTags_of_index h i) _ y
    exact (hmerge.trans (congrArg (StaticStruct.mergeOption (.struct qs) (a.get i)) hy)).trans
      (congrArg some hnested.symm)
  · rw [get_merge h]
    obtain hp | hb := hp
    · rw [if_neg hp]
    · rw [hb]
      exact ite_self _
  · rw [merge_eq h, merge_eq h, StaticStruct.merge_merge]
  · rw [merge_eq h, merge_eq h, merge_eq h, merge_eq h, StaticStruct.merge_assoc]

theorem distinctTags_vehicleProperties : vehicleProperties.DistinctTags :=
  ⟨by decide, trivial, by decide, ⟨by decide, trivial, by decide, trivial, trivial⟩, by decide,
    ⟨by decide, trivial, by decide, trivial, trivial⟩, trivial⟩

/-- The laws for the two vehicles, whose merge keeps the one coordinate and takes the other. -/
theorem struct_algebra_vehicle :
    equal operators {2} vehicleProperties (copy {2} vehicleProperties parkedVehicle movingVehicle)
      movingVehicle = true ∧
    merge {2} vehicleProperties (merge {2} vehicleProperties parkedVehicle movingVehicle)
      movingVehicle = merge {2} vehicleProperties parkedVehicle movingVehicle := by
  obtain ⟨⟨hcopy, -⟩, -, -, -, -, -, hmerge, -⟩ := struct_algebra distinctTags_vehicleProperties {2}
    parkedVehicle movingVehicle movingVehicle
  refine ⟨hcopy.mpr ?_, hmerge⟩
  rw [← equal_self_iff]
  decide +kernel

/-- A struct with a `float`. -/
def sampleProperties : PropertyDescriptors :=
  .cons ⟨"sample", 1, false⟩ (.fundamental .float32) .nil

/-- **A NaN is copied, yet it is not equal to its copy.** -/
theorem not_struct_algebra :
    ¬(∀ (ps : PropertyDescriptors) (included : PropertySet) (a b : Instance ps),
      equal operators included ps (copy included ps a b) b = true) ∧
    ¬(∀ (ps : PropertyDescriptors) (included : PropertySet) (a b : Instance ps),
      equal operators included ps
        (copy (diffProperties operators included ps a b) ps a b) b = true) := by
  have hnan : equal operators {1} sampleProperties (some 0x7FC00000#32, ())
      (some 0x7FC00000#32, ()) = false := by decide +kernel
  have hregular := mt (equal_self_iff {1} sampleProperties (some 0x7FC00000#32, ())).mpr
    (ne_true_of_eq_false hnan)
  constructor
  · intro h
    exact hregular ((equal_copy_iff _ _).mp (h sampleProperties {1} (none, ()) _))
  · intro h
    exact hregular ((equal_copy_diffProperties_iff _ _).mp (h sampleProperties {1} (none, ()) _))

end StructDescriptor

end Dots

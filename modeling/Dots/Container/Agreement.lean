import Dots.Publish

/-!
# Does a container store only what the header announces?

An update reads only the properties in the header's attributes. A create copies the whole
instance, whatever the header names, so two instances that agree on all that was announced leave
the same container exactly if the key is known or the instances are equal.

* `insert_update_congr`: updates agree.
* `insert_create_injective`: creates tell different instances apart.
* **`insert_agree_iff`**: the exact condition, for two instances, for what a create stores, and
  for the instance a host keeps of its own publish.
-/

set_option autoImplicit false
set_option linter.unusedSectionVars false

namespace Dots

open Struct

variable {V : Type} [Ord V] [Std.TransOrd V] [Std.LawfulEqOrd V] {d : StructDescriptor}

namespace Container

variable {c : Container V d} {h : DotsHeader} {a b : Struct V d} {now : Timepoint}

/-- What `insert` returns determines the container it leaves. -/
theorem insert_eq_iff (hk : a.key = b.key) :
    c.insert h a now = c.insert h b now ↔
      stored (c.lookup a.key) h a now = stored (c.lookup b.key) h b now := by
  constructor
  · intro he
    exact congrArg Prod.snd he
  · intro he
    refine Prod.ext ?_ he
    ext1 k
    by_cases hka : k = a.key
    · rw [hka, lookup_insert_self, he, hk, lookup_insert_self]
    · rw [lookup_insert_of_ne hka, lookup_insert_of_ne (hk ▸ hka)]

/-- Updates only see the attributes. -/
theorem insert_update_congr (hagree : AgreeOn (d.keyProperties ∪ h.attributes) a b)
    (hp : (c.lookup a.key).isSome) : c.insert h a now = c.insert h b now := by
  have hk : a.key = b.key := key_congr fun t ht => hagree t (Finset.mem_union_left _ ht)
  have hs : AgreeOn h.attributes a b := fun t ht => hagree t (Finset.mem_union_right _ ht)
  obtain ⟨e, he⟩ := Option.isSome_iff_exists.mp hp
  rw [insert_eq_iff hk, ← hk, he]
  simp only [stored, updateWithoutKeys_congr hs]

/-- Creates see the whole instance. -/
theorem insert_create_injective (hk : a.key = b.key) (hp : c.lookup a.key = none)
    (he : c.insert h a now = c.insert h b now) : a = b := by
  rw [insert_eq_iff hk, ← hk, hp] at he
  exact congrArg Prod.fst he

/-- Two inserts that agree on the announced properties leave equal results exactly if the key is
known or the instances are equal. -/
theorem insert_eq_iff_of_agree (hagree : AgreeOn (d.keyProperties ∪ h.attributes) a b) :
    c.insert h a now = c.insert h b now ↔ (c.lookup a.key).isSome ∨ a = b := by
  have hk : a.key = b.key := key_congr fun t ht => hagree t (Finset.mem_union_left _ ht)
  constructor
  · intro he
    cases hp : c.lookup a.key with
    | none => exact .inr (insert_create_injective hk hp he)
    | some _ => exact .inl rfl
  · rintro (hp | rfl)
    · exact insert_update_congr hagree hp
    · rfl

theorem stored_create (hp : c.lookup a.key = none) :
    (c.insert h a now).2 = (a, .created' h now) := by
  rw [insert_snd, hp]
  rfl

/-- **A container stores only what the header announces exactly if** the key is known or nothing
else is there: for two instances that agree on the keys and the attributes, for what a create
stores, and for a host's own publish against the instance that reaches its guests. -/
theorem insert_agree_iff {S : Schema} :
    (∀ (c : Container V d) (h : DotsHeader) (a b : Struct V d) (now : Timepoint),
      AgreeOn (d.keyProperties ∪ h.attributes) a b →
        (c.insert h a now = c.insert h b now ↔ (c.lookup a.key).isSome ∨ a = b)) ∧
    (∀ (c : Container V d) (h : DotsHeader) (a : Struct V d) (now : Timepoint),
      c.lookup a.key = none →
        ((c.insert h a now).2.1.validProperties ⊆ d.keyProperties ∪ h.attributes ↔
          a.validProperties ⊆ d.keyProperties ∪ h.attributes)) ∧
    ∀ (p : Publish S V) (c : Container V (S.descriptor p.typeName)) (now : Timepoint),
      (c.insert (p.hostTransmission now).header p.value now =
          c.insert (p.hostTransmission now).header (p.value.restrict p.attributes) now ↔
        (c.lookup p.value.key).isSome ∨ p.value.validProperties ⊆ p.attributes) := by
  refine ⟨fun c h a b now hagree => insert_eq_iff_of_agree hagree, ?_, ?_⟩
  · intro c h a now hp
    rw [stored_create hp]
  · intro p c now
    have hagree : AgreeOn ((S.descriptor p.typeName).keyProperties ∪ p.attributes) p.value
        (p.value.restrict p.attributes) := by
      rw [Finset.union_eq_right.mpr p.keyProperties_subset_attributes]
      exact restrict_agreeOn _ _
    rw [insert_eq_iff_of_agree (h := (p.hostTransmission now).header) hagree,
      restrict_eq_self_iff]

/-! ## A create that stores an unannounced property -/

/-- A header that announces the key alone. -/
def keyHeader : DotsHeader := { typeName := "DotsTestStruct", attributes := {2} }

theorem agreeOn_keyHeader (v w : Option ℕ) :
    AgreeOn (dotsTestStruct.keyProperties ∪ keyHeader.attributes) (dotsTestInstance 1 v)
      (dotsTestInstance 1 w) := by
  have hset : dotsTestStruct.keyProperties ∪ keyHeader.attributes = {2} := by decide
  intro t ht
  obtain rfl : t = 2 := by simpa [hset] using ht
  rfl

/-- The two instances agree on what the header announces, yet their creates differ, and one of
them stores a property outside the keys and the attributes. -/
theorem insert_create_stores_unannounced :
    AgreeOn (dotsTestStruct.keyProperties ∪ keyHeader.attributes)
        (dotsTestInstance 1 (some 5)) (dotsTestInstance 1 none) ∧
      empty.insert keyHeader (dotsTestInstance 1 (some 5)) 0 ≠
        empty.insert keyHeader (dotsTestInstance 1 none) 0 ∧
      ¬ (empty.insert keyHeader (dotsTestInstance 1 (some 5)) 0).2.1.validProperties ⊆
        dotsTestStruct.keyProperties ∪ keyHeader.attributes := by
  have hvalue : ∀ v, (empty.insert keyHeader (dotsTestInstance 1 v) 0).2.1.value 9 = v := by
    intro v
    rw [insert_snd, lookup_empty]
    rfl
  refine ⟨agreeOn_keyHeader _ _, ?_, ?_⟩
  · intro he
    have h := congrArg (fun r => r.2.1.value 9) he
    simp only [hvalue] at h
    cases h
  · intro hs
    have h9 := mem_validProperties.mpr ⟨5, hvalue (some 5)⟩
    exact absurd (hs h9) (by decide)

/-- The condition on `DotsTestStruct`: a create of an instance with one more property, and a
publish of that property in an empty container. -/
theorem insert_agree_iff_test :
    (empty.insert keyHeader (dotsTestInstance 1 (some 5)) 0 =
        empty.insert keyHeader (dotsTestInstance 1 none) 0 ↔
      ((empty : Container ℕ dotsTestStruct).lookup (dotsTestInstance 1 (some 5)).key).isSome ∨
        dotsTestInstance 1 (some 5) = dotsTestInstance 1 none) ∧
    ((empty.insert keyHeader (dotsTestInstance 1 (some 5)) 0).2.1.validProperties ⊆
        dotsTestStruct.keyProperties ∪ keyHeader.attributes ↔
      (dotsTestInstance 1 (some 5)).validProperties ⊆
        dotsTestStruct.keyProperties ∪ keyHeader.attributes) :=
  ⟨(insert_agree_iff (S := testSchema)).1 _ _ _ _ _ (agreeOn_keyHeader _ _),
    (insert_agree_iff (S := testSchema)).2.1 _ _ _ _ (lookup_empty _)⟩

end Container

end Dots

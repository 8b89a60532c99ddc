import Dots.Cbor.RoundTrip
import Dots.Type.Algebra

/-!
# Reading over an instance

What is read over an instance that has values already is merged into it.

* **`together_readType`**, **`together_readProperty`**: two readers of the same bytes, one over fresh
  values and one over those that are there, stay a merge apart.
* **`deserialize_eq_merge`**: `deserialize` is `merge` after a `deserialize` into a fresh instance.
-/

set_option autoImplicit false

namespace Dots

open CborReader CborSerializer Parse StaticStruct

/-! ## Merging into fresh values -/

namespace StaticStruct

/-- A fresh instance has nothing to merge. -/
theorem merge_fresh_right (ps : PropertyDescriptors) (y : Instance ps) :
    merge Finset.univ ps y (Instance.fresh ps) = y := by
  cases ps with
  | nil => rfl
  | cons p d ps =>
    obtain ⟨w, y⟩ := y
    rw [Instance.fresh, merge_cons, merge_fresh_right ps y]
    exact Prod.ext (ite_self _) rfl

/-- An invalid property is merged into as a fresh one is. -/
theorem mergeProperty_getD (d : TypeDescriptor) (w : Option (Value d)) (v : Value d) :
    mergeProperty d (some (w.getD (Value.fresh d))) v = mergeProperty d w v := by
  cases d with
  | fundamental _ | enumeration _ _ | vector _ =>
    rw [mergeProperty_of_not_struct rfl, mergeProperty_of_not_struct rfl]
  | struct ps => cases w <;> rfl

/-- What stands in a struct that is merged into, whether it was valid or not. -/
theorem mergeProperty_getD_of_struct {d : TypeDescriptor} (hd : d.isStruct = true)
    (w v : Option (Value d)) :
    mergeProperty d (some (w.getD (Value.fresh d))) (v.getD (Value.fresh d)) =
      some ((mergeOption d w v).getD (Value.fresh d)) := by
  cases d with
  | struct ps =>
    cases v with
    | none => exact congrArg some (merge_fresh_right ps _)
    | some v => rfl
  | fundamental _ | enumeration _ _ | vector _ => cases hd

/-- A part of an instance is merged as the instance is on that part. -/
theorem merge_restrict (included : PropertySet) (ps : PropertyDescriptors) (y x : Instance ps) :
    merge Finset.univ ps y (Instance.restrict ps included x) = merge included ps y x := by
  cases ps with
  | nil => rfl
  | cons p d ps =>
    obtain ⟨w, y⟩ := y
    obtain ⟨v, x⟩ := x
    rw [Instance.restrict, merge_cons, merge_cons, merge_restrict included ps y x,
      if_pos (Finset.mem_univ _)]
    split_ifs <;> rfl

end StaticStruct

namespace CborSerializer

/-! ## Two readers -/

/-- Both read the same bytes to related values, or throw the same. -/
abbrev Beside {α β : Type} (R : α → β → Prop) (m : Read α) (m' : Read β) : Prop :=
  Together R (fun _ => False) m m'

/-- The entries of a map are read one by one. -/
theorem beside_readEntries {α β : Type} {R : α → β → Prop}
    {property : BitVec 32 → α → Option (Read α)} {property' : BitVec 32 → β → Option (Read β)}
    (h : ∀ tag x x', R x x' → Option.Rel (Beside R) (property tag x) (property' tag x'))
    {x : α} {x' : β} (hx : R x x') :
    Beside R (readEntries property x) (readEntries property' x') := by
  refine .bind_left readMapSize fun size => Together.iterate (fun x x' hx => ?_) size.toNat hx
  refine .bind_left (readUnsigned 4) fun tag => ?_
  have hfound := h tag x x' hx
  generalize property tag x = read, property' tag x' = read' at hfound ⊢
  cases hfound with
  | none => exact .bind_left skip fun _ => .pure hx
  | some hread => exact hread

variable (casts : FloatCasts)

mutual

/-- **A value** is read over one that is a merge apart, if it is a struct; another one is read anew. -/
theorem together_readType (level : ℕ) (hlevel : 2 ≤ level) : (d : TypeDescriptor) →
    (w v v' : Value d) → (d.isStruct = true → mergeProperty d (some w) v = some v') →
    Beside (fun a b => mergeProperty d (some w) a = some b) (readType casts level d v)
      (readType casts level d v')
  | .fundamental t, w, _, _, _ =>
    .refl (fun a => mergeProperty_of_not_struct (d := .fundamental t) rfl (some w) a) _
  | .enumeration name es, w, _, _, _ =>
    .refl (fun a => mergeProperty_of_not_struct (d := .enumeration name es) rfl (some w) a) _
  | .vector d, w, _, _, _ =>
    .refl (fun a => mergeProperty_of_not_struct (d := .vector d) rfl (some w) a) _
  | .struct ps, w, v, v', h => by
    have hmerge : merge Finset.univ ps w v = v' := Option.some.inj (h rfl)
    have hread (x : Instance ps) : readType casts level (.struct ps) x =
        readEntries (readProperty casts (level + 1) Finset.univ · ps ·) x := by
      have hincluded : includedAt level (Instance.validProperties ps x) = Finset.univ :=
        if_pos (by unfold visitingLevel; split_ifs <;> omega)
      exact congrArg (fun s => readEntries (readProperty casts (level + 1) s · ps ·) x) hincluded
    rw [hread v, hread v']
    refine (beside_readEntries (R := fun a b => merge Finset.univ ps w a = b)
      (fun tag x x' hx => ?_) hmerge).mono fun a b hab => congrArg some hab
    rw [← hx]
    exact together_readProperty (level + 1) (by omega) Finset.univ tag ps w x

/-- **A property** is read over an instance that is a merge apart. -/
theorem together_readProperty (level : ℕ) (hlevel : 2 ≤ level) (included : PropertySet)
    (tag : BitVec 32) : (ps : PropertyDescriptors) → (y x : Instance ps) →
    Option.Rel (Beside fun a b => merge Finset.univ ps y a = b)
      (readProperty casts level included tag ps x)
      (readProperty casts level included tag ps (merge Finset.univ ps y x))
  | .nil, _, _ => .none
  | .cons p d ps, (w, y), (v, x) => by
    have hall {a : Option (Value d)} {x' : Instance ps} :
        merge Finset.univ (.cons p d ps) (w, y) (a, x') =
          (mergeOption d w a, merge Finset.univ ps y x') := by
      rw [merge_cons, if_pos (Finset.mem_univ _)]
    rw [hall, readProperty, readProperty]
    split_ifs
    · refine .some (Together.bind (together_readType level hlevel d (w.getD (Value.fresh d)) _ _
        fun hd => mergeProperty_getD_of_struct hd w v) fun a b hab => .pure ?_)
      rw [hall]
      exact Prod.ext ((mergeProperty_getD d w a).symm.trans hab) rfl
    · exact .none
    · have ih := together_readProperty level hlevel included tag ps y x
      generalize readProperty casts level included tag ps x = read,
        readProperty casts level included tag ps (merge Finset.univ ps y x) = read' at ih ⊢
      cases ih with
      | none => exact .none
      | some ih => exact .some (ih.bind fun a b hab => .pure (hall.trans (congrArg _ hab)))

end

/-- A struct is read over an instance as over a fresh one; then they are merged. -/
theorem beside_readStruct {ps : PropertyDescriptors} (included : PropertySet) (y : Instance ps) :
    Beside (fun a b => merge Finset.univ ps y a = b)
      (readStruct casts 1 included ps (Instance.fresh ps)) (readStruct casts 1 included ps y) :=
  beside_readEntries (R := fun a b => merge Finset.univ ps y a = b)
    (fun tag x _ hx => hx ▸ together_readProperty casts 2 le_rfl _ tag ps y x)
    (merge_fresh_right ps y)

theorem deserialize_over {ps : PropertyDescriptors} (included : PropertySet) (y : Instance ps)
    (data : List UInt8) :
    deserialize casts ps y included data =
      (deserialize casts ps (Instance.fresh ps) included data).map
        fun r => (merge Finset.univ ps y r.1, r.2) := by
  rw [deserialize, deserialize]
  split_ifs
  · rfl
  · have hread := (beside_readStruct casts included y).run_eq ⟨0, data⟩
    cases hfresh : (readStruct casts 1 included ps (Instance.fresh ps)).run ⟨0, data⟩ with
    | error e =>
      rw [hread, hfresh]
      rfl
    | ok r =>
      rw [hread, hfresh]
      rfl

/-- **Reading is merging.** Whatever the bytes are, they are read over an instance as far as into a
fresh one, or with the same exception, and the outcome is merged into what is there; so the bytes of an
instance on a property set merge that part of it. -/
theorem deserialize_eq_merge {ps : PropertyDescriptors} (hwf : ps.WellFormed) (y : Instance ps) :
    (∀ included data, deserialize casts ps y included data =
      (deserialize casts ps (Instance.fresh ps) included data).map
        fun r => (StructDescriptor.merge Finset.univ ps y r.1, r.2)) ∧
    ∀ (x : Instance ps) (included : PropertySet) (bytes : List UInt8),
      serialize ps x included = .ok bytes → ∀ rest,
      deserialize casts ps y Finset.univ (bytes ++ rest) =
        .ok (StructDescriptor.merge included ps y x, bytes.length) := by
  have hmerge (included : PropertySet) (x : Instance ps) :
      StructDescriptor.merge included ps y x = merge included ps y x :=
    StructDescriptor.merge_eq hwf.distinctTags y x
  refine ⟨fun included data => ?_, fun x included bytes h rest => ?_⟩
  · simp only [hmerge]
    exact deserialize_over casts included y data
  · rw [deserialize_over, deserialize_of_serialize casts hwf h, hmerge, ← merge_restrict]
    rfl

/-- A report with the same labels and nothing else. -/
def earlierReport : Instance reportProperties := report.restrict reportProperties {30}

theorem deserialize_eq_merge_report :
    ∃ bytes, serialize reportProperties report {1, 30} = .ok bytes ∧
      deserialize noCasts reportProperties earlierReport Finset.univ (bytes ++ [7]) =
        .ok (StructDescriptor.merge {1, 30} reportProperties earlierReport report, bytes.length) := by
  obtain ⟨bytes, hbytes, -⟩ := deserialize_serialize noCasts reportProperties_wellFormed
    report_enumerated {1, 30}
  exact ⟨bytes, hbytes, (deserialize_eq_merge noCasts reportProperties_wellFormed earlierReport).2
    report {1, 30} bytes hbytes [7]⟩

end CborSerializer

end Dots

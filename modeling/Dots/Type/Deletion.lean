import Dots.Type.Value

/-!
# Older models of a type

* `Deletion d d'`, `Deletions ps ps'`: `d` comes from `d'` by deleting properties, at any level.
* `project`: what a value of `d'` has of `d`.
* `Deletion.refl`, **`project_refl`**: nothing is deleted, and the value stays.
-/

set_option autoImplicit false

namespace Dots

mutual

/-- `Deletion d d'`: the descriptor `d` is `d'` without some properties. -/
inductive Deletion : TypeDescriptor → TypeDescriptor → Type
  | fundamental (t : FundamentalType) : Deletion (.fundamental t) (.fundamental t)
  | enumeration (name : String) (es : List EnumeratorDescriptor) :
      Deletion (.enumeration name es) (.enumeration name es)
  | vector {d d' : TypeDescriptor} (del : Deletion d d') : Deletion (.vector d) (.vector d')
  | struct {ps ps' : PropertyDescriptors} (dels : Deletions ps ps') :
      Deletion (.struct ps) (.struct ps')

/-- Each property is kept, perhaps with deletions inside, or deleted. -/
inductive Deletions : PropertyDescriptors → PropertyDescriptors → Type
  | nil : Deletions .nil .nil
  | keep (p : PropertyDescriptor) {d d' : TypeDescriptor} {ps ps' : PropertyDescriptors}
      (del : Deletion d d') (dels : Deletions ps ps') : Deletions (.cons p d ps) (.cons p d' ps')
  | delete (p : PropertyDescriptor) (d' : TypeDescriptor) {ps ps' : PropertyDescriptors}
      (dels : Deletions ps ps') : Deletions ps (.cons p d' ps')

end

mutual

/-- What a value of `d'` has of `d`. -/
def Deletion.project : {d d' : TypeDescriptor} → Deletion d d' → Value d' → Value d
  | _, _, .fundamental _, v => v
  | _, _, .enumeration _ _, v => v
  | _, _, .vector del, vs => ⟨vs.1.map del.project, by simpa using vs.2⟩
  | _, _, .struct dels, x => dels.project x

def Deletions.project : {ps ps' : PropertyDescriptors} → Deletions ps ps' → Instance ps' →
    Instance ps
  | _, _, .nil, _ => ()
  | _, _, .keep _ del dels, (v, x) => (v.map del.project, dels.project x)
  | _, _, .delete _ _ dels, (_, x) => dels.project x

end

mutual

def Deletion.refl : (d : TypeDescriptor) → Deletion d d
  | .fundamental t => .fundamental t
  | .enumeration name es => .enumeration name es
  | .vector d => .vector (Deletion.refl d)
  | .struct ps => .struct (Deletions.refl ps)

def Deletions.refl : (ps : PropertyDescriptors) → Deletions ps ps
  | .nil => .nil
  | .cons p d ps => .keep p (Deletion.refl d) (Deletions.refl ps)

end

mutual

/-- **Nothing is deleted**: the value stays. -/
theorem Deletion.project_refl : (d : TypeDescriptor) → (v : Value d) →
    (Deletion.refl d).project v = v
  | .fundamental _, _ => rfl
  | .enumeration _ _, _ => rfl
  | .vector d, vs => by
    have hid : (Deletion.refl d).project = id := funext (Deletion.project_refl d)
    refine Subtype.ext ?_
    show vs.1.map (Deletion.refl d).project = vs.1
    rw [hid, List.map_id]
  | .struct ps, x => Deletions.project_refl ps x

theorem Deletions.project_refl : (ps : PropertyDescriptors) → (x : Instance ps) →
    (Deletions.refl ps).project x = x
  | .nil, _ => rfl
  | .cons p d ps, (v, x) => by
    have hid : (Deletion.refl d).project = id := funext (Deletion.project_refl d)
    rw [Deletions.refl, Deletions.project, Deletions.project_refl ps x, hid, Option.map_id, id]

end

/-- The properties that are kept are properties. -/
theorem Deletions.tags_subset : {ps ps' : PropertyDescriptors} → Deletions ps ps' →
    ps.tags ⊆ ps'.tags
  | _, _, .nil => List.Subset.refl _
  | _, _, .keep p _ dels => List.cons_subset_cons p.tag dels.tags_subset
  | _, _, .delete p _ dels => List.subset_cons_of_subset p.tag dels.tags_subset

end Dots

import Mathlib.Data.List.Nodup
import Mathlib.Logic.Function.Basic

/-!
# Replicas of a keyed table

A table is replicated by sending its operations, each on the entry of one key, in order. A late
replica is brought up by a snapshot: one operation for each key that is to be there.

* `Table`, `Op`, `drain`: tables, operations, and the operations that are still to be applied.
* `drain_of_forall_ne`, **`drain_of_mem`**: what operations on distinct keys do to one entry.
* **`drain_eq_iff`**: when a snapshot brings a replica up.
-/

set_option autoImplicit false

namespace Replica

variable {K A : Type*}

/-- The entries of a table, `none` for a key that is not there. -/
abbrev Table (K A : Type*) := K → Option A

/-- An operation on the entry of one key. -/
structure Op (K A : Type*) where
  key : K
  effect : Option A → Option A

open Classical in
/-- The table after an operation. -/
noncomputable def Op.apply (o : Op K A) (m : Table K A) : Table K A :=
  Function.update m o.key (o.effect (m o.key))

@[simp] theorem Op.apply_self (o : Op K A) (m : Table K A) :
    o.apply m o.key = o.effect (m o.key) := by
  classical exact Function.update_self ..

theorem Op.apply_of_ne {o : Op K A} {k : K} (h : k ≠ o.key) (m : Table K A) :
    o.apply m k = m k := by
  classical exact Function.update_of_ne h ..

/-- Operations that do the same to an entry do the same to the table. -/
theorem Op.apply_congr {o o' : Op K A} {m : Table K A} (hk : o.key = o'.key)
    (he : o.effect (m o'.key) = o'.effect (m o'.key)) : o.apply m = o'.apply m := by
  rw [Op.apply, Op.apply, hk, he]

/-- The table after a list of operations. -/
noncomputable def drain (m : Table K A) (os : List (Op K A)) : Table K A :=
  os.foldl (fun m o => o.apply m) m

@[simp] theorem drain_nil (m : Table K A) : drain m [] = m := rfl

@[simp] theorem drain_cons (m : Table K A) (o : Op K A) (os : List (Op K A)) :
    drain m (o :: os) = drain (o.apply m) os := rfl

theorem drain_append (m : Table K A) (os os' : List (Op K A)) :
    drain m (os ++ os') = drain (drain m os) os' := List.foldl_append ..

/-- Operations that do nothing to a table. -/
theorem drain_of_forall_apply {os : List (Op K A)} {m : Table K A}
    (h : ∀ o ∈ os, o.apply m = m) : drain m os = m := by
  induction os with
  | nil => rfl
  | cons o os ih =>
    rw [drain_cons, h o List.mem_cons_self]
    exact ih fun o' ho' => h o' (List.mem_cons_of_mem _ ho')

/-- An entry that no operation is about stays as it is. -/
theorem drain_of_forall_ne {os : List (Op K A)} {k : K} (h : ∀ o ∈ os, k ≠ o.key)
    (m : Table K A) : drain m os k = m k := by
  induction os generalizing m with
  | nil => rfl
  | cons o os ih =>
    rw [drain_cons, ih fun o' ho' => h o' (List.mem_cons_of_mem _ ho')]
    exact Op.apply_of_ne (h o List.mem_cons_self) m

/-- **Operations on distinct keys** have their effect on the entries of the table itself. -/
theorem drain_of_mem {os : List (Op K A)} (hos : (os.map Op.key).Nodup) {o : Op K A}
    (ho : o ∈ os) (m : Table K A) : drain m os o.key = o.effect (m o.key) := by
  induction os generalizing m with
  | nil => exact absurd ho List.not_mem_nil
  | cons p os ih =>
    rw [List.map_cons, List.nodup_cons] at hos
    have hne : ∀ q ∈ os, p.key ≠ q.key := fun q hq he =>
      hos.1 (he ▸ List.mem_map_of_mem hq)
    rw [drain_cons]
    rcases List.mem_cons.mp ho with rfl | ho
    · rw [drain_of_forall_ne hne, Op.apply_self]
    · rw [ih hos.2 ho, Op.apply_of_ne (hne o ho).symm]

/-- **A snapshot** brings a replica up exactly if each operation yields the entry it stands for,
and the other entries are right already. -/
theorem drain_eq_iff {os : List (Op K A)} (hos : (os.map Op.key).Nodup) {m master : Table K A} :
    drain m os = master ↔ (∀ o ∈ os, o.effect (m o.key) = master o.key) ∧
      ∀ k, (∀ o ∈ os, k ≠ o.key) → m k = master k := by
  constructor
  · rintro rfl
    exact ⟨fun o ho => (drain_of_mem hos ho m).symm, fun k hk => (drain_of_forall_ne hk m).symm⟩
  · rintro ⟨hself, hrest⟩
    funext k
    by_cases hk : ∀ o ∈ os, k ≠ o.key
    · rw [drain_of_forall_ne hk, hrest k hk]
    · push Not at hk
      obtain ⟨o, ho, rfl⟩ := hk
      rw [drain_of_mem hos ho, hself o ho]

end Replica

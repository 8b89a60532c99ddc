import Mathlib.Data.List.Basic
import Mathlib.Data.List.Induction
import Mathlib.Logic.Function.Basic

/-!
# Looking containers up by type and by name

A pool has its containers under the descriptors of their types, and pointers to them under the
names. Containers are told apart by the order of their construction, as pointers tell them apart.

* `find`, `get`, `findName`, `getName`, `remove`: the lookups; a get by type may construct.
* `Agrees`: both lookups find the same container, and none that was taken out.
* `Stale`: a name leads to a container that was taken out. **`Stale.step`**: it does so for good.
* **`agrees_run_iff`**: both lookups agree exactly after the calls whose removes found nothing.
-/

set_option autoImplicit false
set_option linter.unusedSectionVars false

namespace Dots

namespace IndexedPool

/-- `ContainerPool`: `m_pool` and `m_nameCache`. `constructed` counts the containers that were ever
constructed, and `removed` has those that a remove has taken out. -/
structure Pool (D : Type) where
  pool : D → Option ℕ
  nameCache : String → Option ℕ
  constructed : ℕ
  removed : List ℕ

inductive Call (D : Type)
  | find (descriptor : D)
  | get (descriptor : D) (insertIfNotExist : Bool)
  | findName (name : String)
  | getName (name : String)
  | remove (descriptor : D)
  deriving DecidableEq

namespace Pool

variable {D : Type} [DecidableEq D] (name : D → String)

def empty : Pool D where
  pool _ := none
  nameCache _ := none
  constructed := 0
  removed := []

def find (p : Pool D) (descriptor : D) : Option ℕ := p.pool descriptor

/-- What `get` and `remove` throw. -/
def notContained (name : String) : String :=
  "container pool does not contain an element for the given type: " ++ name

/-- `try_emplace` of a container that is not there. A name that is in the cache keeps its entry. -/
def emplace (p : Pool D) (descriptor : D) : Pool D where
  pool := Function.update p.pool descriptor (some p.constructed)
  nameCache := Function.update p.nameCache (name descriptor)
    (some ((p.nameCache (name descriptor)).getD p.constructed))
  constructed := p.constructed + 1
  removed := p.removed

def get (p : Pool D) (descriptor : D) (insertIfNotExist : Bool) : Except String ℕ × Pool D :=
  match p.find descriptor with
  | some container => (.ok container, p)
  | none =>
    if insertIfNotExist then (.ok p.constructed, p.emplace name descriptor)
    else (.error (notContained (name descriptor)), p)

def findName (p : Pool D) (n : String) : Option ℕ := p.nameCache n

def getName (p : Pool D) (n : String) : Except String ℕ :=
  match p.findName n with
  | some container => .ok container
  | none => .error (notContained n)

/-- `remove`: the entry leaves the pool, and goes to the caller. -/
def remove (p : Pool D) (descriptor : D) : Except String ℕ × Pool D :=
  match p.find descriptor with
  | some container =>
    (.ok container,
      { p with
        pool := Function.update p.pool descriptor none
        removed := container :: p.removed })
  | none => (.error (notContained (name descriptor)), p)

/-- The pool after a call. -/
def step (p : Pool D) : Call D → Pool D
  | .find _ | .findName _ | .getName _ => p
  | .get descriptor insertIfNotExist => (p.get name descriptor insertIfNotExist).2
  | .remove descriptor => (p.remove name descriptor).2

/-- The pool after a sequence of calls. -/
def run (calls : List (Call D)) : Pool D := calls.foldl (step name) empty

/-- Both lookups find the same container for every type, or none, and a lookup by name finds no
container that was taken out. -/
def Agrees (p : Pool D) : Prop :=
  (∀ descriptor, p.findName (name descriptor) = p.find descriptor) ∧
    (∀ n container, p.findName n = some container → container ∉ p.removed) ∧
    ∀ n container, p.getName n = .ok container → container ∉ p.removed

/-- The name of a type leads to a container that was taken out. -/
def Stale (p : Pool D) : Prop :=
  ∃ descriptor, ∃ container ∈ p.removed, p.findName (name descriptor) = some container

/-- No remove finds a container. -/
def NoneRemoved (calls : List (Call D)) : Prop :=
  ∀ earlier descriptor later, calls = earlier ++ .remove descriptor :: later →
    (run name earlier).find descriptor = none

/-! ## Steps -/

/-- What a call does to the pool: only a remove that finds a container takes one out. -/
theorem step_cases (p : Pool D) (call : Call D) :
    ((∀ descriptor, call = .remove descriptor → p.find descriptor = none) ∧
      (p.step name call = p ∨
        ∃ descriptor, p.find descriptor = none ∧
          p.step name call = p.emplace name descriptor)) ∨
    ∃ descriptor container, call = .remove descriptor ∧ p.find descriptor = some container ∧
      p.step name call = { p with
        pool := Function.update p.pool descriptor none
        removed := container :: p.removed } := by
  cases call with
  | find _ | findName _ | getName _ => exact .inl ⟨nofun, .inl rfl⟩
  | get descriptor insertIfNotExist =>
    refine .inl ⟨nofun, ?_⟩
    rw [step, get]
    cases hfind : p.find descriptor with
    | some _ => exact .inl rfl
    | none =>
      cases insertIfNotExist with
      | true => exact .inr ⟨descriptor, hfind, rfl⟩
      | false => exact .inl rfl
  | remove descriptor =>
    rw [step, remove]
    cases hfind : p.find descriptor with
    | some container => exact .inr ⟨descriptor, container, rfl, hfind, rfl⟩
    | none =>
      refine .inl ⟨fun d h => ?_, .inl rfl⟩
      cases h
      exact hfind

variable {name} {p : Pool D}

theorem findName_emplace (descriptor : D) (n : String) :
    (p.emplace name descriptor).findName n =
      if n = name descriptor then some ((p.findName n).getD p.constructed) else p.findName n := by
  simp only [findName, emplace, Function.update_apply]
  split_ifs with h
  · rw [h]
  · rfl

theorem find_emplace (descriptor d : D) :
    (p.emplace name descriptor).find d =
      if d = descriptor then some p.constructed else p.find d := by
  simp only [find, emplace, Function.update_apply]

/-- **A stale name stays stale**: its entry is never replaced. -/
theorem Stale.step (h : p.Stale name) (call : Call D) : (p.step name call).Stale name := by
  obtain ⟨d, container, hremoved, hname⟩ := h
  obtain ⟨-, heq | ⟨descriptor, -, heq⟩⟩ | ⟨descriptor, c, -, -, heq⟩ := step_cases name p call
  · rw [heq]
    exact ⟨d, container, hremoved, hname⟩
  · rw [heq]
    refine ⟨d, container, hremoved, ?_⟩
    rw [findName_emplace, hname]
    exact ite_self _
  · rw [heq]
    exact ⟨d, container, List.mem_cons_of_mem _ hremoved, hname⟩

theorem Stale.not_agrees (h : p.Stale name) : ¬p.Agrees name := by
  obtain ⟨d, container, hremoved, hname⟩ := h
  exact fun hagrees => hagrees.2.1 _ _ hname hremoved

/-- The lookups agree, and no container was ever taken out. -/
def Intact (name : D → String) (p : Pool D) : Prop :=
  p.removed = [] ∧ ∀ descriptor, p.findName (name descriptor) = p.find descriptor

theorem Intact.agrees (h : p.Intact name) : p.Agrees name := by
  have hremoved : ∀ container, container ∉ p.removed := by simp [h.1]
  exact ⟨h.2, fun _ container _ => hremoved container, fun _ container _ => hremoved container⟩

/-- A new container gets both entries. -/
theorem Intact.emplace (hname : Function.Injective name) (h : p.Intact name) {descriptor : D}
    (hfind : p.find descriptor = none) : (p.emplace name descriptor).Intact name := by
  refine ⟨h.1, fun d => ?_⟩
  rw [findName_emplace, find_emplace, h.2 d]
  by_cases hd : d = descriptor
  · rw [hd, if_pos rfl, if_pos rfl, hfind, Option.getD_none]
  · rw [if_neg hd, if_neg fun he => hd (hname he)]

/-- **A call that takes nothing out** keeps the pool intact. -/
theorem Intact.step (hname : Function.Injective name) (h : p.Intact name) {call : Call D}
    (hcall : ∀ descriptor, call = .remove descriptor → p.find descriptor = none) :
    (p.step name call).Intact name := by
  obtain ⟨-, heq | ⟨descriptor, hfind, heq⟩⟩ | ⟨descriptor, c, rfl, hfind, -⟩ :=
    step_cases name p call
  · rwa [heq]
  · rw [heq]
    exact h.emplace hname hfind
  · rw [hcall descriptor rfl] at hfind
    cases hfind

/-- **A remove that finds a container** leaves its name behind. -/
theorem Intact.stale (h : p.Intact name) {descriptor : D} (hfind : p.find descriptor ≠ none) :
    (p.step name (.remove descriptor)).Stale name := by
  obtain ⟨hnone, -⟩ | ⟨d, c, hcall, hd, heq⟩ := step_cases name p (.remove descriptor)
  · exact absurd (hnone descriptor rfl) hfind
  · cases hcall
    rw [heq]
    exact ⟨descriptor, c, List.mem_cons_self, (h.2 descriptor).trans hd⟩

/-! ## Runs -/

theorem run_concat (calls : List (Call D)) (call : Call D) :
    run name (calls ++ [call]) = (run name calls).step name call := by
  rw [run, run, List.foldl_append, List.foldl_cons, List.foldl_nil]

theorem noneRemoved_concat {calls : List (Call D)} {call : Call D} :
    NoneRemoved name (calls ++ [call]) ↔ NoneRemoved name calls ∧
      ∀ descriptor, call = .remove descriptor → (run name calls).find descriptor = none := by
  constructor
  · intro h
    refine ⟨fun earlier d later he => h earlier d (later ++ [call]) (by simp [he]), ?_⟩
    rintro d rfl
    exact h calls d [] rfl
  · rintro ⟨h, hcall⟩ earlier d later he
    obtain rfl | ⟨later, c, rfl⟩ := List.eq_nil_or_concat' later
    · obtain ⟨rfl, hlast⟩ := List.append_inj' he rfl
      exact hcall d (List.singleton_inj.mp hlast)
    · rw [← List.cons_append, ← List.append_assoc] at he
      exact h earlier d later (List.append_inj' he rfl).1

/-- A pool is intact as long as nothing is taken out, and stale from then on. -/
theorem intact_or_stale (hname : Function.Injective name) (calls : List (Call D)) :
    (NoneRemoved name calls ∧ (run name calls).Intact name) ∨
      (¬NoneRemoved name calls ∧ (run name calls).Stale name) := by
  induction calls using List.reverseRecOn with
  | nil =>
    refine .inl ⟨fun earlier d later he => ?_, rfl, fun _ => rfl⟩
    simp at he
  | append_singleton calls call ih =>
    rw [run_concat, noneRemoved_concat]
    obtain ⟨hnone, hintact⟩ | ⟨hremoved, hstale⟩ := ih
    · by_cases hcall : ∀ d, call = .remove d → (run name calls).find d = none
      · exact .inl ⟨⟨hnone, hcall⟩, hintact.step hname hcall⟩
      · refine .inr ⟨fun h => hcall h.2, ?_⟩
        push Not at hcall
        obtain ⟨d, rfl, hfind⟩ := hcall
        exact hintact.stale hfind
    · exact .inr ⟨fun h => hremoved h.1, hstale.step call⟩

/-- **The lookups by name and by type agree** after exactly those calls whose removes, at their
time, found no container of their type in the pool. -/
theorem agrees_run_iff (hname : Function.Injective name) (calls : List (Call D)) :
    (run name calls).Agrees name ↔ NoneRemoved name calls := by
  obtain ⟨hnone, hintact⟩ | ⟨hremoved, hstale⟩ := intact_or_stale hname calls
  · exact ⟨fun _ => hnone, fun _ => hintact.agrees⟩
  · exact ⟨fun h => absurd h hstale.not_agrees, fun h => absurd h hremoved⟩

end Pool

/-! ## A container that comes back -/

/-- A remove of a type that has no container takes nothing out, so that the lookups agree. -/
theorem agrees_run_get_remove_other :
    (Pool.run id [.get "DotsTestStruct" true, .remove "DotsSubStruct"]).Agrees id := by
  refine (Pool.agrees_run_iff Function.injective_id
    ([] ++ [.get "DotsTestStruct" true] ++ [.remove "DotsSubStruct"])).mpr ?_
  rw [Pool.noneRemoved_concat, Pool.noneRemoved_concat]
  refine ⟨⟨fun earlier d later he => ?_, nofun⟩, ?_⟩
  · simp at he
  · rintro d hd
    obtain rfl : "DotsSubStruct" = d := Call.remove.inj hd
    decide

/-- **After a remove** the name still leads to the container that was taken out, also when the type
has a new one. -/
theorem not_agrees_run :
    ¬(∀ calls : List (Call String), (Pool.run id calls).Agrees id) ∧
      (Pool.run id [.get "DotsTestStruct" true, .remove "DotsTestStruct"]).findName
        "DotsTestStruct" = some 0 ∧
      (Pool.run id [.get "DotsTestStruct" true, .remove "DotsTestStruct"]).find
        "DotsTestStruct" = none ∧
      (Pool.run id [.get "DotsTestStruct" true, .remove "DotsTestStruct",
        .get "DotsTestStruct" true]).findName "DotsTestStruct" = some 0 ∧
      (Pool.run id [.get "DotsTestStruct" true, .remove "DotsTestStruct",
        .get "DotsTestStruct" true]).find "DotsTestStruct" = some 1 := by
  refine ⟨fun h => ?_, by decide, by decide, by decide, by decide⟩
  have hagrees := (h [.get "DotsTestStruct" true, .remove "DotsTestStruct"]).1 "DotsTestStruct"
  revert hagrees
  decide

end IndexedPool

end Dots

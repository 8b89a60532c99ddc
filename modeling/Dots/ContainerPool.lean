import Dots.Publish

/-!
# The container pool and what a dispatch does to it

* `ContainerPool`: one container for every type; a container that was never asked for is empty.
* `Event`: what an event handler receives.
* `dispatchEvent`: the container operation of a dispatch, before any event handler runs.
* **`dispatchEvent_struct`**, `dispatchEvent_of_not_cached`: its cases.
-/

set_option autoImplicit false
set_option linter.unusedSectionVars false

namespace Dots

variable {S : Schema} {V : Type} [Ord V] [Std.TransOrd V] [Std.LawfulEqOrd V]

variable (S V) in
/-- `ContainerPool`, with an empty container for a type that has no entry yet. -/
abbrev ContainerPool := (n : String) → Container V (S.descriptor n)

namespace ContainerPool

def empty : ContainerPool S V := fun _ => .empty

/-- The pool with another container for one type. -/
def set (pool : ContainerPool S V) (n : String) (c : Container V (S.descriptor n)) :
    ContainerPool S V := Function.update pool n c

@[simp] theorem set_self (pool : ContainerPool S V) (n : String)
    (c : Container V (S.descriptor n)) : pool.set n c n = c := Function.update_self ..

@[simp] theorem set_of_ne (pool : ContainerPool S V) {n m : String}
    (c : Container V (S.descriptor n)) (h : m ≠ n) : pool.set n c m = pool m :=
  Function.update_of_ne h ..

@[simp] theorem set_get (pool : ContainerPool S V) (n : String) : pool.set n (pool n) = pool :=
  Function.update_eq_self ..

end ContainerPool

/-! ## Events -/

variable (S V) in
structure Event where
  header : DotsHeader
  transmitted : AnyStruct S V
  updated : AnyStruct S V
  cloneInfo : DotsCloneInformation
  mt : DotsMt

/-- The event of a transmission: its kind is the operation the clone information names. -/
def Event.of (t : Transmission S V) (updated : AnyStruct S V) (cloneInfo : DotsCloneInformation) :
    Event S V :=
  { header := t.header, transmitted := t.instance_, updated, cloneInfo
    mt := cloneInfo.lastOperation }

variable (S V) in
/-- What a dispatch has for the event handlers. -/
inductive EventResult
  | event (e : Event S V)
  | none
  | threw (what : String)

/-- The clone information `dispatchEvent` makes up for an instance of an uncached type. -/
def DotsCloneInformation.uncached (h : DotsHeader) (now : Timepoint) : DotsCloneInformation where
  lastOperation := .create
  lastUpdateFrom := none
  created := h.sentTime
  createdFrom := h.sender
  modified := none
  localUpdateTime := now

namespace ContainerPool

/-- `Dispatcher::dispatchEvent` for a type that is not cached. -/
def uncachedEvent (t : Transmission S V) (now : Timepoint) : EventResult S V :=
  if t.header.removeObj = some true then
    .threw ("cannot remove uncached instance for type: " ++ t.instance_.typeName)
  else .event (.of t t.instance_ (.uncached t.header now))

/-- `Dispatcher::dispatchEvent` for an instance of a cached type. -/
def cachedEvent (pool : ContainerPool S V) (t : Transmission S V) (n : String)
    (x : Struct V (S.descriptor n)) (now : Timepoint) : ContainerPool S V × EventResult S V :=
  if t.header.removeObj = some true then
    let r := (pool n).remove t.header x now
    (pool.set n r.1,
      match r.2 with
      | some removed => .event (.of t (.struct n removed.1) removed.2)
      | none => .none)
  else
    let r := (pool n).insert t.header x now
    (pool.set n r.1, .event (.of t (.struct n r.2.1) r.2.2))

/-- The container operation of a dispatch and what the event handlers are to receive. -/
def dispatchEvent (pool : ContainerPool S V) (t : Transmission S V) (now : Timepoint) :
    ContainerPool S V × EventResult S V :=
  match t.instance_ with
  | .struct n x =>
    if (S.descriptor n).cached then pool.cachedEvent t n x now else (pool, uncachedEvent t now)
  | _ => (pool, uncachedEvent t now)

variable {pool : ContainerPool S V} {t : Transmission S V} {now : Timepoint}

theorem cachedEvent_insert {n : String} {x : Struct V (S.descriptor n)}
    (hr : t.header.removeObj ≠ some true) : pool.cachedEvent t n x now =
      (pool.set n ((pool n).insert t.header x now).1,
        .event (.of t (.struct n ((pool n).insert t.header x now).2.1)
          ((pool n).insert t.header x now).2.2)) :=
  if_neg hr

theorem cachedEvent_remove_some {n : String} {x : Struct V (S.descriptor n)}
    {e : Clone V (S.descriptor n)} (hr : t.header.removeObj = some true)
    (he : (pool n).lookup x.key = some e) : pool.cachedEvent t n x now =
      (pool.set n ((pool n).remove t.header x now).1,
        .event (.of t (.struct n (e.1.updateWithoutKeys x t.header.attributes))
          (e.2.touch .remove t.header now))) := by
  have hf : (pool n).findClone x = some e := he
  simp [cachedEvent, if_pos hr, Container.remove, hf]

theorem cachedEvent_remove_none {n : String} {x : Struct V (S.descriptor n)}
    (hr : t.header.removeObj = some true) (he : (pool n).lookup x.key = none) :
    pool.cachedEvent t n x now = (pool, .none) := by
  have hf : (pool n).findClone x = none := he
  have hc : ((pool n).remove t.header x now).1 = pool n := by
    ext1 k
    by_cases hk : k = x.key
    · rw [hk, Container.lookup_remove_self, he]
    · rw [Container.lookup_remove_of_ne hk]
  rw [cachedEvent, if_pos hr]
  simp only [hc, set_get]
  simp [Container.remove, hf]

/-- **A dispatch of a cached type** is an operation of its container. -/
theorem dispatchEvent_struct {n : String} {x : Struct V (S.descriptor n)}
    (ht : t.instance_ = .struct n x) (hc : (S.descriptor n).cached = true) :
    pool.dispatchEvent t now = pool.cachedEvent t n x now := by
  simp only [dispatchEvent, ht, hc, if_true]

theorem dispatchEvent_of_not_cached (h : t.instance_.cached = false) :
    pool.dispatchEvent t now = (pool, uncachedEvent t now) := by
  unfold dispatchEvent
  split
  · rename_i n x ht
    have hc : (S.descriptor n).cached = false := by simpa [AnyStruct.cached, ht] using h
    rw [hc, if_neg Bool.false_ne_true]
  · rfl

/-- The container after a dispatch of an instance of its type. -/
def apply {d : StructDescriptor} (c : Container V d) (h : DotsHeader) (x : Struct V d)
    (now : Timepoint) : Container V d :=
  if h.removeObj = some true then (c.remove h x now).1 else (c.insert h x now).1

/-- What a dispatch of a cached type does to the pool. -/
theorem dispatchEvent_fst {n : String} {x : Struct V (S.descriptor n)}
    (ht : t.instance_ = .struct n x) (hc : (S.descriptor n).cached = true) :
    (pool.dispatchEvent t now).1 = pool.set n (apply (pool n) t.header x now) := by
  rw [dispatchEvent_struct ht hc, cachedEvent, apply]
  split_ifs <;> rfl

theorem lookup_apply_self {d : StructDescriptor} {c : Container V d} {h : DotsHeader}
    {x : Struct V d} : (apply c h x now).lookup x.key =
      if h.removeObj = some true then none
      else some (Container.stored (c.lookup x.key) h x now) := by
  unfold apply
  split_ifs
  · exact Container.lookup_remove_self ..
  · exact Container.lookup_insert_self ..

theorem lookup_apply_of_ne {d : StructDescriptor} {c : Container V d} {h : DotsHeader}
    {x : Struct V d} {k : List (Option V)} (hk : k ≠ x.key) :
    (apply c h x now).lookup k = c.lookup k := by
  unfold apply
  split_ifs
  · exact Container.lookup_remove_of_ne hk
  · exact Container.lookup_insert_of_ne hk

/-- Only instances of a `Struct` are cached. -/
theorem exists_struct_of_cached {x : AnyStruct S V} (h : x.cached = true) :
    ∃ (n : String) (y : Struct V (S.descriptor n)),
      x = .struct n y ∧ (S.descriptor n).cached = true := by
  cases x with
  | struct n y => exact ⟨n, y, rfl, h⟩
  | _ => exact Bool.noConfusion h

/-- A dispatch leaves the containers of the other types alone. -/
theorem dispatchEvent_of_ne {n : String} (hn : n ≠ t.instance_.typeName) :
    (pool.dispatchEvent t now).1 n = pool n := by
  cases hc : t.instance_.cached with
  | false => rw [dispatchEvent_of_not_cached hc]
  | true =>
    obtain ⟨m, x, ht, hm⟩ := exists_struct_of_cached hc
    rw [dispatchEvent_struct ht hm, cachedEvent]
    have hne : n ≠ m := by rwa [ht] at hn
    split_ifs <;> exact set_of_ne _ _ hne

end ContainerPool

end Dots

import Mathlib.Data.Set.Card
import Mathlib.Logic.Function.Basic
import Std.Data.ExtTreeMap.Lemmas

/-!
# The map of descriptors

* `DescriptorMap`: the descriptors by name, with the source's operations and observations.
* `Call`, `run`: the calls that change it, one after the other.
* `FiniteMap`, `build`: the finite map from names to descriptors that the calls are meant to build.
* `Agrees`, **`agrees_run`**: `find`, `get`, `size` and the iteration are those of the finite map.
* **`not_observes_run`**: `contains` never is.
-/

set_option autoImplicit false

namespace Dots

namespace Descriptors

/-- What ends a call: an exception, or a null pointer that is followed. -/
inductive MapFailure
  | logicError (what : String)
  | nullPointer
  deriving DecidableEq

/-- `type::DescriptorMap`, with the descriptors by their names. -/
structure DescriptorMap (D : Type) where
  underlyingMap : Std.ExtTreeMap String D := ∅

variable {D : Type}

namespace DescriptorMap

variable (m : DescriptorMap D)

/-! ## Observations -/

/-- What is passed from `begin` to `end`. -/
def data : List (String × D) := m.underlyingMap.toList

/-- The text of the exceptions for a name that is not there. -/
def noType (name : String) : String := s!"no type with name: {name}"

/-- A null pointer is nothing. -/
def find (name : String) (assertNotNull : Bool) : Except MapFailure (Option D) :=
  match m.underlyingMap[name]? with
  | none => if assertNotNull then .error (.logicError (noType name)) else .ok none
  | some descriptor => .ok (some descriptor)

/-- A pointer is followed. -/
def dereference : Option D → Except MapFailure D
  | none => .error .nullPointer
  | some descriptor => .ok descriptor

def get (name : String) : Except MapFailure D := do dereference (← m.find name true)

def size : ℕ := m.underlyingMap.size

/-- `find(name) == nullptr`. -/
def contains (name : String) : Except MapFailure Bool := return (← m.find name false).isNone

/-! ## Changes -/

variable (nameOf : D → String)

def tryEmplace (descriptor : D) : (D × Bool) × DescriptorMap D :=
  match m.underlyingMap[nameOf descriptor]? with
  | none => ((descriptor, true), ⟨m.underlyingMap.insert (nameOf descriptor) descriptor⟩)
  | some present => ((present, false), m)

def emplace (descriptor : D) : Except MapFailure D × DescriptorMap D :=
  let ((present, emplaced), m) := m.tryEmplace nameOf descriptor
  if emplaced then (.ok present, m)
  else (.error (.logicError s!"there already is a type with name: {nameOf present}"), m)

/-- `erase` by name. -/
def erase (name : String) (assertContainedType : Bool) : Except MapFailure Unit × DescriptorMap D :=
  match m.underlyingMap[name]? with
  | none => (if assertContainedType then .error (.logicError (noType name)) else .ok (), m)
  | some _ => (.ok (), ⟨m.underlyingMap.erase name⟩)

/-- `erase` by descriptor. -/
def eraseDescriptor (descriptor : D) (assertContainedType : Bool) :
    Except MapFailure Unit × DescriptorMap D :=
  m.erase (nameOf descriptor) assertContainedType

def clear (_ : DescriptorMap D) : DescriptorMap D := {}

end DescriptorMap

/-! ## Calls -/

/-- The calls that change a map. -/
inductive Call (D : Type)
  | tryEmplace (descriptor : D)
  | emplace (descriptor : D)
  | erase (name : String) (assertContainedType : Bool)
  | eraseDescriptor (descriptor : D) (assertContainedType : Bool)
  | clear

section

variable (nameOf : D → String)

/-- Whether a call throws, and the map behind it. -/
def Call.perform (m : DescriptorMap D) : Call D → Except MapFailure Unit × DescriptorMap D
  | .tryEmplace descriptor => (.ok (), (m.tryEmplace nameOf descriptor).2)
  | .emplace descriptor =>
    let (outcome, m) := m.emplace nameOf descriptor
    (outcome.map fun _ => (), m)
  | .erase name assertContainedType => m.erase name assertContainedType
  | .eraseDescriptor descriptor assertContainedType =>
    m.eraseDescriptor nameOf descriptor assertContainedType
  | .clear => (.ok (), m.clear)

/-- The map behind a sequence of calls. What a call throws is caught. -/
def run (calls : List (Call D)) : DescriptorMap D :=
  calls.foldl (fun m call => (call.perform nameOf m).2) {}

end

/-! ## The finite map -/

/-- The descriptor of a name, if there is one. -/
abbrev FiniteMap (D : Type) := String → Option D

section

variable (nameOf : D → String)

/-- The first descriptor of a name stays. -/
def FiniteMap.keepFirst (f : FiniteMap D) (descriptor : D) : FiniteMap D :=
  Function.update f (nameOf descriptor) (some ((f (nameOf descriptor)).getD descriptor))

/-- What a call is meant to do. -/
def Call.effect (f : FiniteMap D) : Call D → FiniteMap D
  | .tryEmplace descriptor => f.keepFirst nameOf descriptor
  | .emplace descriptor => f.keepFirst nameOf descriptor
  | .erase name _ => Function.update f name none
  | .eraseDescriptor descriptor _ => Function.update f (nameOf descriptor) none
  | .clear => fun _ => none

/-- The calls that are meant to throw. -/
def Call.Refused (f : FiniteMap D) : Call D → Prop
  | .emplace descriptor => f (nameOf descriptor) ≠ none
  | .erase name assertContainedType => assertContainedType = true ∧ f name = none
  | .eraseDescriptor descriptor assertContainedType =>
    assertContainedType = true ∧ f (nameOf descriptor) = none
  | _ => False

/-- The finite map that a sequence of calls builds. -/
def build (calls : List (Call D)) : FiniteMap D :=
  calls.foldl (fun f call => call.effect nameOf f) fun _ => none

end

/-- The observations of a map apart from `contains` are those of a finite map. -/
structure Agrees (m : DescriptorMap D) (f : FiniteMap D) : Prop where
  find : ∀ name assertNotNull, m.find name assertNotNull =
    if f name = none ∧ assertNotNull = true then .error (.logicError (DescriptorMap.noType name))
    else .ok (f name)
  get : ∀ name, m.get name =
    (f name).elim (.error (.logicError (DescriptorMap.noType name))) .ok
  size : m.size = {name | f name ≠ none}.ncard
  mem_data : ∀ name descriptor, (name, descriptor) ∈ m.data ↔ f name = some descriptor
  sorted_data : m.data.Pairwise fun a b => compare a.1 b.1 = .lt

/-- The observations of a map are those of a finite map. -/
def Observes (m : DescriptorMap D) (f : FiniteMap D) : Prop :=
  Agrees m f ∧ ∀ name, m.contains name = .ok (f name).isSome

variable {m : DescriptorMap D} {f : FiniteMap D} {nameOf : D → String}

/-- The map is the finite map. -/
def Holds (m : DescriptorMap D) (f : FiniteMap D) : Prop := ∀ name, m.underlyingMap[name]? = f name

theorem Holds.find (h : Holds m f) (name : String) (assertNotNull : Bool) :
    m.find name assertNotNull =
      if f name = none ∧ assertNotNull = true then
        .error (.logicError (DescriptorMap.noType name))
      else .ok (f name) := by
  rw [DescriptorMap.find, h name]
  cases f name with
  | none => simp
  | some descriptor => simp

/-- **The observations** rest on the lookup. -/
theorem Holds.agrees (h : Holds m f) : Agrees m f where
  find := h.find
  get name := by
    rw [DescriptorMap.get, h.find]
    cases f name with
    | none => rfl
    | some descriptor => rfl
  size := by
    have hkeys : {name | f name ≠ none} = ((m.data.map Prod.fst).toFinset : Set String) := by
      ext name
      rw [Set.mem_ofPred_eq, Finset.mem_coe, List.mem_toFinset, List.mem_map]
      constructor
      · intro hname
        obtain ⟨descriptor, hd⟩ := Option.ne_none_iff_exists'.mp hname
        refine ⟨(name, descriptor), ?_, rfl⟩
        exact Std.ExtTreeMap.mem_toList_iff_getElem?_eq_some.mpr ((h name).trans hd)
      · rintro ⟨⟨_, descriptor⟩, hmem, rfl⟩
        rw [← h, Std.ExtTreeMap.mem_toList_iff_getElem?_eq_some.mp hmem]
        exact Option.some_ne_none descriptor
    have hnodup : (m.data.map Prod.fst).Nodup := by
      rw [List.Nodup, List.pairwise_map]
      refine Std.ExtTreeMap.distinct_keys_toList.imp fun hne heq => ?_
      exact hne (Std.LawfulEqCmp.compare_eq_iff_eq.mpr heq)
    rw [hkeys, Set.ncard_coe_finset, List.toFinset_card_of_nodup hnodup, List.length_map]
    exact Std.ExtTreeMap.length_toList.symm
  mem_data name descriptor := by
    rw [← h name]
    exact Std.ExtTreeMap.mem_toList_iff_getElem?_eq_some
  sorted_data := Std.ExtTreeMap.ordered_keys_toList

/-- `contains` says the opposite. -/
theorem Holds.contains (h : Holds m f) (name : String) :
    m.contains name = .ok (f name).isNone := by
  rw [DescriptorMap.contains, h.find]
  cases f name with
  | none => rfl
  | some descriptor => rfl

/-! ## What a call does -/

theorem Holds.insert (h : Holds m f) {descriptor : D} (hnone : f (nameOf descriptor) = none) :
    Holds ⟨m.underlyingMap.insert (nameOf descriptor) descriptor⟩ (f.keepFirst nameOf descriptor) := by
  intro name
  show (m.underlyingMap.insert (nameOf descriptor) descriptor)[name]? = _
  rw [Std.ExtTreeMap.getElem?_insert, h name, FiniteMap.keepFirst, hnone, Function.update_apply]
  simp only [Std.LawfulEqCmp.compare_eq_iff_eq, eq_comm (a := name)]
  rfl

/-- A descriptor whose name is taken changes nothing. -/
theorem FiniteMap.keepFirst_of_some {descriptor present : D} (h : f (nameOf descriptor) = some present) :
    f.keepFirst nameOf descriptor = f := by
  rw [keepFirst, h, Option.getD_some, ← h, Function.update_eq_self]

theorem Holds.erase (h : Holds m f) (name : String) :
    Holds ⟨m.underlyingMap.erase name⟩ (Function.update f name none) := by
  intro other
  show (m.underlyingMap.erase name)[other]? = _
  rw [Std.ExtTreeMap.getElem?_erase, h other, Function.update_apply]
  simp only [Std.LawfulEqCmp.compare_eq_iff_eq, eq_comm (a := other)]

variable (nameOf) in
theorem Holds.tryEmplace (h : Holds m f) (descriptor : D) :
    Holds (m.tryEmplace nameOf descriptor).2 (f.keepFirst nameOf descriptor) ∧
      (m.tryEmplace nameOf descriptor).1.2 = (f (nameOf descriptor)).isNone ∧
      (f (nameOf descriptor) ≠ none → (m.tryEmplace nameOf descriptor).2 = m) := by
  rw [DescriptorMap.tryEmplace, h]
  cases hf : f (nameOf descriptor) with
  | none => exact ⟨h.insert hf, rfl, fun hne => absurd rfl hne⟩
  | some present =>
    rw [FiniteMap.keepFirst_of_some hf]
    exact ⟨h, rfl, fun _ => rfl⟩

theorem Holds.eraseName (h : Holds m f) (name : String) (assertContainedType : Bool) :
    Holds (m.erase name assertContainedType).2 (Function.update f name none) ∧
      ((∃ e, (m.erase name assertContainedType).1 = .error e) ↔
        assertContainedType = true ∧ f name = none) ∧
      (f name = none → (m.erase name assertContainedType).2 = m) := by
  rw [DescriptorMap.erase, h]
  cases hf : f name with
  | none =>
    have hsame : Function.update f name none = f := by rw [← hf, Function.update_eq_self]
    rw [hsame]
    refine ⟨h, ?_, fun _ => rfl⟩
    cases assertContainedType with
    | true => exact iff_of_true ⟨_, rfl⟩ ⟨rfl, rfl⟩
    | false => exact iff_of_false (by rintro ⟨e, he⟩; cases he) (by simp)
  | some descriptor =>
    exact ⟨h.erase name, iff_of_false (by rintro ⟨e, he⟩; cases he) (by simp), nofun⟩

variable (nameOf) in
/-- **A call** does what it is meant to do, and throws exactly when it is refused; then the map stays
as it was. -/
theorem Holds.perform (h : Holds m f) (call : Call D) :
    Holds (call.perform nameOf m).2 (call.effect nameOf f) ∧
      ((∃ e, (call.perform nameOf m).1 = .error e) ↔ call.Refused nameOf f) ∧
      (call.Refused nameOf f → (call.perform nameOf m).2 = m) := by
  cases call with
  | tryEmplace descriptor =>
    exact ⟨(h.tryEmplace nameOf descriptor).1, iff_of_false (by rintro ⟨e, he⟩; cases he) id, False.elim⟩
  | emplace descriptor =>
    obtain ⟨hholds, hemplaced, hsame⟩ := h.tryEmplace nameOf descriptor
    rw [Call.perform, DescriptorMap.emplace]
    generalize m.tryEmplace nameOf descriptor = outcome at hholds hemplaced hsame
    obtain ⟨⟨present, emplaced⟩, m'⟩ := outcome
    obtain rfl : emplaced = (f (nameOf descriptor)).isNone := hemplaced
    cases hf : f (nameOf descriptor) with
    | none =>
      exact ⟨hholds, iff_of_false (by rintro ⟨e, he⟩; cases he) (not_not_intro hf),
        fun hne => absurd hf hne⟩
    | some present =>
      have hne : f (nameOf descriptor) ≠ none := by rw [hf]; exact Option.some_ne_none present
      exact ⟨hholds, iff_of_true ⟨_, rfl⟩ hne, fun _ => hsame hne⟩
  | erase name assertContainedType =>
    obtain ⟨hholds, hthrows, hsame⟩ := h.eraseName name assertContainedType
    exact ⟨hholds, hthrows, fun hrefused => hsame hrefused.2⟩
  | eraseDescriptor descriptor assertContainedType =>
    obtain ⟨hholds, hthrows, hsame⟩ := h.eraseName (nameOf descriptor) assertContainedType
    exact ⟨hholds, hthrows, fun hrefused => hsame hrefused.2⟩
  | clear => exact ⟨fun _ => rfl, iff_of_false (by rintro ⟨e, he⟩; cases he) id, False.elim⟩

theorem holds_empty : Holds ({} : DescriptorMap D) fun _ => none := fun _ => rfl

variable (nameOf) in
/-- **After every sequence of calls** the map is the finite map that they build. -/
theorem holds_run (calls : List (Call D)) : Holds (run nameOf calls) (build nameOf calls) := by
  have hfold : ∀ (calls : List (Call D)) {m : DescriptorMap D} {f : FiniteMap D}, Holds m f →
      Holds (calls.foldl (fun m call => (call.perform nameOf m).2) m)
        (calls.foldl (fun f call => call.effect nameOf f) f) := by
    intro calls
    induction calls with
    | nil => exact fun h => h
    | cons call calls ih => exact fun h => ih (h.perform nameOf call).1
  exact hfold calls holds_empty

/-- The observations apart from `contains` are those of the finite map. -/
theorem agrees_run (calls : List (Call D)) : Agrees (run nameOf calls) (build nameOf calls) :=
  (holds_run nameOf calls).agrees

/-- **`contains` is inverted.** After no sequence of calls are all observations those of the finite
map that the calls build: all but `contains` are, a call throws exactly when it is refused and then
changes nothing, but `contains` says of each name the opposite. -/
theorem not_observes_run (nameOf : D → String) (calls : List (Call D)) :
    ¬Observes (run nameOf calls) (build nameOf calls) ∧
      Agrees (run nameOf calls) (build nameOf calls) ∧
      (∀ name, (run nameOf calls).contains name = .ok (build nameOf calls name).isNone) ∧
      ∀ call : Call D,
        ((∃ e, (call.perform nameOf (run nameOf calls)).1 = .error e) ↔
          call.Refused nameOf (build nameOf calls)) ∧
        ∀ e, (call.perform nameOf (run nameOf calls)).1 = .error e →
          (call.perform nameOf (run nameOf calls)).2 = run nameOf calls := by
  have hholds := holds_run nameOf calls
  refine ⟨fun hobserves => ?_, hholds.agrees, hholds.contains, fun call => ?_⟩
  · have hopposite := (hholds.contains "").symm.trans (hobserves.2 "")
    cases hname : build nameOf calls "" with
    | none =>
      rw [hname] at hopposite
      cases hopposite
    | some descriptor =>
      rw [hname] at hopposite
      cases hopposite
  · obtain ⟨-, hthrows, hsame⟩ := hholds.perform nameOf call
    exact ⟨hthrows, fun e he => hsame (hthrows.mp ⟨e, he⟩)⟩

/-- A type that was emplaced is not contained. -/
theorem not_observes_emplaced :
    (run id [.emplace "DotsClient"]).contains "DotsClient" = .ok false ∧
      build id [Call.emplace "DotsClient"] "DotsClient" = some "DotsClient" ∧
      ¬Observes (run id [.emplace "DotsClient"]) (build id [Call.emplace "DotsClient"]) := by
  have hcontains := (holds_run id [Call.emplace "DotsClient"]).contains "DotsClient"
  have hbuild : build id [Call.emplace "DotsClient"] "DotsClient" = some "DotsClient" := by
    decide
  rw [hbuild] at hcontains
  refine ⟨hcontains, hbuild, fun hobserves => ?_⟩
  have hname := hobserves.2 "DotsClient"
  rw [hcontains, hbuild] at hname
  cases hname

end Descriptors

end Dots

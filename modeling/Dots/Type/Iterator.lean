import Dots.Type.Struct

/-!
# Iterating over properties

* `PropertyIterator`: a place among the properties of an area, with the proxy that was made there;
  `increment` and `decrement` pass the properties that are not included.
* `forEach`, `forEachBack`: the loops between two iterators.
* `PropertyPairIterator`: two iterators that move together.
* `Stands it`: an iterator is at the end, or on an included property with a proxy of it;
  **`Stands.increment`**, **`Stands.decrement`**: a step goes to the next or the previous one.
* **`iterates`**: each included property is visited once, in order, on both sides.
-/

set_option autoImplicit false

namespace Dots

/-- What ends a loop over iterators. -/
inductive IteratorFailure
  /-- `*m_proxy` without a proxy. -/
  | noProxy
  | logicError (what : String)
  /-- The loop makes more rounds than it is given. -/
  | endless
  deriving DecidableEq

/-- `PropertyIterator` over an area. The place of `m_descriptorIt` is between the descriptors before
it, the nearest one first, and those from it on; a reverse iterator goes through the descriptors
backwards. -/
structure PropertyIterator (A : Type) where
  area : A
  passed : List PropertyDescriptor
  ahead : List PropertyDescriptor
  properties : PropertySet
  proxy : Option (A × PropertyDescriptor) := none

namespace PropertyIterator

variable {A : Type} (it : PropertyIterator A)

def isPartOf (p : PropertyDescriptor) : Bool := p.set ⊆ it.properties

/-- At the descriptor `p`. -/
def emplaceProxy (p : PropertyDescriptor) : PropertyIterator A := { it with proxy := some (it.area, p) }

/-- The loop of `operator++` at a place. -/
def incrementFrom (passed : List PropertyDescriptor) : List PropertyDescriptor → PropertyIterator A
  | [] => { it with passed, ahead := [] }
  | [p] => { it with passed := p :: passed, ahead := [] }
  | p :: q :: ahead =>
    if it.isPartOf q then
      { it with passed := p :: passed, ahead := q :: ahead }.emplaceProxy q
    else incrementFrom (p :: passed) (q :: ahead)

/-- `operator++`. -/
def increment : PropertyIterator A := it.incrementFrom it.passed it.ahead

/-- The loop of `operator--` at a place. -/
def decrementFrom (ahead : List PropertyDescriptor) : List PropertyDescriptor → PropertyIterator A
  | [] => { it with passed := [], ahead }
  | p :: passed =>
    if it.isPartOf p then { it with passed, ahead := p :: ahead }.emplaceProxy p
    else decrementFrom (p :: ahead) passed

/-- `operator--`. -/
def decrement : PropertyIterator A := it.decrementFrom it.ahead it.passed

/-- `operator*`. -/
def deref : Except IteratorFailure (A × PropertyDescriptor) :=
  if it.ahead = [] then .error (.logicError "attempt to access past-end property")
  else
    match it.proxy with
    | none => .error .noProxy
    | some proxy => .ok proxy

/-- `operator==` compares the places. -/
def samePlace (other : PropertyIterator A) : Bool := it.ahead.length = other.ahead.length

/-- The constructor. -/
def make (area : A) (passed ahead : List PropertyDescriptor) (properties : PropertySet) :
    PropertyIterator A :=
  let it : PropertyIterator A := { area, passed, ahead, properties }
  match ahead with
  | [] => it
  | p :: _ => if it.isPartOf p then it.emplaceProxy p else it.increment

/-- The descriptors in the direction of an iterator. -/
def order (isReverse : Bool) (descriptors : List PropertyDescriptor) : List PropertyDescriptor :=
  if isReverse then descriptors.reverse else descriptors

/-- `_begin` and `_rbegin`. -/
def first (isReverse : Bool) (area : A) (descriptors : List PropertyDescriptor)
    (includedProperties : PropertySet) : PropertyIterator A :=
  make area [] (order isReverse descriptors) includedProperties

/-- `_end` and `_rend`. -/
def last (isReverse : Bool) (area : A) (descriptors : List PropertyDescriptor)
    (includedProperties : PropertySet) : PropertyIterator A :=
  make area (order isReverse descriptors).reverse [] includedProperties

/-! ## Loops -/

/-- `for (; it != last; ++it)`, at most `n` rounds; what is visited. -/
def forEach (last : PropertyIterator A) : (n : ℕ) → PropertyIterator A →
    Except IteratorFailure (List (A × PropertyDescriptor))
  | 0, _ => .error .endless
  | n + 1, it => do
    if it.samePlace last then return []
    else return (← it.deref) :: (← forEach last n it.increment)

/-- `while (it != first)`, with `--it` in each round before the visit. -/
def forEachBack (first : PropertyIterator A) : (n : ℕ) → PropertyIterator A →
    Except IteratorFailure (List (A × PropertyDescriptor))
  | 0, _ => .error .endless
  | n + 1, it => do
    if it.samePlace first then return []
    else return (← it.decrement.deref) :: (← forEachBack first n it.decrement)

/-- A step of an iterator. -/
inductive Move
  | increment
  | decrement
  deriving DecidableEq

def move : Move → PropertyIterator A
  | .increment => it.increment
  | .decrement => it.decrement

end PropertyIterator

open PropertyIterator (Move)

/-- `PropertyPairIterator`. -/
structure PropertyPairIterator (A : Type) where
  lhs : PropertyIterator A
  rhs : PropertyIterator A

/-- `operator++` and `operator--` of a pair. -/
def PropertyPairIterator.move {A : Type} (it : PropertyPairIterator A) (m : Move) :
    PropertyPairIterator A :=
  ⟨it.lhs.move m, it.rhs.move m⟩

/-- A place among `n` elements and their end, within the range. -/
def PropertyIterator.moveIndex (n i : ℕ) : Move → Option ℕ
  | .increment => if i < n then some (i + 1) else none
  | .decrement => if 0 < i then some (i - 1) else none

namespace PropertyIterator

variable {A : Type} {it : PropertyIterator A} {a : A} {ps passed ahead : List PropertyDescriptor}
  {P : PropertySet} {p : PropertyDescriptor} {i n : ℕ}

/-! ## Steps -/

/-- The descriptors that lie in a property set. -/
def included (P : PropertySet) (ps : List PropertyDescriptor) : List PropertyDescriptor :=
  ps.filter fun p => p.set ⊆ P

theorem included_reverse : included P ps.reverse = (included P ps).reverse := List.filter_reverse ..

theorem included_append : included P (passed ++ ahead) = included P passed ++ included P ahead :=
  List.filter_append ..

theorem included_cons_of_subset (hp : p.set ⊆ P) : included P (p :: ps) = p :: included P ps :=
  List.filter_cons_of_pos (decide_eq_true hp)

theorem included_cons_of_not_subset (hp : ¬p.set ⊆ P) : included P (p :: ps) = included P ps :=
  List.filter_cons_of_neg (by rw [decide_eq_true_iff]; exact hp)

/-- The iterator is at the end, or on an included property with a proxy of it. -/
structure Stands (a : A) (ps : List PropertyDescriptor) (P : PropertySet) (it : PropertyIterator A) :
    Prop where
  area : it.area = a
  properties : it.properties = P
  place : it.passed.reverse ++ it.ahead = ps
  proxy : ∀ p ∈ it.ahead.head?, p.set ⊆ P ∧ it.proxy = some (a, p)

/-- The number of included properties before the iterator. -/
def index (it : PropertyIterator A) : ℕ := (included it.properties it.passed).length

/-- What a loop of `operator++` does: it passes `p` and the properties behind it that are not
included. -/
theorem incrementFrom_cons (it : PropertyIterator A) (ha : it.area = a) (hP : it.properties = P)
    (passed ahead) (hps : passed.reverse ++ p :: ahead = ps) :
    ∃ excluded rest, ahead = excluded ++ rest ∧ included P excluded = [] ∧
      (it.incrementFrom passed (p :: ahead)).passed = excluded.reverse ++ p :: passed ∧
      (it.incrementFrom passed (p :: ahead)).ahead = rest ∧
      Stands a ps P (it.incrementFrom passed (p :: ahead)) := by
  induction ahead generalizing passed p with
  | nil =>
    refine ⟨[], [], rfl, rfl, rfl, rfl, ⟨ha, hP, ?_, nofun⟩⟩
    simpa [incrementFrom] using hps
  | cons q ahead ih =>
    have hps' : (p :: passed).reverse ++ q :: ahead = ps := by simpa using hps
    by_cases hq : q.set ⊆ P
    · have hstep : it.incrementFrom passed (p :: q :: ahead) =
          { it with passed := p :: passed, ahead := q :: ahead }.emplaceProxy q := by
        rw [incrementFrom, if_pos (by rw [isPartOf, hP]; exact decide_eq_true hq)]
      rw [hstep]
      refine ⟨[], q :: ahead, rfl, rfl, rfl, rfl, ⟨ha, hP, hps', ?_⟩⟩
      rintro r ⟨⟩
      exact ⟨hq, by rw [emplaceProxy, ha]⟩
    · have hstep : it.incrementFrom passed (p :: q :: ahead) =
          it.incrementFrom (p :: passed) (q :: ahead) := by
        rw [incrementFrom, if_neg (by rw [isPartOf, hP, decide_eq_true_iff]; exact hq)]
      obtain ⟨excluded, rest, rfl, hexcluded, hpassed, hahead, hstands⟩ := ih _ hps'
      rw [hstep]
      refine ⟨q :: excluded, rest, rfl, ?_, ?_, hahead, hstands⟩
      · exact (included_cons_of_not_subset hq).trans hexcluded
      · rw [hpassed]
        simp

/-- A loop of `operator--` passes the properties that are not included. -/
theorem decrementFrom_append (hP : it.properties = P) {excluded : List PropertyDescriptor}
    (hexcluded : included P excluded = []) (ahead passed : List PropertyDescriptor) :
    it.decrementFrom ahead (excluded ++ passed) =
      it.decrementFrom (excluded.reverse ++ ahead) passed := by
  induction excluded generalizing ahead with
  | nil => rfl
  | cons q excluded ih =>
    have hq : ¬q.set ⊆ P := by
      intro hq
      rw [included_cons_of_subset hq] at hexcluded
      cases hexcluded
    rw [included_cons_of_not_subset hq] at hexcluded
    rw [List.cons_append, decrementFrom, if_neg (by rw [isPartOf, hP, decide_eq_true_iff]; exact hq),
      ih hexcluded]
    simp

theorem decrementFrom_cons (hP : it.properties = P) (hp : p.set ⊆ P) :
    it.decrementFrom ahead (p :: passed) =
      { it with passed, ahead := p :: ahead }.emplaceProxy p := by
  rw [decrementFrom, if_pos (by rw [isPartOf, hP]; exact decide_eq_true hp)]

/-- The included properties ahead, as far as the iterator has not passed them. -/
theorem Stands.included_eq (h : Stands a ps P it) :
    included P ps = (included P it.passed).reverse ++ included P it.ahead := by
  rw [← h.place, included_append, included_reverse]

theorem Stands.drop_index (h : Stands a ps P it) :
    (included P ps).drop it.index = included P it.ahead := by
  rw [h.included_eq, index, h.properties, ← List.length_reverse, List.drop_left]

theorem Stands.index_le (h : Stands a ps P it) : it.index ≤ (included P ps).length := by
  rw [h.included_eq, index, h.properties, List.length_append, List.length_reverse]
  exact Nat.le_add_right _ _

/-- **The iterator stands** on the included property of its index, or at the end. -/
theorem Stands.deref (h : Stands a ps P it) :
    (∃ p, (included P ps)[it.index]? = some p ∧ it.ahead.head? = some p ∧ it.deref = .ok (a, p)) ∨
      it.index = (included P ps).length ∧ it.ahead = [] ∧
        it.deref = .error (.logicError "attempt to access past-end property") := by
  have hdrop := h.drop_index
  cases hahead : it.ahead with
  | nil =>
    refine .inr ⟨?_, rfl, by rw [PropertyIterator.deref, if_pos hahead]⟩
    rw [hahead] at hdrop
    exact h.index_le.antisymm (List.drop_eq_nil_iff.mp hdrop)
  | cons p rest =>
    obtain ⟨hp, hproxy⟩ := h.proxy p (by rw [hahead]; rfl)
    refine .inl ⟨p, ?_, rfl, ?_⟩
    · have hhead := congrArg List.head? hdrop
      rw [List.head?_drop, hahead, included_cons_of_subset hp] at hhead
      exact hhead
    · rw [PropertyIterator.deref, if_neg (by rw [hahead]; exact List.cons_ne_nil p rest), hproxy]

/-- **A step forward** goes to the next included property, and back again. -/
theorem Stands.increment (h : Stands a ps P it) (hi : it.index < (included P ps).length) :
    Stands a ps P it.increment ∧ it.increment.index = it.index + 1 ∧
      it.increment.decrement = it := by
  obtain ⟨p, -, hhead, -⟩ | ⟨hend, -, -⟩ := h.deref
  · obtain ⟨rest, hahead⟩ := List.head?_eq_some_iff.mp hhead
    obtain ⟨hp, hproxy⟩ := h.proxy p hhead
    have hplace : it.passed.reverse ++ p :: rest = ps := hahead ▸ h.place
    obtain ⟨excluded, ahead, rfl, hexcluded, hpassed, hahead', hstands⟩ :=
      incrementFrom_cons it h.area h.properties it.passed rest hplace
    have hincrement : it.increment = it.incrementFrom it.passed (p :: (excluded ++ ahead)) := by
      rw [PropertyIterator.increment, hahead]
    rw [hincrement]
    refine ⟨hstands, ?_, ?_⟩
    · rw [index, hstands.properties, hpassed, included_append, included_reverse, hexcluded,
        included_cons_of_subset hp, index, h.properties]
      rfl
    · have hreverse : included P excluded.reverse = [] := by
        rw [included_reverse, hexcluded]
        rfl
      rw [PropertyIterator.decrement, hpassed, hahead',
        decrementFrom_append hstands.properties hreverse, decrementFrom_cons hstands.properties hp,
        List.reverse_reverse, emplaceProxy]
      obtain ⟨area, passed, ahead', properties, proxy⟩ := it
      obtain rfl : ahead' = p :: (excluded ++ ahead) := hahead
      obtain rfl : area = a := h.area
      obtain rfl : proxy = some (area, p) := hproxy
      obtain rfl : properties = P := h.properties
      have harea := hstands.area
      have hproperties := hstands.properties
      simp only [harea, hproperties]
  · omega

/-- **A step backward** goes to the previous included property. -/
theorem Stands.decrement (h : Stands a ps P it) (hi : 0 < it.index) :
    Stands a ps P it.decrement ∧ it.decrement.index + 1 = it.index := by
  -- the nearest included property before the iterator
  have hsplit : ∃ excluded p before, it.passed = excluded ++ p :: before ∧
      included P excluded = [] ∧ p.set ⊆ P := by
    rw [index, h.properties] at hi
    generalize it.passed = passed at hi
    induction passed with
    | nil => cases hi
    | cons q passed ih =>
      by_cases hq : q.set ⊆ P
      · exact ⟨[], q, passed, rfl, rfl, hq⟩
      · rw [included_cons_of_not_subset hq] at hi
        obtain ⟨excluded, p, before, rfl, hexcluded, hp⟩ := ih hi
        exact ⟨q :: excluded, p, before, rfl,
          (included_cons_of_not_subset hq).trans hexcluded, hp⟩
  obtain ⟨excluded, p, before, hpassed, hexcluded, hp⟩ := hsplit
  have hdecrement : it.decrement =
      { it with passed := before, ahead := p :: (excluded.reverse ++ it.ahead) }.emplaceProxy p := by
    rw [PropertyIterator.decrement, hpassed, decrementFrom_append h.properties hexcluded,
      decrementFrom_cons h.properties hp]
  rw [hdecrement]
  refine ⟨⟨h.area, h.properties, ?_, ?_⟩, ?_⟩
  · rw [← h.place, hpassed]
    simp [emplaceProxy]
  · rintro q ⟨⟩
    exact ⟨hp, by rw [emplaceProxy, h.area]⟩
  · rw [index, index, hpassed, included_append, h.properties, hexcluded,
      included_cons_of_subset hp]
    rfl

/-- The places with the same index are the same. -/
theorem Stands.samePlace_iff {other : PropertyIterator A} {b : A} (h : Stands a ps P it)
    (h' : Stands b ps P other) : it.samePlace other = true ↔ it.index = other.index := by
  -- the shorter rest is behind the longer one, and begins with an included property
  have hindex : ∀ {x y : PropertyIterator A} {a b : A}, Stands a ps P x → Stands b ps P y →
      x.ahead.length < y.ahead.length → y.index < x.index := by
    intro x y a b hx hy hlength
    obtain ⟨u, hu⟩ : x.ahead <:+ y.ahead := by
      have hx' : x.ahead <:+ ps := ⟨_, hx.place⟩
      have hy' : y.ahead <:+ ps := ⟨_, hy.place⟩
      exact List.suffix_of_suffix_length_le hx' hy' hlength.le
    cases u with
    | nil =>
      rw [List.nil_append] at hu
      rw [hu] at hlength
      exact absurd hlength (lt_irrefl _)
    | cons p u =>
      obtain ⟨hp, -⟩ := hy.proxy p (by rw [← hu]; rfl)
      have hmore : (included P x.ahead).length < (included P y.ahead).length := by
        rw [← hu, List.cons_append, included_cons_of_subset hp, included_append, List.length_cons,
          List.length_append]
        omega
      rw [← hx.drop_index, ← hy.drop_index, List.length_drop, List.length_drop] at hmore
      have hle := hx.index_le
      omega
  rw [samePlace, decide_eq_true_iff]
  constructor
  · intro hlength
    have hsuffix : it.ahead = other.ahead := by
      have hs : it.ahead <:+ ps := ⟨_, h.place⟩
      have hs' : other.ahead <:+ ps := ⟨_, h'.place⟩
      exact (List.suffix_of_suffix_length_le hs hs' hlength.le).eq_of_length hlength
    have hdrop := h.drop_index
    rw [hsuffix, ← h'.drop_index] at hdrop
    have hlengths := congrArg List.length hdrop
    rw [List.length_drop, List.length_drop] at hlengths
    have := h.index_le
    have := h'.index_le
    omega
  · intro heq
    rcases lt_trichotomy it.ahead.length other.ahead.length with hlt | hlt | hlt
    · have := hindex h h' hlt
      omega
    · exact hlt
    · have := hindex h' h hlt
      omega

/-! ## The ends of a range -/

theorem stands_make (ps : List PropertyDescriptor) :
    Stands a ps P (make a [] ps P) ∧ (make a [] ps P).index = 0 := by
  cases ps with
  | nil => exact ⟨⟨rfl, rfl, rfl, nofun⟩, rfl⟩
  | cons p rest =>
    by_cases hp : p.set ⊆ P
    · have hmake : make a [] (p :: rest) P =
          (⟨a, [], p :: rest, P, none⟩ : PropertyIterator A).emplaceProxy p :=
        if_pos (decide_eq_true hp)
      rw [hmake]
      refine ⟨⟨rfl, rfl, rfl, ?_⟩, rfl⟩
      rintro q ⟨⟩
      exact ⟨hp, rfl⟩
    · have hmake : make a [] (p :: rest) P =
          (⟨a, [], p :: rest, P, none⟩ : PropertyIterator A).incrementFrom [] (p :: rest) :=
        if_neg fun hpart => hp (of_decide_eq_true hpart)
      obtain ⟨excluded, ahead, -, hexcluded, hpassed, -, hstands⟩ :=
        incrementFrom_cons ⟨a, [], p :: rest, P, none⟩ rfl rfl [] rest rfl
      rw [hmake]
      refine ⟨hstands, ?_⟩
      rw [index, hstands.properties, hpassed, included_append, included_reverse, hexcluded,
        included_cons_of_not_subset hp]
      rfl

theorem stands_first (isReverse : Bool) (ds : List PropertyDescriptor) (P : PropertySet) (a : A) :
    Stands a (order isReverse ds) P (first isReverse a ds P) ∧ (first isReverse a ds P).index = 0 :=
  stands_make _

theorem stands_last (isReverse : Bool) (ds : List PropertyDescriptor) (P : PropertySet) (a : A) :
    Stands a (order isReverse ds) P (last isReverse a ds P) ∧
      (last isReverse a ds P).index = (included P (order isReverse ds)).length := by
  refine ⟨⟨rfl, rfl, ?_, nofun⟩, ?_⟩
  · show (order isReverse ds).reverse.reverse ++ [] = _
    rw [List.reverse_reverse, List.append_nil]
  · show (included P (order isReverse ds).reverse).length = _
    rw [included_reverse, List.length_reverse]

/-! ## Loops and moves -/

/-- **The loop forward** from an index visits the included properties from there on. -/
theorem Stands.forEach {last : PropertyIterator A} (h : Stands a ps P it) (hlast : Stands a ps P last)
    (hend : last.index = (included P ps).length)
    (hn : (included P ps).length - it.index < n) :
    PropertyIterator.forEach last n it =
      .ok (((included P ps).drop it.index).map (Prod.mk a)) := by
  induction n generalizing it with
  | zero => cases hn
  | succ n ih =>
    rw [PropertyIterator.forEach]
    by_cases hsame : it.index = last.index
    · rw [if_pos ((h.samePlace_iff hlast).mpr hsame), hsame, hend, List.drop_length]
      rfl
    · have hi : it.index < (included P ps).length := lt_of_le_of_ne h.index_le (hend ▸ hsame)
      obtain ⟨hstands, hindex, -⟩ := h.increment hi
      obtain ⟨p, hp, -, hderef⟩ | ⟨hatEnd, -, -⟩ := h.deref
      · have hrest := ih hstands (by omega)
        rw [if_neg fun hplace => hsame ((h.samePlace_iff hlast).mp hplace), hderef, hrest, hindex,
          List.drop_eq_getElem_cons hi]
        obtain ⟨-, rfl⟩ := List.getElem?_eq_some_iff.mp hp
        rfl
      · omega

/-- **The loop backward** from an index visits the included properties before it. -/
theorem Stands.forEachBack {first : PropertyIterator A} (h : Stands a ps P it)
    (hfirst : Stands a ps P first) (hbegin : first.index = 0) (hn : it.index < n) :
    PropertyIterator.forEachBack first n it =
      .ok (((included P ps).take it.index).reverse.map (Prod.mk a)) := by
  induction n generalizing it with
  | zero => cases hn
  | succ n ih =>
    rw [PropertyIterator.forEachBack]
    by_cases hsame : it.index = first.index
    · rw [if_pos ((h.samePlace_iff hfirst).mpr hsame), hsame, hbegin]
      rfl
    · obtain ⟨hstands, hindex⟩ := h.decrement (Nat.pos_of_ne_zero (hbegin ▸ hsame))
      have hrest := ih hstands (by omega)
      have hle := h.index_le
      obtain ⟨p, hp, -, hderef⟩ | ⟨hatEnd, -, -⟩ := hstands.deref
      · rw [if_neg fun hplace => hsame ((h.samePlace_iff hfirst).mp hplace), hderef, hrest, ← hindex,
          List.take_add_one, hp, List.reverse_append]
        rfl
      · omega

/-- **A move within the range** goes to the index of the move. -/
theorem Stands.move {m : Move} {j : ℕ} (h : Stands a ps P it)
    (hmove : moveIndex (included P ps).length it.index m = some j) :
    Stands a ps P (it.move m) ∧ (it.move m).index = j := by
  cases m with
  | increment =>
    obtain ⟨hi, hj⟩ := Option.ite_none_right_eq_some.mp hmove
    obtain ⟨hstands, hindex, -⟩ := h.increment hi
    obtain rfl := Option.some.inj hj
    exact ⟨hstands, hindex⟩
  | decrement =>
    obtain ⟨hi, hj⟩ := Option.ite_none_right_eq_some.mp hmove
    obtain ⟨hstands, hindex⟩ := h.decrement hi
    obtain rfl := Option.some.inj hj
    exact ⟨hstands, Nat.eq_sub_of_add_eq hindex⟩

theorem Stands.moves {moves : List Move} {j : ℕ} (h : Stands a ps P it)
    (hmoves : moves.foldlM (moveIndex (included P ps).length) it.index = some j) :
    Stands a ps P (moves.foldl PropertyIterator.move it) ∧
      (moves.foldl PropertyIterator.move it).index = j := by
  induction moves generalizing it with
  | nil => exact ⟨h, Option.some.inj hmoves⟩
  | cons m moves ih =>
    rw [List.foldlM_cons] at hmoves
    obtain ⟨i, hmove, hmoves⟩ := Option.bind_eq_some_iff.mp hmoves
    obtain ⟨hstands, hindex⟩ := h.move hmove
    exact ih hstands (by rwa [hindex])

/-- The sides of a pair move on their own. -/
theorem foldl_move_pair (moves : List Move) (it : PropertyPairIterator A) :
    moves.foldl PropertyPairIterator.move it =
      ⟨moves.foldl PropertyIterator.move it.lhs, moves.foldl PropertyIterator.move it.rhs⟩ := by
  induction moves generalizing it with
  | nil => rfl
  | cons m moves ih => exact ih _

/-- **Iteration is exact.** For every list of descriptors and every property set, forward or
reverse: the loop from the beginning to the end visits the included properties in order, each once,
and ends, as soon as it may make one round more than there are; the loop backward from the end
visits them in the opposite order; a pair of iterators over two areas, from the beginning or from
the end, is on the same included property on both sides, or at the end, after every sequence of moves
within the range; and from an included property, a step forward and a step backward lead back. -/
theorem iterates {A : Type} (isReverse : Bool) (ds : List PropertyDescriptor) (P : PropertySet)
    (a b : A) :
    let inside := (order isReverse ds).filter fun p => p.set ⊆ P
    (∀ n, inside.length < n → forEach (last isReverse a ds P) n (first isReverse a ds P) =
      .ok (inside.map (Prod.mk a))) ∧
    (∀ n, inside.length < n → forEachBack (first isReverse a ds P) n (last isReverse a ds P) =
      .ok (inside.reverse.map (Prod.mk a))) ∧
    ∀ (fromEnd : Bool) (moves : List Move) (i : ℕ),
      moves.foldlM (moveIndex inside.length) (if fromEnd then inside.length else 0) = some i →
        let it := moves.foldl PropertyPairIterator.move
          (if fromEnd then ⟨last isReverse a ds P, last isReverse b ds P⟩
            else ⟨first isReverse a ds P, first isReverse b ds P⟩)
        match inside[i]? with
        | some p => it.lhs.deref = .ok (a, p) ∧ it.rhs.deref = .ok (b, p) ∧
            it.lhs.increment.decrement = it.lhs
        | none => it.lhs.ahead = [] ∧ it.rhs.ahead = [] := by
  intro inside
  obtain ⟨hfirst, hbegin⟩ := stands_first isReverse ds P a
  obtain ⟨hlast, hend⟩ := stands_last isReverse ds P a
  refine ⟨fun n hn => ?_, fun n hn => ?_, fun fromEnd moves i hmoves => ?_⟩
  · have hloop := hfirst.forEach hlast hend (n := n) (by rw [hbegin]; exact hn)
    rwa [hbegin, List.drop_zero] at hloop
  · have hloop := hlast.forEachBack hfirst hbegin (n := n) (by rw [hend]; exact hn)
    rwa [hend, List.take_length] at hloop
  · -- both sides start at the same index
    have hstart : ∀ c : A, Stands c (order isReverse ds) P
        (if fromEnd then last isReverse c ds P else first isReverse c ds P) ∧
        (if fromEnd then last isReverse c ds P else first isReverse c ds P).index =
          if fromEnd then inside.length else 0 := by
      intro c
      cases fromEnd with
      | true => exact stands_last isReverse ds P c
      | false => exact stands_first isReverse ds P c
    obtain ⟨hlhs, hl⟩ := hstart a
    obtain ⟨hrhs, hr⟩ := hstart b
    obtain ⟨hlhs, hl⟩ := hlhs.moves (by rw [hl]; exact hmoves)
    obtain ⟨hrhs, hr⟩ := hrhs.moves (by rw [hr]; exact hmoves)
    have hpair : moves.foldl PropertyPairIterator.move
        (if fromEnd then ⟨last isReverse a ds P, last isReverse b ds P⟩
          else ⟨first isReverse a ds P, first isReverse b ds P⟩) =
        ⟨moves.foldl PropertyIterator.move
            (if fromEnd then last isReverse a ds P else first isReverse a ds P),
          moves.foldl PropertyIterator.move
            (if fromEnd then last isReverse b ds P else first isReverse b ds P)⟩ := by
      rw [foldl_move_pair]
      cases fromEnd <;> rfl
    rw [hpair]
    cases hi : inside[i]? with
    | none =>
      have hle := List.getElem?_eq_none_iff.mp hi
      obtain ⟨p, hp, -⟩ | ⟨-, hahead, -⟩ := hlhs.deref
      · rw [hl] at hp
        exact absurd (hp.symm.trans hi) (Option.some_ne_none p)
      · obtain ⟨p, hp, -⟩ | ⟨-, hahead', -⟩ := hrhs.deref
        · rw [hr] at hp
          exact absurd (hp.symm.trans hi) (Option.some_ne_none p)
        · exact ⟨hahead, hahead'⟩
    | some p =>
      obtain ⟨hlt, -⟩ := List.getElem?_eq_some_iff.mp hi
      have hstep := (hlhs.increment (by rw [hl]; exact hlt)).2.2
      obtain ⟨q, hq, -, hderef⟩ | ⟨hatEnd, -⟩ := hlhs.deref
      · obtain ⟨r, hr', -, hderef'⟩ | ⟨hatEnd, -⟩ := hrhs.deref
        · rw [hl] at hq
          rw [hr] at hr'
          obtain rfl := Option.some.inj (hq.symm.trans hi)
          obtain rfl := Option.some.inj (hr'.symm.trans hi)
          exact ⟨hderef, hderef', hstep⟩
        · rw [hr] at hatEnd
          exact absurd hatEnd hlt.ne
      · rw [hl] at hatEnd
        exact absurd hatEnd hlt.ne

/-- A property between two included ones, and one behind them. -/
theorem iterates_gap :
    let ds : List PropertyDescriptor :=
      [⟨"id", 0, true⟩, ⟨"name", 1, false⟩, ⟨"running", 2, false⟩, ⟨"groups", 3, false⟩]
    (forEach (last true () ds {0, 2}) 3 (first true () ds {0, 2}) =
      .ok [((), ⟨"running", 2, false⟩), ((), ⟨"id", 0, true⟩)]) ∧
    (forEachBack (first true () ds {0, 2}) 3 (last true () ds {0, 2}) =
      .ok [((), ⟨"id", 0, true⟩), ((), ⟨"running", 2, false⟩)]) := by
  intro ds
  obtain ⟨hforward, hbackward, -⟩ := iterates true ds {0, 2} () ()
  exact ⟨hforward 3 (by decide), hbackward 3 (by decide)⟩

end PropertyIterator

end Dots

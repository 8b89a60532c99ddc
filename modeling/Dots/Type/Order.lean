import Dots.Lib.WeakOrder
import Dots.Type.Comparison

/-!
# The order of instances and of keys

* `isOrdered`, `Ordered`: the types without floating-point values, times and property sets, at any
  depth. A NaN is not separated from anything, and inclusion does not separate all sets.
* `strictWeak_lessValue`, `strictWeak_lessLoop`: their values and instances are strictly weakly
  ordered, the loop of `less` being lexicographic.
* `KeyedInstance`, `keyCompare`: the order of a container, that of the key properties.
* `ordered_of_strictWeak`: no other type is.
* **`less_strictWeak_iff`**: the exact condition, for instances and for keys.
-/

set_option autoImplicit false

namespace Dots

/-- The types whose `<` separates all values that are not equal. -/
def FundamentalType.isOrdered (t : FundamentalType) : Bool :=
  !t.isFloating && decide (t ≠ .propertySet)

mutual

def TypeDescriptor.Ordered : TypeDescriptor → Prop
  | .fundamental t => t.isOrdered = true
  | .enumeration _ _ => True
  | .vector d => d.Ordered
  | .struct ps => ps.Ordered Finset.univ

/-- The properties of the set have ordered types. -/
def PropertyDescriptors.Ordered (included : PropertySet) : PropertyDescriptors → Prop
  | .nil => True
  | .cons p d ps => (p.tag ∈ included → d.Ordered) ∧ ps.Ordered included

end

/-! ## The fundamental types -/

theorem vectorLess_eq {α : Type} (less : α → α → Bool) :
    vectorLess less = StrictWeak.listLess less := by
  funext vs ws
  induction vs generalizing ws with
  | nil => cases ws <;> rfl
  | cons v vs ih =>
    cases ws with
    | nil => rfl
    | cons w ws => rw [vectorLess, StrictWeak.listLess, ih]

theorem strictWeak_ult (w : ℕ) : StrictWeak (BitVec.ult (n := w)) (· == ·) :=
  .of_injective (fun _ _ => BitVec.eq_of_toNat_eq) fun _ _ => rfl

theorem strictWeak_slt (w : ℕ) : StrictWeak (BitVec.slt (n := w)) (· == ·) :=
  .of_injective (fun _ _ => BitVec.eq_of_toInt_eq) fun _ _ => rfl

/-- Strings and uuids are in the order of their bytes. -/
theorem strictWeak_bytes {P : List UInt8 → Prop} :
    StrictWeak (fun v w : {bytes : List UInt8 // P bytes} =>
      vectorLess (fun a b : UInt8 => decide (a < b)) v.1 w.1) fun v w => v.1 == w.1 := by
  have hbyte : StrictWeak (fun a b : UInt8 => decide (a < b)) (· == ·) :=
    .of_injective (fun _ _ => UInt8.toNat_inj.mp) fun _ _ => rfl
  refine hbyte.list.comap Subtype.val (fun v w => by rw [vectorLess_eq]) fun v w => ?_
  rw [Bool.eq_iff_iff, beq_iff_eq, List.isEqv_eq]

namespace FundamentalType

theorem strictWeak : ∀ {t : FundamentalType}, t.isOrdered = true →
    StrictWeak t.operatorLess t.operatorEqual
  | .boolean, _ =>
    have h : StrictWeak (fun v w : Bool => !v && w) (· == ·) :=
      .of_injective Function.injective_id (by decide)
    h
  | .int8, _ => strictWeak_slt 8
  | .uint8, _ => strictWeak_ult 8
  | .int16, _ => strictWeak_slt 16
  | .uint16, _ => strictWeak_ult 16
  | .int32, _ => strictWeak_slt 32
  | .uint32, _ => strictWeak_ult 32
  | .int64, _ => strictWeak_slt 64
  | .uint64, _ => strictWeak_ult 64
  | .uuid, _ => strictWeak_bytes
  | .string, _ => strictWeak_bytes

/-- A NaN equals nothing, and two sets may be neither equal nor one inside the other. -/
theorem isOrdered_of_strictWeak : ∀ {t : FundamentalType},
    StrictWeak t.operatorLess t.operatorEqual → t.isOrdered = true
  | .boolean, _ | .int8, _ | .uint8, _ | .int16, _ | .uint16, _ | .int32, _ | .uint32, _
  | .int64, _ | .uint64, _ | .uuid, _ | .string, _ => rfl
  | .float32, h => absurd (h.equal_refl 0x7FC00000#32) (by decide +kernel)
  | .float64, h | .timepoint, h | .steadyTimepoint, h | .duration, h =>
    absurd (h.equal_refl 0x7FF8000000000000#64) (by decide +kernel)
  | .propertySet, h =>
    absurd ((h.equal_iff 1#32 2#32).mpr (by decide +kernel)) (by decide +kernel)

end FundamentalType

/-! ## Values and instances -/

theorem Property.less_eq {α : Type} (less : α → α → Bool) :
    Property.less less = StrictWeak.optionLess less := by
  funext v w
  cases v <;> cases w <;> rfl

theorem Property.equal_eq {α : Type} (equal : α → α → Bool) :
    Property.equal equal = StrictWeak.optionEqual equal := by
  funext v w
  cases v <;> cases w <;> rfl

namespace StructDescriptor

variable {included : PropertySet} {p : PropertyDescriptor} {d : TypeDescriptor}
  {ps : PropertyDescriptors}

/-- The loop of `less`, one property before the others. -/
theorem lessLoop_cons (c : Comparison) (v w : Option (Value d)) (x y : Instance ps) :
    lessLoop c included (.cons p d ps) (v, x) (w, y) =
      if p.tag ∈ included then
        Property.less (lessValue c d) v w ||
          (!Property.less (lessValue c d) w v && lessLoop c included ps x y)
      else lessLoop c included ps x y := by
  rw [lessLoop]
  simp only [PropertyDescriptor.set_subset_iff]
  split_ifs with hp hlt hgt <;> simp_all

theorem lessLoop_empty (c : Comparison) : ∀ (ps : PropertyDescriptors) (x y : Instance ps),
    lessLoop c ∅ ps x y = false
  | .cons p d ps, (v, x), (w, y) => by
    rw [lessLoop_cons, if_neg (Finset.notMem_empty _), lessLoop_empty c ps x y]
  | .nil, _, _ => rfl

/-- The empty set separates nothing, as the code says before its loop. -/
theorem less_eq_lessLoop (c : Comparison) : less c included = lessLoop c included := by
  funext ps x y
  rw [less]
  split_ifs with h
  · rw [h, lessLoop_empty]
  · rfl

mutual

/-- **The values of an ordered type** are strictly weakly ordered. -/
theorem strictWeak_lessValue : ∀ {d : TypeDescriptor}, d.Ordered →
    StrictWeak (lessValue operators d) (equalValue operators d)
  | .fundamental _, h => FundamentalType.strictWeak h
  | .enumeration _ _, _ => strictWeak_slt 32
  | .vector d, h => by
    have hd : StrictWeak (lessValue operators d) (equalValue operators d) := strictWeak_lessValue h
    refine hd.list.comap Subtype.val (fun v w => ?_) fun v w => rfl
    rw [lessValue, vectorLess_eq]
  | .struct ps, h => strictWeak_lessLoop h

/-- **Instances** are strictly weakly ordered by properties of ordered types, the loop being
lexicographic. -/
theorem strictWeak_lessLoop {included : PropertySet} : ∀ {ps : PropertyDescriptors},
    ps.Ordered included → StrictWeak (lessLoop operators included ps) (equal operators included ps)
  | .nil, _ => .const
  | .cons p d ps, h => by
    have ih : StrictWeak (lessLoop operators included ps) (equal operators included ps) :=
      strictWeak_lessLoop h.2
    by_cases hp : p.tag ∈ included
    · have hd : StrictWeak (lessValue operators d) (equalValue operators d) :=
        strictWeak_lessValue (h.1 hp)
      refine (hd.option.lex ih).comap (fun x : Instance (.cons p d ps) => x) (fun x y => ?_)
        fun x y => ?_
      · exact (lessLoop_cons operators x.1 y.1 x.2 y.2).trans
          ((if_pos hp).trans (by rw [Property.less_eq]))
      · rw [← Property.equal_eq]
        exact (equal_cons operators x.1 y.1 x.2 y.2).trans
          (by rw [if_pos (PropertyDescriptor.set_subset_iff.mpr hp)])
    · refine ih.comap Prod.snd (fun x y => ?_) fun x y => ?_
      · exact (lessLoop_cons operators x.1 y.1 x.2 y.2).trans (if_neg hp)
      · exact (equal_cons operators x.1 y.1 x.2 y.2).trans
          (by rw [if_neg (mt PropertyDescriptor.set_subset_iff.mp hp), Bool.true_and])

end

end StructDescriptor

/-! ## Keys -/

/-- The key properties are valid. -/
def Instance.KeysValid : (ps : PropertyDescriptors) → Instance ps → Prop
  | .nil, _ => True
  | .cons p _ ps, (v, x) => (p.isKey = true → v.isSome = true) ∧ KeysValid ps x

/-- The instances that a container may hold: their key properties are valid. -/
abbrev KeyedInstance (ps : PropertyDescriptors) := {x : Instance ps // x.KeysValid ps}

namespace KeyedInstance

/-- `Container::key_compare`: the loop over the key properties compares the values without a look at
their validity. -/
def keyCompare (c : Comparison) : (ps : PropertyDescriptors) → KeyedInstance ps →
    KeyedInstance ps → Bool
  | .nil, _, _ => false
  | .cons p d ps, ⟨(v, x), hx⟩, ⟨(w, y), hy⟩ =>
    if hk : p.isKey = true then
      let lhsValue := v.get (hx.1 hk)
      let rhsValue := w.get (hy.1 hk)
      if StructDescriptor.lessValue c d lhsValue rhsValue then true
      else if StructDescriptor.lessValue c d rhsValue lhsValue then false
      else keyCompare c ps ⟨x, hx.2⟩ ⟨y, hy.2⟩
    else keyCompare c ps ⟨x, hx.2⟩ ⟨y, hy.2⟩

/-- `StructDescriptor::same` of two instances with valid keys. -/
def same (c : Comparison) (ps : PropertyDescriptors) (x y : KeyedInstance ps) : Bool :=
  StructDescriptor.same c ps x.1 y.1

open StructDescriptor

/-- The order of a container is that of the instances on their key properties. -/
theorem keyCompare_eq (c : Comparison) : ∀ {ps : PropertyDescriptors}, ps.tags.Nodup →
    ∀ (s : PropertySet), (∀ t ∈ ps.tags, t ∈ s ↔ t ∈ keySet ps) → ∀ x y : KeyedInstance ps,
      keyCompare c ps x y = lessLoop c s ps x.1 y.1
  | .nil, _, _, _, _, _ => rfl
  | .cons p d ps, h, s, hs, ⟨(v, x), hx⟩, ⟨(w, y), hy⟩ => by
    obtain ⟨hp, hps⟩ := List.nodup_cons.mp h
    have hk : p.tag ∈ s ↔ p.isKey = true := (hs p.tag List.mem_cons_self).trans (tag_mem_keySet hp)
    have ih := keyCompare_eq c hps s (fun t ht =>
      (hs t (List.mem_cons_of_mem _ ht)).trans (mem_keySet_tail hp ht)) ⟨x, hx.2⟩ ⟨y, hy.2⟩
    rw [keyCompare, lessLoop_cons, ih]
    by_cases hkey : p.isKey = true
    · obtain ⟨v, rfl⟩ := Option.isSome_iff_exists.mp (hx.1 hkey)
      obtain ⟨w, rfl⟩ := Option.isSome_iff_exists.mp (hy.1 hkey)
      simp only [dif_pos hkey, if_pos (hk.mpr hkey), Option.get_some, Property.less]
      split_ifs with hlt hgt <;> simp_all
    · rw [dif_neg hkey, if_neg (mt hk.mp hkey)]

/-- The instance whose keys have default values. -/
def fresh : (ps : PropertyDescriptors) → KeyedInstance ps
  | .nil => ⟨(), trivial⟩
  | .cons p d ps =>
    ⟨(if p.isKey then some (Value.fresh d) else none, (fresh ps).1), fun hk => by simp [hk],
      (fresh ps).2⟩

end KeyedInstance

/-! ## No other type is ordered -/

namespace FundamentalType

/-- No value is less than itself. -/
theorem operatorLess_self : ∀ {t : FundamentalType} (v : t.Value), t.operatorLess v v = false
  | .boolean, v | .int8, v | .uint8, v | .int16, v | .uint16, v | .int32, v | .uint32, v
  | .int64, v | .uint64, v | .uuid, v | .string, v => (strictWeak rfl).irrefl v
  | .float32, v => by simp [operatorLess, FloatingPoint.less]
  | .float64, v | .timepoint, v | .steadyTimepoint, v | .duration, v => by
    simp [operatorLess, FloatingPoint.less]
  | .propertySet, (v : BitVec 32) => by simp [operatorLess]

theorem regular_fresh : ∀ t : FundamentalType, t.Regular t.fresh
  | .float32 =>
    have h : FloatingPoint.isNan infinity32 0#32 = false := by decide +kernel
    h
  | .float64 | .timepoint | .steadyTimepoint | .duration =>
    have h : FloatingPoint.isNan infinity64 0#64 = false := by decide +kernel
    h
  | .boolean | .int8 | .uint8 | .int16 | .uint16 | .int32 | .uint32 | .int64 | .uint64
  | .propertySet | .uuid | .string => trivial

end FundamentalType

namespace StructDescriptor

variable {ps : PropertyDescriptors}

mutual

theorem lessValue_self : ∀ (d : TypeDescriptor) (v : Value d), lessValue operators d v v = false
  | .fundamental _, v => FundamentalType.operatorLess_self v
  | .enumeration _ _, v => (strictWeak_slt 32).irrefl v
  | .vector d, vs => by
    rw [lessValue, vectorLess_eq]
    exact StrictWeak.listLess_self vs.1 fun v _ => lessValue_self d v
  | .struct ps, x => lessLoop_self Finset.univ ps x

theorem lessLoop_self (included : PropertySet) : ∀ (ps : PropertyDescriptors) (x : Instance ps),
    lessLoop operators included ps x x = false
  | .nil, _ => rfl
  | .cons p d ps, (v, x) => by
    have hv : Property.less (lessValue operators d) v v = false := by
      cases v with
      | none => rfl
      | some v => exact lessValue_self d v
    rw [lessLoop_cons, hv, lessLoop_self included ps x]
    simp

end

theorem regular_fresh_instance (included : PropertySet) : ∀ ps : PropertyDescriptors,
    Instance.Regular included ps (Instance.fresh ps)
  | .nil => trivial
  | .cons _ _ ps => ⟨fun _ _ h => (nomatch h), regular_fresh_instance included ps⟩

theorem regular_fresh : ∀ d : TypeDescriptor, Value.Regular d (Value.fresh d)
  | .struct ps => regular_fresh_instance Finset.univ ps
  | .vector _ => fun _ h => absurd h List.not_mem_nil
  | .enumeration _ _ => trivial
  | .fundamental t => FundamentalType.regular_fresh t

theorem regular_keyed_fresh (included : PropertySet) : ∀ ps : PropertyDescriptors,
    Instance.Regular included ps (KeyedInstance.fresh ps).1
  | .nil => trivial
  | .cons p d ps => by
    refine ⟨fun _ v hv => ?_, regular_keyed_fresh included ps⟩
    split_ifs at hv
    · obtain rfl := Option.some.inj hv
      exact regular_fresh d
    · cases hv

mutual

/-- **A strictly weakly ordered type** has no floating-point values, times and property sets
inside: any of its values is embedded in a value of the type. -/
theorem ordered_of_strictWeak : ∀ {d : TypeDescriptor},
    StrictWeak (lessValue operators d) (equalValue operators d) → d.Ordered
  | .fundamental _, h => FundamentalType.isOrdered_of_strictWeak h
  | .enumeration _ _, _ => trivial
  | .vector d, h => by
    have hd : StrictWeak (lessValue operators d) (equalValue operators d) :=
      h.comap (fun v => ⟨[v], Nat.one_lt_two_pow (by decide)⟩)
        (fun v w => by simp [lessValue, vectorLess]) fun v w => by
        simp [equalValue, List.isEqv]
    have hordered : d.Ordered := ordered_of_strictWeak hd
    exact hordered
  | .struct ps, h => by
    have hps : StrictWeak (fun x y : KeyedInstance ps => lessLoop operators Finset.univ ps x.1 y.1)
        (fun x y => equal operators Finset.univ ps x.1 y.1) :=
      h.comap Subtype.val (fun _ _ => rfl) fun _ _ => rfl
    exact ordered_of_strictWeak_keyed hps

theorem ordered_of_strictWeak_keyed {included : PropertySet} : ∀ {ps : PropertyDescriptors},
    StrictWeak (fun x y : KeyedInstance ps => lessLoop operators included ps x.1 y.1)
      (fun x y => equal operators included ps x.1 y.1) → ps.Ordered included
  | .nil, _ => trivial
  | .cons p d ps, h => by
    refine ⟨fun hp => ?_, ?_⟩
    · have hd : StrictWeak (lessValue operators d) (equalValue operators d) :=
        h.comap
          (fun v => ⟨(some v, (KeyedInstance.fresh ps).1), fun _ => rfl,
            (KeyedInstance.fresh ps).2⟩)
          (fun v w => by
            rw [lessLoop_cons, if_pos hp, lessLoop_self]
            simp [Property.less]) fun v w => by
            have hrest := (equal_self_iff included ps _).mpr (regular_keyed_fresh included ps)
            rw [equal_cons, if_pos (PropertyDescriptor.set_subset_iff.mpr hp), hrest]
            simp [Property.equal]
      exact ordered_of_strictWeak hd
    · have hps : StrictWeak (fun x y : KeyedInstance ps => lessLoop operators included ps x.1 y.1)
          (fun x y => equal operators included ps x.1 y.1) :=
        h.comap (fun x => ⟨(some (Value.fresh d), x.1), fun _ => rfl, x.2⟩)
          (fun x y => by
            rw [lessLoop_cons]
            simp [Property.less, lessValue_self]) fun x y => by
            rw [equal_cons]
            simp [Property.equal, (equalValue_self_iff d _).mpr (regular_fresh d)]
      exact ordered_of_strictWeak_keyed hps

end

/-- **The order of instances and that of keys** are strict weak orders, what they do not separate
being equal and the same, exactly if the properties of the set and the key properties have no
floating-point values, times and property sets inside. -/
theorem less_strictWeak_iff (h : ps.tags.Nodup) :
    (∀ included, StrictWeak (less operators included ps) (equal operators included ps) ↔
      ps.Ordered included) ∧
    (StrictWeak (KeyedInstance.keyCompare operators ps) (KeyedInstance.same operators ps) ↔
      ps.Ordered (keySet ps)) := by
  have hkeys : KeyedInstance.keyCompare operators ps =
      fun x y => lessLoop operators (keySet ps) ps x.1 y.1 := by
    funext x y
    exact KeyedInstance.keyCompare_eq operators h _ (fun _ _ => Iff.rfl) x y
  refine ⟨fun included => ?_, ?_⟩
  · rw [less_eq_lessLoop]
    exact ⟨fun hless => ordered_of_strictWeak_keyed
      (hless.comap Subtype.val (fun _ _ => rfl) fun _ _ => rfl), strictWeak_lessLoop⟩
  · rw [hkeys]
    exact ⟨ordered_of_strictWeak_keyed, fun hordered =>
      (strictWeak_lessLoop hordered).comap Subtype.val (fun _ _ => rfl) fun _ _ => rfl⟩

/-- Vehicles are ordered on all their properties, and by their keys. -/
theorem less_strictWeak_vehicle :
    StrictWeak (less operators Finset.univ vehicleProperties)
        (equal operators Finset.univ vehicleProperties) ∧
      StrictWeak (KeyedInstance.keyCompare operators vehicleProperties)
        (KeyedInstance.same operators vehicleProperties) := by
  have hposition : positionProperties.Ordered Finset.univ :=
    ⟨fun _ => rfl, fun _ => rfl, trivial⟩
  have hvehicle (included : PropertySet) : vehicleProperties.Ordered included :=
    ⟨fun _ => rfl, fun _ => hposition, fun _ => hposition, trivial⟩
  have h := @less_strictWeak_iff vehicleProperties (by decide)
  exact ⟨(h.1 Finset.univ).mpr (hvehicle _), h.2.mpr (hvehicle _)⟩

/-- A type whose key is a property set. -/
def subscriptionProperties : PropertyDescriptors :=
  .cons ⟨"attributes", 1, true⟩ (.fundamental .propertySet) .nil

def subscription (attributes : BitVec 32) : KeyedInstance subscriptionProperties :=
  ⟨(some attributes, ()), fun _ => rfl, trivial⟩

/-- **Property sets are not ordered by inclusion**: neither of two disjoint sets is less, although
they differ, and the one is less than a third set that the other is not less than. -/
theorem not_less_strictWeak :
    (less operators {1} subscriptionProperties (subscription 1).1 (subscription 2).1 = false ∧
      less operators {1} subscriptionProperties (subscription 2).1 (subscription 1).1 = false ∧
      equal operators {1} subscriptionProperties (subscription 1).1 (subscription 2).1 = false) ∧
    (less operators {1} subscriptionProperties (subscription 2).1 (subscription 5).1 = false ∧
      less operators {1} subscriptionProperties (subscription 5).1 (subscription 2).1 = false ∧
      less operators {1} subscriptionProperties (subscription 1).1 (subscription 5).1 = true) ∧
    ¬StrictWeak (less operators {1} subscriptionProperties)
      (equal operators {1} subscriptionProperties) ∧
    ¬StrictWeak (KeyedInstance.keyCompare operators subscriptionProperties)
      (KeyedInstance.same operators subscriptionProperties) := by
  refine ⟨by decide +kernel, by decide +kernel, fun h => ?_, fun h => ?_⟩
  · exact absurd ((h.equal_iff (subscription 1).1 (subscription 2).1).mpr (by decide +kernel))
      (by decide +kernel)
  · exact absurd ((h.equal_iff (subscription 1) (subscription 2)).mpr (by decide +kernel))
      (by decide +kernel)

end StructDescriptor

end Dots

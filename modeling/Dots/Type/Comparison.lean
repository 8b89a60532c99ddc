import Dots.Lib.FloatingPoint
import Dots.Type.Agreement

/-!
# Comparing the values of the fundamental types

* `operators`: `==` and `<` as the compiler has them for the fundamental types. Property sets are
  compared by inclusion, strings and uuids byte by byte, and times as the `double` they are.
* `Regular`: a value without a NaN inside, at any depth. **`equalValue_self_iff`**: such a value
  equals itself, and no other does.
-/

set_option autoImplicit false

namespace Dots

/-- The bits of an infinite `float`. -/
def infinity32 : ℕ := 0x7F800000

/-- The bits of an infinite `double`. -/
def infinity64 : ℕ := 0x7FF0000000000000

namespace FundamentalType

/-- `operator ==`. -/
def operatorEqual : (t : FundamentalType) → t.Value → t.Value → Bool
  | .boolean => fun (v w : Bool) => v == w
  | .int8 | .uint8 => fun (v w : BitVec 8) => v == w
  | .int16 | .uint16 => fun (v w : BitVec 16) => v == w
  | .int32 | .uint32 | .propertySet => fun (v w : BitVec 32) => v == w
  | .int64 | .uint64 => fun (v w : BitVec 64) => v == w
  | .float32 => fun (v w : BitVec 32) => FloatingPoint.equal infinity32 v w
  | .float64 | .timepoint | .steadyTimepoint | .duration =>
    fun (v w : BitVec 64) => FloatingPoint.equal infinity64 v w
  | .uuid => fun (v w : {bytes : List UInt8 // bytes.length = 16}) => v.1 == w.1
  | .string => fun (v w : {bytes : List UInt8 // bytes.length < sizeLimit}) => v.1 == w.1

/-- `operator <`; that of a property set is proper inclusion. -/
def operatorLess : (t : FundamentalType) → t.Value → t.Value → Bool
  | .boolean => fun (v w : Bool) => !v && w
  | .int8 => fun (v w : BitVec 8) => v.slt w
  | .uint8 => fun (v w : BitVec 8) => v.ult w
  | .int16 => fun (v w : BitVec 16) => v.slt w
  | .uint16 => fun (v w : BitVec 16) => v.ult w
  | .int32 => fun (v w : BitVec 32) => v.slt w
  | .uint32 => fun (v w : BitVec 32) => v.ult w
  | .int64 => fun (v w : BitVec 64) => v.slt w
  | .uint64 => fun (v w : BitVec 64) => v.ult w
  | .propertySet => fun (v w : BitVec 32) => v != w && v &&& w == v
  | .float32 => fun (v w : BitVec 32) => FloatingPoint.less infinity32 v w
  | .float64 | .timepoint | .steadyTimepoint | .duration =>
    fun (v w : BitVec 64) => FloatingPoint.less infinity64 v w
  | .uuid => fun (v w : {bytes : List UInt8 // bytes.length = 16}) =>
    vectorLess (fun a b => decide (a < b)) v.1 w.1
  | .string => fun (v w : {bytes : List UInt8 // bytes.length < sizeLimit}) =>
    vectorLess (fun a b => decide (a < b)) v.1 w.1

end FundamentalType

/-- The operators of the source. -/
def operators : Comparison := ⟨FundamentalType.operatorEqual, FundamentalType.operatorLess⟩

/-! ## Values without a NaN -/

/-- The types whose values are a `float` or a `double`; a time is one, too. -/
def FundamentalType.isFloating : FundamentalType → Bool
  | .float32 | .float64 | .timepoint | .steadyTimepoint | .duration => true
  | _ => false

/-- A floating-point value or a time is no NaN. -/
def FundamentalType.Regular : (t : FundamentalType) → t.Value → Prop
  | .float32 => fun (v : BitVec 32) => FloatingPoint.isNan infinity32 v = false
  | .float64 | .timepoint | .steadyTimepoint | .duration =>
    fun (v : BitVec 64) => FloatingPoint.isNan infinity64 v = false
  | _ => fun _ => True

mutual

/-- No NaN is inside, at any depth. -/
def Value.Regular : (d : TypeDescriptor) → Value d → Prop
  | .fundamental t, v => t.Regular v
  | .enumeration _ _, _ => True
  | .vector d, vs => ∀ v ∈ vs.1, Value.Regular d v
  | .struct ps, x => Instance.Regular Finset.univ ps x

/-- No NaN is inside the properties of the set. -/
def Instance.Regular (included : PropertySet) : (ps : PropertyDescriptors) → Instance ps → Prop
  | .nil, _ => True
  | .cons p d ps, (v, x) =>
    (p.set ⊆ included → ∀ v' ∈ v, Value.Regular d v') ∧ Instance.Regular included ps x

end

namespace FundamentalType

/-- Of all other types, equal values are the same. -/
theorem operatorEqual_iff_eq : ∀ {t : FundamentalType}, t.isFloating = false →
    ∀ v w : t.Value, t.operatorEqual v w = true ↔ v = w
  | .boolean, _, (_ : Bool), (_ : Bool) => beq_iff_eq
  | .int8, _, (_ : BitVec 8), (_ : BitVec 8) | .uint8, _, (_ : BitVec 8), (_ : BitVec 8) =>
    beq_iff_eq
  | .int16, _, (_ : BitVec 16), (_ : BitVec 16) | .uint16, _, (_ : BitVec 16), (_ : BitVec 16) =>
    beq_iff_eq
  | .int32, _, (_ : BitVec 32), (_ : BitVec 32) | .uint32, _, (_ : BitVec 32), (_ : BitVec 32)
  | .propertySet, _, (_ : BitVec 32), (_ : BitVec 32) => beq_iff_eq
  | .int64, _, (_ : BitVec 64), (_ : BitVec 64) | .uint64, _, (_ : BitVec 64), (_ : BitVec 64) =>
    beq_iff_eq
  | .uuid, _, _, _ => beq_iff_eq.trans Subtype.ext_iff.symm
  | .string, _, _, _ => beq_iff_eq.trans Subtype.ext_iff.symm

/-- The equality of a floating-point type, and where it fails. -/
theorem operatorEqual_floating : ∀ {t : FundamentalType}, t.isFloating = true → ∀ v : t.Value,
    t.operatorEqual v v = true ↔ t.Regular v
  | .float32, _, v => FloatingPoint.equal_self_iff infinity32 (w := 32) v
  | .float64, _, v | .timepoint, _, v | .steadyTimepoint, _, v | .duration, _, v =>
    FloatingPoint.equal_self_iff infinity64 (w := 64) v

/-- What equals something is no NaN. -/
theorem regular_of_operatorEqual : ∀ {t : FundamentalType} {v w : t.Value},
    t.operatorEqual v w = true → t.Regular w
  | .float32, _, _, h => ((FloatingPoint.equal_iff infinity32 (w := 32) _ _).mp h).2.1
  | .float64, _, _, h | .timepoint, _, _, h | .steadyTimepoint, _, _, h | .duration, _, _, h =>
    ((FloatingPoint.equal_iff infinity64 (w := 64) _ _).mp h).2.1
  | .boolean, _, _, _ | .int8, _, _, _ | .uint8, _, _, _ | .int16, _, _, _ | .uint16, _, _, _
  | .int32, _, _, _ | .uint32, _, _, _ | .int64, _, _, _ | .uint64, _, _, _
  | .propertySet, _, _, _ | .uuid, _, _, _ | .string, _, _, _ => trivial

theorem regular_of_not_floating : ∀ {t : FundamentalType}, t.isFloating = false → ∀ v : t.Value,
    t.Regular v
  | .boolean, _, _ | .int8, _, _ | .uint8, _, _ | .int16, _, _ | .uint16, _, _ | .int32, _, _
  | .uint32, _, _ | .int64, _, _ | .uint64, _, _ | .propertySet, _, _ | .uuid, _, _
  | .string, _, _ => trivial

theorem operatorEqual_self_iff (t : FundamentalType) (v : t.Value) :
    t.operatorEqual v v = true ↔ t.Regular v := by
  cases hfloating : t.isFloating with
  | true => exact operatorEqual_floating hfloating v
  | false =>
    exact iff_of_true ((operatorEqual_iff_eq hfloating v v).mpr rfl)
      (regular_of_not_floating hfloating v)

end FundamentalType

/-! ## Equality of values -/

theorem Property.equal_self_iff {α : Type} {equal : α → α → Bool} {v : Option α} :
    Property.equal equal v v = true ↔ ∀ v' ∈ v, equal v' v' = true := by
  cases v <;> simp [Property.equal]

theorem isEqv_self_iff {α : Type} {equal : α → α → Bool} {vs : List α} :
    List.isEqv vs vs equal = true ↔ ∀ v ∈ vs, equal v v = true := by
  induction vs with
  | nil => simp
  | cons v vs ih => rw [List.isEqv, Bool.and_eq_true, ih, List.forall_mem_cons]

theorem exists_of_isEqv {α : Type} {equal : α → α → Bool} {vs ws : List α}
    (h : List.isEqv vs ws equal = true) : ∀ w ∈ ws, ∃ v, equal v w = true := by
  induction vs generalizing ws with
  | nil => cases ws <;> simp [List.isEqv] at h ⊢
  | cons v vs ih =>
    cases ws with
    | nil => simp
    | cons w ws =>
      rw [List.isEqv, Bool.and_eq_true] at h
      exact List.forall_mem_cons.mpr ⟨⟨v, h.1⟩, ih h.2⟩

namespace StructDescriptor

/-- The loop of `equal`, one property before the others. -/
theorem equal_cons (c : Comparison) {included : PropertySet} {p : PropertyDescriptor}
    {d : TypeDescriptor} {ps : PropertyDescriptors} (v w : Option (Value d)) (x y : Instance ps) :
    equal c included (.cons p d ps) (v, x) (w, y) =
      ((if p.set ⊆ included then Property.equal (equalValue c d) v w else true) &&
        equal c included ps x y) := by
  rw [equal]
  split_ifs with hp he
  · rw [Bool.not_eq_true'] at he
    rw [he, Bool.false_and]
  · rw [Bool.not_eq_true', Bool.not_eq_false] at he
    rw [he, Bool.true_and]
  · rfl

mutual

/-- **Only values with a NaN inside differ from themselves.** -/
theorem equalValue_self_iff : ∀ (d : TypeDescriptor) (v : Value d),
    equalValue operators d v v = true ↔ v.Regular d
  | .fundamental t, v => FundamentalType.operatorEqual_self_iff t v
  | .enumeration _ _, (v : BitVec 32) => by simp [equalValue, operators, Value.Regular,
      FundamentalType.operatorEqual]
  | .vector d, vs => by
    rw [equalValue, isEqv_self_iff, Value.Regular]
    exact forall₂_congr fun v _ => equalValue_self_iff d v
  | .struct ps, x => by
    rw [equalValue, Value.Regular]
    exact equal_self_iff Finset.univ ps x

theorem equal_self_iff (included : PropertySet) : ∀ (ps : PropertyDescriptors) (x : Instance ps),
    equal operators included ps x x = true ↔ x.Regular included ps
  | .nil, _ => by simp [equal, Instance.Regular]
  | .cons p d ps, (v, x) => by
    have hv : Property.equal (equalValue operators d) v v = true ↔ ∀ v' ∈ v, Value.Regular d v' :=
      Property.equal_self_iff.trans (forall₂_congr fun v' _ => equalValue_self_iff d v')
    rw [equal_cons, Bool.and_eq_true, equal_self_iff included ps x, Instance.Regular, ← hv]
    split_ifs with hp <;> simp [hp]

end

mutual

/-- What equals something has no NaN inside. -/
theorem regular_of_equalValue : ∀ (d : TypeDescriptor) (v w : Value d),
    equalValue operators d v w = true → w.Regular d
  | .fundamental _, _, _, h => FundamentalType.regular_of_operatorEqual h
  | .enumeration _ _, _, _, _ => trivial
  | .vector d, vs, ws, h => by
    rw [equalValue] at h
    rw [Value.Regular]
    intro w hw
    obtain ⟨v, hv⟩ := exists_of_isEqv h w hw
    exact regular_of_equalValue d v w hv
  | .struct ps, x, y, h => by
    rw [equalValue] at h
    exact regular_of_equal Finset.univ ps x y h

theorem regular_of_equal (included : PropertySet) : ∀ (ps : PropertyDescriptors) (x y : Instance ps),
    equal operators included ps x y = true → y.Regular included ps
  | .nil, _, _, _ => trivial
  | .cons p d ps, (v, x), (w, y), h => by
    rw [equal_cons, Bool.and_eq_true] at h
    refine ⟨fun hp w' hw' => ?_, regular_of_equal included ps x y h.2⟩
    cases hw'
    rw [if_pos hp] at h
    cases v with
    | none => exact Bool.noConfusion h.1
    | some v => exact regular_of_equalValue d v w' h.1

end

end StructDescriptor

end Dots

import Dots.Cbor.Skip
import Dots.Cbor.Serializer

/-!
# What follows an item

* `Failure.Lacks`: the read has come to the end of the input.
* `local_readFundamental`, `local_skip`, `local_readType`: the read functions.
* **`local_readStruct`**: what is read from an input is read from every longer one.
-/

set_option autoImplicit false

namespace Dots

open Parse CborFormat

/-- Bytes are lacking: the read was stopped at the end of the input, or went past it. -/
def Failure.Lacks : Failure → Prop
  | .thrown .outOfData | .outside _ => True
  | .thrown _ => False

namespace CborReader

/-! ## Items -/

theorem local_throwException {α : Type} (error : SerializerError) :
    Local Failure.Lacks (throwException error : Read α) := .fail _

theorem local_assertInputAvailable (n : ℕ) : Local Failure.Lacks (assertInputAvailable n) := by
  rintro ⟨o, w⟩ rest
  simp only [StateT.run, assertInputAvailable]
  by_cases hn : n > w.length
  · rw [if_pos hn]
    exact .inl trivial
  · rw [if_neg hn, if_neg (by rw [List.length_append]; omega)]

theorem local_readByte : Local Failure.Lacks readByte := local_next fun _ => trivial

theorem local_peekByte : Local Failure.Lacks peekByte := by
  rintro ⟨o, _ | ⟨a, w⟩⟩ rest
  · exact .inl trivial
  · rfl

theorem local_readBytes (n : ℕ) : Local Failure.Lacks (readBytes n) := local_take (fun _ => trivial) n

theorem local_readContingentBytes (w : ℕ) :
    ∀ n v, Local Failure.Lacks (readContingentBytes w n v)
  | 0, v => .pure v
  | n + 1, _ => local_readByte.bind fun _ => local_readContingentBytes w n _

theorem local_readInitialByte (m : UInt8) (n : ℕ) : Local Failure.Lacks (readInitialByte m n) := by
  refine (local_assertInputAvailable 1).bind fun _ => local_readByte.bind fun b => ?_
  dsimp only
  split_ifs
  · exact local_throwException _
  · exact .pure _
  · exact local_throwException _
  · exact local_throwException _
  · exact (local_assertInputAvailable _).bind_pure

theorem local_readHead (n : ℕ) (m : UInt8) : Local Failure.Lacks (readHead n m) := by
  refine (local_readInitialByte m n).bind fun r => ?_
  dsimp only
  split_ifs
  · exact .pure _
  · exact local_readContingentBytes _ _ _

theorem local_readSigned (n : ℕ) : Local Failure.Lacks (readSigned n) := by
  refine local_peekByte.bind fun b => ?_
  split_ifs
  · exact (local_readHead n _).bind_pure
  · exact local_readHead n _

theorem local_readByteArray (n : ℕ) : Local Failure.Lacks (readByteArray n) := by
  refine (local_readHead 8 _).bind fun size => ?_
  split_ifs
  · exact local_throwException _
  · exact (local_assertInputAvailable n).bind fun _ => local_readBytes n

theorem local_readString : Local Failure.Lacks readString :=
  (local_readHead 8 _).bind fun _ => (local_assertInputAvailable _).bind fun _ =>
    (local_readBytes _).bind_pure

theorem local_readBool : Local Failure.Lacks readBool := by
  refine (local_readHead 1 _).bind fun v => ?_
  split_ifs
  · exact .pure _
  · exact .pure _
  · exact local_throwException _

theorem local_readFloat (n : ℕ) (ofHalf : BitVec 16 → BitVec (8 * n))
    (ofSingle : BitVec 32 → BitVec (8 * n)) : Local Failure.Lacks (readFloat n ofHalf ofSingle) := by
  refine (local_readInitialByte _ n).bind fun r => ?_
  dsimp only
  split_ifs
  · exact local_readContingentBytes _ _ _
  · refine (local_look (fun _ => trivial) 2).bind fun half => ?_
    split_ifs
    · exact (local_readBytes 2).bind_pure
    · exact (local_readContingentBytes 16 2 0).bind_pure
  · exact (local_readContingentBytes 32 4 0).bind_pure

/-! ## Skipping -/

theorem local_consume (n : ℕ) : Local Failure.Lacks (consume n) :=
  (local_assertInputAvailable n).bind fun _ => (local_readBytes n).bind_pure

theorem local_getNumBytes (i : UInt8) : Local Failure.Lacks (getNumBytes i) := by
  unfold getNumBytes
  split_ifs
  · exact .pure _
  · exact local_throwException _
  · exact .pure _

theorem local_readSize (i : UInt8) : Local Failure.Lacks (readSize i) := by
  refine (local_getNumBytes i).bind fun n => Local.bind ?_ fun v => (local_consume n).bind_pure
  split_ifs
  · exact .pure _
  · exact local_readContingentBytes 64 n 0

theorem local_skipItem {skip : Read Unit} (h : Local Failure.Lacks skip) :
    Local Failure.Lacks (skipItem skip) := by
  refine (local_assertInputAvailable 1).bind fun _ => local_readByte.bind fun b => ?_
  have hsize := local_readSize (b &&& AdditionalInformation.mask)
  dsimp only
  split_ifs
  · exact (local_getNumBytes _).bind fun n => local_consume n
  · exact hsize.bind fun n => local_consume _
  · exact hsize.bind fun n => Local.iterate (fun _ => h) _ _
  · exact hsize.bind fun n => Local.iterate (fun _ => h.bind fun _ => h) _ _
  · exact .pure ()

theorem local_skipDepth : ∀ n, Local Failure.Lacks (skipDepth n)
  | 0 => local_assertInputAvailable 1
  | n + 1 => local_skipItem (local_skipDepth n)

/-- More bytes allow for a greater depth, which the first ones do not need. -/
theorem local_skip : Local Failure.Lacks skip := by
  rintro ⟨o, w⟩ rest
  have hdepth := local_skipDepth (w ++ rest).length ⟨o, w⟩ rest
  have hagree := agreeUpTo_skipDepth (n := w.length) rest.length ⟨o, w⟩ le_rfl
  rw [List.length_append, ← hagree] at hdepth
  have hlong : skip.run ⟨o, w ++ rest⟩ = (skipDepth (w.length + rest.length)).run ⟨o, w ++ rest⟩ := by
    rw [← List.length_append]
    rfl
  rw [hlong]
  exact hdepth

end CborReader

namespace CborSerializer

open CborReader

/-! ## Values and instances -/

theorem local_readFundamental (casts : FloatCasts) :
    ∀ t, Local Failure.Lacks (readFundamental casts t)
  | .boolean => local_readBool
  | .int8 | .int16 | .int32 | .int64 => local_readSigned _
  | .uint8 | .uint16 | .uint32 | .uint64 | .propertySet => local_readHead _ _
  | .float32 | .float64 | .timepoint | .steadyTimepoint | .duration => local_readFloat _ _ _
  | .uuid => local_readByteArray 16
  | .string => local_readString

theorem local_readEnum (name : String) (es : List EnumeratorDescriptor) :
    Local Failure.Lacks (readEnum name es) := by
  refine (local_readHead 4 _).bind fun tag => ?_
  cases enumeratorFromTag name es tag with
  | ok e => exact .pure _
  | error e => exact .fail _

theorem local_readEntries {α : Type} {property : BitVec 32 → α → Option (Read α)}
    (h : ∀ tag x, ∀ read ∈ property tag x, Local Failure.Lacks read) (x : α) :
    Local Failure.Lacks (readEntries property x) := by
  refine (local_readHead 8 _).bind fun n => Local.iterate (fun x => ?_) _ _
  refine (local_readHead 4 _).bind fun tag => ?_
  have hread := h tag x
  revert hread
  cases property tag x with
  | none => exact fun _ => local_skip.bind_pure
  | some read => exact fun hread => hread read rfl

mutual

theorem local_readType (casts : FloatCasts) (level : ℕ) : (d : TypeDescriptor) → (v : Value d) →
    Local Failure.Lacks (readType casts level d v)
  | .fundamental t, _ => local_readFundamental casts t
  | .enumeration name es, _ => local_readEnum name es
  | .vector d, _ => (local_readHead 8 _).bind fun n =>
      ((local_readType casts (level + 1) d (Value.fresh d)).replicate n.toNat).bind_pure
  | .struct ps, x => local_readEntries (fun tag x =>
      local_readProperty casts (level + 1) _ tag ps x) x

theorem local_readProperty (casts : FloatCasts) (level : ℕ) (included : PropertySet)
    (tag : BitVec 32) : (ps : PropertyDescriptors) → (x : Instance ps) →
    ∀ read ∈ readProperty casts level included tag ps x, Local Failure.Lacks read
  | .nil, _, _, h => by cases h
  | .cons p d ps, (v, x), read, h => by
    rw [readProperty] at h
    split_ifs at h
    · obtain rfl := Option.some.inj h
      exact (local_readType casts level d _).bind_pure
    · cases h
    · obtain ⟨read', hread', rfl⟩ := Option.map_eq_some_iff.mp h
      exact (local_readProperty casts level included tag ps x read' hread').bind_pure

end

/-- **A struct** is read from an input as from a longer one. -/
theorem local_readStruct (casts : FloatCasts) (level : ℕ) (included : PropertySet)
    (ps : PropertyDescriptors) (x : Instance ps) :
    Local Failure.Lacks (readStruct casts level included ps x) :=
  local_readEntries (fun tag x => local_readProperty casts (level + 1) _ tag ps x) x

end CborSerializer

end Dots

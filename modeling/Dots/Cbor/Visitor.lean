import Dots.Cbor.Encoding
import Dots.Type.Visitor

/-!
# The CBOR serializer as a visitor

`Dots.Cbor.Serializer` computes the bytes of a value, or an exception. The serializer itself appends
the bytes to its output as it visits the value, so that an exception leaves the bytes that were
written before.

* `CborSerializer.visitor`: the functions that `TypeVisitor` calls.
* `throwsAtEnums`: only an enum value without an enumerator makes it throw.
* **`gives_visit`**: the bytes that are appended are those of `serialize`.
-/

set_option autoImplicit false

namespace Dots

namespace CborSerializer

open CborWriter TypeVisitor Keep

/-- The state is the output. -/
def visitor : Visitor (List UInt8) where
  visitStructBegin ps x includedProperties := do
    let included := includedProperties ∩ x.validProperties ps
    Keep.change fun output => output ++ writeMapSize included.card
    return included
  visitStructEnd := pure ()
  visitPropertyBegin visitingLevel p _ := do
    Keep.change fun output =>
      output ++ if visitingLevel > 0 then writeUnsigned (BitVec.ofNat 32 p.tag) else []
    return true
  visitVectorBegin size := Keep.change fun output => output ++ writeArraySize size
  visitVectorEnd := pure ()
  visitEnum name enumerators value :=
    match writeEnum name enumerators value with
    | .ok bytes => Keep.change fun output => output ++ bytes
    | .error e => Keep.throws e
  visitFundamentalType t value := Keep.change fun output => output ++ writeFundamental t value

theorem gives_structBegin (ps : PropertyDescriptors) (x : Instance ps) (included : PropertySet)
    (output : List UInt8) :
    (visitor.visitStructBegin ps x included).Gives output (included ∩ x.validProperties ps)
      (output ++ writeMapSize (included ∩ x.validProperties ps).card) :=
  (gives_change _ output).bind (gives_pure _ _)

theorem gives_propertyBegin (level : ℕ) (p : PropertyDescriptor) (isValid : Bool)
    (output : List UInt8) :
    (visitor.visitPropertyBegin (visitingLevel level) p isValid).Gives output true
      (output ++ writeTag level p) :=
  (gives_change _ output).bind (gives_pure _ _)

theorem throwsAtEnums : visitor.ThrowsAtEnums where
  structBegin ps x included output :=
    ⟨_, _, gives_structBegin ps x included output, fun t ht => by simp [ht]⟩
  structEnd output := ⟨output, gives_pure () output⟩
  propertyBegin level p isValid output :=
    ⟨true, _, (gives_change _ output).bind (gives_pure _ _), fun _ => rfl⟩
  vectorBegin _ output := ⟨_, gives_change _ output⟩
  vectorEnd output := ⟨output, gives_pure () output⟩
  enum name es v output := by
    show (match writeEnum name es v with
      | .ok bytes => Keep.change fun output => output ++ bytes
      | .error e => Keep.throws e).Succeeds _ output _
    rw [writeEnum]
    cases h : enumeratorFromValue name es v with
    | error e =>
      refine .inr ⟨fun hv => ?_, e, output, throws_throws e output⟩
      obtain ⟨e', he'⟩ : ∃ e', enumeratorFromValue name es v = .ok e' :=
        exists_enumeratorFromValue hv
      rw [h] at he'
      cases he'
    | ok e => exact .inl ⟨⟨e, enumeratorFromValue_eq_ok h⟩, (), _, gives_change _ output, trivial⟩
  fundamental t v output := ⟨_, gives_change _ output⟩

/-- The changes of a loop that appends. -/
theorem foldl_append (items : List (List UInt8)) (l : ℕ) (output : List UInt8) :
    items.foldl (fun s bytes => (⟨s.constVisitingLevel, s.derived ++ bytes⟩ : VisitorState (List UInt8)))
      ⟨l, output⟩ = ⟨l, output ++ items.flatten⟩ := by
  induction items generalizing output with
  | nil => simp
  | cons bytes items ih => rw [List.foldl_cons, ih, List.flatten_cons, List.append_assoc]

mutual

/-- **The bytes of a value** are appended to the output. -/
theorem gives_visitType : (d : TypeDescriptor) → (v : Value d) → (bytes : List UInt8) → (l : ℕ) →
    writeType l d v = .ok bytes → ∀ output,
      (visitType visitor d v).Gives ⟨l, output⟩ () ⟨l, output ++ bytes⟩
  | .fundamental t, v, bytes, l, h, output => by
    cases h
    exact gives_derived (gives_change _ _)
  | .enumeration name es, v, bytes, l, h, output => by
    have hwrite : writeEnum name es v = .ok bytes := h
    refine gives_derived ?_
    show (match writeEnum name es v with
      | .ok bytes => Keep.change fun output => output ++ bytes
      | .error e => Keep.throws e).Gives output () _
    rw [hwrite]
    exact gives_change _ _
  | .vector d, vs, bytes, l, h, output => by
    rw [writeType] at h
    obtain ⟨items, hitems, h⟩ := bind_eq_ok h
    cases h
    refine (gives_derived (gives_change _ output)).bind ((gives_change _ _).bind ?_)
    have hitem : List.Forall₂ (fun v bytes => ∀ s : VisitorState (List UInt8),
        s.constVisitingLevel = l + 1 →
        (visitType visitor d v).Gives s () ⟨s.constVisitingLevel, s.derived ++ bytes⟩ ∧
          s.constVisitingLevel = l + 1) vs.1 items :=
      (forall₂_of_mapM hitems).imp fun v bytes hv s hs => by
        obtain ⟨level, output⟩ := s
        cases hs
        exact ⟨gives_visitType d v bytes (l + 1) hv output, rfl⟩
    refine (gives_forM hitem _ rfl).bind ?_
    rw [foldl_append, List.append_assoc]
    exact (gives_change _ _).bind (gives_derived (gives_pure _ _))
  | .struct ps, x, bytes, l, h, output => by
    rw [writeType] at h
    obtain ⟨entries, hentries, h⟩ := bind_eq_ok h
    cases h
    refine (gives_derived (gives_structBegin ps x _ output)).bind ((gives_change _ _).bind ?_)
    refine (gives_visitProperties ps x _ entries (l + 1) hentries _).bind ?_
    rw [List.append_assoc]
    exact (gives_change _ _).bind (gives_derived (gives_pure _ _))

theorem gives_visitProperties : (ps : PropertyDescriptors) → (x : Instance ps) →
    (included : PropertySet) → (bytes : List UInt8) → (l : ℕ) →
    writeProperties l included ps x = .ok bytes → ∀ output,
      (visitProperties visitor included ps x).Gives ⟨l, output⟩ () ⟨l, output ++ bytes⟩
  | .nil, _, _, bytes, l, h, output => by
    cases h
    rw [List.append_nil]
    exact gives_pure _ _
  | .cons p d ps, (v, x), included, bytes, l, h, output => by
    simp only [writeProperties] at h
    split_ifs at h with hp
    · obtain ⟨value, hvalue, h⟩ := bind_eq_ok h
      obtain ⟨rest, hrest, h⟩ := bind_eq_ok h
      cases h
      have hbegin : Gives (derived (visitor.visitPropertyBegin (visitingLevel l) p v.isSome))
          ⟨l, output⟩ true ⟨l, output ++ writeTag l p⟩ :=
        gives_derived (gives_propertyBegin l p v.isSome output)
      have hproperty : (visitProperty visitor included p (v.map (visitType visitor d))).Gives
          ⟨l, output⟩ () ⟨l, output ++ writeTag l p ++ value⟩ := by
        rw [visitProperty, if_pos hp]
        have hget : (get : Visit (List UInt8) (VisitorState (List UInt8))).Gives
          ⟨l, output⟩ ⟨l, output⟩ ⟨l, output⟩ := rfl
        refine hget.bind ?_
        cases v with
        | none =>
          cases hvalue
          rw [List.append_nil]
          exact hbegin.bind (gives_pure _ _)
        | some v => exact hbegin.bind (gives_visitType d v value l hvalue _)
      have hothers := gives_visitProperties ps x included rest l hrest
        (output ++ writeTag l p ++ value)
      simp only [List.append_assoc] at hothers hproperty ⊢
      exact hproperty.bind hothers
    · exact gives_visitProperties_of_notMem (fun h => hp (PropertyDescriptor.set_subset_iff.mpr h))
        (gives_visitProperties ps x included bytes l h output)

end

mutual

/-- Behind the first struct, the level makes no difference. -/
theorem writeType_level : (d : TypeDescriptor) → (v : Value d) → (l l' : ℕ) →
    writeType (l + 2) d v = writeType (l' + 2) d v
  | .fundamental _, _, _, _ => rfl
  | .enumeration _ _, _, _, _ => rfl
  | .vector d, vs, l, l' => by
    have hitem : writeType (l + 3) d = writeType (l' + 3) d :=
      funext fun v => writeType_level d v (l + 1) (l' + 1)
    rw [writeType, writeType, hitem]
  | .struct ps, x, l, l' => by
    rw [writeType, writeType, writeProperties_level ps x _ (l + 1) (l' + 1)]

theorem writeProperties_level : (ps : PropertyDescriptors) → (x : Instance ps) →
    (included : PropertySet) → (l l' : ℕ) →
    writeProperties (l + 2) included ps x = writeProperties (l' + 2) included ps x
  | .nil, _, _, _, _ => rfl
  | .cons p d ps, (none, x), included, l, l' => by
    simp only [writeProperties, writeProperties_level ps x included l l', writeTag, visitingLevel]
    rfl
  | .cons p d ps, (some v, x), included, l, l' => by
    simp only [writeProperties, writeProperties_level ps x included l l', writeType_level d v l l',
      writeTag, visitingLevel]
    rfl

end

/-- **The bytes that `serialize` computes** are appended to the output, at any level. -/
theorem gives_visit {ps : PropertyDescriptors} {x : Instance ps} {included : PropertySet}
    {bytes : List UInt8} (h : serialize ps x included = .ok bytes) (l : ℕ) (output : List UInt8) :
    (visit visitor ps x included).Gives ⟨l, output⟩ () ⟨l, output ++ bytes⟩ := by
  rw [serialize, writeStruct, writeProperties_level ps x _ 0 l] at h
  obtain ⟨entries, hentries, h⟩ := bind_eq_ok h
  cases h
  have hstruct : (visitStruct visitor ps x included).Gives ⟨l + 1, output⟩ ()
      ⟨l + 1, output ++ (writeMapSize (included ∩ x.validProperties ps).card ++ entries)⟩ := by
    refine (gives_derived (gives_structBegin ps x included output)).bind ((gives_change _ _).bind ?_)
    refine (gives_visitProperties ps x _ entries (l + 2) hentries _).bind ?_
    rw [List.append_assoc]
    exact (gives_change _ _).bind (gives_derived (gives_pure _ _))
  exact (gives_change _ _).bind (hstruct.bind (gives_change _ _))

end CborSerializer

end Dots

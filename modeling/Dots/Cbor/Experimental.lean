import Dots.Cbor.RoundTrip

/-!
# The experimental CBOR serializer

A struct is an array size, a property set and the values of its properties, without their tags.

* `writeStruct`, `writeType`, `readStruct`, `readType`, `serialize`, `deserialize`.
* `zeroed`: a zero is written without its sign.
* `Covers`: an older model has every property that is written.
* **`reads_readType`**: what is written is read back by such a model.
* `Lossless`: only properties without values are deleted.
* **`stops_of_not_lossless`**: otherwise something is read that ends before the item does.
-/

set_option autoImplicit false

namespace Dots

open CborFormat CborWriter CborReader Parse

namespace ExperimentalCborSerializer

/-! ## Writing -/

/-- `write` of a floating-point type in the format `UseFloat16Zeroes`. Only the sign bit is set in a
number that equals zero. -/
def writeFloat16Zeroes {w : ℕ} (write : BitVec w → List UInt8) (value : BitVec w) : List UInt8 :=
  if value <<< 1 = 0 then
    (MajorType.simpleOrFloat ||| AdditionalInformation.followingBytes2) :: writeContingentBytes 0 2
  else write value

/-- `visitFundamentalTypeDerived` of the writing side. -/
def writeFundamental : (t : FundamentalType) → t.Value → List UInt8
  | .float32, (v : BitVec 32) => writeFloat16Zeroes writeFloat32 v
  | .float64, (v : BitVec 64) => writeFloat16Zeroes writeFloat64 v
  | .timepoint, (v : BitVec 64) => writeFloat16Zeroes writeFloat64 v
  | .steadyTimepoint, (v : BitVec 64) => writeFloat16Zeroes writeFloat64 v
  | .duration, (v : BitVec 64) => writeFloat16Zeroes writeFloat64 v
  | t, v => CborSerializer.writeFundamental t v

/-- `visitStructBeginDerived` of the writing side. -/
def writeStructBegin (includedProperties : PropertySet) : List UInt8 :=
  writeArraySize includedProperties.card ++ writeUnsigned includedProperties.toValue

mutual

/-- `visitTypeInternal<true>`. -/
def writeType : (d : TypeDescriptor) → Value d → Except Exception (List UInt8)
  | .fundamental t, v => .ok (writeFundamental t v)
  | .enumeration name es, v => CborSerializer.writeEnum name es v
  | .vector d, vs => do
    let items ← vs.1.mapM (writeType d)
    return writeArraySize vs.1.length ++ items.flatten
  | .struct ps, x => do
    let included := x.validProperties ps ∩ x.validProperties ps
    return writeStructBegin included ++ (← writeProperties included ps x)

/-- The loop of `visitStructInternal<true>` with `visitPropertyInternal<true>`. -/
def writeProperties (included : PropertySet) :
    (ps : PropertyDescriptors) → Instance ps → Except Exception (List UInt8)
  | .nil, _ => .ok []
  | .cons p d ps, (v, x) =>
    if p.set ⊆ included then do
      let value ← (match v with
        | some v => writeType d v
        | none => .ok [])
      return value ++ (← writeProperties included ps x)
    else
      writeProperties included ps x

end

/-- `serialize` with included properties. -/
def serialize (ps : PropertyDescriptors) (x : Instance ps) (includedProperties : PropertySet) :
    Except Exception (List UInt8) := do
  let included := includedProperties ∩ x.validProperties ps
  return writeStructBegin included ++ (← writeProperties included ps x)

/-! ## Reading -/

/-- `visitStructBeginDerived` of the reading side: the set that is read, with as many properties as
the array has, is the one that is visited. -/
def readStructBegin : Read PropertySet := do
  let numProperties ← readArraySize
  let includedProperties := PropertySet.ofValue (← readUnsigned 4)
  if includedProperties.card ≠ numProperties.toNat then
    Parse.fail fun _ => .thrown (.runtimeError
      (s!"encountered unexpected valid property set. expected '{numProperties.toNat}' " ++
        s!"number of properties but got '{includedProperties.card}'"))
  else
    return includedProperties

mutual

/-- `visitTypeInternal<false>`: the value is read over the one that is there. -/
def readType (casts : FloatCasts) : (d : TypeDescriptor) → Value d → Read (Value d)
  | .fundamental t, _ => CborSerializer.readFundamental casts t
  | .enumeration name es, _ => CborSerializer.readEnum name es
  | .vector d, _ => do
    let size ← readArraySize
    -- `fill` clears the vector and leaves fresh elements, which are visited in turn
    let vs ← Parse.replicate (readType casts d (Value.fresh d)) size.toNat
    return ⟨vs.1, by rw [vs.2]; exact size.isLt⟩
  | .struct ps, x => do readProperties casts (← readStructBegin) ps x

/-- The loop of `visitStructInternal<false>`: a property of the set is emplaced and visited. -/
def readProperties (casts : FloatCasts) (included : PropertySet) :
    (ps : PropertyDescriptors) → Instance ps → Read (Instance ps)
  | .nil, x => return x
  | .cons p d ps, (v, x) =>
    if p.set ⊆ included then do
      let value ← readType casts d (v.getD (Value.fresh d))
      return (some value, ← readProperties casts included ps x)
    else do
      return (v, ← readProperties casts included ps x)

end

/-- `visitStructInternal<false>`, which has no use for the properties it is called with. -/
def readStruct (casts : FloatCasts) (ps : PropertyDescriptors) (x : Instance ps)
    (_includedProperties : PropertySet) : Read (Instance ps) := do
  readProperties casts (← readStructBegin) ps x

/-- `deserialize` of the bytes of a buffer, with the number of bytes consumed. -/
def deserialize (casts : FloatCasts) (ps : PropertyDescriptors) (x : Instance ps)
    (includedProperties : PropertySet) (data : List UInt8) : Except Failure (Instance ps × ℕ) :=
  if data = [] then
    .error (.thrown (.logicError "attempt to deserialize from invalid or empty input buffer"))
  else do
    let (x, c) ← (readStruct casts ps x includedProperties).run ⟨0, data⟩
    return (x, c.offset)

end ExperimentalCborSerializer

/-! ## Zeros -/

/-- A number that equals zero is zero. -/
def zeroedBits {w : ℕ} (v : BitVec w) : BitVec w := if v <<< 1 = 0 then 0 else v

/-- A floating-point value without the sign of a zero. -/
def FundamentalType.zeroed : (t : FundamentalType) → t.Value → t.Value
  | .float32, (v : BitVec 32) => (zeroedBits v : BitVec 32)
  | .float64, (v : BitVec 64) => (zeroedBits v : BitVec 64)
  | .timepoint, (v : BitVec 64) => (zeroedBits v : BitVec 64)
  | .steadyTimepoint, (v : BitVec 64) => (zeroedBits v : BitVec 64)
  | .duration, (v : BitVec 64) => (zeroedBits v : BitVec 64)
  | _, v => v

mutual

/-- The value, with its floating-point zeros without a sign. -/
def Value.zeroed : (d : TypeDescriptor) → Value d → Value d
  | .fundamental t, v => t.zeroed v
  | .enumeration _ _, v => v
  | .vector d, vs => ⟨vs.1.map (Value.zeroed d), by rw [List.length_map]; exact vs.2⟩
  | .struct ps, x => Instance.zeroed ps x

def Instance.zeroed : (ps : PropertyDescriptors) → Instance ps → Instance ps
  | .nil, _ => ()
  | .cons _ d ps, (v, x) => (v.map (Value.zeroed d), Instance.zeroed ps x)

end

/-! ## Older models -/

mutual

/-- The older model has every property of a value. -/
def Deletion.Covers : {d d' : TypeDescriptor} → Deletion d d' → Value d' → Prop
  | _, _, .fundamental _, _ => True
  | _, _, .enumeration _ _, _ => True
  | _, _, .vector del, vs => ∀ v ∈ vs.1, del.Covers v
  | _, _, .struct dels, x => dels.Covers Finset.univ x

/-- The older model has every property of an instance that lies in a set. -/
def Deletions.Covers : {ps ps' : PropertyDescriptors} → Deletions ps ps' → PropertySet →
    Instance ps' → Prop
  | _, _, .nil, _, _ => True
  | _, _, .keep p del dels, s, (v, x) => (p.tag ∈ s → ∀ v' ∈ v, del.Covers v') ∧ dels.Covers s x
  | _, _, .delete p _ dels, s, (v, x) => (p.tag ∈ s → v = none) ∧ dels.Covers s x

end

theorem Deletions.Covers.mono {s s' : PropertySet} (hs : s' ⊆ s) :
    {ps ps' : PropertyDescriptors} → (dels : Deletions ps ps') → (x : Instance ps') →
    dels.Covers s x → dels.Covers s' x
  | _, _, .nil, _, _ => trivial
  | _, _, .keep _ _ dels, (_, x), h => ⟨fun hp => h.1 (hs hp), Covers.mono hs dels x h.2⟩
  | _, _, .delete _ _ dels, (_, x), h => ⟨fun hp => h.1 (hs hp), Covers.mono hs dels x h.2⟩

/-- Only the valid properties matter. -/
theorem Deletions.Covers.of_valid {s : PropertySet} :
    {ps ps' : PropertyDescriptors} → (dels : Deletions ps ps') → (x : Instance ps') →
    dels.Covers (s ∩ x.validProperties ps') x → dels.Covers s x
  | _, _, .nil, _, _ => trivial
  | _, _, .keep p _ dels, (v, x), h => by
    have hrest : s ∩ x.validProperties _ ⊆ s ∩ Instance.validProperties (.cons p _ _) (v, x) :=
      Finset.inter_subset_inter le_rfl Finset.subset_union_right
    refine ⟨fun hp v' hv => h.1 (Finset.mem_inter.mpr ⟨hp, ?_⟩) v' hv,
      Covers.of_valid dels x (h.2.mono hrest dels x)⟩
    cases hv
    exact Finset.mem_union_left _ (Finset.mem_singleton_self _)
  | _, _, .delete p _ dels, (v, x), h => by
    have hrest : s ∩ x.validProperties _ ⊆ s ∩ Instance.validProperties (.cons p _ _) (v, x) :=
      Finset.inter_subset_inter le_rfl Finset.subset_union_right
    refine ⟨fun hp => ?_, Covers.of_valid dels x (h.2.mono hrest dels x)⟩
    cases v with
    | none => rfl
    | some v =>
      exact h.1 (Finset.mem_inter.mpr ⟨hp, Finset.mem_union_left _ (Finset.mem_singleton_self _)⟩)

mutual

/-- Where nothing is deleted, everything is covered. -/
theorem Deletion.covers_refl : (d : TypeDescriptor) → (v : Value d) → (Deletion.refl d).Covers v
  | .fundamental _, _ => trivial
  | .enumeration _ _, _ => trivial
  | .vector d, _ => fun v _ => Deletion.covers_refl d v
  | .struct ps, x => Deletions.covers_refl ps _ x

theorem Deletions.covers_refl : (ps : PropertyDescriptors) → (s : PropertySet) →
    (x : Instance ps) → (Deletions.refl ps).Covers s x
  | .nil, _, _ => trivial
  | .cons _ d ps, s, (_, x) =>
    ⟨fun _ v' _ => Deletion.covers_refl d v', Deletions.covers_refl ps s x⟩

end

mutual

/-- Only properties are deleted that have no values: those of an enum without enumerators. -/
def Deletion.Lossless : {d d' : TypeDescriptor} → Deletion d d' → Prop
  | _, _, .fundamental _ => True
  | _, _, .enumeration _ _ => True
  | _, _, .vector del => del.Lossless
  | _, _, .struct dels => dels.Lossless

def Deletions.Lossless : {ps ps' : PropertyDescriptors} → Deletions ps ps' → Prop
  | _, _, .nil => True
  | _, _, .keep _ del dels => del.Lossless ∧ dels.Lossless
  | _, _, .delete _ d dels => (∃ name, d = .enumeration name []) ∧ dels.Lossless

end

namespace ExperimentalCborSerializer

variable {casts : FloatCasts}

/-! ## What is written is read -/

/-- A floating-point value is read back, as a zero if it equals zero. -/
theorem reads_readFloat16Zeroes {s size : ℕ} (hs : s ≤ 3) (hsize : size = 2 ^ s) (htwo : 2 < size)
    (ofHalf : BitVec 16 → BitVec (8 * size)) (ofSingle : BitVec 32 → BitVec (8 * size))
    (v : BitVec (8 * size)) :
    Reads (readFloat size ofHalf ofSingle)
      (writeFloat16Zeroes (fun v => (MajorType.simpleOrFloat ||| UInt8.ofNat (24 + s)) ::
        writeContingentBytes v.toNat size) v) (zeroedBits v) := by
  unfold writeFloat16Zeroes zeroedBits
  split_ifs
  · refine reads_readInitialByte_following (e := 1) (by decide) (by omega) htwo.le le_rfl ?_
    simp only [if_neg (show ¬2 ^ 1 = size by omega), if_pos (show 2 ^ 1 = 2 from rfl)]
    intro o rest
    rfl
  · exact reads_readFloat hs hsize ofHalf ofSingle v

theorem reads_readFundamental (t : FundamentalType) (v : t.Value) :
    Reads (CborSerializer.readFundamental casts t) (writeFundamental t v) (t.zeroed v) := by
  have hfloat64 (v : BitVec 64) : Reads (readFloat64 casts) (writeFloat16Zeroes writeFloat64 v)
      (zeroedBits v) :=
    reads_readFloat16Zeroes (s := 3) le_rfl rfl (by decide) casts.ofHalf64 casts.ofSingle64 v
  cases t with
  | float32 => exact reads_readFloat16Zeroes (s := 2) (by omega) rfl (by decide) casts.ofHalf32 id v
  | float64 => exact hfloat64 v
  | timepoint => exact hfloat64 v
  | steadyTimepoint => exact hfloat64 v
  | duration => exact hfloat64 v
  | boolean => exact CborSerializer.reads_readFundamental .boolean v
  | int8 => exact CborSerializer.reads_readFundamental .int8 v
  | uint8 => exact CborSerializer.reads_readFundamental .uint8 v
  | int16 => exact CborSerializer.reads_readFundamental .int16 v
  | uint16 => exact CborSerializer.reads_readFundamental .uint16 v
  | int32 => exact CborSerializer.reads_readFundamental .int32 v
  | uint32 => exact CborSerializer.reads_readFundamental .uint32 v
  | int64 => exact CborSerializer.reads_readFundamental .int64 v
  | uint64 => exact CborSerializer.reads_readFundamental .uint64 v
  | propertySet => exact CborSerializer.reads_readFundamental .propertySet v
  | uuid => exact CborSerializer.reads_readFundamental .uuid v
  | string => exact CborSerializer.reads_readFundamental .string v

/-- The property set is read back. -/
theorem reads_readStructBegin (included : PropertySet) :
    Reads readStructBegin (writeStructBegin included) included := by
  refine (reads_size (by decide) included.card).bind ?_
  rw [← List.append_nil (writeUnsigned included.toValue)]
  refine (CborSerializer.reads_tag included.toValue).bind ?_
  rw [PropertySet.ofValue_toValue, toNat_ofNat_size (CborSerializer.length_lt_of_card rfl),
    if_neg (not_not.mpr rfl)]
  exact .pure _

variable {included : PropertySet} {p : PropertyDescriptor} {d : TypeDescriptor}
  {ps : PropertyDescriptors} {v : Option (Value d)} {x : Instance ps} {bytes : List UInt8}

/-- A property that is included and valid is written before the others. -/
theorem writeProperties_cons (hvalid : p.tag ∈ included → v.isSome)
    (h : writeProperties included (.cons p d ps) (v, x) = .ok bytes) :
    (p.tag ∉ included ∧ writeProperties included ps x = .ok bytes) ∨
      (p.tag ∈ included ∧ ∃ v' b bs, v = some v' ∧ writeType d v' = .ok b ∧
        writeProperties included ps x = .ok bs ∧ bytes = b ++ bs) := by
  by_cases hp : p.tag ∈ included
  · right
    obtain ⟨v', rfl⟩ := Option.isSome_iff_exists.mp (hvalid hp)
    rw [writeProperties, if_pos (PropertyDescriptor.set_subset_iff.mpr hp)] at h
    obtain ⟨b, hb, h⟩ := bind_eq_ok h
    obtain ⟨bs, hbs, h⟩ := bind_eq_ok h
    cases h
    exact ⟨hp, v', b, bs, rfl, hb, hbs, rfl⟩
  · left
    have hs : ¬p.set ⊆ included := fun hs => hp (PropertyDescriptor.set_subset_iff.mp hs)
    refine ⟨hp, ?_⟩
    cases v with
    | none => rwa [writeProperties, if_neg hs] at h
    | some v => rwa [writeProperties, if_neg hs] at h

/-- The first property is read, and then the others. -/
theorem reads_readProperties_cons {b bs : List UInt8} {w : Value d} {y : Instance ps}
    (hp : p.tag ∈ included) (hb : Reads (readType casts d (Value.fresh d)) b w)
    (hbs : Reads (readProperties casts included ps (Instance.fresh ps)) bs y) :
    Reads (readProperties casts included (.cons p d ps) (Instance.fresh _)) (b ++ bs)
      (some w, y) := by
  have heq : readProperties casts included (.cons p d ps) (Instance.fresh _) = (do
      let value ← readType casts d (Value.fresh d)
      return (some value, ← readProperties casts included ps (Instance.fresh ps)) :
      Read (Option (Value d) × Instance ps)) := if_pos (PropertyDescriptor.set_subset_iff.mpr hp)
  rw [heq]
  exact hb.bind hbs.bind_pure

/-- A property that is not in the set is left out. -/
theorem reads_readProperties_other {bs : List UInt8} {y : Instance ps} (hp : p.tag ∉ included)
    (hbs : Reads (readProperties casts included ps (Instance.fresh ps)) bs y) :
    Reads (readProperties casts included (.cons p d ps) (Instance.fresh _)) bs (none, y) := by
  have heq : readProperties casts included (.cons p d ps) (Instance.fresh _) = (do
      return (none, ← readProperties casts included ps (Instance.fresh ps)) :
      Read (Option (Value d) × Instance ps)) :=
    if_neg fun hs => hp (PropertyDescriptor.set_subset_iff.mp hs)
  rw [heq]
  exact hbs.bind_pure

mutual

/-- **What an older model covers** is read back. -/
theorem reads_readType (casts : FloatCasts) : {d d' : TypeDescriptor} → (del : Deletion d d') →
    (v : Value d') → d'.WellFormed → del.Covers v → (bytes : List UInt8) →
    writeType d' v = .ok bytes →
    Reads (readType casts d (Value.fresh d)) bytes (Value.zeroed d (del.project v))
  | _, _, .fundamental t, v, _, _, bytes, h => by
    rw [writeType] at h
    cases h
    exact reads_readFundamental t v
  | _, _, .enumeration name es, v, hwf, _, bytes, h => by
    rw [writeType] at h
    obtain ⟨e, he, h⟩ := bind_eq_ok h
    cases h
    obtain ⟨hmem, rfl⟩ := CborSerializer.enumeratorFromValue_eq_ok he
    exact CborSerializer.reads_readEnum hwf.1 hmem
  | .vector d, .vector d', .vector del, vs, hwf, hcovers, bytes, h => by
    rw [writeType] at h
    obtain ⟨items, hitems, h⟩ := bind_eq_ok h
    cases h
    have hall := (List.forall₂_and_left _ _).mpr ⟨hcovers, forall₂_of_mapM hitems⟩
    have hread := List.Forall₂.flip (hall.imp fun v item hv =>
      reads_readType casts del v hwf hv.1 item hv.2)
    have hmap : List.Forall₂ (Reads (readType casts d (Value.fresh d))) items
        ((vs.1.map del.project).map (Value.zeroed d)) := by
      rw [List.map_map]
      exact List.forall₂_map_right_iff.mpr hread
    exact CborSerializer.reads_vector hmap (by simp) (by simpa using vs.2)
  | .struct ps, .struct ps', .struct dels, x, hwf, hcovers, bytes, h => by
    rw [writeType, Finset.inter_self] at h
    obtain ⟨bs, hbs, h⟩ := bind_eq_ok h
    cases h
    have hread := reads_readProperties casts (x.validProperties ps') dels x hwf
      (.mono (Finset.subset_univ _) dels x hcovers) (fun t ht _ => ht) bs hbs
    have hall : Instance.restrict ps' (Instance.validProperties ps' x) x = x :=
      Instance.restrict_validProperties ps' x
    rw [hall] at hread
    exact (reads_readStructBegin _).bind hread

/-- The properties of a set, by a model that covers them. -/
theorem reads_readProperties (casts : FloatCasts) (s : PropertySet) :
    {ps ps' : PropertyDescriptors} → (dels : Deletions ps ps') → (x : Instance ps') →
    ps'.WellFormed → dels.Covers s x → (∀ t ∈ s, t ∈ ps'.tags → t ∈ x.validProperties ps') →
    (bytes : List UInt8) → writeProperties s ps' x = .ok bytes →
    Reads (readProperties casts s ps (Instance.fresh ps)) bytes
      (Instance.zeroed ps (dels.project (Instance.restrict ps' s x)))
  | _, _, .nil, x, _, _, _, bytes, h => by
    cases h
    exact .pure _
  | .cons _ d ps, .cons _ d' ps', .keep p del dels, (v, x), hwf, hcovers, hvalid, bytes, h => by
    obtain ⟨hp, hd, hps⟩ := hwf
    have hcons := writeProperties_cons (fun hi =>
      CborSerializer.isSome_of_mem_validProperties hp (hvalid _ hi List.mem_cons_self)) h
    have ih := reads_readProperties casts s dels x hps hcovers.2 fun t hi ht =>
      CborSerializer.mem_validProperties_of_cons hp ht (hvalid t hi (List.mem_cons_of_mem _ ht))
    rw [Instance.restrict, Deletions.project, Instance.zeroed]
    obtain ⟨hi, h⟩ | ⟨hi, v', b, bs, rfl, hb, hbs, rfl⟩ := hcons
    · rw [if_neg hi]
      exact reads_readProperties_other hi (ih bytes h)
    · rw [if_pos hi]
      exact reads_readProperties_cons hi
        (reads_readType casts del v' hd (hcovers.1 hi v' rfl) b hb) (ih bs hbs)
  | ps, .cons _ _ ps', .delete p d' dels, (v, x), hwf, hcovers, hvalid, bytes, h => by
    obtain ⟨hp, hd, hps⟩ := hwf
    have hcons := writeProperties_cons (fun hi =>
      CborSerializer.isSome_of_mem_validProperties hp (hvalid _ hi List.mem_cons_self)) h
    have ih := reads_readProperties casts s dels x hps hcovers.2 fun t hi ht =>
      CborSerializer.mem_validProperties_of_cons hp ht (hvalid t hi (List.mem_cons_of_mem _ ht))
    obtain ⟨hi, h⟩ | ⟨hi, v', b, bs, rfl, -⟩ := hcons
    · exact ih bytes h
    · exact absurd (hcovers.1 hi) (Option.some_ne_none v')

end

/-! ## Encodings -/

theorem writeFundamental_fresh_ne_nil (t : FundamentalType) : writeFundamental t t.fresh ≠ [] := by
  cases t <;> decide +kernel

/-- Nothing is written for properties that are not valid. -/
theorem writeProperties_fresh (s : PropertySet) : ∀ ps : PropertyDescriptors,
    writeProperties s ps (Instance.fresh ps) = .ok []
  | .nil => rfl
  | .cons p d ps => by
    have ih := writeProperties_fresh s ps
    simp only [Instance.fresh, writeProperties, ih]
    split_ifs <;> rfl

mutual

theorem exists_writeType : (d : TypeDescriptor) → (v : Value d) →
    Value.Enumerated d v → ∃ bytes, writeType d v = .ok bytes
  | .fundamental t, v, _ => ⟨writeFundamental t v, rfl⟩
  | .enumeration name es, v, h => by
    obtain ⟨e, he⟩ : ∃ e, enumeratorFromValue name es v = .ok e :=
      CborSerializer.exists_enumeratorFromValue h
    exact ⟨writeUnsigned e.tag, by simp only [writeType, CborSerializer.writeEnum, he]; rfl⟩
  | .vector d, vs, h => by
    obtain ⟨bs, hbs⟩ := exists_mapM fun v hv => exists_writeType d v (h v hv)
    exact ⟨writeArraySize vs.1.length ++ bs.flatten, by rw [writeType, hbs]; rfl⟩
  | .struct ps, x, h => by
    have hx : Instance.Enumerated ps x := h
    obtain ⟨bs, hbs⟩ := exists_writeProperties
      (x.validProperties ps ∩ x.validProperties ps) ps x hx.restrict
    exact ⟨_, by rw [writeType, hbs]; rfl⟩

theorem exists_writeProperties (included : PropertySet) :
    (ps : PropertyDescriptors) → (x : Instance ps) →
      Instance.Enumerated ps (Instance.restrict ps included x) →
      ∃ bytes, writeProperties included ps x = .ok bytes
  | .nil, _, _ => ⟨[], rfl⟩
  | .cons p d ps, (v, x), h => by
    obtain ⟨bs, hbs⟩ := exists_writeProperties included ps x h.2
    simp only [writeProperties, hbs]
    split_ifs with hp
    · have hv := h.1
      rw [if_pos (PropertyDescriptor.set_subset_iff.mp hp)] at hv
      cases v with
      | none => exact ⟨_, rfl⟩
      | some v =>
        obtain ⟨b, hb⟩ := exists_writeType d v (hv v rfl)
        exact ⟨_, by dsimp only; rw [hb]; rfl⟩
    · exact ⟨bs, rfl⟩

end

theorem exists_serialize {ps : PropertyDescriptors} {x : Instance ps} {s : PropertySet}
    (h : Instance.Enumerated ps (Instance.restrict ps s x)) :
    ∃ bytes, serialize ps x s = .ok bytes := by
  have hvalid : Instance.restrict ps (s ∩ x.validProperties ps) x = Instance.restrict ps s x :=
    Instance.restrict_congr ps x fun t ht => by simp [ht]
  obtain ⟨bs, hbs⟩ := exists_writeProperties (s ∩ x.validProperties ps) ps x
    (by rw [hvalid]; exact h)
  exact ⟨_, by rw [serialize]; simp only [hbs]; rfl⟩

/-- A type has a value that is written, unless it is an enum without enumerators. -/
theorem exists_encoding (d : TypeDescriptor) (h : ¬∃ name, d = .enumeration name []) :
    ∃ v bytes, bytes ≠ [] ∧ writeType d v = .ok bytes := by
  have hhead (m : UInt8) (hm : m ∈ MajorType.all) (n : BitVec 64) (rest : List UInt8) :
      writeHead m n ++ rest ≠ [] := by
    obtain ⟨a, w, hw, -⟩ := writeHead_initialByte hm n
    rw [hw]
    exact List.cons_ne_nil _ _
  cases d with
  | fundamental t => exact ⟨t.fresh, _, writeFundamental_fresh_ne_nil t, rfl⟩
  | enumeration name es =>
    cases es with
    | nil => exact absurd ⟨name, rfl⟩ h
    | cons e es =>
      have hfind : enumeratorFromValue name (e :: es) e.value = .ok e := by
        rw [enumeratorFromValue, List.find?_cons_of_pos (by simp)]
      refine ⟨e.value, writeUnsigned e.tag, ?_, ?_⟩
      · have hne := hhead MajorType.unsignedInt (by decide) (e.tag.setWidth 64) []
        rwa [List.append_nil] at hne
      · simp only [writeType, CborSerializer.writeEnum, hfind]
        rfl
  | vector d => exact ⟨⟨[], Nat.two_pow_pos 64⟩, _, hhead _ (by decide) _ _, rfl⟩
  | struct ps =>
    have hwrite (s : PropertySet) : (do
        return writeStructBegin s ++ (← writeProperties s ps (Instance.fresh ps)) :
        Except Exception (List UInt8)) = .ok (writeStructBegin s ++ []) := by
      rw [writeProperties_fresh]
      rfl
    refine ⟨Instance.fresh ps, _, ?_, hwrite _⟩
    rw [writeStructBegin, List.append_assoc]
    exact hhead _ (by decide) _ _

theorem validProperties_single (p : PropertyDescriptor) {d : TypeDescriptor} (v : Value d)
    (ps : PropertyDescriptors) :
    Instance.validProperties (.cons p d ps) (some v, Instance.fresh ps) = {p.tag} := by
  have hfresh : ∀ ps : PropertyDescriptors, (Instance.fresh ps).validProperties ps = ∅ := by
    intro ps
    induction ps using PropertyDescriptors.tags.induct with
    | case1 => rfl
    | case2 p d ps ih => rw [Instance.fresh, Instance.validProperties, ih]; rfl
  rw [Instance.validProperties, hfresh, Finset.union_empty]
  rfl

/-- One property is written as its value. -/
theorem writeProperties_single (p : PropertyDescriptor) {d : TypeDescriptor} {v : Value d}
    (ps : PropertyDescriptors) {bytes : List UInt8} (h : writeType d v = .ok bytes) :
    writeProperties {p.tag} (.cons p d ps) (some v, Instance.fresh ps) = .ok bytes := by
  rw [writeProperties, if_pos (PropertyDescriptor.set_subset_iff.mpr (Finset.mem_singleton_self _))]
  simp only [h, writeProperties_fresh]
  exact congrArg Except.ok (List.append_nil bytes)

/-- Properties that are not in the set are not read. -/
theorem reads_readProperties_none (casts : FloatCasts) (included : PropertySet) :
    ∀ ps : PropertyDescriptors, (∀ t ∈ ps.tags, t ∉ included) →
      Reads (readProperties casts included ps (Instance.fresh ps)) [] (Instance.fresh ps)
  | .nil, _ => .pure _
  | .cons p _ ps, h => reads_readProperties_other (h p.tag List.mem_cons_self)
      (reads_readProperties_none casts included ps fun t ht => h t (List.mem_cons_of_mem _ ht))

/-! ## Where an older model stops -/

mutual

/-- **Something is read that ends before the item does**, if a property is deleted that has
values. -/
theorem stops_of_not_lossless (casts : FloatCasts) : {d d' : TypeDescriptor} →
    (del : Deletion d d') → d'.WellFormed → ¬del.Lossless →
    ∃ (v : Value d') (read left : List UInt8) (w : Value d), left ≠ [] ∧
      writeType d' v = .ok (read ++ left) ∧ Reads (readType casts d (Value.fresh d)) read w
  | _, _, .fundamental t, _, h => absurd trivial h
  | _, _, .enumeration name es, _, h => absurd trivial h
  | .vector d, .vector d', .vector del, hwf, h => by
    obtain ⟨v, read, left, w, hleft, hwrite, hread⟩ := stops_of_not_lossless casts del hwf h
    have hone : List.Forall₂ (Reads (readType casts d (Value.fresh d))) [read] [w] :=
      .cons hread .nil
    have hlength : [w].length < sizeLimit := Nat.one_lt_two_pow (by decide)
    have hvector := CborSerializer.reads_vector hone (n := 1) rfl hlength
    have hitems : [v].mapM (writeType d') = .ok [read ++ left] := by
      rw [List.mapM_cons, hwrite]
      rfl
    refine ⟨⟨[v], hlength⟩, _, left, _, hleft, ?_, hvector⟩
    show (do return writeArraySize 1 ++ (← [v].mapM (writeType d')).flatten :
      Except Exception (List UInt8)) = _
    rw [hitems, List.flatten_singleton, List.append_assoc]
    exact congrArg (fun bytes => Except.ok (writeArraySize 1 ++ bytes)) (List.append_nil _)
  | .struct ps, .struct ps', .struct dels, hwf, h => by
    obtain ⟨t, x, read, left, y, -, hvalid, hleft, hwrite, hread⟩ :=
      stops_of_not_lossless_struct casts dels hwf h
    refine ⟨x, _, left, y, hleft, ?_, (reads_readStructBegin {t}).bind hread⟩
    have hincluded : x.validProperties ps' ∩ x.validProperties ps' = {t} := by
      rw [hvalid, Finset.inter_self]
    show (do return writeStructBegin (x.validProperties ps' ∩ x.validProperties ps') ++
      (← writeProperties (x.validProperties ps' ∩ x.validProperties ps') ps' x) :
      Except Exception (List UInt8)) = _
    rw [hincluded, hwrite, List.append_assoc]
    rfl

/-- An instance with one valid property. -/
theorem stops_of_not_lossless_struct (casts : FloatCasts) : {ps ps' : PropertyDescriptors} →
    (dels : Deletions ps ps') → ps'.WellFormed → ¬dels.Lossless →
    ∃ (t : Tag) (x : Instance ps') (read left : List UInt8) (y : Instance ps),
      t ∈ ps'.tags ∧ x.validProperties ps' = {t} ∧ left ≠ [] ∧
      writeProperties {t} ps' x = .ok (read ++ left) ∧
      Reads (readProperties casts {t} ps (Instance.fresh ps)) read y
  | _, _, .nil, _, h => absurd trivial h
  | .cons _ d ps, .cons _ d' ps', .keep p del dels, hwf, h => by
    obtain ⟨hp, hd, hps⟩ := hwf
    by_cases hdel : del.Lossless
    · obtain ⟨t, x, read, left, y, ht, hvalid, hleft, hwrite, hread⟩ :=
        stops_of_not_lossless_struct casts dels hps fun hdels => h ⟨hdel, hdels⟩
      have hne : p.tag ∉ ({t} : PropertySet) := fun hmem =>
        hp (Finset.mem_singleton.mp hmem ▸ ht)
      refine ⟨t, (none, x), read, left, (none, y), List.mem_cons_of_mem _ ht, ?_, hleft, ?_,
        reads_readProperties_other hne hread⟩
      · rw [Instance.validProperties, hvalid]
        exact Finset.empty_union _
      · rw [writeProperties, if_neg fun hs => hne (PropertyDescriptor.set_subset_iff.mp hs)]
        exact hwrite
    · obtain ⟨v, read, left, w, hleft, hwrite, hread⟩ := stops_of_not_lossless casts del hd hdel
      have hnone := reads_readProperties_none casts {p.tag} ps fun t ht hmem =>
        hp (dels.tags_subset (Finset.mem_singleton.mp hmem ▸ ht))
      refine ⟨p.tag, (some v, Instance.fresh ps'), read, left, (some w, Instance.fresh ps),
        List.mem_cons_self, validProperties_single p v ps', hleft,
        writeProperties_single p ps' hwrite, ?_⟩
      have hcons := reads_readProperties_cons (Finset.mem_singleton_self p.tag) hread hnone
      rwa [List.append_nil] at hcons
  | ps, .cons _ _ ps', .delete p d' dels, hwf, h => by
    obtain ⟨hp, hd, hps⟩ := hwf
    by_cases hnone : ∃ name, d' = .enumeration name []
    · obtain ⟨t, x, read, left, y, ht, hvalid, hleft, hwrite, hread⟩ :=
        stops_of_not_lossless_struct casts dels hps fun hdels => h ⟨hnone, hdels⟩
      have hne : p.tag ∉ ({t} : PropertySet) := fun hmem =>
        hp (Finset.mem_singleton.mp hmem ▸ ht)
      refine ⟨t, (none, x), read, left, y, List.mem_cons_of_mem _ ht, ?_, hleft, ?_, hread⟩
      · rw [Instance.validProperties, hvalid]
        exact Finset.empty_union _
      · rw [writeProperties, if_neg fun hs => hne (PropertyDescriptor.set_subset_iff.mp hs)]
        exact hwrite
    · obtain ⟨v, bytes, hbytes, hwrite⟩ := exists_encoding d' hnone
      exact ⟨p.tag, (some v, Instance.fresh ps'), [], bytes, Instance.fresh ps, List.mem_cons_self,
        validProperties_single p v ps', hbytes, writeProperties_single p ps' hwrite,
        reads_readProperties_none casts {p.tag} ps fun t ht hmem =>
          hp (dels.tags_subset (Finset.mem_singleton.mp hmem ▸ ht))⟩

end

mutual

/-- A property without values is not written. -/
theorem covers_of_lossless : {d d' : TypeDescriptor} → (del : Deletion d d') → (v : Value d') →
    d'.WellFormed → del.Lossless → (bytes : List UInt8) → writeType d' v = .ok bytes → del.Covers v
  | _, _, .fundamental _, _, _, _, _, _ => trivial
  | _, _, .enumeration _ _, _, _, _, _, _ => trivial
  | .vector d, .vector d', .vector del, vs, hwf, h, bytes, hwrite => by
    rw [writeType] at hwrite
    obtain ⟨items, hitems, -⟩ := bind_eq_ok hwrite
    intro v hv
    obtain ⟨item, -, hitem⟩ := exists_of_mem_right (forall₂_of_mapM hitems).flip hv
    exact covers_of_lossless del v hwf h item hitem
  | .struct ps, .struct ps', .struct dels, x, hwf, h, bytes, hwrite => by
    rw [writeType, Finset.inter_self] at hwrite
    obtain ⟨bs, hbs, -⟩ := bind_eq_ok hwrite
    have hcovers := covers_of_lossless_struct (x.validProperties ps') dels x hwf h
      (fun t ht _ => ht) bs hbs
    refine Deletions.Covers.of_valid dels x ?_
    rwa [Finset.univ_inter]

theorem covers_of_lossless_struct (s : PropertySet) : {ps ps' : PropertyDescriptors} →
    (dels : Deletions ps ps') → (x : Instance ps') → ps'.WellFormed → dels.Lossless →
    (∀ t ∈ s, t ∈ ps'.tags → t ∈ x.validProperties ps') → (bytes : List UInt8) →
    writeProperties s ps' x = .ok bytes → dels.Covers s x
  | _, _, .nil, _, _, _, _, _, _ => trivial
  | .cons _ d ps, .cons _ d' ps', .keep p del dels, (v, x), hwf, h, hvalid, bytes, hwrite => by
    obtain ⟨hp, hd, hps⟩ := hwf
    have hcons := writeProperties_cons (fun hi =>
      CborSerializer.isSome_of_mem_validProperties hp (hvalid _ hi List.mem_cons_self)) hwrite
    have ih := covers_of_lossless_struct s dels x hps h.2 fun t hi ht =>
      CborSerializer.mem_validProperties_of_cons hp ht (hvalid t hi (List.mem_cons_of_mem _ ht))
    obtain ⟨hi, hwrite⟩ | ⟨hi, v', b, bs, rfl, hb, hbs, rfl⟩ := hcons
    · exact ⟨fun hmem => absurd hmem hi, ih bytes hwrite⟩
    · refine ⟨fun _ w hw => ?_, ih bs hbs⟩
      cases hw
      exact covers_of_lossless del v' hd h.1 b hb
  | ps, .cons _ _ ps', .delete p d' dels, (v, x), hwf, h, hvalid, bytes, hwrite => by
    obtain ⟨hp, hd, hps⟩ := hwf
    have hcons := writeProperties_cons (fun hi =>
      CborSerializer.isSome_of_mem_validProperties hp (hvalid _ hi List.mem_cons_self)) hwrite
    have ih := covers_of_lossless_struct s dels x hps h.2 fun t hi ht =>
      CborSerializer.mem_validProperties_of_cons hp ht (hvalid t hi (List.mem_cons_of_mem _ ht))
    obtain ⟨hi, hwrite⟩ | ⟨hi, v', b, bs, rfl, hb, hbs, rfl⟩ := hcons
    · exact ⟨fun hmem => absurd hmem hi, ih bytes hwrite⟩
    · obtain ⟨⟨name, rfl⟩, -⟩ := h
      cases hb

end

/-! ## The item and its end -/

variable {ps' : PropertyDescriptors}

/-- The older model reads what it has of the instance, and stands behind the item. -/
def ReadsExactly (casts : FloatCasts) (dels : Deletions ps ps') (x : Instance ps')
    (s : PropertySet) : Prop :=
  ∀ bytes, serialize ps' x s = .ok bytes → ∀ included rest,
    deserialize casts ps (Instance.fresh ps) included (bytes ++ rest) =
      .ok (Instance.zeroed ps (dels.project (Instance.restrict ps' s x)), bytes.length)

/-- It does so, or reports an error. -/
def Resyncs (casts : FloatCasts) (dels : Deletions ps ps') (x : Instance ps')
    (s : PropertySet) : Prop :=
  ∀ bytes, serialize ps' x s = .ok bytes → ∀ included rest,
    deserialize casts ps (Instance.fresh ps) included (bytes ++ rest) =
        .ok (Instance.zeroed ps (dels.project (Instance.restrict ps' s x)), bytes.length) ∨
      ∃ e, deserialize casts ps (Instance.fresh ps) included (bytes ++ rest) = .error (.thrown e)

theorem deserialize_eq {bytes : List UInt8} {y : Instance ps}
    (h : Reads (do readProperties casts (← readStructBegin) ps (Instance.fresh ps)) bytes y)
    (rest : List UInt8) :
    deserialize casts ps (Instance.fresh ps) included (bytes ++ rest) = .ok (y, bytes.length) := by
  have hne : bytes ++ rest ≠ [] := by
    intro hnil
    obtain ⟨rfl, rfl⟩ := List.append_eq_nil_iff.mp hnil
    have hrun := h 0 []
    cases hrun
  rw [deserialize, if_neg hne, readStruct, h 0 rest]
  simp only [Nat.zero_add]
  rfl

/-- An older model that covers an instance reads it exactly. -/
theorem readsExactly_of_covers (casts : FloatCasts) (dels : Deletions ps ps') (hwf : ps'.WellFormed)
    {x : Instance ps'} {s : PropertySet} (h : dels.Covers s x) : ReadsExactly casts dels x s := by
  intro bytes hwrite included rest
  obtain ⟨bs, hbs, hwrite⟩ := bind_eq_ok hwrite
  cases hwrite
  have hread := reads_readProperties casts (s ∩ x.validProperties ps') dels x hwf
    (.mono Finset.inter_subset_left dels x h) (fun t ht _ => (Finset.mem_inter.mp ht).2) bs hbs
  have hall : Instance.restrict ps' (s ∩ x.validProperties ps') x = Instance.restrict ps' s x :=
    Instance.restrict_congr ps' x fun t ht => by simp [ht]
  rw [hall] at hread
  exact deserialize_eq ((reads_readStructBegin _).bind hread) rest

/-- **Resynchronisation.** What is written is read back by the same model, and by an older one that
covers it. An older model stands behind every item, or reports an error, exactly if only properties
without values are deleted. -/
theorem resyncs_iff (casts : FloatCasts) {ps ps' : PropertyDescriptors} (dels : Deletions ps ps')
    (hwf : ps'.WellFormed) :
    (∀ (x : Instance ps') (s : PropertySet),
      ((x.restrict ps' s).Enumerated ps' → ∃ bytes, serialize ps' x s = .ok bytes) ∧
      (∀ bytes, serialize ps' x s = .ok bytes → ∀ included rest,
        deserialize casts ps' (Instance.fresh ps') included (bytes ++ rest) =
          .ok ((x.restrict ps' s).zeroed ps', bytes.length)) ∧
      (dels.Covers s x → ReadsExactly casts dels x s)) ∧
    ((∀ x s, Resyncs casts dels x s) ↔ dels.Lossless) := by
  refine ⟨fun x s => ⟨exists_serialize, ?_, readsExactly_of_covers casts dels hwf⟩, ?_, ?_⟩
  · have hread := readsExactly_of_covers casts (Deletions.refl ps') hwf
      (Deletions.covers_refl ps' s x)
    unfold ReadsExactly at hread
    rwa [Deletions.project_refl] at hread
  · intro h
    by_contra hlossless
    obtain ⟨t, x, read, left, y, -, hvalid, hleft, hwrite, hread⟩ :=
      stops_of_not_lossless_struct casts dels hwf hlossless
    have hserialize : serialize ps' x {t} = .ok (writeStructBegin {t} ++ read ++ left) := by
      rw [serialize, hvalid, Finset.inter_self]
      simp only [hwrite, List.append_assoc]
      rfl
    have hstops : deserialize casts ps (Instance.fresh ps) ∅
        (writeStructBegin {t} ++ read ++ left) = .ok (y, (writeStructBegin {t} ++ read).length) :=
      deserialize_eq ((reads_readStructBegin {t}).bind hread) left
    have hpos := List.length_pos_iff.mpr hleft
    rcases h x {t} _ hserialize ∅ [] with hexact | ⟨e, herror⟩
    · rw [List.append_nil, hstops] at hexact
      have hlength := (Prod.ext_iff.mp (Except.ok.inj hexact)).2
      rw [List.length_append, List.length_append, List.length_append] at hlength
      omega
    · rw [List.append_nil, hstops] at herror
      cases herror
  · intro hlossless x s bytes hwrite included rest
    have hcovers : dels.Covers (s ∩ x.validProperties ps') x := by
      obtain ⟨bs, hbs, -⟩ := bind_eq_ok hwrite
      exact covers_of_lossless_struct _ dels x hwf hlossless
        (fun t ht _ => (Finset.mem_inter.mp ht).2) bs hbs
    exact .inl (readsExactly_of_covers casts dels hwf (.of_valid dels x hcovers) bytes hwrite
      included rest)

open CborSerializer in
/-- Labels without their text, read by a model without texts. -/
theorem resyncs_iff_label : ReadsExactly noCasts countDeletions (label 3) {2} ∧
    ¬∀ x s, Resyncs noCasts countDeletions x s := by
  have hresyncs := resyncs_iff noCasts countDeletions labelProperties_wellFormed
  refine ⟨(hresyncs.1 (label 3) {2}).2.2 ?_, mt hresyncs.2.mp ?_⟩
  · exact ⟨fun hmem => absurd hmem (by decide), Deletions.covers_refl countProperties {2} _⟩
  · rintro ⟨⟨name, hname⟩, -⟩
    cases hname

open CborSerializer in
/-- **A text** that the model does not have stays unread, and no error is reported. -/
theorem not_resyncs_label : ∃ bytes, serialize labelProperties (label 3) {1} = .ok bytes ∧
    bytes = [0x81, 0x02, 0x63, 0x61, 0x61, 0x61] ∧
    deserialize noCasts countProperties (Instance.fresh _) Finset.univ bytes =
      .ok (Instance.fresh _, 2) ∧
    ¬Resyncs noCasts countDeletions (label 3) {1} := by
  have hwrite : serialize labelProperties (label 3) {1} =
      .ok [0x81, 0x02, 0x63, 0x61, 0x61, 0x61] := by decide +kernel
  have hread : deserialize noCasts countProperties (Instance.fresh _) Finset.univ
      [0x81, 0x02, 0x63, 0x61, 0x61, 0x61] = .ok (Instance.fresh _, 2) := rfl
  refine ⟨_, hwrite, rfl, hread, fun h => ?_⟩
  rcases h _ hwrite Finset.univ [] with hexact | ⟨e, herror⟩
  · rw [List.append_nil, hread] at hexact
    have hlength := (Prod.ext_iff.mp (Except.ok.inj hexact)).2
    exact absurd hlength (by decide)
  · rw [List.append_nil, hread] at herror
    cases herror

end ExperimentalCborSerializer

end Dots

import Dots.Cbor.Encoding
import Dots.Type.Deletion

/-!
# Reading what was written

A peer with an older model of a type has some of its properties, and may read a part of them; the
others are skipped.

* `Deletion.Short`, `Deletions.Short`: the values that are skipped are short.
* **`reads_readType`**, **`words_readEntry`**: what an older model has of a value is read exactly.
* **`deserialize_serialize`**: the round trip.
* **`deserialize_of_short`**: an older model reads what it has, if the values that it skips are
  short.
* `deserialize_of_long`: a longer string is not skipped exactly.
-/

set_option autoImplicit false

namespace Dots

open CborFormat CborWriter CborReader CborSerializer Parse

/-! ## The values that are skipped -/

mutual

/-- What is deleted inside of a value is short. -/
def Deletion.Short : {d d' : TypeDescriptor} → Deletion d d' → Value d' → Prop
  | _, _, .fundamental _, _ => True
  | _, _, .enumeration _ _, _ => True
  | _, _, .vector del, vs => ∀ v ∈ vs.1, del.Short v
  | _, _, .struct dels, x => dels.Short Finset.univ Finset.univ x

/-- Of the properties in `s`, those that are deleted or not included are short. -/
def Deletions.Short : {ps ps' : PropertyDescriptors} → Deletions ps ps' →
    (s included : PropertySet) → Instance ps' → Prop
  | _, _, .nil, _, _, _ => True
  | _, _, .keep p del dels, s, included, (v, x) =>
    (p.tag ∈ s → ∀ v' ∈ v, if p.tag ∈ included then del.Short v' else Value.Short _ v') ∧
      dels.Short s included x
  | _, _, .delete p _ dels, s, included, (v, x) =>
    (p.tag ∈ s → ∀ v' ∈ v, Value.Short _ v') ∧ dels.Short s included x

end

theorem Deletions.Short.mono {s s' included : PropertySet} (hs : s' ⊆ s) :
    {ps ps' : PropertyDescriptors} → (dels : Deletions ps ps') → (x : Instance ps') →
    dels.Short s included x → dels.Short s' included x
  | _, _, .nil, _, _ => trivial
  | _, _, .keep _ _ dels, (_, x), h => ⟨fun hp => h.1 (hs hp), Short.mono hs dels x h.2⟩
  | _, _, .delete _ _ dels, (_, x), h => ⟨fun hp => h.1 (hs hp), Short.mono hs dels x h.2⟩

mutual

/-- Where nothing is deleted, nothing is skipped. -/
theorem Deletion.short_refl : (d : TypeDescriptor) → (v : Value d) → (Deletion.refl d).Short v
  | .fundamental _, _ => trivial
  | .enumeration _ _, _ => trivial
  | .vector d, _ => fun v _ => Deletion.short_refl d v
  | .struct ps, x => Deletions.short_refl ps _ x

theorem Deletions.short_refl : (ps : PropertyDescriptors) → (s : PropertySet) →
    (x : Instance ps) → (Deletions.refl ps).Short s Finset.univ x
  | .nil, _, _ => trivial
  | .cons p d ps, s, (v, x) => ⟨fun _ v' _ => by
      rw [if_pos (Finset.mem_univ _)]
      exact Deletion.short_refl d v', Deletions.short_refl ps s x⟩

end

theorem restrict_project_keep {s included : PropertySet} {p : PropertyDescriptor}
    {d d' : TypeDescriptor} {ps ps' : PropertyDescriptors} {del : Deletion d d'}
    {dels : Deletions ps ps'} {v : Option (Value d')} {x : Instance ps'} :
    Instance.restrict (.cons p d ps) included
        ((Deletions.keep p del dels).project (Instance.restrict (.cons p d' ps') s (v, x))) =
      (if p.tag ∈ included then (if p.tag ∈ s then v else none).map del.project else none,
        Instance.restrict ps included (dels.project (Instance.restrict ps' s x))) := rfl

/-! ## Reading -/

namespace CborSerializer

variable {casts : FloatCasts} {level : ℕ} {included : PropertySet}

theorem reads_readFundamental (t : FundamentalType) (v : t.Value) :
    Reads (readFundamental casts t) (writeFundamental t v) v := by
  have hfloat64 (v : BitVec 64) : Reads (readFloat64 casts) (writeFloat64 v) v :=
    reads_readFloat (s := 3) le_rfl rfl casts.ofHalf64 casts.ofSingle64 v
  cases t with
  | boolean => exact reads_readBool v
  | int8 => exact reads_readSigned (s := 0) (by omega) rfl v
  | uint8 => exact reads_readUnsigned (s := 0) (by omega) rfl v
  | int16 => exact reads_readSigned (s := 1) (by omega) rfl v
  | uint16 => exact reads_readUnsigned (s := 1) (by omega) rfl v
  | int32 => exact reads_readSigned (s := 2) (by omega) rfl v
  | uint32 | propertySet => exact reads_readUnsigned (s := 2) (by omega) rfl v
  | int64 => exact reads_readSigned (s := 3) le_rfl rfl v
  | uint64 => exact reads_readUnsigned (s := 3) le_rfl rfl v
  | float32 => exact reads_readFloat (s := 2) (by omega) rfl casts.ofHalf32 id v
  | float64 | timepoint | steadyTimepoint | duration => exact hfloat64 v
  | uuid => exact reads_readByteArray (by omega) v
  | string => exact reads_readString v

theorem reads_tag (tag : BitVec 32) : Reads (readUnsigned 4) (writeUnsigned tag) tag :=
  reads_readUnsigned (s := 2) (by omega) rfl tag

/-- Distinct tags make an enumerator the one that is found. -/
theorem enumeratorFromTag_of_mem {name : String} {es : List EnumeratorDescriptor}
    (htags : (es.map EnumeratorDescriptor.tag).Nodup) {e : EnumeratorDescriptor} (he : e ∈ es) :
    enumeratorFromTag name es e.tag = .ok e := by
  have hfind : es.find? (fun e' => e'.tag = e.tag) = some e := by
    cases hr : es.find? (fun e' => e'.tag = e.tag) with
    | none => exact absurd (decide_eq_true rfl) (List.find?_eq_none.mp hr e he)
    | some e' =>
      have htag : e'.tag = e.tag := by simpa using List.find?_some hr
      rw [List.inj_on_of_nodup_map htags (List.mem_of_find?_eq_some hr) he htag]
  rw [enumeratorFromTag, hfind]

theorem reads_readEnum {name : String} {es : List EnumeratorDescriptor}
    (htags : (es.map EnumeratorDescriptor.tag).Nodup) {e : EnumeratorDescriptor} (he : e ∈ es) :
    Reads (readEnum name es) (writeUnsigned e.tag) e.value := by
  have hread : Reads (readEnum name es) (writeUnsigned e.tag ++ []) e.value := by
    refine (reads_tag e.tag).bind ?_
    simp only [enumeratorFromTag_of_mem htags he]
    exact .pure _
  rwa [List.append_nil] at hread

theorem ofNat_tag_inj {t t' : Tag} (h : BitVec.ofNat 32 t = BitVec.ofNat 32 t') : t = t' := by
  have htoNat := congrArg BitVec.toNat h
  rw [BitVec.toNat_ofNat, BitVec.toNat_ofNat, Nat.mod_eq_of_lt (by omega),
    Nat.mod_eq_of_lt (by omega)] at htoNat
  exact Fin.ext htoNat

theorem readProperty_of_notMem {t : Tag} : (ps : PropertyDescriptors) → (x : Instance ps) →
    t ∉ ps.tags → readProperty casts level included (BitVec.ofNat 32 t) ps x = none
  | .nil, _, _ => rfl
  | .cons p d ps, (v, x), h => by
    have hp : ¬BitVec.ofNat 32 p.tag = BitVec.ofNat 32 t := fun hp => h (by
      rw [← ofNat_tag_inj hp]
      exact List.mem_cons_self)
    rw [readProperty, if_neg hp, readProperty_of_notMem ps x fun ht => h (List.mem_cons_of_mem _ ht)]
    rfl

/-- The first property is read over nothing, if it is included. -/
theorem readProperty_head {p : PropertyDescriptor} {d : TypeDescriptor}
    {ps : PropertyDescriptors} :
    readProperty casts level included (BitVec.ofNat 32 p.tag) (.cons p d ps) (Instance.fresh _) =
      if p.tag ∈ included then some do
        return (some (← readType casts level d (Value.fresh d)), Instance.fresh ps)
      else none := by
  rw [Instance.fresh, readProperty, if_pos rfl]
  simp only [PropertyDescriptor.set_subset_iff]
  rfl

/-- A property that is not first is read into the rest of the instance. -/
theorem readProperty_cons {p : PropertyDescriptor} {d : TypeDescriptor} {ps : PropertyDescriptors}
    {t : Tag} (hp : p.tag ≠ t) (v : Option (Value d)) (x : Instance ps) :
    readProperty casts level included (BitVec.ofNat 32 t) (.cons p d ps) (v, x) =
      (readProperty casts level included (BitVec.ofNat 32 t) ps x).map fun read => do
        return (v, ← read) := by
  rw [readProperty, if_neg fun h => hp (ofNat_tag_inj h)]

/-- The read of an entry whose property is found. -/
theorem reads_readEntry_some {α : Type} {property : BitVec 32 → α → Option (Read α)} {x y : α}
    {tag : BitVec 32} {read : Read α} {w : List UInt8} (hfound : property tag x = some read)
    (h : Reads read w y) : Reads (readEntry property x) (writeUnsigned tag ++ w) y := by
  refine (reads_tag tag).bind ?_
  rw [hfound]
  exact h

/-- The read of an entry whose property is not found. -/
theorem reads_readEntry_none {α : Type} {property : BitVec 32 → α → Option (Read α)} {x : α}
    {tag : BitVec 32} {w : List UInt8} (hfound : property tag x = none) (h : Reads skip w ()) :
    Reads (readEntry property x) (writeUnsigned tag ++ w) x := by
  refine (reads_tag tag).bind ?_
  rw [hfound]
  exact h.bind_pure (g := fun _ => x)

theorem reads_readEntries {α : Type} {property : BitVec 32 → α → Option (Read α)} {x y : α}
    {ws : List (List UInt8)} (hlength : ws.length < 2 ^ 64)
    (h : Words (readEntry property) x ws y) :
    Reads (readEntries property x) (writeMapSize ws.length ++ ws.flatten) y := by
  refine (reads_size (by decide) ws.length).bind ?_
  rw [toNat_ofNat_size hlength]
  exact h.reads_iterate

theorem length_lt_of_card {s : PropertySet} {n : ℕ} (h : n = s.card) : n < 2 ^ 64 := by
  have hcard : s.card ≤ 32 := by simpa using Finset.card_le_univ s
  omega

/-- The elements of a vector are read into fresh elements. -/
theorem reads_vector {α : Type} {m : Read α} {items : List (List UInt8)} {as : List α} {n : ℕ}
    (h : List.Forall₂ (Reads m) items as) (hn : n = as.length) (has : as.length < sizeLimit) :
    Reads (do
      let size ← readArraySize
      let vs ← Parse.replicate m size.toNat
      return (⟨vs.1, by rw [vs.2]; exact size.isLt⟩ : {vs : List α // vs.length < sizeLimit}))
      (writeArraySize n ++ items.flatten) ⟨as, has⟩ := by
  refine (reads_size (by decide) n).bind ?_
  have hvs (k : ℕ) (hk : k = as.length) (hlt : k < sizeLimit) : Reads (do
      let vs ← Parse.replicate m k
      return (⟨vs.1, by rw [vs.2]; exact hlt⟩ : {vs : List α // vs.length < sizeLimit}))
      items.flatten ⟨as, has⟩ := by
    subst hk
    exact (Reads.replicate h).bind_pure
  exact hvs _ ((toNat_ofNat_size (hn ▸ has)).trans hn) (BitVec.isLt _)

theorem map_return {α β γ : Type} (m : Read α) (f : α → β) (g : β → γ) :
    (g <$> do return f (← m)) = (fun a => g (f a)) <$> m := by
  simp only [bind_pure_comp, Functor.map_map]

mutual

/-- **What an older model has of a value is read exactly.** -/
theorem reads_readType (casts : FloatCasts) (level level' : ℕ) (hlevel : 2 ≤ level)
    (hlevel' : 1 ≤ level') : {d d' : TypeDescriptor} → (del : Deletion d d') → (v : Value d') →
    d'.WellFormed → del.Short v → (bytes : List UInt8) → writeType level' d' v = .ok bytes →
    Reads (readType casts level d (Value.fresh d)) bytes (del.project v)
  | _, _, .fundamental t, v, _, _, bytes, h => by
    rw [writeType] at h
    cases h
    exact reads_readFundamental t v
  | _, _, .enumeration name es, v, hwf, _, bytes, h => by
    rw [writeType] at h
    obtain ⟨e, he, h⟩ := bind_eq_ok h
    cases h
    obtain ⟨hmem, rfl⟩ := enumeratorFromValue_eq_ok he
    exact reads_readEnum hwf.1 hmem
  | .vector d, .vector d', .vector del, vs, hwf, hshort, bytes, h => by
    rw [writeType] at h
    obtain ⟨items, hitems, h⟩ := bind_eq_ok h
    cases h
    have hall := (List.forall₂_and_left _ _).mpr ⟨hshort, forall₂_of_mapM hitems⟩
    have hread := List.Forall₂.flip (hall.imp fun v item hv =>
      reads_readType casts (level + 1) (level' + 1) (by omega) (by omega) del v hwf hv.1 item hv.2)
    exact reads_vector (List.forall₂_map_right_iff.mpr hread) (by simp) (by simpa using vs.2)
  | .struct ps, .struct ps', .struct dels, x, hwf, hshort, bytes, h => by
    rw [writeType, Finset.inter_self] at h
    obtain ⟨bs, hbs, h⟩ := bind_eq_ok h
    cases h
    obtain ⟨ws, rfl, hlength, hwords⟩ := words_readEntry casts (level + 1) (level' + 1) (by omega)
      (by omega) (x.validProperties ps') Finset.univ ps dels x hwf
      (.mono (Finset.subset_univ _) dels x hshort) (fun t ht _ => ht) id (by simp) bs hbs
    rw [Finset.inter_eq_left.mpr (Instance.validProperties_subset ps' x)] at hlength
    have hincluded : includedAt level ((Instance.fresh ps).validProperties ps) = Finset.univ :=
      if_pos (by unfold visitingLevel; split_ifs <;> omega)
    have hall : Instance.restrict ps' (Instance.validProperties ps' x) x = x :=
      (Instance.restrict_congr ps' x fun t ht => by simp [ht]).trans (Instance.restrict_univ ps' x)
    rw [hall, Instance.restrict_univ] at hwords
    rw [← hlength, readType, Value.fresh]
    simp only [hincluded]
    exact reads_readEntries (length_lt_of_card hlength) hwords

/-- The entries of a struct, read into an instance of an older model. The properties of the list
are part of a longer list `full`, whose other values `E` holds. -/
theorem words_readEntry (casts : FloatCasts) (level level' : ℕ) (hlevel : 2 ≤ level)
    (hlevel' : 2 ≤ level') (s included : PropertySet) (full : PropertyDescriptors) :
    {ps ps' : PropertyDescriptors} → (dels : Deletions ps ps') → (x : Instance ps') →
    ps'.WellFormed → dels.Short s included x →
    (∀ t ∈ s, t ∈ ps'.tags → t ∈ x.validProperties ps') → (E : Instance ps → Instance full) →
    (∀ t ∈ ps'.tags, ∀ y, readProperty casts level included (BitVec.ofNat 32 t) full (E y) =
      (readProperty casts level included (BitVec.ofNat 32 t) ps y).map fun read => E <$> read) →
    (bytes : List UInt8) → writeProperties level' s ps' x = .ok bytes →
    ∃ ws : List (List UInt8), bytes = ws.flatten ∧ ws.length = (s ∩ ps'.tags.toFinset).card ∧
      Words (readEntry fun tag x => readProperty casts level included tag full x)
        (E (Instance.fresh ps)) ws
        (E (Instance.restrict ps included (dels.project (Instance.restrict ps' s x))))
  | _, _, .nil, x, _, _, _, E, _, bytes, h => by
    cases h
    exact ⟨[], rfl, by simp [PropertyDescriptors.tags], .nil _⟩
  | .cons _ d ps, .cons _ d' ps', .keep p del dels, (v, x), hwf, hshort, hvalid, E, hE,
      bytes, h => by
    obtain ⟨hp, hd, hps⟩ := hwf
    have hcons := writeProperties_cons hlevel' (fun hi =>
      isSome_of_mem_validProperties hp (hvalid _ hi List.mem_cons_self)) h
    -- the other entries do not touch the value of this property
    have ih (v : Option (Value d)) := words_readEntry casts level level' hlevel hlevel' s included
      full dels x hps hshort.2 (fun t hi ht => mem_validProperties_of_cons hp ht
        (hvalid t hi (List.mem_cons_of_mem _ ht))) (fun y => E (v, y)) fun t ht y => by
          refine (hE t (List.mem_cons_of_mem _ ht) (v, y)).trans ?_
          rw [readProperty_cons (fun h => hp (h ▸ ht))]
          cases readProperty casts level included (BitVec.ofNat 32 t) ps y with
          | none => rfl
          | some read => exact congrArg some (map_return read (Prod.mk v) E)
    rw [card_inter_cons hp]
    obtain ⟨hi, h⟩ | ⟨hi, v', b, bs, rfl, hb, hbs, rfl⟩ := hcons
    · rw [if_neg hi, Nat.zero_add]
      rw [restrict_project_keep, if_neg hi, Option.map_none, ite_self]
      exact ih none bytes h
    · rw [restrict_project_keep, if_pos hi, if_pos hi, Option.map_some]
      obtain ⟨ws, rfl, hlength, hwords⟩ :=
        ih (if p.tag ∈ included then some (del.project v') else none) bs hbs
      refine ⟨_ :: ws, rfl, by rw [List.length_cons, hlength, add_comm], .cons ?_ hwords⟩
      have hfound := hE p.tag List.mem_cons_self (Instance.fresh _)
      rw [readProperty_head] at hfound
      have hshort' := hshort.1 hi v' rfl
      split_ifs at hfound hshort' ⊢ with hp'
      · refine reads_readEntry_some hfound (Reads.map E ?_)
        exact (reads_readType casts level level' hlevel (by omega) del v' hd hshort' b hb).bind_pure
      · exact reads_readEntry_none hfound
          (reads_skip_type level' (by omega) _ v' hd hshort' b hb)
  | ps, .cons _ _ ps', .delete p d' dels, (v, x), hwf, hshort, hvalid, E, hE, bytes, h => by
    obtain ⟨hp, hd, hps⟩ := hwf
    have hps' : p.tag ∉ ps.tags := fun ht => hp (dels.tags_subset ht)
    have hcons := writeProperties_cons hlevel' (fun hi =>
      isSome_of_mem_validProperties hp (hvalid _ hi List.mem_cons_self)) h
    have ih := words_readEntry casts level level' hlevel hlevel' s included full dels x hps hshort.2
      (fun t hi ht => mem_validProperties_of_cons hp ht (hvalid t hi (List.mem_cons_of_mem _ ht)))
      E fun t ht => hE t (List.mem_cons_of_mem _ ht)
    rw [card_inter_cons hp]
    obtain ⟨hi, h⟩ | ⟨hi, v', b, bs, rfl, hb, hbs, rfl⟩ := hcons
    · rw [if_neg hi, Nat.zero_add]
      exact ih bytes h
    · obtain ⟨ws, rfl, hlength, hwords⟩ := ih bs hbs
      have hskip := reads_skip_type level' (by omega) d' v' hd (hshort.1 hi v' rfl) b hb
      have hfound : readProperty casts level included (BitVec.ofNat 32 p.tag) full
          (E (Instance.fresh ps)) = none := by
        rw [hE p.tag List.mem_cons_self, readProperty_of_notMem ps _ hps']
        rfl
      exact ⟨_ :: ws, rfl, by rw [if_pos hi, List.length_cons, hlength, add_comm],
        .cons (reads_readEntry_none hfound hskip) hwords⟩

end

/-! ## The round trip -/

/-- An instance of an older model, read with included properties. -/
theorem reads_readStruct {ps ps' : PropertyDescriptors} (dels : Deletions ps ps')
    (hwf : ps'.WellFormed) {x : Instance ps'} {s included : PropertySet}
    (hshort : dels.Short s included x) {bytes : List UInt8} (h : serialize ps' x s = .ok bytes) :
    Reads (readStruct casts 1 included ps (Instance.fresh ps)) bytes
      (Instance.restrict ps included (dels.project (Instance.restrict ps' s x))) := by
  obtain ⟨bs, hbs, h⟩ := bind_eq_ok h
  cases h
  obtain ⟨ws, rfl, hlength, hwords⟩ := words_readEntry casts 2 2 le_rfl le_rfl
    (s ∩ x.validProperties ps') included ps dels x hwf
    (.mono Finset.inter_subset_left dels x hshort)
    (fun t ht _ => (Finset.mem_inter.mp ht).2) id (by simp) bs hbs
  rw [Finset.inter_eq_left.mpr
    (Finset.inter_subset_right.trans (Instance.validProperties_subset ps' x))] at hlength
  have hall : Instance.restrict ps' (s ∩ x.validProperties ps') x = Instance.restrict ps' s x :=
    Instance.restrict_congr ps' x fun t ht => by simp [ht]
  rw [hall] at hwords
  rw [← hlength]
  exact reads_readEntries (length_lt_of_card hlength) hwords

theorem deserialize_eq {ps : PropertyDescriptors} {x y : Instance ps} {bytes rest : List UInt8}
    (h : Reads (readStruct casts 1 included ps x) bytes y) (hbytes : bytes ≠ []) :
    deserialize casts ps x included (bytes ++ rest) = .ok (y, bytes.length) := by
  rw [deserialize, if_neg fun h => hbytes (List.append_eq_nil_iff.mp h).1, h 0 rest]
  simp only [Nat.zero_add]
  rfl

theorem serialize_ne_nil {ps : PropertyDescriptors} {x : Instance ps} {s : PropertySet}
    {bytes : List UInt8} (h : serialize ps x s = .ok bytes) : bytes ≠ [] := by
  obtain ⟨bs, -, h⟩ := bind_eq_ok h
  cases h
  obtain ⟨a, w, hw, -⟩ := writeHead_initialByte (m := MajorType.map) (by decide)
    (BitVec.ofNat 64 (s ∩ x.validProperties ps).card)
  rw [writeMapSize, hw]
  exact List.cons_ne_nil _ _

/-- What was written is read back. -/
theorem deserialize_of_serialize (casts : FloatCasts) {ps : PropertyDescriptors}
    (hwf : ps.WellFormed) {x : Instance ps} {s : PropertySet} {bytes : List UInt8}
    (h : serialize ps x s = .ok bytes) (rest : List UInt8) :
    deserialize casts ps (Instance.fresh ps) Finset.univ (bytes ++ rest) =
      .ok (x.restrict ps s, bytes.length) := by
  have hread : Reads (readStruct casts 1 Finset.univ ps (Instance.fresh ps)) _ _ :=
    reads_readStruct (Deletions.refl ps) hwf (Deletions.short_refl ps s x) h
  rw [Deletions.project_refl, Instance.restrict_univ] at hread
  exact deserialize_eq hread (serialize_ne_nil h)

/-- **The round trip.** The bytes of an instance on a property set are read back into a fresh
instance, which has exactly the valid properties of the set with the same values; the bytes
that follow are left alone. -/
theorem deserialize_serialize (casts : FloatCasts) {ps : PropertyDescriptors}
    (hwf : ps.WellFormed) {x : Instance ps} (henum : x.Enumerated ps)
    (includedProperties : PropertySet) :
    ∃ bytes, serialize ps x includedProperties = .ok bytes ∧ ∀ rest,
      deserialize casts ps (Instance.fresh ps) Finset.univ (bytes ++ rest) =
        .ok (x.restrict ps includedProperties, bytes.length) := by
  obtain ⟨bytes, hwrite⟩ := exists_serialize (henum.restrict (s := includedProperties))
  exact ⟨bytes, hwrite, deserialize_of_serialize casts hwf hwrite⟩

/-- A text and a count. -/
def labelProperties : PropertyDescriptors :=
  .cons ⟨"text", 1, false⟩ (.fundamental .string)
    (.cons ⟨"count", 2, false⟩ (.fundamental .uint8) .nil)

/-- A key, an enum and a vector of structs. -/
def reportProperties : PropertyDescriptors :=
  .cons ⟨"id", 1, true⟩ (.fundamental .int16)
    (.cons ⟨"state", 5, false⟩ (.enumeration "State" [⟨1, "off", 0⟩, ⟨2, "on", 1⟩])
      (.cons ⟨"labels", 30, false⟩ (.vector (.struct labelProperties)) .nil))

def label (size : Fin 64) : Instance labelProperties :=
  (some ⟨List.replicate size 97, (List.length_replicate.trans_lt size.isLt).trans (by decide)⟩,
    some (7 : BitVec 8), ())

def report : Instance reportProperties :=
  (some (-300 : BitVec 16), some (1 : BitVec 32), some ⟨[label 3, label 23], by decide⟩, ())

theorem labelProperties_wellFormed : labelProperties.WellFormed :=
  ⟨by decide, trivial, by decide, trivial, trivial⟩

theorem reportProperties_wellFormed : reportProperties.WellFormed :=
  ⟨by decide, trivial, by decide, ⟨by decide, by decide⟩, by decide, labelProperties_wellFormed,
    trivial⟩

theorem report_enumerated : report.Enumerated reportProperties := by
  have hlabel (size : Fin 64) : (label size).Enumerated labelProperties :=
    ⟨fun _ _ => trivial, fun _ _ => trivial, trivial⟩
  refine ⟨fun _ _ => trivial, ?_, ?_, trivial⟩
  · rintro _ ⟨⟩
    exact ⟨⟨2, "on", 1⟩, by decide, rfl⟩
  · rintro _ ⟨⟩ v hv
    obtain rfl | rfl : v = label 3 ∨ v = label 23 := by
      cases hv with
      | head => exact .inl rfl
      | tail _ hv =>
        cases hv with
        | head => exact .inr rfl
        | tail _ hv => cases hv
    · exact hlabel 3
    · exact hlabel 23

def noCasts : FloatCasts := ⟨fun _ => 0, fun _ => 0, fun _ => 0⟩

theorem deserialize_serialize_report :
    ∃ bytes, serialize reportProperties report {1, 30} = .ok bytes ∧ ∀ rest,
      deserialize noCasts reportProperties (Instance.fresh _) Finset.univ (bytes ++ rest) =
        .ok (report.restrict reportProperties {1, 30}, bytes.length) :=
  deserialize_serialize noCasts reportProperties_wellFormed report_enumerated {1, 30}

/-! ## Older models -/

/-- Of the fundamental values those are skipped exactly that are short. -/
theorem skip_writeFundamental_iff (t : FundamentalType) (v : t.Value) :
    (∀ o rest, skip.run ⟨o, writeFundamental t v ++ rest⟩ =
      .ok ((), ⟨o + (writeFundamental t v).length, rest⟩)) ↔ t.Short v := by
  constructor
  · intro h
    cases t with
    | string =>
      by_contra hlong
      have hlong : ¬v.1.length < 24 := hlong
      have hrun := h 0 []
      rw [List.append_nil, skip_eq] at hrun
      have hout : (skipItem skip).run ⟨0, writeFundamental .string v⟩ = _ :=
        run_skipItem_long (by decide) (not_lt.mp hlong) v.2 0
      rw [hout] at hrun
      cases hrun
    | _ => trivial
  · intro h
    rw [skip_eq]
    exact reads_skipItem_writeFundamental t v h

/-- **Older models.** What a model with deleted properties has of an instance, and includes, is
read exactly if the values that it skips are short; `skip` passes every short value exactly, and
of the fundamental values only the short ones. -/
theorem deserialize_of_short (casts : FloatCasts) :
    (∀ (ps ps' : PropertyDescriptors) (dels : Deletions ps ps'),
      ps'.WellFormed → ∀ (x : Instance ps') (s included : PropertySet), dels.Short s included x →
      ∀ bytes, serialize ps' x s = .ok bytes → ∀ rest,
        deserialize casts ps (Instance.fresh ps) included (bytes ++ rest) =
          .ok (Instance.restrict ps included (dels.project (x.restrict ps' s)), bytes.length)) ∧
    (∀ (d : TypeDescriptor), d.WellFormed → ∀ v : Value d, v.Short d → ∀ bytes,
      writeType 1 d v = .ok bytes → ∀ o rest,
        skip.run ⟨o, bytes ++ rest⟩ = .ok ((), ⟨o + bytes.length, rest⟩)) ∧
    ∀ (t : FundamentalType) (v : t.Value),
      (∀ o rest, skip.run ⟨o, writeFundamental t v ++ rest⟩ =
        .ok ((), ⟨o + (writeFundamental t v).length, rest⟩)) ↔ t.Short v := by
  refine ⟨?_, ?_, skip_writeFundamental_iff⟩
  · intro ps ps' dels hwf x s included hshort bytes h rest
    exact deserialize_eq (reads_readStruct dels hwf hshort h) (serialize_ne_nil h)
  · intro d hwf v hshort bytes h
    exact reads_skip_type 1 le_rfl d v hwf hshort bytes h

/-- A count without a text. -/
def countProperties : PropertyDescriptors :=
  .cons ⟨"count", 2, false⟩ (.fundamental .uint8) .nil

def countDeletions : Deletions countProperties labelProperties :=
  .delete _ _ (Deletions.refl countProperties)

theorem label_short : countDeletions.Short Finset.univ Finset.univ (label 23) := by
  refine ⟨fun _ => ?_, Deletions.short_refl countProperties _ _⟩
  rintro _ ⟨⟩
  show (List.replicate 23 (97 : UInt8)).length < 24
  decide

theorem deserialize_of_short_label :
    (∃ bytes, serialize labelProperties (label 23) Finset.univ = .ok bytes ∧
      deserialize noCasts countProperties (Instance.fresh _) Finset.univ (bytes ++ [255]) =
        .ok ((some (7 : BitVec 8), ()), bytes.length)) ∧
    skip.run ⟨0, [1, 255]⟩ = .ok ((), ⟨1, [255]⟩) ∧
    (∀ o rest, skip.run ⟨o, writeFundamental .string ⟨[97], by decide⟩ ++ rest⟩ =
      .ok ((), ⟨o + (writeFundamental .string ⟨[97], by decide⟩).length, rest⟩)) :=
  ⟨⟨_, rfl, (deserialize_of_short noCasts).1 _ _ countDeletions labelProperties_wellFormed (label 23)
      Finset.univ Finset.univ label_short _ rfl [255]⟩,
    (deserialize_of_short noCasts).2.1 (.fundamental .uint8) trivial (1 : BitVec 8) trivial [1] rfl 0 [255],
    ((deserialize_of_short noCasts).2.2 .string ⟨[97], by decide⟩).mpr (by
      show [(97 : UInt8)].length < 24
      decide)⟩

/-- **A text of 24 bytes** is not skipped exactly: its size is in a byte of its own, which is
consumed twice. -/
theorem deserialize_of_long :
    ∃ bytes, serialize labelProperties (label 24) Finset.univ = .ok bytes ∧
      deserialize noCasts countProperties (Instance.fresh _) Finset.univ bytes =
        .error (.thrown .outOfData) :=
  ⟨_, rfl, rfl⟩

end CborSerializer

end Dots

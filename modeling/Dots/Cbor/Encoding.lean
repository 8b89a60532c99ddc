import Dots.Cbor.Serializer
import Dots.Cbor.Skip

/-!
# What the writer writes

* `exists_writeType`, `exists_writeProperties`: values whose enum values have enumerators are
  written without an exception.
* `writeProperties_cons`: the entry of a property, and the entries of the others.
* `Value.Short`: no string of 24 bytes, no vector of 24 elements and no struct with 24 valid
  properties at any level.
* **`reads_skip_type`**: a short value is skipped exactly.
-/

set_option autoImplicit false

namespace Dots

open CborFormat CborWriter CborReader Parse

theorem bind_eq_ok {ε α β : Type} {x : Except ε α} {f : α → Except ε β} {b : β}
    (h : (x >>= f) = .ok b) : ∃ a, x = .ok a ∧ f a = .ok b := by
  cases x with
  | error e => cases h
  | ok a => exact ⟨a, rfl, h⟩

theorem forall₂_of_mapM {ε α β : Type} {f : α → Except ε β} {as : List α} :
    ∀ {bs : List β}, as.mapM f = .ok bs → List.Forall₂ (fun a b => f a = .ok b) as bs := by
  induction as with
  | nil =>
    intro bs h
    cases h
    exact .nil
  | cons a as ih =>
    intro bs h
    rw [List.mapM_cons] at h
    obtain ⟨b, hb, h⟩ := bind_eq_ok h
    obtain ⟨bs', hbs, h⟩ := bind_eq_ok h
    cases h
    exact .cons hb (ih hbs)

theorem exists_of_mem_right {α β : Type} {R : α → β → Prop} {as : List α} {bs : List β}
    (h : List.Forall₂ R as bs) {b : β} (hb : b ∈ bs) : ∃ a ∈ as, R a b := by
  induction h with
  | nil => cases hb
  | @cons a b' as bs hab _ ih =>
    cases hb with
    | head => exact ⟨a, List.mem_cons_self, hab⟩
    | tail _ hb =>
      obtain ⟨a', ha', hab'⟩ := ih hb
      exact ⟨a', List.mem_cons_of_mem _ ha', hab'⟩

theorem exists_mapM {ε α β : Type} {f : α → Except ε β} {as : List α}
    (h : ∀ a ∈ as, ∃ b, f a = .ok b) : ∃ bs, as.mapM f = .ok bs := by
  induction as with
  | nil => exact ⟨[], rfl⟩
  | cons a as ih =>
    obtain ⟨b, hb⟩ := h a List.mem_cons_self
    obtain ⟨bs, hbs⟩ := ih fun a' ha' => h a' (List.mem_cons_of_mem _ ha')
    exact ⟨b :: bs, by rw [List.mapM_cons, hb, hbs]; rfl⟩

/-- Sizes below 24 are written in the initial byte. -/
def FundamentalType.Short : (t : FundamentalType) → t.Value → Prop
  | .string, v => v.1.length < 24
  | _, _ => True

mutual

/-- No string of 24 bytes, no vector of 24 elements, no struct with 24 valid properties. -/
def Value.Short : (d : TypeDescriptor) → Value d → Prop
  | .fundamental t, v => t.Short v
  | .enumeration _ _, _ => True
  | .vector d, vs => vs.1.length < 24 ∧ ∀ v ∈ vs.1, Value.Short d v
  | .struct ps, x => (x.validProperties ps).card < 24 ∧ Instance.Short ps x

def Instance.Short : (ps : PropertyDescriptors) → Instance ps → Prop
  | .nil, _ => True
  | .cons _ d ps, (v, x) => (∀ v' ∈ v, Value.Short d v') ∧ Instance.Short ps x

end

namespace CborSerializer

theorem enumeratorFromValue_eq_ok {name : String} {es : List EnumeratorDescriptor}
    {v : BitVec 32} {e : EnumeratorDescriptor} (h : enumeratorFromValue name es v = .ok e) :
    e ∈ es ∧ e.value = v := by
  unfold enumeratorFromValue at h
  cases hfind : es.find? fun e => e.value = v with
  | none => rw [hfind] at h; cases h
  | some e' =>
    rw [hfind] at h
    cases h
    exact ⟨List.mem_of_find?_eq_some hfind, by simpa using List.find?_some hfind⟩

theorem exists_enumeratorFromValue {name : String} {es : List EnumeratorDescriptor}
    {v : BitVec 32} (h : ∃ e ∈ es, e.value = v) : ∃ e, enumeratorFromValue name es v = .ok e := by
  obtain ⟨e, he, hev⟩ := h
  unfold enumeratorFromValue
  cases hfind : es.find? fun e => e.value = v with
  | none => exact absurd (decide_eq_true hev) (List.find?_eq_none.mp hfind e he)
  | some e' => exact ⟨e', rfl⟩

mutual

theorem exists_writeType (level : ℕ) : (d : TypeDescriptor) → (v : Value d) →
    Value.Enumerated d v → ∃ bytes, writeType level d v = .ok bytes
  | .fundamental t, v, _ => ⟨writeFundamental t v, rfl⟩
  | .enumeration name es, v, h => by
    obtain ⟨e, he⟩ : ∃ e, enumeratorFromValue name es v = .ok e := exists_enumeratorFromValue h
    exact ⟨writeUnsigned e.tag, by simp only [writeType, writeEnum, he]; rfl⟩
  | .vector d, vs, h => by
    obtain ⟨bs, hbs⟩ := exists_mapM fun v hv => exists_writeType (level + 1) d v (h v hv)
    exact ⟨writeArraySize vs.1.length ++ bs.flatten, by rw [writeType, hbs]; rfl⟩
  | .struct ps, x, h => by
    have hx : Instance.Enumerated ps x := h
    obtain ⟨bs, hbs⟩ := exists_writeProperties (level + 1)
      (x.validProperties ps ∩ x.validProperties ps) ps x hx.restrict
    exact ⟨_, by rw [writeType, hbs]; rfl⟩

theorem exists_writeProperties (level : ℕ) (included : PropertySet) :
    (ps : PropertyDescriptors) → (x : Instance ps) →
      Instance.Enumerated ps (Instance.restrict ps included x) →
      ∃ bytes, writeProperties level included ps x = .ok bytes
  | .nil, _, _ => ⟨[], rfl⟩
  | .cons p d ps, (v, x), h => by
    obtain ⟨bs, hbs⟩ := exists_writeProperties level included ps x h.2
    simp only [writeProperties, hbs]
    split_ifs with hp
    · have hv := h.1
      rw [if_pos (PropertyDescriptor.set_subset_iff.mp hp)] at hv
      cases v with
      | none => exact ⟨_, rfl⟩
      | some v =>
        obtain ⟨b, hb⟩ := exists_writeType level d v (hv v rfl)
        exact ⟨_, by dsimp only; rw [hb]; rfl⟩
    · exact ⟨bs, rfl⟩

end

/-- An instance is written if the enum values of the included properties have enumerators. -/
theorem exists_serialize {ps : PropertyDescriptors} {x : Instance ps} {included : PropertySet}
    (h : Instance.Enumerated ps (Instance.restrict ps included x)) :
    ∃ bytes, serialize ps x included = .ok bytes := by
  have hvalid : Instance.restrict ps (included ∩ x.validProperties ps) x =
      Instance.restrict ps included x := Instance.restrict_congr ps x fun t ht => by simp [ht]
  obtain ⟨bs, hbs⟩ := exists_writeProperties 2 (included ∩ x.validProperties ps) ps x
    (by rw [hvalid]; exact h)
  exact ⟨writeMapSize (included ∩ x.validProperties ps).card ++ bs, by
    rw [serialize, writeStruct]
    simp only [hbs]
    rfl⟩

variable {level : ℕ} {included : PropertySet} {p : PropertyDescriptor} {d : TypeDescriptor}
  {ps : PropertyDescriptors} {v : Option (Value d)} {x : Instance ps} {bytes : List UInt8}

/-- A property that is included and valid has an entry, its tag and its value; the entries of the
other properties follow. -/
theorem writeProperties_cons (hlevel : 2 ≤ level) (hvalid : p.tag ∈ included → v.isSome)
    (h : writeProperties level included (.cons p d ps) (v, x) = .ok bytes) :
    (p.tag ∉ included ∧ writeProperties level included ps x = .ok bytes) ∨
      (p.tag ∈ included ∧ ∃ v' b bs, v = some v' ∧ writeType level d v' = .ok b ∧
        writeProperties level included ps x = .ok bs ∧
        bytes = (writeUnsigned (BitVec.ofNat 32 p.tag) ++ b) ++ bs) := by
  by_cases hp : p.tag ∈ included
  · right
    obtain ⟨v', rfl⟩ := Option.isSome_iff_exists.mp (hvalid hp)
    rw [writeProperties, if_pos (PropertyDescriptor.set_subset_iff.mpr hp)] at h
    obtain ⟨b, hb, h⟩ := bind_eq_ok h
    obtain ⟨bs, hbs, h⟩ := bind_eq_ok h
    have htag : writeTag level p = writeUnsigned (BitVec.ofNat 32 p.tag) :=
      if_pos (by unfold visitingLevel; split_ifs <;> omega)
    rw [htag] at h
    cases h
    exact ⟨hp, v', b, bs, rfl, hb, hbs, rfl⟩
  · left
    have hs : ¬p.set ⊆ included := fun hs => hp (PropertyDescriptor.set_subset_iff.mp hs)
    refine ⟨hp, ?_⟩
    cases v with
    | none => rwa [writeProperties, if_neg hs] at h
    | some v => rwa [writeProperties, if_neg hs] at h

/-! ## Skipping what was written -/

theorem reads_skipItem_writeFundamental {skip : Read Unit} (t : FundamentalType) (v : t.Value)
    (h : t.Short v) : Reads (skipItem skip) (writeFundamental t v) () := by
  have hunsigned {w : ℕ} (v : BitVec w) : Reads (skipItem skip) (writeUnsigned v) () :=
    reads_skipItem_head (by decide) _
  have hsigned {w : ℕ} (v : BitVec w) : Reads (skipItem skip) (writeSigned v) () := by
    unfold writeSigned
    split_ifs
    · exact reads_skipItem_head (by decide) _
    · exact reads_skipItem_head (by decide) _
  have hfloat64 (v : BitVec 64) : Reads (skipItem skip) (writeFloat64 v) () :=
    reads_skipItem_float (s := 3) le_rfl v.toNat
  cases t with
  | boolean =>
    cases v with
    | false => exact reads_skipItem_head (m := MajorType.simpleOrFloat) (by decide) 20
    | true => exact reads_skipItem_head (m := MajorType.simpleOrFloat) (by decide) 21
  | int8 | int16 | int32 | int64 => exact hsigned _
  | uint8 | uint16 | uint32 | uint64 | propertySet => exact hunsigned _
  | float32 => exact reads_skipItem_float (s := 2) (by omega) (BitVec.toNat v)
  | float64 | timepoint | steadyTimepoint | duration => exact hfloat64 v
  | uuid =>
    have hlength : v.1.length = 16 := v.2
    exact reads_skipItem_string (by decide) (by omega)
  | string => exact reads_skipItem_string (by decide) h

/-- The properties of an instance that are among the others of a list. -/
theorem mem_validProperties_of_cons (hp : p.tag ∉ ps.tags) {t : Tag} (ht : t ∈ ps.tags)
    (h : t ∈ Instance.validProperties (.cons p d ps) (v, x)) : t ∈ x.validProperties ps := by
  rw [Instance.validProperties, Finset.mem_union] at h
  refine h.resolve_left fun h => hp ?_
  split_ifs at h
  · rwa [← Finset.mem_singleton.mp h]
  · cases h

theorem isSome_of_mem_validProperties (hp : p.tag ∉ ps.tags)
    (h : p.tag ∈ Instance.validProperties (.cons p d ps) (v, x)) : v.isSome := by
  rw [Instance.validProperties, Finset.mem_union] at h
  by_contra hv
  rw [if_neg hv] at h
  have htags := Instance.validProperties_subset ps x (h.resolve_left (Finset.notMem_empty _))
  exact hp (List.mem_toFinset.mp htags)

/-- One more entry if the first property is included. -/
theorem card_inter_cons (hp : p.tag ∉ ps.tags) :
    (included ∩ (PropertyDescriptors.cons p d ps).tags.toFinset).card =
      (if p.tag ∈ included then 1 else 0) + (included ∩ ps.tags.toFinset).card := by
  rw [PropertyDescriptors.tags, List.toFinset_cons]
  split_ifs with h
  · rw [Finset.inter_insert_of_mem h, Finset.card_insert_of_notMem (by simp [hp]), add_comm]
  · rw [Finset.inter_insert_of_notMem h, Nat.zero_add]

theorem reads_skip_tag (tag : BitVec 32) : Reads skip (writeUnsigned tag) () := by
  rw [skip_eq]
  exact reads_skipItem_head (by decide) _

mutual

/-- **A short value is skipped exactly.** -/
theorem reads_skip_type (level : ℕ) (hlevel : 1 ≤ level) : (d : TypeDescriptor) →
    (v : Value d) → d.WellFormed → Value.Short d v → (bytes : List UInt8) →
    writeType level d v = .ok bytes → Reads skip bytes ()
  | .fundamental t, v, _, hshort, bytes, h => by
    rw [writeType] at h
    cases h
    rw [skip_eq]
    exact reads_skipItem_writeFundamental t v hshort
  | .enumeration name es, v, _, _, bytes, h => by
    rw [writeType] at h
    obtain ⟨e, -, h⟩ := bind_eq_ok h
    cases h
    exact reads_skip_tag e.tag
  | .vector d, vs, hwf, hshort, bytes, h => by
    rw [writeType] at h
    obtain ⟨items, hitems, h⟩ := bind_eq_ok h
    cases h
    have hall := forall₂_of_mapM hitems
    rw [hall.length_eq, skip_eq]
    refine reads_skipItem_array (fun item hitem => ?_) (hall.length_eq ▸ hshort.1)
    obtain ⟨v, hv, hb⟩ := exists_of_mem_right hall hitem
    exact reads_skip_type (level + 1) (by omega) d v hwf (hshort.2 v hv) item hb
  | .struct ps, x, hwf, hshort, bytes, h => by
    rw [writeType, Finset.inter_self] at h
    obtain ⟨bs, hbs, h⟩ := bind_eq_ok h
    cases h
    obtain ⟨ws, rfl, hlength, hskip⟩ := reads_skip_properties (level + 1) (by omega)
      (x.validProperties ps) ps x hwf hshort.2 (fun t ht _ => ht) bs hbs
    rw [Finset.inter_eq_left.mpr (Instance.validProperties_subset ps x)] at hlength
    rw [← hlength, skip_eq]
    exact reads_skipItem_map hskip (hlength ▸ hshort.1)

theorem reads_skip_properties (level : ℕ) (hlevel : 2 ≤ level) (included : PropertySet) :
    (ps : PropertyDescriptors) → (x : Instance ps) → ps.WellFormed → Instance.Short ps x →
    (∀ t ∈ included, t ∈ ps.tags → t ∈ x.validProperties ps) → (bytes : List UInt8) →
    writeProperties level included ps x = .ok bytes →
    ∃ ws : List (List UInt8), bytes = ws.flatten ∧
      ws.length = (included ∩ ps.tags.toFinset).card ∧ ∀ w ∈ ws, Reads (do skip; skip) w ()
  | .nil, x, _, _, _, bytes, h => by
    cases h
    exact ⟨[], rfl, by simp [PropertyDescriptors.tags], by simp⟩
  | .cons p d ps, (v, x), hwf, hshort, hvalid, bytes, h => by
    obtain ⟨hp, hd, hps⟩ := hwf
    have hcons := writeProperties_cons hlevel (fun hi =>
      isSome_of_mem_validProperties hp (hvalid _ hi List.mem_cons_self)) h
    have ih := reads_skip_properties level hlevel included ps x hps hshort.2 fun t hi ht =>
      mem_validProperties_of_cons hp ht (hvalid t hi (List.mem_cons_of_mem _ ht))
    rw [card_inter_cons hp]
    obtain ⟨hi, h⟩ | ⟨hi, v', b, bs, rfl, hb, hbs, rfl⟩ := hcons
    · rw [if_neg hi, Nat.zero_add]
      exact ih bytes h
    · obtain ⟨ws, rfl, hlength, hskip⟩ := ih bs hbs
      refine ⟨(writeUnsigned (BitVec.ofNat 32 p.tag) ++ b) :: ws, rfl, ?_, fun w hw => ?_⟩
      · rw [if_pos hi, List.length_cons, hlength, add_comm]
      · cases hw with
        | head =>
          exact (reads_skip_tag _).bind (reads_skip_type level (by omega) d v' hd
            (hshort.1 v' rfl) b hb)
        | tail _ hw => exact hskip w hw

end

end CborSerializer

end Dots

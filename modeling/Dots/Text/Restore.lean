import Dots.Text.Overlay
import Dots.Type.Agreement

/-!
# What a text restores

The texts of both formats over an instance that has values already, and into a fresh one.

* `RestoredBy`: the conversions of other libraries invert the texts of a value.
* `LegibleValue`, `LegibleInstance`: no part of the text is refused by the reader's policy or taken
  for something else.
* `Over`: elements are put behind those that are there, properties among those that are there.
* **`overlay_eq_some_iff`**, **`overMembers_eq_some_iff`**: what is read over a value.
* **`skips_unknown`**: members of other types change neither the instance nor where it ends.
* **`deserialize_over_iff`**: when the properties of an instance are replaced by those of a text.
* **`deserialize_fresh_iff`**: when a text is read back.
-/

set_option autoImplicit false

namespace Dots

open Parse TextReader Json

/-! ## Values -/

mutual

/-- The conversions of other libraries invert the texts of a value. -/
def Value.RestoredBy (s : TextSerializer) : (d : TypeDescriptor) → Value d → Prop
  | .fundamental t, v => s.readBack t v = some v
  | .enumeration _ _, _ => True
  | .vector d, vs => ∀ v ∈ vs.1, Value.RestoredBy s d v
  | .struct ps, x => Instance.RestoredBy s ps x

def Instance.RestoredBy (s : TextSerializer) : (ps : PropertyDescriptors) → Instance ps → Prop
  | .nil, _ => True
  | .cons _ d ps, (v, x) => (∀ v' ∈ v, Value.RestoredBy s d v') ∧ Instance.RestoredBy s ps x

end

/-- What a property becomes over another one; one without a value makes it invalid. -/
def Property.Over {d : TypeDescriptor} (becomes : Value d → Value d → Value d → Prop) :
    Option (Value d) → Option (Value d) → Option (Value d) → Prop
  | some v, w, some z => becomes v (w.getD (Value.fresh d)) z
  | none, _, z => z = none
  | some _, _, none => False

/-- A property in place of which another one can be read. -/
def Property.Bare {d : TypeDescriptor} (bare : Value d → Value d → Prop) :
    Option (Value d) → Option (Value d) → Prop
  | some v, w => bare v (w.getD (Value.fresh d))
  | none, w => w = none

mutual

/-- What a value becomes over another one. Elements are put behind those that are there, and the
properties of a struct among those that are there. -/
def Value.Over : (d : TypeDescriptor) → Value d → Value d → Value d → Prop
  | .fundamental _, v, _, z => z = v
  | .enumeration _ _, v, _, z => z = v
  | .vector _, vs, ws, zs => zs.1 = ws.1 ++ vs.1
  | .struct ps, x, y, z => Instance.Over (x.validProperties ps) ps x y z

def Instance.Over (included : PropertySet) :
    (ps : PropertyDescriptors) → Instance ps → Instance ps → Instance ps → Prop
  | .nil, _, _, _ => True
  | .cons p d ps, (v, x), (w, y), (u, z) =>
    (if p.tag ∈ included then Property.Over (Value.Over d) v w u else u = w) ∧
      Instance.Over included ps x y z

end

mutual

/-- A value in place of which another one can be read: there are no elements, and no properties but
those of the other one. -/
def Value.Bare : (d : TypeDescriptor) → Value d → Value d → Prop
  | .fundamental _, _, _ => True
  | .enumeration _ _, _, _ => True
  | .vector _, _, ws => ws.1 = []
  | .struct ps, x, y => Instance.Bare ps x y

def Instance.Bare : (ps : PropertyDescriptors) → Instance ps → Instance ps → Prop
  | .nil, _, _ => True
  | .cons _ d ps, (v, x), (w, y) =>
    Property.Bare (Value.Bare d) v w ∧ Instance.Bare ps x y

end

/-- All included properties can be read in place of those that are there. -/
def Instance.BareOn (included : PropertySet) :
    (ps : PropertyDescriptors) → Instance ps → Instance ps → Prop
  | .nil, _, _ => True
  | .cons p d ps, (v, x), (w, y) =>
    (p.tag ∈ included → ∀ v' ∈ v, Value.Bare d v' (w.getD (Value.fresh d))) ∧
      Instance.BareOn included ps x y

mutual

/-- Over a fresh value a value stays as it is. -/
theorem Value.over_fresh : (d : TypeDescriptor) → (v z : Value d) →
    (Value.Over d v (Value.fresh d) z ↔ z = v)
  | .fundamental _, _, _ => Iff.rfl
  | .enumeration _ _, _, _ => Iff.rfl
  | .vector _, _, _ => Subtype.ext_iff.symm
  | .struct ps, x, z => by
    have hrestrict : Instance.restrict ps (Instance.validProperties ps x) x = x :=
      Instance.restrict_validProperties ps x
    have hover := Instance.over_fresh (Instance.validProperties ps x) ps x z
    rwa [hrestrict] at hover

theorem Instance.over_fresh (included : PropertySet) : (ps : PropertyDescriptors) →
    (x z : Instance ps) →
    (Instance.Over included ps x (Instance.fresh ps) z ↔ z = Instance.restrict ps included x)
  | .nil, _, _ => ⟨fun _ => rfl, fun _ => trivial⟩
  | .cons p d ps, (v, x), (u, z) => by
    have ih := Instance.over_fresh included ps x z
    have hproperty : (if p.tag ∈ included then Property.Over (Value.Over d) v none u else u = none) ↔
        u = if p.tag ∈ included then v else none := by
      split_ifs
      · cases v with
        | none => exact Iff.rfl
        | some v =>
          cases u with
          | none => exact ⟨False.elim, fun h => by cases h⟩
          | some u => exact (Value.over_fresh d v u).trans Option.some_inj.symm
      · exact Iff.rfl
    exact (and_congr hproperty ih).trans Prod.mk_inj.symm

end

mutual

/-- Over a bare value, and over no other, a value stays as it is. -/
theorem Value.over_self_iff : (d : TypeDescriptor) → d.DistinctTags → (v w : Value d) →
    (Value.Over d v w v ↔ Value.Bare d v w)
  | .fundamental _, _, _, _ => ⟨fun _ => trivial, fun _ => rfl⟩
  | .enumeration _ _, _, _, _ => ⟨fun _ => trivial, fun _ => rfl⟩
  | .vector _, _, _, _ => List.self_eq_append_left
  | .struct ps, h, x, y => Instance.over_self_iff ps h x y fun _ _ => Iff.rfl

theorem Instance.over_self_iff : (ps : PropertyDescriptors) → ps.DistinctTags → (x y : Instance ps) →
    {included : PropertySet} → (∀ t ∈ ps.tags, t ∈ included ↔ t ∈ x.validProperties ps) →
    (Instance.Over included ps x y x ↔ Instance.Bare ps x y)
  | .nil, _, _, _, _, _ => Iff.rfl
  | .cons p d ps, ⟨hp, hd, hps⟩, (v, x), (w, y), included, hincluded => by
    have ih : Instance.Over included ps x y x ↔ Instance.Bare ps x y :=
      Instance.over_self_iff ps hps x y fun t ht => by
        rw [hincluded t (List.mem_cons_of_mem _ ht), Instance.mem_validProperties_tail hp ht]
    have hmem : p.tag ∈ included ↔ v.isSome = true := by
      rw [hincluded p.tag List.mem_cons_self, Instance.tag_mem_validProperties hp]
    have hproperty : (if p.tag ∈ included then Property.Over (Value.Over d) v w v else v = w) ↔
        Property.Bare (Value.Bare d) v w := by
      cases v with
      | none =>
        rw [if_neg fun h => by simpa using hmem.mp h]
        exact eq_comm
      | some v =>
        rw [if_pos (hmem.mpr rfl)]
        exact Value.over_self_iff d hd v _
    exact and_congr hproperty ih

end

/-- The included properties are replaced exactly if they can be read in place of those that are
there. -/
theorem Instance.over_copy_iff (included : PropertySet) : (ps : PropertyDescriptors) →
    ps.DistinctTags → (x y : Instance ps) →
    (Instance.Over included ps x y (StaticStruct.copy included ps y x) ↔
      Instance.BareOn included ps x y)
  | .nil, _, _, _ => Iff.rfl
  | .cons p d ps, ⟨_, hd, hps⟩, (v, x), (w, y) => by
    have ih := Instance.over_copy_iff included ps hps x y
    have hproperty : (if p.tag ∈ included then Property.Over (Value.Over d) v w
          (if p.set ⊆ included then StaticStruct.assignProperty w v else w)
        else (if p.set ⊆ included then StaticStruct.assignProperty w v else w) = w) ↔
          (p.tag ∈ included → ∀ v' ∈ v, Value.Bare d v' (w.getD (Value.fresh d))) := by
      rw [StaticStruct.assignProperty_eq]
      simp only [PropertyDescriptor.set_subset_iff]
      split_ifs with hp
      · cases v with
        | none => exact ⟨fun _ _ _ hv' => (by cases hv'), fun _ => rfl⟩
        | some v =>
          exact (Value.over_self_iff d hd v _).trans
            ⟨fun h _ _ hv' => Option.some.inj hv' ▸ h, fun h => h hp v rfl⟩
      · exact ⟨fun _ h => absurd h hp, fun _ => rfl⟩
    exact and_congr hproperty ih

namespace TextSerializer

/-! ## Legible texts -/

section Legible

variable (s : TextSerializer) (options : TextOptions)

mutual

/-- The reader refuses no part of the text of a value, and takes none for something else. -/
def LegibleValue : (d : TypeDescriptor) → Value d → Prop
  | .fundamental t, _ => s.LegibleFundamental options t
  | .enumeration name es, v =>
    ∃ e, enumeratorFromValue name es v = .ok e ∧ s.LegibleEnumerator options name e
  | .vector d, vs => (s.Splits options d → vs.1 = []) ∧ ∀ v ∈ vs.1, LegibleValue d v
  | .struct ps, x => s.LegibleObject options false ∧ LegibleMembers (x.validProperties ps) ps x

def LegibleMembers (included : PropertySet) : (ps : PropertyDescriptors) → Instance ps → Prop
  | .nil, _ => True
  | .cons p d ps, (v, x) =>
    (p.tag ∈ included → ∀ v' ∈ v, LegibleValue d v') ∧ LegibleMembers included ps x

end

/-- The same of an instance in no array or object. -/
def LegibleInstance (included : PropertySet) (ps : PropertyDescriptors) (x : Instance ps) : Prop :=
  s.LegibleObject options true ∧ s.LegibleMembers options included ps x

end Legible

/-! ## Reading over a value -/

variable {s : TextSerializer} {options : TextOptions} {d : TypeDescriptor}

/-- An element is read into a fresh one behind the others. -/
theorem pushed_eq_some_iff (read : Value d → Option (Value d))
    (ws zs : {vs : List (Value d) // vs.length < sizeLimit}) :
    pushed staticResize read ws = some zs ↔
      ∃ v, read (Value.fresh d) = some v ∧ zs.1 = ws.1 ++ [v] := by
  have hlength : (ws.1 ++ [Value.fresh d]).length = ws.1.length + 1 := by
    rw [List.length_append, List.length_singleton]
  have hlast : (ws.1 ++ [Value.fresh d]).getLastD (Value.fresh d) = Value.fresh d := by simp
  have hset (v : Value d) : (ws.1 ++ [Value.fresh d]).set (ws.1.length + 1 - 1) v = ws.1 ++ [v] := by
    simp
  unfold pushed
  simp only [staticResize_succ, hlength, hlast, hset]
  split_ifs with hlimit
  · rw [Option.map_eq_some_iff]
    exact exists_congr fun v => and_congr_right fun _ => (eq_comm.trans Subtype.ext_iff)
  · refine ⟨fun h => (by cases h), fun ⟨v, _, hzs⟩ => absurd zs.2 ?_⟩
    rw [hzs, List.length_append, List.length_singleton]
    exact hlimit

/-- Elements are read one behind the other. -/
theorem foldlM_pushed_eq_some_iff {read : Value d → Value d → Option (Value d)}
    {legible : Value d → Prop} (vs : List (Value d))
    (h : ∀ v ∈ vs, ∀ z, read v (Value.fresh d) = some z ↔ legible v ∧ z = v) :
    ∀ ws zs : {vs : List (Value d) // vs.length < sizeLimit},
      (vs.map fun v => pushed staticResize (read v)).foldlM (fun ws f => f ws) ws = some zs ↔
        (∀ v ∈ vs, legible v) ∧ zs.1 = ws.1 ++ vs := by
  induction vs with
  | nil =>
    intro ws zs
    rw [List.append_nil, List.map_nil, List.foldlM_nil]
    refine ⟨fun h => ⟨fun _ hv => absurd hv List.not_mem_nil, ?_⟩,
      fun h => congrArg some (Subtype.ext h.2.symm)⟩
    exact congrArg Subtype.val (Option.some.inj h).symm
  | cons v vs ih =>
    intro ws zs
    have ih := ih fun v' hv' => h v' (List.mem_cons_of_mem _ hv')
    rw [List.map_cons, List.foldlM_cons]
    constructor
    · intro hread
      obtain ⟨ws', hpushed, hrest⟩ := Option.bind_eq_some_iff.mp hread
      obtain ⟨z, hz, hws'⟩ := (pushed_eq_some_iff (read v) ws ws').mp hpushed
      obtain ⟨hv, rfl⟩ := (h v List.mem_cons_self z).mp hz
      obtain ⟨hvs, hzs⟩ := (ih ws' zs).mp hrest
      refine ⟨fun v' hv' => ?_, by rw [hzs, hws', List.append_assoc, List.singleton_append]⟩
      rcases List.mem_cons.mp hv' with rfl | hv'
      · exact hv
      · exact hvs v' hv'
    · rintro ⟨hlegible, hzs⟩
      have hzs' : zs.1 = (ws.1 ++ [v]) ++ vs := by
        rw [hzs, List.append_assoc, List.singleton_append]
      have hlimit : (ws.1 ++ [v]).length < sizeLimit := by
        have hlength := zs.2
        rw [hzs', List.length_append] at hlength
        omega
      have hpushed : pushed staticResize (read v) ws = some ⟨ws.1 ++ [v], hlimit⟩ :=
        (pushed_eq_some_iff (read v) ws _).mpr
          ⟨v, (h v List.mem_cons_self v).mpr ⟨hlegible v List.mem_cons_self, rfl⟩, rfl⟩
      refine Option.bind_eq_some_iff.mpr ⟨_, hpushed, (ih _ zs).mpr ⟨fun v' hv' => ?_, hzs'⟩⟩
      exact hlegible v' (List.mem_cons_of_mem _ hv')

theorem some_iff_of_eq {α : Type} {o : Option α} {v z : α} (h : o = some v) :
    o = some z ↔ z = v := by
  rw [h, Option.some_inj]
  exact eq_comm

mutual

/-- **What is read over a value** from its text. -/
theorem overlay_eq_some_iff : (d : TypeDescriptor) → (v w z : Value d) → v.RestoredBy s d →
    (s.overlay options staticResize d v w = some z ↔
      s.LegibleValue options d v ∧ Value.Over d v w z)
  | .fundamental t, v, w, z, h =>
    Option.ite_none_right_eq_some.trans (and_congr_right fun _ => some_iff_of_eq h)
  | .enumeration name es, v, w, z, _ => by
    rw [overlay_enumeration, LegibleValue, Value.Over]
    cases he : enumeratorFromValue name es v with
    | error e => exact ⟨fun h => (by cases h), fun ⟨⟨_, hok, _⟩, _⟩ => (by cases hok)⟩
    | ok e =>
      have hlegible : (∃ e', (Except.ok e : Except Exception EnumeratorDescriptor) = .ok e' ∧
          s.LegibleEnumerator options name e') ↔ s.LegibleEnumerator options name e :=
        ⟨fun ⟨_, hok, h⟩ => Except.ok.inj hok ▸ h, fun h => ⟨e, rfl, h⟩⟩
      rw [hlegible]
      exact Option.ite_none_right_eq_some.trans (and_congr_right fun _ => some_iff_of_eq rfl)
  | .vector d, vs, ws, zs, h => by
    have hitems : ∀ v ∈ vs.1, ∀ z, s.overlay options staticResize d v (Value.fresh d) = some z ↔
        s.LegibleValue options d v ∧ z = v := fun v hv z =>
      (overlay_eq_some_iff d v (Value.fresh d) z (h v hv)).trans
        (and_congr_right fun _ => Value.over_fresh d v z)
    have hsplits : ¬(s.Splits options d ∧ vs.1 ≠ []) ↔ (s.Splits options d → vs.1 = []) := by
      rw [not_and, not_ne_iff]
    exact Option.ite_none_left_eq_some.trans ((and_congr hsplits
      (foldlM_pushed_eq_some_iff vs.1 hitems ws zs)).trans and_assoc.symm)
  | .struct ps, x, y, z, h =>
    Option.ite_none_right_eq_some.trans ((and_congr_right fun _ =>
      overMembers_eq_some_iff (Instance.validProperties ps x) ps x y z h).trans and_assoc.symm)

/-- **What is read over the members of an object.** -/
theorem overMembers_eq_some_iff (included : PropertySet) : (ps : PropertyDescriptors) →
    (x y z : Instance ps) → x.RestoredBy s ps →
    (s.overMembers options staticResize included ps x y = some z ↔
      s.LegibleMembers options included ps x ∧ Instance.Over included ps x y z)
  | .nil, _, _, _, _ => ⟨fun _ => ⟨trivial, trivial⟩, fun _ => rfl⟩
  | .cons p d ps, (v, x), (w, y), (u, z), ⟨hv, hx⟩ => by
    have ih := overMembers_eq_some_iff included ps x y z hx
    have hproperty : (if p.tag ∈ included then
          overValue (s.overlay options staticResize d) v w else some w) = some u ↔
        (p.tag ∈ included → ∀ v' ∈ v, s.LegibleValue options d v') ∧
          if p.tag ∈ included then Property.Over (Value.Over d) v w u else u = w := by
      split_ifs with hp
      · cases v with
        | none =>
          exact (some_iff_of_eq rfl).trans (and_iff_right fun _ _ hv' => (by cases hv')).symm
        | some v =>
          have hvalue (u : Value d) := overlay_eq_some_iff d v (w.getD (Value.fresh d)) u (hv v rfl)
          have hlegible : (p.tag ∈ included → ∀ v' ∈ some v, s.LegibleValue options d v') ↔
              s.LegibleValue options d v :=
            ⟨fun h => h hp v rfl, fun h _ _ hv' => Option.some.inj hv' ▸ h⟩
          rw [hlegible]
          refine Option.map_eq_some_iff.trans ?_
          cases u with
          | none => exact ⟨fun ⟨_, _, h⟩ => (by cases h), fun h => h.2.elim⟩
          | some u =>
            exact ⟨fun ⟨_, hu, h⟩ => (hvalue u).mp (Option.some.inj h ▸ hu),
              fun h => ⟨u, (hvalue u).mpr h, rfl⟩⟩
      · exact (some_iff_of_eq rfl).trans (and_iff_right fun h => absurd h hp).symm
    refine Iff.trans (b := (_ ∧ _) ∧ (_ ∧ _)) ?_ (and_and_and_comm)
    rw [← hproperty, ← ih]
    constructor
    · intro h
      obtain ⟨w', hw', h⟩ := Option.bind_eq_some_iff.mp h
      obtain ⟨z', hz', h⟩ := Option.bind_eq_some_iff.mp h
      cases h
      exact ⟨hw', hz'⟩
    · rintro ⟨hu, hz⟩
      exact Option.bind_eq_some_iff.mpr ⟨u, hu, Option.bind_eq_some_iff.mpr ⟨z, hz, rfl⟩⟩

end

mutual

/-- JSON texts are legible. -/
theorem legibleValue_json (hs : s.format = JsonFormat) : (d : TypeDescriptor) → (v : Value d) →
    v.Enumerated d → s.LegibleValue options d v
  | .fundamental t, v, _ => by
    refine ⟨legibleSuffix_of_not fun h => ?_, legibleSuffix_of_not fun h => ?_⟩
    · rw [hs] at h
      cases h.1
    · rw [hs] at h
      cases h.1
  | .enumeration name es, v, h => by
    obtain ⟨e, he⟩ : ∃ e, enumeratorFromValue name es v = .ok e :=
      CborSerializer.exists_enumeratorFromValue h
    refine ⟨e, he, fun _ => legibleSuffix_of_not fun h => ?_, fun h => ?_⟩
    · rw [hs] at h
      cases h.1
    · rw [hs] at h
      cases h
  | .vector d, vs, h => by
    refine ⟨fun hsplits => ?_, fun v hv => legibleValue_json hs d v (h v hv)⟩
    cases d with
    | struct ps =>
      have hformat := hsplits.1
      rw [hs] at hformat
      cases hformat
    | fundamental _ | enumeration _ _ | vector _ => exact False.elim hsplits
  | .struct ps, x, h => by
    refine ⟨fun hformat => ?_, legibleMembers_json hs _ ps x h⟩
    rw [hs] at hformat
    cases hformat

theorem legibleMembers_json (hs : s.format = JsonFormat) (included : PropertySet) :
    (ps : PropertyDescriptors) → (x : Instance ps) → x.Enumerated ps →
    s.LegibleMembers options included ps x
  | .nil, _, _ => trivial
  | .cons _ d ps, (_, x), h => ⟨fun _ v' hv' => legibleValue_json hs d v' (h.1 v' hv'),
      legibleMembers_json hs included ps x h.2⟩

end

theorem legibleInstance_json (hs : s.format = JsonFormat) {included : PropertySet}
    {ps : PropertyDescriptors} {x : Instance ps} (h : x.Enumerated ps) :
    s.LegibleInstance options included ps x := by
  refine ⟨fun hformat => ?_, legibleMembers_json hs included ps x h⟩
  rw [hs] at hformat
  cases hformat

/-! ## Texts of instances -/

theorem overInstance_eq_some_iff {included : PropertySet} {ps : PropertyDescriptors}
    {x : Instance ps} (hx : x.RestoredBy s ps) (y z : Instance ps) :
    s.overInstance options staticResize included ps x y = some z ↔
      s.LegibleInstance options included ps x ∧ Instance.Over included ps x y z :=
  Option.ite_none_right_eq_some.trans ((and_congr_right fun _ =>
    overMembers_eq_some_iff included ps x y z hx).trans and_assoc.symm)

/-- What is read from a text, whatever members of other types are in it. -/
theorem deserialize_extended_iff (hs : s.Known) (hw : s.Converts) {ps : PropertyDescriptors}
    (hname : s.SpelledName ps) (hps : ps.Spelled s) (hwf : ps.WellFormed) {x : Instance ps}
    {included : PropertySet} {text : List UInt8}
    (h : (s.styled options).ExtendedText included ps x text) (resize : Resize) (y : Instance ps)
    (rest : List UInt8) (z : Instance ps) (n : ℕ) :
    s.deserialize resize ps y Finset.univ (text ++ rest) = .ok (z, n) ↔
      s.overInstance options resize included ps x y = some z ∧ n = text.length := by
  have houtcome : (s.deserialize resize ps y Finset.univ (text ++ rest)).toOption =
      (s.overInstance options resize included ps x y).map fun z => (z, text.length) :=
    deserialize_extended hs hw hname hps hwf h y rest
  have hoption (e : Except TextFailure (Instance ps × ℕ)) :
      e = .ok (z, n) ↔ e.toOption = some (z, n) := by
    cases e with
    | error e => exact ⟨fun h => (by cases h), fun h => (by cases h)⟩
    | ok r' =>
      exact ⟨fun h => congrArg some (Except.ok.inj h), fun h => congrArg _ (Option.some.inj h)⟩
  rw [hoption, houtcome, Option.map_eq_some_iff]
  constructor
  · rintro ⟨z', hz, he⟩
    obtain ⟨rfl, rfl⟩ := Prod.mk.inj he
    exact ⟨hz, rfl⟩
  · rintro ⟨hz, rfl⟩
    exact ⟨z, hz, rfl⟩

theorem deserialize_eq_ok_iff (hs : s.Known) (hw : s.Converts) {ps : PropertyDescriptors}
    (hname : s.SpelledName ps) (hps : ps.Spelled s) (hwf : ps.WellFormed) {x : Instance ps}
    (hx : x.RestoredBy s ps) {included : PropertySet} {text : List UInt8}
    (h : (s.styled options).serialize ps x included = .ok text) (y : Instance ps) (rest : List UInt8)
    (r : Instance ps × ℕ) :
    s.deserialize staticResize ps y Finset.univ (text ++ rest) = .ok r ↔
      s.LegibleInstance options included ps x ∧ Instance.Over included ps x y r.1 ∧
        r.2 = text.length := by
  have hcommas : (s.styled options).format.Commas := hs.commas
  have hread := deserialize_extended_iff hs hw hname hps hwf (extendedText_of_serialize hcommas h)
    staticResize y rest r.1 r.2
  exact hread.trans ((and_congr_left' (overInstance_eq_some_iff hx y r.1)).trans and_assoc)

/-- **Unknown members are skipped.** From a text with members of other types exactly that instance
is read that is read from the one without them, and the reader stops at its end as well; it is the
one that the values of the text give over those that are there. -/
theorem skips_unknown (hs : s.Known) (hw : s.Converts) {ps : PropertyDescriptors}
    (hname : s.SpelledName ps) (hps : ps.Spelled s) (hwf : ps.WellFormed) {x : Instance ps}
    {included : PropertySet} {written extended : List UInt8}
    (hwritten : (s.styled options).serialize ps x included = .ok written)
    (hextended : (s.styled options).ExtendedText included ps x extended) (resize : Resize)
    (y : Instance ps) (rest : List UInt8) :
    (∀ z n, s.deserialize resize ps y Finset.univ (extended ++ rest) = .ok (z, n) ↔
      s.deserialize resize ps y Finset.univ (written ++ rest) = .ok (z, written.length) ∧
        n = extended.length) ∧
    (∀ z n, s.deserialize resize ps y Finset.univ (written ++ rest) = .ok (z, n) ↔
      s.overInstance options resize included ps x y = some z ∧ n = written.length) ∧
    (x.RestoredBy s ps → ∀ z, s.overInstance options staticResize included ps x y = some z ↔
      s.LegibleInstance options included ps x ∧ Instance.Over included ps x y z) ∧
    (s.format = JsonFormat → x.Enumerated ps → s.LegibleInstance options included ps x) := by
  have hcommas : (s.styled options).format.Commas := hs.commas
  have hread := deserialize_extended_iff hs hw hname hps hwf hextended resize y rest
  have hplain := deserialize_extended_iff hs hw hname hps hwf
    (extendedText_of_serialize hcommas hwritten) resize y rest
  refine ⟨fun z n => ?_, hplain, fun hx z => overInstance_eq_some_iff hx y z,
    fun hformat henum => legibleInstance_json hformat henum⟩
  rw [hread, hplain, and_iff_left rfl]

/-- A mark with a list of names that a reader of marks does not know. -/
def namedMarkText : List UInt8 :=
  ascii "\x7b\"value\":7,\"names\":[\"a]\\\"\",\",\x7d\"],\"state\":5\x7d"

/-- The mark is read without the names, and to the end. -/
theorem skips_unknown_mark :
    (JsonSerializer {} uuidConverters).deserialize staticResize markProperties
        (Instance.fresh markProperties) Finset.univ (namedMarkText ++ []) =
      .ok ((some (7 : BitVec 64), some (1 : BitVec 32), ()), namedMarkText.length) := by
  have hs : (JsonSerializer {} uuidConverters).Known := .inl rfl
  let mark : Instance markProperties := (some (7 : BitVec 64), some (1 : BitVec 32), ())
  have hwritten : ((JsonSerializer {} uuidConverters).styled { style := .minified }).serialize
      markProperties mark Finset.univ = .ok (ascii "\x7b\"value\":7,\"state\":5\x7d") := by
    decide +kernel
  have hextended : ((JsonSerializer {} uuidConverters).styled { style := .minified }).ExtendedText
      Finset.univ markProperties mark namedMarkText := by
    let names : Value (.vector (.fundamental .string)) :=
      ⟨[⟨ascii "a]\"", by decide⟩, ⟨ascii ",\x7d", by decide⟩], by decide⟩
    have hmembers : ((JsonSerializer {} uuidConverters).styled { style := .minified }).memberTexts 1
        Finset.univ markProperties mark = .ok [ascii "\"value\":7", ascii "\"state\":5"] := by
      decide +kernel
    have hnames : (((JsonSerializer {} uuidConverters).styled { style := .minified }).styled
        { style := .minified }).valueTexts 2 (.vector (.fundamental .string)) names =
          .ok [ascii "[\"a]\\\"\",\",\x7d\"]"] := by
      decide +kernel
    have hspelled : (TypeDescriptor.vector (.fundamental .string)).Spelled
        ((JsonSerializer {} uuidConverters).styled { style := .minified }) := trivial
    have hidentifier : IsIdentifier "names" := by decide +kernel
    have hnew : "names" ∉ markProperties.names := by decide +kernel
    have hforeign := Foreign.mk hidentifier hnew (ForeignValue.value hspelled hnames)
    exact ⟨_, _, extended_of_memberTexts markProperties mark hmembers,
      .own _ (.added hforeign (.own _ .nil)), by decide +kernel⟩
  have hrestored : Instance.RestoredBy (JsonSerializer {} uuidConverters) markProperties mark :=
    ⟨fun _ _ => rfl, fun _ _ => trivial, trivial⟩
  have henum : Instance.Enumerated markProperties mark := by
    refine ⟨fun _ _ => trivial, ?_, trivial⟩
    rintro _ ⟨⟩
    exact ⟨⟨5, "on", 1⟩, by decide, rfl⟩
  obtain ⟨hsame, hread, hover, hlegible⟩ := skips_unknown hs (uuidConverters_converts {})
    (fun h => by cases h) (by decide +kernel) (by decide +kernel) hwritten hextended staticResize
    (Instance.fresh markProperties) []
  refine (hsame mark _).mpr ⟨(hread mark _).mpr ⟨(hover hrestored mark).mpr ⟨?_, ?_⟩, rfl⟩, rfl⟩
  · exact hlegible rfl henum
  · exact (Instance.over_fresh Finset.univ markProperties mark mark).mpr rfl

/-- **Over an instance.** If the text of an instance is legible, the included properties are read
over those that are there; they are replaced, as a copy replaces them, exactly if there are no
elements and no other properties in their places. -/
theorem deserialize_over_iff (hs : s.Known) (hw : s.Converts) {ps : PropertyDescriptors}
    (hname : s.SpelledName ps) (hps : ps.Spelled s) (hwf : ps.WellFormed) {x : Instance ps}
    (hx : x.RestoredBy s ps) {included : PropertySet} {text : List UInt8}
    (h : (s.styled options).serialize ps x included = .ok text) (y : Instance ps)
    (rest : List UInt8) :
    (∀ z n, s.deserialize staticResize ps y Finset.univ (text ++ rest) = .ok (z, n) ↔
      s.LegibleInstance options included ps x ∧ Instance.Over included ps x y z ∧
        n = text.length) ∧
    (s.deserialize staticResize ps y Finset.univ (text ++ rest) =
        .ok (StructDescriptor.copy included ps y x, text.length) ↔
      s.LegibleInstance options included ps x ∧ Instance.BareOn included ps x y) := by
  have hok := deserialize_eq_ok_iff hs hw hname hps hwf hx h y rest
  refine ⟨fun z n => hok (z, n), (hok _).trans (and_congr_right fun _ => ?_)⟩
  rw [StructDescriptor.copy_eq]
  exact (and_iff_left rfl).trans (Instance.over_copy_iff included ps hwf.distinctTags x y)

/-- A mark with a value, over one that is on. -/
theorem deserialize_over_iff_mark :
    (JsonSerializer {} uuidConverters).deserialize staticResize markProperties
        (some (3 : BitVec 64), some (1 : BitVec 32), ()) Finset.univ
        (ascii "\x7b\"value\":7\x7d" ++ ascii ",") =
      .ok (StructDescriptor.copy {1} markProperties (some (3 : BitVec 64), some (1 : BitVec 32), ())
        (some (7 : BitVec 64), none, ()), (ascii "\x7b\"value\":7\x7d").length) := by
  have hwritten : ((JsonSerializer {} uuidConverters).styled { style := .minified }).serialize
      markProperties (some (7 : BitVec 64), none, ()) {1} = .ok (ascii "\x7b\"value\":7\x7d") := by
    decide +kernel
  have hrestored : Instance.RestoredBy (JsonSerializer {} uuidConverters) markProperties
      (some (7 : BitVec 64), none, ()) :=
    ⟨fun _ _ => rfl, fun _ h => (by cases h), trivial⟩
  have henum : Instance.Enumerated markProperties (some (7 : BitVec 64), none, ()) :=
    ⟨fun _ _ => trivial, fun _ h => (by cases h), trivial⟩
  exact (deserialize_over_iff (.inl rfl) (uuidConverters_converts {}) (fun h => by cases h)
    (by decide +kernel) (by decide +kernel) hrestored hwritten _ _).2.mpr
      ⟨legibleInstance_json rfl henum, fun _ _ _ => trivial, fun _ _ h => (by cases h), trivial⟩

/-- **The round trip** of `StringSerializer`. The text of an instance is read into a fresh one as it
was written exactly if it is legible; nothing else is ever read from it. -/
theorem deserialize_fresh_iff (options options' : TextOptions) (converters : Converters)
    (structName : PropertyDescriptors → String)
    (hw : (StringSerializer options converters structName).Converts) {ps : PropertyDescriptors}
    (hname : (StringSerializer options converters structName).SpelledName ps)
    (hps : ps.Spelled (StringSerializer options converters structName)) (hwf : ps.WellFormed)
    {x : Instance ps} (henum : x.Enumerated ps)
    (hx : x.RestoredBy (StringSerializer options converters structName) ps)
    (included : PropertySet) :
    ∃ text, (StringSerializer options' converters structName).serialize ps x included = .ok text ∧
      ∀ rest r, (StringSerializer options converters structName).deserialize staticResize ps
          (Instance.fresh ps) Finset.univ (text ++ rest) = .ok r ↔
        (StringSerializer options converters structName).LegibleInstance options' included ps x ∧
          r = (Instance.restrict ps included x, text.length) := by
  have hcommas : (StringSerializer options' converters structName).format.Commas := commas_string
  obtain ⟨members, hmembers⟩ := exists_memberTexts
    (s := StringSerializer options' converters structName) ps x included henum.restrict 1
  obtain ⟨texts, htexts⟩ : ∃ texts,
      (StringSerializer options' converters structName).structTexts included ps x = .ok texts := by
    rw [structTexts, hmembers]
    exact ⟨_, rfl⟩
  obtain ⟨text, htext⟩ : ∃ text,
      (StringSerializer options' converters structName).serialize ps x included = .ok text :=
    ⟨_, (serialize_eq_ok_iff hcommas ps x included _).mpr ⟨texts, htexts, rfl⟩⟩
  refine ⟨text, htext, fun rest r => ?_⟩
  have hstyled : ((StringSerializer options converters structName).styled options').serialize ps x
      included = .ok text := htext
  have hok := deserialize_eq_ok_iff (.inr rfl) hw hname hps hwf hx hstyled (Instance.fresh ps) rest r
  rw [hok, Instance.over_fresh, Prod.ext_iff]

/-- What is written for uuids, times and floating-point values can stand in the other texts, too. -/
theorem uuidConverters_converts_string (options : TextOptions)
    (structName : PropertyDescriptors → String) :
    (StringSerializer options uuidConverters structName).Converts := by
  intro t v
  have hjson := uuidConverters_converts options t v
  cases t with
  | timepoint => exact ⟨List.not_mem_nil, List.not_mem_nil⟩
  | _ => exact hjson

/-- A sensor with two marks is read back from one line; on several lines the names of the marks are
elements of their own. -/
theorem deserialize_fresh_iff_sensor :
    (∃ text, (StringSerializer {} uuidConverters fun _ => "Sensor").serialize sensorProperties sensor
        {1, 2, 7} = .ok text ∧
      ∀ rest, (StringSerializer {} uuidConverters fun _ => "Sensor").deserialize staticResize
        sensorProperties (Instance.fresh sensorProperties) Finset.univ (text ++ rest) =
          .ok (Instance.restrict sensorProperties {1, 2, 7} sensor, text.length)) ∧
    ∃ text, (StringSerializer { style := .multiLine } uuidConverters fun _ => "Sensor").serialize
        sensorProperties sensor {1, 2, 7} = .ok text ∧
      ∀ rest r, (StringSerializer {} uuidConverters fun _ => "Sensor").deserialize staticResize
        sensorProperties (Instance.fresh sensorProperties) Finset.univ (text ++ rest) ≠ .ok r := by
  have hname : (StringSerializer {} uuidConverters fun _ => "Sensor").SpelledName sensorProperties :=
    by decide +kernel
  have hps : sensorProperties.Spelled (StringSerializer {} uuidConverters fun _ => "Sensor") := by
    decide +kernel
  have hwf : sensorProperties.WellFormed := by decide +kernel
  have henum : sensor.Enumerated sensorProperties := by
    refine ⟨fun _ _ => trivial, fun _ _ => trivial, fun _ _ => trivial, ?_, trivial⟩
    rintro _ ⟨⟩
    refine List.forall_mem_cons.mpr ⟨⟨fun _ _ => trivial, ?_, trivial⟩,
      List.forall_mem_singleton.mpr ⟨fun _ _ => trivial, fun _ h => (by cases h), trivial⟩⟩
    rintro _ ⟨⟩
    exact ⟨⟨5, "on", 1⟩, by decide, rfl⟩
  have hrestored : sensor.RestoredBy (StringSerializer {} uuidConverters fun _ => "Sensor")
      sensorProperties := by
    refine ⟨fun v _ => (uuidConverters_invertsUuids v).2, fun _ _ => rfl, ?_, ?_, trivial⟩
    · rintro _ ⟨⟩
      rfl
    · rintro _ ⟨⟩
      exact fun _ _ => ⟨fun _ _ => rfl, fun _ _ => trivial, trivial⟩
  have hread (options : TextOptions) := deserialize_fresh_iff {} options uuidConverters
    (fun _ => "Sensor") (uuidConverters_converts_string _ _) hname hps hwf henum hrestored {1, 2, 7}
  obtain ⟨text, htext, htext'⟩ := hread {}
  obtain ⟨lines, hlines, hlines'⟩ := hread { style := .multiLine }
  refine ⟨⟨text, htext, fun rest => (htext' rest _).mpr ⟨?_, rfl⟩⟩,
    lines, hlines, fun rest r hok => ?_⟩
  · have hlegible : ∀ t ∈ [FundamentalType.uuid, .string, .int64],
        (StringSerializer {} uuidConverters fun _ => "Sensor").LegibleFundamental {} t := by decide
    refine ⟨fun _ h => (by cases h), fun _ _ _ => hlegible .uuid (by decide),
      fun _ _ _ => hlegible .string (by decide), fun h => absurd h (by decide), ?_, trivial⟩
    rintro - _ ⟨⟩
    refine ⟨fun h => (by cases h.2), List.forall_mem_cons.mpr ⟨⟨fun _ h => (by cases h),
      fun _ _ _ => hlegible .int64 (by decide), ?_, trivial⟩, List.forall_mem_singleton.mpr
        ⟨fun _ h => (by cases h), fun _ _ h => (by cases h), fun _ _ h => (by cases h), trivial⟩⟩⟩
    rintro - _ ⟨⟩
    exact ⟨⟨5, "on", 1⟩, rfl, by decide⟩
  · have hmarks := ((hlines' rest r).mp hok).1.2.2.2.2.1 (by decide) _ rfl
    cases hmarks.1 ⟨rfl, rfl⟩

end TextSerializer

end Dots

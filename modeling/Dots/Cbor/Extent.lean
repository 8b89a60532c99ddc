import Dots.Cbor.Bounds

/-!
# Where a map ends

* `Inside.Telling`, `Inside.entriesWith`: what is asked of a part of the value that the bytes have,
  and of the bytes behind it.
* `Told`: a condition on the bytes tells where a result was taken from them.
* **`preconditionOf_readEntries`**: the entries of a map, each with what the ones before it found.
* **`told_deserialize`**: where a struct ends that is deserialized.
-/

set_option autoImplicit false

namespace Dots

open CborFormat CborReader CborSerializer Parse

namespace Inside

/-- What is asked of the bytes before an item, given what is asked of a part of its value and of the
bytes behind it. -/
abbrev Telling (γ : Type) := (γ → List UInt8 → Prop) → List UInt8 → Prop

/-- A string, with its bytes. -/
def text : Telling (List UInt8) := fun k => head MajorType.textString 8 fun size bytes =>
  size ≤ bytes.length → k (bytes.take size) (bytes.drop size)

/-- The value of a property with a tag, or what is skipped if there is no such property. -/
def entryOf (ps : PropertyDescriptors) (tag : BitVec 32) : Demand :=
  (property Finset.univ tag ps).getD skip

/-- The entries of a map; `entry` gives what is asked of one with a tag, by what was found before. -/
def entriesWith {γ : Type} (entry : BitVec 32 → γ → Telling γ) (s : γ) : Telling γ := fun k =>
  head MajorType.map 8 fun n => tellEach (fun s k => head MajorType.unsignedInt 4 fun tag =>
    entry (BitVec.ofNat 32 tag) s k) n s k

end Inside

open Inside

/-- `g` tells where a result was taken from: it asks for what is asked of a part of the result and of
the bytes behind it, or does not depend on that at all if there is no result. -/
def Told {α γ : Type} (part : α → γ) (g : Telling γ) (data : List UInt8) :
    Except Failure (α × ℕ) → Prop
  | .ok (a, n) => n ≤ data.length ∧ ∀ k, g k data ↔ k (part a) (data.drop n)
  | .error _ => ∃ P : Prop, ∀ k, g k data ↔ P

variable {α γ : Type} {part : α → γ} {m : Read α}

theorem told_run {g : Telling γ} (h : PreconditionOf Failure.Inside part m g) (data : List UInt8) :
    Told part g data ((m.run ⟨0, data⟩).map fun r => (r.1, r.2.offset)) := by
  cases hrun : m.run ⟨0, data⟩ with
  | error e =>
    refine ⟨e.Inside (Cursor.size ⟨0, data⟩), fun k => ?_⟩
    have hk := h k ⟨0, data⟩
    rw [hrun] at hk
    exact hk
  | ok r =>
    have hk := fun k => h k ⟨0, data⟩
    simp only [hrun] at hk
    obtain ⟨n, hn, hr⟩ := (hk fun _ _ => True).1
    have hoffset : r.2.offset = n := by rw [hr, Cursor.advance, Nat.zero_add]
    have hrest : r.2.rest = data.drop n := by rw [hr, Cursor.rest_advance]
    show r.2.offset ≤ data.length ∧ ∀ k, g k data ↔ k (part r.1) (data.drop r.2.offset)
    rw [hoffset, ← hrest]
    exact ⟨hn, fun k => (hk k).2⟩

/-! ## Entries -/

theorem preconditionOf_readBytes (n : ℕ) : PreconditionOf Failure.Inside
    (fun bytes : {bytes : List UInt8 // bytes.length = n} => bytes.1) (readBytes n)
    fun k w => n ≤ w.length ∧ k (w.take n) (w.drop n) := by
  intro k c
  by_cases h : n ≤ c.rest.length
  · have hrun : (readBytes n).run c = .ok (⟨c.rest.take n, _⟩, c.advance n) := dif_pos h
    rw [hrun]
    exact ⟨⟨n, h, rfl⟩, fun hk => hk.2, fun hk => ⟨h, hk⟩⟩
  · have hrun : (readBytes n).run c = .error (.outside c.size) := dif_neg h
    rw [hrun]
    exact ⟨fun hk => absurd hk.1 h, fun hlt => absurd hlt (Nat.lt_irrefl _)⟩

theorem preconditionOf_readString :
    PreconditionOf Failure.Inside (fun s : {bytes : List UInt8 // bytes.length < 2 ^ 64} => s.1)
      readString text := by
  refine ((precondition_readHead MajorType.textString 8).thenOf fun size =>
    (passes_assertInputAvailable size.toNat).thenOf fun _ =>
      (preconditionOf_readBytes size.toNat).bind (t := fun bytes k => k bytes) fun bytes =>
        .pure rfl).congr fun k w =>
        head_congr (by omega) (fun size w hsize => ?_) w
  dsimp only
  rw [toNat_ofNat_eight hsize]
  exact imp_congr_right fun h => (and_iff_right h).symm

theorem readEntry_eq (read : BitVec 32 → α → Option (Read α)) (x : α) :
    readEntry read x =
      readUnsigned 4 >>= fun tag => (read tag x).getD (do CborReader.skip; return x) := by
  unfold readEntry
  congr 1
  funext tag
  cases read tag x <;> rfl

theorem preconditionOf_readEntries {read : BitVec 32 → α → Option (Read α)}
    {entry : BitVec 32 → γ → Telling γ}
    (h : ∀ tag x, PreconditionOf Failure.Inside part
      ((read tag x).getD (do CborReader.skip; return x)) (entry tag (part x))) (x : α) :
    PreconditionOf Failure.Inside part (readEntries read x) (entriesWith entry (part x)) := by
  have hentry (x : α) : PreconditionOf Failure.Inside part (readEntry read x) fun k =>
      head MajorType.unsignedInt 4 fun tag => entry (BitVec.ofNat 32 tag) (part x) k := by
    rw [readEntry_eq]
    exact (precondition_readHead MajorType.unsignedInt 4).thenOf fun tag => h tag x
  refine ((precondition_readHead MajorType.map 8).thenOf fun n =>
    PreconditionOf.iterate (g := fun s k => head MajorType.unsignedInt 4 fun tag =>
      entry (BitVec.ofNat 32 tag) s k) hentry n.toNat x).congr fun k w =>
        head_congr (by omega) (fun n w hn => ?_) w
  dsimp only
  rw [toNat_ofNat_eight hn]

/-! ## Properties -/

section Property

variable {γ : Type} {casts : FloatCasts} {tag : BitVec 32} {p : PropertyDescriptor}
  {d : TypeDescriptor} {ps : PropertyDescriptors}

/-- The read of a property, if there is one, passes what `property` asks for, and `s` is then the part
of the instance. -/
def Leaves (casts : FloatCasts) (tag : BitVec 32) {ps : PropertyDescriptors}
    (part : Instance ps → γ) (s : γ) (x : Instance ps) : Prop :=
  Option.Rel (fun m g => PreconditionOf Failure.Inside part m fun k => g (k s))
    (readProperty casts 2 Finset.univ tag ps x) (property Finset.univ tag ps)

theorem leaves_of_forall {part : Instance ps → γ} {s : γ} (h : ∀ y, part y = s) (x : Instance ps) :
    Leaves casts tag part s x := by
  have hread := rel_readProperty casts 2 le_rfl Finset.univ tag ps x
  rw [Leaves]
  generalize readProperty casts 2 Finset.univ tag ps x = m, property Finset.univ tag ps = g at hread
  cases hread with
  | none => exact .none
  | some hread =>
    refine .some fun k c => ?_
    simp only [h]
    exact hread (k s) c

theorem leaves_here {part : Instance (.cons p d ps) → γ} {s : γ} (htag : BitVec.ofNat 32 p.tag = tag)
    {x : Instance ps} (h : ∀ v, part (some v, x) = s) (v : Option (Value d)) :
    Leaves casts tag part s (v, x) := by
  unfold Leaves
  rw [readProperty, property, if_pos htag, if_pos htag, if_pos (Finset.subset_univ _),
    if_pos (Finset.mem_univ _)]
  exact .some ((passes_readType casts 2 le_rfl d _).thenOf fun v => .pure (h v))

theorem leaves_next {part : Instance (.cons p d ps) → γ} {s : γ} (htag : BitVec.ofNat 32 p.tag ≠ tag)
    {x : Instance ps} {v : Option (Value d)} (h : Leaves casts tag (fun x => part (v, x)) s x) :
    Leaves casts tag part s (v, x) := by
  unfold Leaves at h ⊢
  rw [readProperty, property, if_neg htag, if_neg htag]
  generalize readProperty casts 2 Finset.univ tag ps x = m, property Finset.univ tag ps = g at h
  cases h with
  | none => exact .none
  | some h => exact .some fun k c => (h k c).bind fun x c => ⟨.refl c, Iff.rfl⟩

/-- An entry that is read as a property, or skipped. -/
theorem Leaves.entry {part : Instance ps → γ} {s : γ} {x : Instance ps}
    (h : Leaves casts tag part s x) (hskip : property Finset.univ tag ps = none → part x = s) :
    PreconditionOf Failure.Inside part
      ((readProperty casts 2 Finset.univ tag ps x).getD (do CborReader.skip; return x))
      fun k => entryOf ps tag (k s) := by
  rw [Leaves] at h
  unfold entryOf
  generalize readProperty casts 2 Finset.univ tag ps x = m, property Finset.univ tag ps = g at h hskip
  cases h with
  | none => exact passes_skip.thenOf fun _ => .pure (hskip rfl)
  | some h => exact h

/-- The entries of a struct; `entry` tells of a part of it. -/
theorem preconditionOf_readStruct {part : Instance ps → γ} {entry : BitVec 32 → γ → Telling γ}
    (h : ∀ tag x, PreconditionOf Failure.Inside part
      ((readProperty casts 2 Finset.univ tag ps x).getD (do CborReader.skip; return x))
      (entry tag (part x))) (x : Instance ps) :
    PreconditionOf Failure.Inside part (readStruct casts 1 Finset.univ ps x)
      (entriesWith entry (part x)) := by
  have hincluded : includedAt 1 (Finset.univ : PropertySet) = Finset.univ := if_neg (by decide)
  unfold readStruct
  simp only [hincluded]
  exact preconditionOf_readEntries (fun tag x => h tag x) x

/-- **Where a struct ends** that is deserialized. -/
theorem told_deserialize {part : Instance ps → γ} {g : Telling γ} {x : Instance ps}
    (h : PreconditionOf Failure.Inside part (readStruct casts 1 Finset.univ ps x) g)
    (hnil : ∀ k, g k []) (data : List UInt8) :
    Told part g data (CborSerializer.deserialize casts ps x Finset.univ data) := by
  rw [CborSerializer.deserialize]
  split_ifs with hdata
  · subst hdata
    exact ⟨True, fun k => iff_true_intro (hnil k)⟩
  · exact told_run h data

/-- An instance of which nothing is told. -/
theorem told_entries (casts : FloatCasts) (ps : PropertyDescriptors) (x : Instance ps)
    (data : List UInt8) :
    Told (fun _ => ()) (fun k => entries (fun tag => property Finset.univ tag ps) (k ())) data
      (CborSerializer.deserialize casts ps x Finset.univ data) :=
  told_deserialize (fun k => passes_readStruct casts Finset.univ ps x (k ())) (fun _ => trivial) data

end Property

end Dots

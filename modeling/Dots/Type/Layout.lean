import Dots.Type.Value

/-!
# The layout of dynamic structs

A converted descriptor places the values of its properties one behind the other, each at a multiple
of its alignment, and a `DynamicStruct` allocates the memory for them.

* `ValueLayout`, `SizeOf`: the sizes and alignments of types.
* `PropertyOffset.calculateOffset`, `place`, `allocated`: the offsets and the size of the area, as the
  source calculates them in a `size_t`.
* `roundUp`, `extent`: the same without a bound.
* **`sound_iff`**: the layouts whose values are aligned, disjoint and in the area.
-/

set_option autoImplicit false

namespace Dots

/-- A power of two that a `size_t` can hold. -/
def IsAlignment (alignment : ℕ) : Prop := ∃ k < 64, alignment = 2 ^ k

/-- The size and the alignment of a type. -/
structure ValueLayout where
  size : ℕ
  alignment : ℕ
  size_pos : 0 < size
  size_lt : size < sizeLimit
  isAlignment : IsAlignment alignment
  dvd_size : alignment ∣ size

/-- `sizeof` and `alignof` of the types of the library. -/
structure SizeOf where
  propertyArea : ℕ
  dynamicStruct : ℕ
  /-- `alignof(type::Struct)`. -/
  struct : ℕ
  propertyArea_lt : propertyArea < sizeLimit
  dynamicStruct_lt : dynamicStruct < sizeLimit
  isAlignment : IsAlignment struct

/-! ## Offsets -/

namespace PropertyOffset

/-- `CalculateOffset`. -/
def calculateOffset (alignment previousOffset previousSize : ℕ) : ℕ :=
  let currentOffset := (previousOffset + previousSize) % sizeLimit
  (currentOffset + (alignment - currentOffset % alignment) % alignment) % sizeLimit

def first (alignment initialOffset : ℕ) : ℕ := calculateOffset alignment 0 initialOffset

def next (alignment previousOffset previousSize : ℕ) : ℕ :=
  calculateOffset alignment previousOffset previousSize

end PropertyOffset

/-- A property at its offset. -/
structure PlacedProperty where
  type : ValueLayout
  offset : ℕ

namespace DescriptorConverter

variable (c : SizeOf)

/-- The loop over the properties; `last` is the one before. -/
def place : Option PlacedProperty → List ValueLayout → List PlacedProperty
  | _, [] => []
  | last, t :: ts =>
    let offset := match last with
      | none => PropertyOffset.first t.alignment c.propertyArea
      | some last => PropertyOffset.next t.alignment last.offset last.type.size
    ⟨t, offset⟩ :: place (some ⟨t, offset⟩) ts

/-- The alignment of the struct at the end of the loop. -/
def structAlignment (ts : List ValueLayout) : ℕ :=
  ts.foldl (fun alignment t => max t.alignment alignment) c.struct

/-- The size of the area behind the loop; without a property there is no `last` to read. -/
def areaSize (ts : List ValueLayout) : Option ℕ :=
  (place c none ts).getLast?.map fun last =>
    PropertyOffset.next (structAlignment c ts) last.offset last.type.size

/-- The size of the descriptor that is registered. -/
def descriptorSize (size : ℕ) : ℕ := (c.dynamicStruct + size) % sizeLimit

end DescriptorConverter

/-- The bytes that a `DynamicStruct` allocates for its area. -/
def DynamicStruct.allocated (c : SizeOf) (descriptorSize : ℕ) : ℕ :=
  (descriptorSize + (sizeLimit - c.dynamicStruct)) % sizeLimit

open DescriptorConverter

/-- The values are aligned, behind the property area, disjoint in the order of the list, and in the
memory that is allocated. -/
structure SoundLayout (c : SizeOf) (placed : List PlacedProperty) (allocated : ℕ) : Prop where
  aligned (p : PlacedProperty) (h : p ∈ placed) : p.type.alignment ∣ p.offset
  disjoint : placed.Pairwise fun p q => p.offset + p.type.size ≤ q.offset
  behindArea (p : PlacedProperty) (h : p ∈ placed) : c.propertyArea ≤ p.offset
  inside (p : PlacedProperty) (h : p ∈ placed) : p.offset + p.type.size ≤ allocated

/-! ## Without a bound -/

/-- The first multiple from `n` on. -/
def roundUp (alignment n : ℕ) : ℕ := n + (alignment - n % alignment) % alignment

/-- The end of the properties behind `n`. -/
def extentBehind (n : ℕ) (ts : List ValueLayout) : ℕ :=
  ts.foldl (fun n t => roundUp t.alignment n + t.size) n

/-- The size of the area if there were no bound. -/
def extent (c : SizeOf) (ts : List ValueLayout) : ℕ :=
  roundUp (structAlignment c ts) (extentBehind c.propertyArea ts)

variable {c : SizeOf} {alignment n : ℕ}

theorem le_roundUp : n ≤ roundUp alignment n := Nat.le_add_right ..

theorem IsAlignment.pos (h : IsAlignment alignment) : 0 < alignment := by
  obtain ⟨k, -, rfl⟩ := h
  exact Nat.two_pow_pos k

theorem IsAlignment.lt (h : IsAlignment alignment) : alignment < sizeLimit := by
  obtain ⟨k, hk, rfl⟩ := h
  exact Nat.pow_lt_pow_right (by omega) hk

theorem roundUp_lt (h : 0 < alignment) : roundUp alignment n < n + alignment :=
  Nat.add_lt_add_left (Nat.mod_lt _ h) n

theorem dvd_roundUp (h : 0 < alignment) : alignment ∣ roundUp alignment n := by
  have hmod := Nat.mod_lt n h
  have hdiv := Nat.div_add_mod n alignment
  rw [roundUp]
  by_cases hzero : n % alignment = 0
  · rw [hzero, Nat.sub_zero, Nat.mod_self, Nat.add_zero]
    exact Nat.dvd_of_mod_eq_zero hzero
  · rw [Nat.mod_eq_of_lt (by omega)]
    refine ⟨n / alignment + 1, ?_⟩
    rw [Nat.mul_add, Nat.mul_one]
    omega

theorem isAlignment_structAlignment (ts : List ValueLayout) : IsAlignment (structAlignment c ts) := by
  have hfold : ∀ (ts : List ValueLayout) (alignment : ℕ), IsAlignment alignment →
      IsAlignment (ts.foldl (fun alignment t => max t.alignment alignment) alignment) := by
    intro ts
    induction ts with
    | nil => exact fun _ h => h
    | cons t ts ih =>
      intro alignment h
      have hmax : IsAlignment (max t.alignment alignment) := by
        rcases max_choice t.alignment alignment with heq | heq <;> rw [heq]
        · exact t.isAlignment
        · exact h
      exact ih _ hmax
  exact hfold ts _ c.isAlignment

/-! ## One step -/

/-- **The next offset**: behind `n`, if there is room, and before it otherwise. -/
theorem calculateOffset_spec (h : IsAlignment alignment) {previousOffset previousSize : ℕ}
    (hn : previousOffset + previousSize < sizeLimit) :
    (previousOffset + previousSize ≤
        PropertyOffset.calculateOffset alignment previousOffset previousSize ↔
      roundUp alignment (previousOffset + previousSize) < sizeLimit) ∧
    (roundUp alignment (previousOffset + previousSize) < sizeLimit →
      PropertyOffset.calculateOffset alignment previousOffset previousSize =
        roundUp alignment (previousOffset + previousSize)) := by
  have hoffset : PropertyOffset.calculateOffset alignment previousOffset previousSize =
      roundUp alignment (previousOffset + previousSize) % sizeLimit := by
    rw [PropertyOffset.calculateOffset, Nat.mod_eq_of_lt hn]
    rfl
  have hle : previousOffset + previousSize ≤ roundUp alignment (previousOffset + previousSize) := le_roundUp
  have hlt : roundUp alignment (previousOffset + previousSize) < previousOffset + previousSize + alignment :=
    roundUp_lt h.pos
  have halignment := h.lt
  rw [hoffset]
  refine ⟨⟨fun hbehind => ?_, fun hroom => ?_⟩, Nat.mod_eq_of_lt⟩
  · by_contra hroom
    rw [Nat.mod_eq_sub_mod (by omega), Nat.mod_eq_of_lt (by omega)] at hbehind
    omega
  · rwa [Nat.mod_eq_of_lt hroom]

theorem calculateOffset_lt (alignment previousOffset previousSize : ℕ) :
    PropertyOffset.calculateOffset alignment previousOffset previousSize < sizeLimit :=
  Nat.mod_lt _ (Nat.two_pow_pos 64)

theorem IsAlignment.dvd_calculateOffset (h : IsAlignment alignment) (previousOffset previousSize : ℕ) :
    alignment ∣ PropertyOffset.calculateOffset alignment previousOffset previousSize := by
  have hpos := h.pos
  have hlimit : alignment ∣ sizeLimit := by
    obtain ⟨k, hk, rfl⟩ := h
    exact pow_dvd_pow 2 (by omega)
  exact (Nat.dvd_mod_iff hlimit).mpr (dvd_roundUp hpos)

theorem allocated_descriptorSize {size : ℕ} (h : size < sizeLimit) :
    DynamicStruct.allocated c (descriptorSize c size) = size := by
  have hstruct := c.dynamicStruct_lt
  rw [DynamicStruct.allocated, descriptorSize, Nat.mod_add_mod]
  have hsum : c.dynamicStruct + size + (sizeLimit - c.dynamicStruct) = size + sizeLimit := by omega
  rw [hsum, Nat.add_mod_right, Nat.mod_eq_of_lt h]

/-! ## All steps -/

/-- Where the property behind `last` is put. -/
def start (c : SizeOf) : Option PlacedProperty → ℕ × ℕ
  | none => (0, c.propertyArea)
  | some last => (last.offset, last.type.size)

/-- The end of `last`. -/
def behind (c : SizeOf) (last : Option PlacedProperty) : ℕ := (start c last).1 + (start c last).2

theorem place_cons (last : Option PlacedProperty) (t : ValueLayout) (ts : List ValueLayout) :
    place c last (t :: ts) =
      ⟨t, PropertyOffset.calculateOffset t.alignment (start c last).1 (start c last).2⟩ ::
        place c (some ⟨t, PropertyOffset.calculateOffset t.alignment (start c last).1 (start c last).2⟩)
          ts := by
  cases last <;> rfl

/-- Each value begins where the one before has ended or later, and the last one ends at `m` or earlier. -/
def Successive (m : ℕ) : ℕ → List PlacedProperty → Prop
  | n, [] => n ≤ m
  | n, p :: ps => n ≤ p.offset ∧ Successive m (p.offset + p.type.size) ps

theorem Successive.le {m : ℕ} : ∀ {placed : List PlacedProperty} {n : ℕ}, Successive m n placed → n ≤ m
  | [], _, h => h
  | p :: _, n, h => by
    have hrest := h.2.le
    have hfirst := h.1
    omega

theorem successive_iff {m : ℕ} : ∀ {placed : List PlacedProperty} {n : ℕ}, placed ≠ [] →
    (Successive m n placed ↔ (placed.Pairwise fun p q => p.offset + p.type.size ≤ q.offset) ∧
      (∀ p ∈ placed, n ≤ p.offset) ∧ ∀ p ∈ placed, p.offset + p.type.size ≤ m)
  | [p], n, _ => by simp [Successive]
  | p :: q :: ps, n, _ => by
    have ih := @successive_iff m (q :: ps) (p.offset + p.type.size) (List.cons_ne_nil q ps)
    rw [Successive, ih]
    constructor
    · rintro ⟨hp, hpairwise, hbehind, hinside⟩
      have hq := hbehind q List.mem_cons_self
      have hq' := hinside q List.mem_cons_self
      refine ⟨List.pairwise_cons.mpr ⟨hbehind, hpairwise⟩, List.forall_mem_cons.mpr ⟨hp, fun r hr => ?_⟩,
        List.forall_mem_cons.mpr ⟨by omega, hinside⟩⟩
      have hr := hbehind r hr
      omega
    · rintro ⟨hpairwise, hbehind, hinside⟩
      obtain ⟨hp, hpairwise⟩ := List.pairwise_cons.mp hpairwise
      exact ⟨hbehind p List.mem_cons_self, hpairwise, hp, (List.forall_mem_cons.mp hinside).2⟩

theorem le_extentBehind (ts : List ValueLayout) : ∀ n, n ≤ extentBehind n ts := by
  induction ts with
  | nil => exact fun _ => le_rfl
  | cons t ts ih =>
    intro n
    have hround : n ≤ roundUp t.alignment n := le_roundUp
    have hrest := ih (roundUp t.alignment n + t.size)
    show n ≤ extentBehind (roundUp t.alignment n + t.size) ts
    omega

/-- The offsets are in order exactly if all of them fit. -/
theorem successive_place (h : IsAlignment alignment) (ts : List ValueLayout) :
    ∀ last, behind c last < sizeLimit →
      (Successive (PropertyOffset.calculateOffset alignment
          (start c ((place c last ts).getLast?.or last)).1 (start c ((place c last ts).getLast?.or last)).2)
        (behind c last) (place c last ts) ↔
      roundUp alignment (extentBehind (behind c last) ts) < sizeLimit) := by
  induction ts with
  | nil => exact fun last hlast => (calculateOffset_spec h hlast).1
  | cons t ts ih =>
    intro last hlast
    obtain ⟨hiff, heq⟩ := calculateOffset_spec t.isAlignment hlast
    rw [place_cons]
    generalize PropertyOffset.calculateOffset t.alignment (start c last).1 (start c last).2 = offset at hiff heq ⊢
    have hgetLast : (⟨t, offset⟩ :: place c (some ⟨t, offset⟩) ts : List PlacedProperty).getLast?.or last =
        (place c (some ⟨t, offset⟩) ts).getLast?.or (some ⟨t, offset⟩) := by
      rw [List.getLast?_cons]
      cases (place c (some ⟨t, offset⟩) ts).getLast? <;> rfl
    rw [hgetLast, Successive]
    have hextent : extentBehind (behind c last) (t :: ts) =
        extentBehind (roundUp t.alignment (behind c last) + t.size) ts := rfl
    have hle := le_extentBehind ts (roundUp t.alignment (behind c last) + t.size)
    have hround : extentBehind (behind c last) (t :: ts) ≤
        roundUp alignment (extentBehind (behind c last) (t :: ts)) := le_roundUp
    rw [hextent] at hround ⊢
    by_cases hroom : roundUp t.alignment (behind c last) < sizeLimit
    · rw [show offset = roundUp t.alignment (behind c last) from heq hroom]
      by_cases hsize : roundUp t.alignment (behind c last) + t.size < sizeLimit
      · rw [and_iff_right le_roundUp]
        exact ih (some ⟨t, roundUp t.alignment (behind c last)⟩) hsize
      · -- the value does not fit any more
        exact iff_of_false (fun hsuccessive => hsize (hsuccessive.2.le.trans_lt (calculateOffset_lt ..))) (by omega)
    · exact iff_of_false (fun hsuccessive => hroom (hiff.mp hsuccessive.1)) (by omega)

theorem dvd_of_mem_place (ts : List ValueLayout) : ∀ last, ∀ p ∈ place c last ts,
    p.type.alignment ∣ p.offset := by
  induction ts with
  | nil => exact fun _ _ h => absurd h List.not_mem_nil
  | cons t ts ih =>
    intro last p hp
    rw [place_cons] at hp
    rcases List.mem_cons.mp hp with rfl | hp
    · exact t.isAlignment.dvd_calculateOffset _ _
    · exact ih _ p hp

/-- **The layout** of a struct with properties is sound exactly if its extent is a `size_t`. -/
theorem sound_iff (c : SizeOf) (t : ValueLayout) (ts : List ValueLayout) :
    ∃ size, areaSize c (t :: ts) = some size ∧
      (SoundLayout c (place c none (t :: ts)) (DynamicStruct.allocated c (descriptorSize c size)) ↔
        extent c (t :: ts) < sizeLimit) := by
  have hstart : behind c none < sizeLimit := by simpa [behind, start] using c.propertyArea_lt
  have hsuccessive := successive_place (isAlignment_structAlignment (c := c) (t :: ts)) (t :: ts) none hstart
  have hne : place c none (t :: ts) ≠ [] := List.cons_ne_nil _ _
  obtain ⟨last, hlast⟩ := Option.ne_none_iff_exists'.mp (mt List.getLast?_eq_none_iff.mp hne)
  have hbehind : behind c none = c.propertyArea := Nat.zero_add _
  rw [hlast, Option.some_or, successive_iff hne, hbehind] at hsuccessive
  refine ⟨PropertyOffset.next (structAlignment c (t :: ts)) last.offset last.type.size,
    by rw [areaSize, hlast]; rfl, ?_⟩
  rw [allocated_descriptorSize (show PropertyOffset.next .. < sizeLimit from calculateOffset_lt ..)]
  refine Iff.trans ?_ hsuccessive
  constructor
  · exact fun h => ⟨h.disjoint, h.behindArea, h.inside⟩
  · exact fun h => ⟨dvd_of_mem_place _ none, h.1, h.2.1, h.2.2⟩

/-- A struct type whose values take half of the addresses, such as one that holds two of another one,
sixty levels deep. -/
def hugeLayout : ValueLayout where
  size := 2 ^ 63
  alignment := 8
  size_pos := by decide
  size_lt := by decide
  isAlignment := ⟨3, by decide⟩
  dvd_size := by decide

def platform : SizeOf where
  propertyArea := 4
  dynamicStruct := 32
  struct := 8
  propertyArea_lt := by decide
  dynamicStruct_lt := by decide
  isAlignment := ⟨3, by decide⟩

/-- The area of a struct with two such properties has 8 bytes. -/
theorem not_sound_hugeLayouts :
    areaSize platform [hugeLayout, hugeLayout] = some 8 ∧
      ¬SoundLayout platform (place platform none [hugeLayout, hugeLayout])
        (DynamicStruct.allocated platform (descriptorSize platform 8)) := by
  refine ⟨by decide, fun h => ?_⟩
  have hfirst : (⟨hugeLayout, 8⟩ : PlacedProperty) ∈ place platform none [hugeLayout, hugeLayout] :=
    List.mem_cons_self
  exact absurd (h.inside _ hfirst) (by decide)

end Dots

import Mathlib.Order.Basic
import Mathlib.Order.Lattice

/-!
# Strict weak orders as they are computed

* `StrictWeak less equal`: `less` is a strict weak order, and what it does not separate is `equal`.
* **`StrictWeak.lex`**: pairs, the first parts deciding.
* `StrictWeak.option`, **`StrictWeak.list`**: optional values, nothing first, and lists.
* `StrictWeak.comap`, `StrictWeak.of_rank`: along a map, also into a linear order.
-/

set_option autoImplicit false

variable {α β : Type*}

/-- `less` is irreflexive and transitive, being inseparable is transitive, and it is `equal`. -/
structure StrictWeak (less equal : α → α → Bool) : Prop where
  irrefl : ∀ a, less a a = false
  trans : ∀ a b c, less a b = true → less b c = true → less a c = true
  inseparable_trans : ∀ a b c, less a b = false → less b a = false → less b c = false →
    less c b = false → less a c = false ∧ less c a = false
  equal_iff : ∀ a b, equal a b = true ↔ less a b = false ∧ less b a = false

namespace StrictWeak

variable {less equal : α → α → Bool} {less' equal' : β → β → Bool}

theorem equal_refl (h : StrictWeak less equal) (a : α) : equal a a = true :=
  (h.equal_iff a a).mpr ⟨h.irrefl a, h.irrefl a⟩

/-- What is inseparable from the larger is larger. -/
theorem less_of_less_of_equal (h : StrictWeak less equal) {a b c : α} (hab : less a b = true)
    (hbc : equal b c = true) : less a c = true := by
  obtain ⟨hbc, hcb⟩ := (h.equal_iff b c).mp hbc
  by_contra hac
  cases hca : less c a with
  | true => exact absurd (h.trans c a b hca hab) (by simp [hcb])
  | false =>
    have hcut := h.inseparable_trans a c b (Bool.not_eq_true _ ▸ hac) hca hcb hbc
    rw [hab] at hcut
    exact Bool.noConfusion hcut.1

/-- What is inseparable from the smaller is smaller. -/
theorem less_of_equal_of_less (h : StrictWeak less equal) {a b c : α} (hab : equal a b = true)
    (hbc : less b c = true) : less a c = true := by
  obtain ⟨hab, hba⟩ := (h.equal_iff a b).mp hab
  by_contra hac
  cases hca : less c a with
  | true => exact absurd (h.trans b c a hbc hca) (by simp [hba])
  | false =>
    have hcut := h.inseparable_trans b a c hba hab (Bool.not_eq_true _ ▸ hac) hca
    rw [hbc] at hcut
    exact Bool.noConfusion hcut.1

theorem equal_trans (h : StrictWeak less equal) {a b c : α} (hab : equal a b = true)
    (hbc : equal b c = true) : equal a c = true := by
  obtain ⟨h₁, h₂⟩ := (h.equal_iff a b).mp hab
  obtain ⟨h₃, h₄⟩ := (h.equal_iff b c).mp hbc
  exact (h.equal_iff a c).mpr (h.inseparable_trans a b c h₁ h₂ h₃ h₄)

/-- An order and an equality pulled back along a map. -/
theorem comap (h : StrictWeak less' equal') (f : α → β)
    (hless : ∀ a b, less a b = less' (f a) (f b))
    (hequal : ∀ a b, equal a b = equal' (f a) (f b)) : StrictWeak less equal where
  irrefl a := by rw [hless, h.irrefl]
  trans a b c := by
    rw [hless, hless, hless]
    exact h.trans _ _ _
  inseparable_trans a b c := by
    simp only [hless]
    exact h.inseparable_trans _ _ _
  equal_iff a b := by rw [hequal, hless, hless, h.equal_iff]

/-- A rank in a linear order. -/
theorem of_rank {γ : Type*} [LinearOrder γ] (rank : α → γ)
    (hless : ∀ a b, less a b = decide (rank a < rank b))
    (hequal : ∀ a b, equal a b = decide (rank a = rank b)) : StrictWeak less equal where
  irrefl a := by simp [hless]
  trans a b c := by
    simp only [hless, decide_eq_true_eq]
    exact lt_trans
  inseparable_trans a b c := by
    simp only [hless, decide_eq_false_iff_not, not_lt]
    intro h₁ h₂ h₃ h₄
    exact ⟨h₃.trans h₁, h₂.trans h₄⟩
  equal_iff a b := by
    simp only [hless, hequal, decide_eq_true_eq, decide_eq_false_iff_not, not_lt]
    exact ⟨fun h => ⟨h.ge, h.le⟩, fun h => le_antisymm h.2 h.1⟩

/-- A rank that tells all values apart. -/
theorem of_injective {γ : Type*} [LinearOrder γ] [DecidableEq α] {rank : α → γ}
    (hrank : Function.Injective rank) (hless : ∀ a b, less a b = decide (rank a < rank b)) :
    StrictWeak less (· == ·) :=
  of_rank rank hless fun a b => by
    rw [Bool.eq_iff_iff, beq_iff_eq, decide_eq_true_iff, hrank.eq_iff]

/-- What separates nothing. -/
theorem const : StrictWeak (fun _ _ : α => false) fun _ _ => true where
  irrefl _ := rfl
  trans _ _ _ h := Bool.noConfusion h
  inseparable_trans _ _ _ _ _ _ _ := ⟨rfl, rfl⟩
  equal_iff _ _ := by simp

/-- Enough for a strict weak order: what is not separated is equal, and equality is transitive. -/
theorem of_equal_trans (irrefl : ∀ a, less a a = false)
    (trans : ∀ a b c, less a b = true → less b c = true → less a c = true)
    (equal_iff : ∀ a b, equal a b = true ↔ less a b = false ∧ less b a = false)
    (equal_trans : ∀ a b c, equal a b = true → equal b c = true → equal a c = true) :
    StrictWeak less equal where
  irrefl := irrefl
  trans := trans
  inseparable_trans a b c h₁ h₂ h₃ h₄ :=
    (equal_iff a c).mp (equal_trans a b c ((equal_iff a b).mpr ⟨h₁, h₂⟩)
      ((equal_iff b c).mpr ⟨h₃, h₄⟩))
  equal_iff := equal_iff

/-- The second parts count if the first are inseparable. -/
theorem lex_iff (h : StrictWeak less equal) {a b : α} {l : Bool} :
    (less a b || (!less b a && l)) = true ↔
      less a b = true ∨ (equal a b = true ∧ l = true) := by
  rw [h.equal_iff]
  cases less a b <;> cases less b a <;> simp

/-- **Pairs**: the first parts decide, or if they are inseparable, the second parts. -/
theorem lex (h : StrictWeak less equal) (h' : StrictWeak less' equal') :
    StrictWeak (fun x y : α × β => less x.1 y.1 || (!less y.1 x.1 && less' x.2 y.2))
      fun x y => equal x.1 y.1 && equal' x.2 y.2 := by
  refine of_equal_trans (fun x => ?_) (fun x y z => ?_) (fun x y => ?_) fun x y z => ?_
  · simp [h.irrefl, h'.irrefl]
  · rw [h.lex_iff, h.lex_iff, h.lex_iff]
    rintro (hxy | ⟨hxy, hxy'⟩) (hyz | ⟨hyz, hyz'⟩)
    · exact .inl (h.trans _ _ _ hxy hyz)
    · exact .inl (h.less_of_less_of_equal hxy hyz)
    · exact .inl (h.less_of_equal_of_less hxy hyz)
    · exact .inr ⟨h.equal_trans hxy hyz, h'.trans _ _ _ hxy' hyz'⟩
  · rw [Bool.and_eq_true, h.equal_iff, h'.equal_iff]
    cases less x.1 y.1 <;> cases less y.1 x.1 <;> simp
  · simp only [Bool.and_eq_true]
    exact fun hxy hyz => ⟨h.equal_trans hxy.1 hyz.1, h'.equal_trans hxy.2 hyz.2⟩

/-! ## Optional values and lists -/

/-- Nothing is before every value. -/
def optionLess (less : α → α → Bool) (v w : Option α) : Bool :=
  match w with
  | some w => match v with
    | some v => less v w
    | none => true
  | none => false

def optionEqual (equal : α → α → Bool) (v w : Option α) : Bool :=
  match w with
  | some w => match v with
    | some v => equal v w
    | none => false
  | none => !v.isSome

/-- **Optional values.** -/
theorem option (h : StrictWeak less equal) :
    StrictWeak (optionLess less) (optionEqual equal) := by
  refine of_equal_trans (fun v => ?_) (fun u v w => ?_) (fun v w => ?_) fun u v w => ?_
  · cases v with
    | none => rfl
    | some v => exact h.irrefl v
  · cases u <;> cases v <;> cases w <;> simp only [optionLess, Bool.false_eq_true, imp_self,
      implies_true, false_imp_iff]
    exact h.trans _ _ _
  · cases v <;> cases w <;> simp [optionLess, optionEqual, h.equal_iff]
  · cases u <;> cases v <;> cases w <;> simp only [optionEqual, Option.isSome_some,
      Option.isSome_none, Bool.not_true, Bool.not_false, Bool.false_eq_true, imp_self,
      implies_true, false_imp_iff]
    exact fun h₁ h₂ => h.equal_trans h₁ h₂

/-- The first place at which two lists differ decides, and a list is before those that go on. -/
def listLess (less : α → α → Bool) : List α → List α → Bool
  | _, [] => false
  | [], _ :: _ => true
  | v :: vs, w :: ws => less v w || (!less w v && listLess less vs ws)

theorem listLess_self (vs : List α) (h : ∀ v ∈ vs, less v v = false) :
    listLess less vs vs = false := by
  induction vs with
  | nil => rfl
  | cons v vs ih =>
    rw [List.forall_mem_cons] at h
    simp [listLess, h.1, ih h.2]

/-- **Lists.** -/
theorem list (h : StrictWeak less equal) :
    StrictWeak (listLess less) fun vs ws => List.isEqv vs ws equal := by
  refine of_equal_trans (fun vs => ?_) (fun us vs ws => ?_) (fun vs ws => ?_) fun us vs ws => ?_
  · exact listLess_self vs fun v _ => h.irrefl v
  · induction us generalizing vs ws with
    | nil => cases vs <;> cases ws <;> simp [listLess]
    | cons u us ih =>
      cases vs with
      | nil => simp [listLess]
      | cons v vs =>
        cases ws with
        | nil => simp [listLess]
        | cons w ws =>
          simp only [listLess, h.lex_iff]
          rintro (huv | ⟨huv, htail⟩) (hvw | ⟨hvw, htail'⟩)
          · exact .inl (h.trans _ _ _ huv hvw)
          · exact .inl (h.less_of_less_of_equal huv hvw)
          · exact .inl (h.less_of_equal_of_less huv hvw)
          · exact .inr ⟨h.equal_trans huv hvw, ih _ _ htail htail'⟩
  · induction vs generalizing ws with
    | nil => cases ws <;> simp [listLess, List.isEqv]
    | cons v vs ih =>
      cases ws with
      | nil => simp [listLess, List.isEqv]
      | cons w ws =>
        rw [List.isEqv, Bool.and_eq_true, h.equal_iff, ih, listLess, listLess]
        cases less v w <;> cases less w v <;> simp
  · induction us generalizing vs ws with
    | nil => cases vs <;> cases ws <;> simp [List.isEqv]
    | cons u us ih =>
      cases vs <;> cases ws <;> simp only [List.isEqv, Bool.and_eq_true, Bool.false_eq_true,
        false_imp_iff, imp_false, implies_true, not_false_eq_true]
      exact fun h₁ h₂ => ⟨h.equal_trans h₁.1 h₂.1, ih _ _ h₁.2 h₂.2⟩

end StrictWeak

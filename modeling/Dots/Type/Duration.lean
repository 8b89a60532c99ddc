import Dots.Type.Chrono

/-!
# What durations say

* `count`: what a part adds to the duration.
* `means_iff`: the views that are read as what they say.
* `writtenSeconds`: the seconds as they are written, of which there are six digits.
* `roundTrips_iff`: the durations that their texts give back.
-/

set_option autoImplicit false

namespace Dots

/-! ## Numbers -/

section Numbers

variable {text rest : List UInt8} {x : ℚ} {b : UInt8}

/-- The number of a part is taken up to its designator. -/
theorem scanDecimal_append (hdigit : symbolDigit 10 b = none) (hpoint : b ≠ 0x2E)
    (text rest : List UInt8) :
    scanDecimal (text ++ b :: rest) = (scanDecimal text).map fun r => (r.1, r.2 ++ b :: rest) := by
  have hwhole := leadingDigits_append_cons hdigit rest text
  have hdrop : (text ++ b :: rest).drop (leadingDigits 10 text).length =
      text.drop (leadingDigits 10 text).length ++ b :: rest :=
    List.drop_append_of_le_length (length_leadingDigits_le 10 text)
  simp only [scanDecimal, hwhole, hdrop]
  generalize leadingDigits 10 text = whole
  rcases text.drop whole.length with _ | ⟨c, left⟩
  · simp only [List.nil_append, List.head?_cons, List.head?_nil, Option.some.injEq, hpoint,
      reduceCtorEq, if_false, and_true]
    split_ifs <;> rfl
  · have hfraction := leadingDigits_append_cons hdigit rest left
    have hleft : (left ++ b :: rest).drop (leadingDigits 10 left).length =
        left.drop (leadingDigits 10 left).length ++ b :: rest :=
      List.drop_append_of_le_length (length_leadingDigits_le 10 left)
    simp only [List.cons_append, List.head?_cons, List.tail_cons, Option.some.injEq]
    by_cases hc : c = 0x2E
    · simp only [hc, if_true, hfraction, hleft]
      split_ifs <;> rfl
    · simp only [hc, if_false, and_true]
      split_ifs <;> rfl

/-- The value of a decimal number is that of its digits before the point and a fraction. -/
theorem decimalValue_spec (h : decimalValue text = some x) :
    scanDecimal text = some (x, []) ∧ 0 ≤ x ∧ ⌊x⌋ = ofDigits 10 (leadingDigits 10 text) := by
  obtain ⟨⟨y, left⟩, hscan, hleft⟩ := Option.bind_eq_some_iff.mp h
  split_ifs at hleft with hend
  obtain rfl := Option.some.inj hleft
  simp only at hend
  subst hend
  refine ⟨hscan, ?_⟩
  simp only [scanDecimal] at hscan
  generalize hfraction : (if (text.drop (leadingDigits 10 text).length).head? = some 0x2E then
    leadingDigits 10 (text.drop (leadingDigits 10 text).length).tail else []) = fraction at hscan
  have hdigits : ∀ d ∈ fraction, d < 10 := by
    intro d hd
    rw [← hfraction] at hd
    split_ifs at hd
    · exact lt_of_mem_leadingDigits hd
    · simp at hd
  split_ifs at hscan with hnone hpoint
  all_goals
    obtain ⟨rfl, -⟩ := Prod.mk.inj (Option.some.inj hscan)
    have hnonneg := fractionValue_nonneg 10 fraction
    have hlt := fractionValue_lt_one (by norm_num) fraction hdigits
    refine ⟨by positivity, ?_⟩
    rw [Int.floor_natCast_add, Int.floor_eq_zero_iff.mpr ⟨hnonneg, hlt⟩, add_zero]

end Numbers

namespace Duration

open DurationUnit

variable {unit : DurationUnit} {units : List DurationUnit} {part number : List UInt8}
  {parts : List (List UInt8)} {m : DurationMatch} {x : ℚ} {r : Option ℚ}

/-! ## What a part adds -/

/-- What a part adds to the duration. -/
def count (unit : DurationUnit) (part : List UInt8) : Except (List UInt8) (Option ℚ) :=
  if part = [] then .ok (some 0)
  else if unit = seconds then (stod part).map castToNanoseconds
  else (parseDuration unit part).map some

def countParts : List DurationUnit → List (List UInt8) → Except (List UInt8) (Option ℚ)
  | unit :: units, part :: parts => do
    let x ← count unit part
    let y ← countParts units parts
    return Option.map₂ (· + ·) x y
  | _, _ => .ok (some 0)

def DurationMatch.count (m : DurationMatch) : Except (List UInt8) (Option ℚ) := do
  let x ← countParts dateUnits m.date
  let y ← countParts timeUnits m.time
  return Option.map₂ (· + ·) x y

theorem bind_bind_eq_ok {ε : Type} {e f : Except ε (Option ℚ)} :
    (do let x ← e
        let y ← f
        return Option.map₂ (· + ·) x y) = .ok r ↔
      ∃ x y, e = .ok x ∧ f = .ok y ∧ r = Option.map₂ (· + ·) x y := by
  rcases e with e | x <;> rcases f with f | y <;>
    simp [bind, Except.bind, pure, Except.pure, eq_comm]

theorem countParts_cons_eq_ok :
    countParts (unit :: units) (part :: parts) = .ok r ↔
      ∃ x y, count unit part = .ok x ∧ countParts units parts = .ok y ∧
        r = Option.map₂ (· + ·) x y :=
  bind_bind_eq_ok

theorem DurationMatch.count_eq_ok : m.count = .ok r ↔
    ∃ x y, countParts dateUnits m.date = .ok x ∧ countParts timeUnits m.time = .ok y ∧
      r = Option.map₂ (· + ·) x y :=
  bind_bind_eq_ok

/-- The units on the side of the time designator where the loop is. -/
def Reading.expected (s : Reading) : List DurationUnit :=
  if s.preTimeDesignator then dateUnits else timeUnits

@[simp]
theorem Reading.add_zero (s : Reading) : s.add (some 0) = s := by
  rcases s with ⟨pre, _ | x⟩ <;> simp [Reading.add]

theorem Reading.add_add (s : Reading) (x y : Option ℚ) :
    (s.add x).add y = s.add (Option.map₂ (· + ·) x y) := by
  rcases s with ⟨pre, _ | z⟩ <;> rcases x with _ | x <;> rcases y with _ | y <;>
    simp [Reading.add, add_assoc]

theorem except_map_map {ε α β γ : Type} (f : α → β) (g : β → γ) (e : Except ε α) :
    e.map (fun x => g (f x)) = (e.map f).map g := by
  cases e <;> rfl

/-- A round of the loop adds what the part of a unit counts. -/
theorem readPart_eq {s : Reading} (hunit : unit ∈ s.expected) (hpart : IsPart unit part) :
    readPart s part = (count unit part).map s.add := by
  rcases hpart with rfl | ⟨number, hne, -, rfl⟩
  · simp [readPart, count, Except.map]
  · have hlast : (number ++ [unit.designator]).getLast? = some unit.designator := by simp
    have hpart : number ++ [unit.designator] ≠ [] := by simp
    rcases s with ⟨pre, duration⟩
    rw [count, if_neg hpart, readPart, hlast]
    cases pre <;> cases unit <;> first
      | (simp [Reading.expected, dateUnits, timeUnits] at hunit; done)
      | exact except_map_map some _ (parseDuration _ _)
      | exact except_map_map castToNanoseconds _ (stod _)

theorem foldlM_readPart (hparts : List.Forall₂ IsPart units parts) {s : Reading}
    (hunits : ∀ unit ∈ units, unit ∈ s.expected) :
    parts.foldlM readPart s = (countParts units parts).map s.add := by
  induction hparts generalizing s with
  | nil => exact congrArg Except.ok s.add_zero.symm
  | @cons unit part units parts hpart _ ih =>
    rw [List.foldlM_cons, readPart_eq (hunits unit List.mem_cons_self) hpart, countParts]
    cases count unit part with
    | error e => rfl
    | ok x =>
      have hrest : parts.foldlM readPart (s.add x) = (countParts units parts).map (s.add x).add :=
        ih fun u hu => hunits u (List.mem_cons_of_mem _ hu)
      have hround : (Except.map s.add (.ok x) >>= fun s => parts.foldlM readPart s) =
          (countParts units parts).map (s.add x).add := hrest
      rw [hround]
      cases countParts units parts with
      | error e => rfl
      | ok y => exact congrArg Except.ok (s.add_add x y)

/-- The loop adds what the parts of a match count. -/
theorem foldlM_parts (hm : m.Formed) :
    ((m.parts.foldlM readPart {}).map fun s => s.duration) = m.count := by
  have hdate := foldlM_readPart (s := {}) hm.date fun _ h => h
  rw [DurationMatch.parts, List.foldlM_append, hdate, DurationMatch.count]
  cases countParts dateUnits m.date with
  | error e => rfl
  | ok x =>
    have htime := foldlM_readPart (s := ⟨false, Option.map₂ (· + ·) (some 0) x⟩) hm.time
      fun _ h => h
    change Except.map _ (m.time.foldlM readPart ⟨false, Option.map₂ (· + ·) (some 0) x⟩) = _
    rw [htime]
    cases hcount : countParts timeUnits m.time with
    | error e => rfl
    | ok y =>
      rcases x with _ | x <;>
        simp [Except.map, Reading.add, bind, Except.bind, pure, Except.pure]

theorem fromString_of_match {value behind : List UInt8} (hvalue : value ≠ ascii "PT0S")
    (hm : m.Formed) (hmatch : regexMatch (cString value behind) = some m) :
    fromString value behind = m.count := by
  rw [fromString, if_neg hvalue, hmatch]
  exact foldlM_parts hm

/-- Fewer parts are read as well. -/
theorem countParts_of_taken {taken : List (List UInt8)}
    (hparts : List.Forall₂ (fun part taken => part = [] ∨ taken = part) parts taken) :
    ∀ {units : List DurationUnit} {r : Option ℚ}, countParts units taken = .ok r →
      ∃ x, countParts units parts = .ok x := by
  induction hparts with
  | nil => exact fun {units r} h => ⟨r, h⟩
  | @cons part taken' parts taken hpart _ ih =>
    intro units r h
    cases units with
    | nil => exact ⟨some 0, rfl⟩
    | cons unit units =>
      obtain ⟨x, y, hcount, hrest, -⟩ := countParts_cons_eq_ok.mp h
      obtain ⟨z, hz⟩ := ih hrest
      rcases hpart with rfl | rfl
      · exact ⟨_, countParts_cons_eq_ok.mpr ⟨some 0, z, if_pos rfl, hz, rfl⟩⟩
      · exact ⟨_, countParts_cons_eq_ok.mpr ⟨x, z, hcount, hz, rfl⟩⟩

/-! ## What is lost of a part -/

theorem isPrefixOf_minus_number (hne : number ≠ [])
    (hnumber : ∀ b ∈ number, isNumberSymbol b = true) (rest : List UInt8) :
    (ascii "-").isPrefixOf (number ++ rest) = false := by
  obtain ⟨b, number, rfl⟩ := List.exists_cons_of_ne_nil hne
  have hb : b ≠ 0x2D := by
    rintro rfl
    exact absurd (hnumber _ List.mem_cons_self) (by decide)
  have hascii : ascii "-" = [0x2D] := rfl
  simpa [hascii, List.isPrefixOf] using fun h => hb h.symm

theorem symbolDigit_designator (unit : DurationUnit) : symbolDigit 10 unit.designator = none := by
  cases unit <;> decide

variable (unit) in
/-- A count is the digits in front of a part. -/
theorem parseDuration_eq_ok (hne : number ≠ []) (hnumber : ∀ b ∈ number, isNumberSymbol b = true) :
    parseDuration unit (number ++ [unit.designator]) = .ok x ↔
      leadingDigits 10 number ≠ [] ∧
        ofDigits 10 (leadingDigits 10 number) < 2 ^ (unit.bits - 1) ∧
        x = ofDigits 10 (leadingDigits 10 number) * unit.length := by
  have hminus := isPrefixOf_minus_number hne hnumber [unit.designator]
  have hdigits := leadingDigits_append_cons (symbolDigit_designator unit) [] number
  simp only [parseDuration, fromCharsSigned, hminus, hdigits, Bool.false_eq_true, if_false]
  generalize leadingDigits 10 number = ds
  have hbits : 0 < unit.bits := by cases unit <;> decide
  have hlow : -2 ^ (unit.bits - 1) ≤ ((ofDigits 10 ds : ℕ) : ℤ) :=
    (neg_nonpos.mpr (by positivity)).trans (Int.natCast_nonneg _)
  by_cases h : ds ≠ [] ∧ ofDigits 10 ds < 2 ^ (unit.bits - 1)
  · have hrange : ((ofDigits 10 ds : ℕ) : ℤ) < 2 ^ (unit.bits - 1) := by exact_mod_cast h.2
    have hvalue := BitVec.toInt_ofInt_eq_self hbits hlow hrange
    rw [if_neg fun hn => hn.elim h.1 fun hn => hn.elim hlow.not_gt hrange.not_ge]
    simp only [hvalue, Except.ok.injEq, Int.cast_natCast]
    exact ⟨fun hx => ⟨h.1, h.2, hx.symm⟩, fun hx => hx.2.2.symm⟩
  · have hnone : ds = [] ∨ ((ofDigits 10 ds : ℕ) : ℤ) < -2 ^ (unit.bits - 1) ∨
        2 ^ (unit.bits - 1) ≤ ((ofDigits 10 ds : ℕ) : ℤ) := by
      by_cases hne : ds = []
      · exact Or.inl hne
      · exact Or.inr (Or.inr (by exact_mod_cast not_lt.mp fun hlt => h ⟨hne, hlt⟩))
    rw [if_pos hnone]
    exact ⟨fun hx => absurd hx (by simp), fun hx => absurd ⟨hx.1, hx.2.1⟩ h⟩

/-- What a part adds is its whole ticks, if there is room for them. -/
theorem count_spec (hpart : IsPart unit part) (hcount : count unit part = .ok r)
    (hvalue : partValue part = some x) :
    0 ≤ x ∧ r = if 2 ^ (unit.bits - 1) ≤ ⌊x * unit.ticks⌋ then none
      else some (⌊x * unit.ticks⌋ / unit.ticks * unit.length) := by
  rcases hpart with rfl | ⟨number, hne, hnumber, rfl⟩
  · obtain rfl := Option.some.inj hvalue
    obtain rfl := Except.ok.inj hcount
    refine ⟨le_rfl, ?_⟩
    rw [zero_mul, Int.floor_zero, if_neg (by simp)]
    simp
  · have hpart : number ++ [unit.designator] ≠ [] := by simp
    rw [partValue, if_neg hpart, List.dropLast_concat] at hvalue
    obtain ⟨hscan, hnonneg, hfloor⟩ := decimalValue_spec hvalue
    refine ⟨hnonneg, ?_⟩
    rw [count, if_neg hpart] at hcount
    split_ifs at hcount with hunit
    · subst hunit
      have hpoint : seconds.designator ≠ 0x2E := by decide
      have hall := scanDecimal_append (symbolDigit_designator seconds) hpoint number []
      rw [hscan] at hall
      simp only [stod, hall, Option.map_some] at hcount
      split_ifs at hcount with hlimit
      · simp [Except.map] at hcount
      · obtain rfl := Except.ok.inj hcount
        rw [castToNanoseconds]
        simp [length]
    · cases hparse : parseDuration unit (number ++ [unit.designator]) with
      | error e => simp [hparse, Except.map] at hcount
      | ok y =>
        obtain ⟨-, hlt, rfl⟩ := (parseDuration_eq_ok unit hne hnumber).mp hparse
        rw [hparse] at hcount
        obtain rfl := Except.ok.inj hcount
        have hticks : unit.ticks = 1 := by cases unit <;> first | rfl | exact absurd rfl hunit
        rw [hticks, Nat.cast_one, mul_one, hfloor, if_neg (by exact_mod_cast hlt.not_ge)]
        simp

/-- A part never adds more than it says, and says it all if it is kept. -/
theorem count_kept (hpart : IsPart unit part) (hcount : count unit part = .ok r)
    (hvalue : partValue part = some x) :
    (∀ y, r = some y → y ≤ x * unit.length) ∧ (r = some (x * unit.length) ↔ Kept unit part) := by
  obtain ⟨hnonneg, hr⟩ := count_spec hpart hcount hvalue
  have hticks : (0 : ℚ) < unit.ticks := by cases unit <;> norm_num [ticks]
  have hlength : 0 < unit.length := by cases unit <;> norm_num [length]
  have hfloor : (0 : ℤ) ≤ ⌊x * unit.ticks⌋ := Int.floor_nonneg.mpr (by positivity)
  have hle : (⌊x * unit.ticks⌋ : ℚ) / unit.ticks ≤ x :=
    (div_le_iff₀ hticks).mpr (Int.floor_le _)
  constructor
  · rintro y rfl
    split_ifs at hr
    rw [Option.some.inj hr]
    exact mul_le_mul_of_nonneg_right hle hlength.le
  · constructor
    · rintro rfl
      split_ifs at hr with hlimit
      have hx : x = ⌊x * unit.ticks⌋ / unit.ticks :=
        mul_right_cancel₀ hlength.ne' (Option.some.inj hr)
      refine ⟨⌊x * unit.ticks⌋.toNat, by zify; omega, ?_⟩
      have hcast : ((⌊x * unit.ticks⌋.toNat : ℕ) : ℚ) = (⌊x * unit.ticks⌋ : ℤ) := by
        exact_mod_cast Int.toNat_of_nonneg hfloor
      rw [hvalue, hcast, ← hx]
    · rintro ⟨n, hn, hkept⟩
      obtain rfl := Option.some.inj (hvalue.symm.trans hkept)
      rw [hr, div_mul_cancel₀ _ hticks.ne', Int.floor_natCast,
        if_neg (by exact_mod_cast hn.not_ge), Int.cast_natCast]

/-- A sum is exact only if its terms are, where none of them is too large. -/
theorem map₂_add_kept {r₁ r₂ : Option ℚ} {x₁ x₂ : ℚ} (h₁ : ∀ y, r₁ = some y → y ≤ x₁)
    (h₂ : ∀ y, r₂ = some y → y ≤ x₂) :
    (∀ y, Option.map₂ (· + ·) r₁ r₂ = some y → y ≤ x₁ + x₂) ∧
      (Option.map₂ (· + ·) r₁ r₂ = some (x₁ + x₂) ↔ r₁ = some x₁ ∧ r₂ = some x₂) := by
  cases r₁ with
  | none => simp
  | some y₁ =>
    cases r₂ with
    | none => simp
    | some y₂ =>
      have hle₁ := h₁ y₁ rfl
      have hle₂ := h₂ y₂ rfl
      simp only [Option.map₂_some_some, Option.some.injEq, forall_eq']
      refine ⟨add_le_add hle₁ hle₂, fun h => ⟨?_, ?_⟩, fun h => by rw [h.1, h.2]⟩ <;> linarith

theorem countParts_kept (hparts : List.Forall₂ IsPart units parts) :
    ∀ {r : Option ℚ} {x : ℚ}, countParts units parts = .ok r → sumOfParts units parts = some x →
      (∀ y, r = some y → y ≤ x) ∧ (r = some x ↔ List.Forall₂ Kept units parts) := by
  induction hparts with
  | nil =>
    intro r x hcount hsum
    obtain rfl := Except.ok.inj hcount
    obtain rfl := Option.some.inj hsum
    exact ⟨fun y hy => (Option.some.inj hy).ge, iff_of_true rfl .nil⟩
  | @cons unit part units parts hpart _ ih =>
    intro r x hcount hsum
    obtain ⟨r₁, r₂, hfirst, hrest, rfl⟩ := countParts_cons_eq_ok.mp hcount
    obtain ⟨x₁, hx₁, hsum⟩ := Option.bind_eq_some_iff.mp hsum
    obtain ⟨x₂, hx₂, hsum⟩ := Option.bind_eq_some_iff.mp hsum
    obtain rfl := Option.some.inj hsum
    obtain ⟨hle₁, hkept₁⟩ := count_kept hpart hfirst hx₁
    obtain ⟨hle₂, hkept₂⟩ := ih hrest hx₂
    rw [List.forall₂_cons, ← hkept₁, ← hkept₂]
    exact map₂_add_kept hle₁ hle₂

theorem meaning_text (hm : m.Formed) : meaning m.text = some x ↔
    ∃ x₁ x₂, sumOfParts dateUnits m.date = some x₁ ∧ sumOfParts timeUnits m.time = some x₂ ∧
      x = x₁ + x₂ := by
  rw [meaning, hm.regexMatch, Option.bind_eq_bind, Option.bind_some]
  cases sumOfParts dateUnits m.date <;> cases sumOfParts timeUnits m.time <;> simp [eq_comm]

/-- **A match counts what it says exactly if each part is kept.** -/
theorem DurationMatch.count_kept (hm : m.Formed) (hcount : m.count = .ok r)
    (hmeaning : meaning m.text = some x) :
    r = some x ↔ List.Forall₂ Kept dateUnits m.date ∧ List.Forall₂ Kept timeUnits m.time := by
  obtain ⟨x₁, x₂, hx₁, hx₂, rfl⟩ := (meaning_text hm).mp hmeaning
  obtain ⟨r₁, r₂, hdate, htime, rfl⟩ := count_eq_ok.mp hcount
  obtain ⟨hle₁, hkept₁⟩ := countParts_kept hm.date hdate hx₁
  obtain ⟨hle₂, hkept₂⟩ := countParts_kept hm.time htime hx₂
  rw [← hkept₁, ← hkept₂]
  exact (map₂_add_kept hle₁ hle₂).2

theorem exists_sumOfParts (hparts : List.Forall₂ Kept units parts) :
    ∃ x, sumOfParts units parts = some x := by
  induction hparts with
  | nil => exact ⟨0, rfl⟩
  | cons hpart _ ih =>
    obtain ⟨n, -, hn⟩ := hpart
    obtain ⟨y, hy⟩ := ih
    exact ⟨_, by rw [sumOfParts, hn, hy]; rfl⟩

/-! ## Views -/

variable {value behind : List UInt8}

/-- The symbols of numbers and those behind them. -/
def IsPartSymbol (b : UInt8) : Prop := isNumberSymbol b = true ∨ ∃ unit : DurationUnit,
  b = unit.designator

theorem IsPartSymbol.ne {b : UInt8} (h : IsPartSymbol b) : b ≠ 0 ∧ b ≠ 0x65 := by
  rcases h with h | ⟨unit, rfl⟩
  · constructor
    · rintro rfl
      exact absurd h (by decide)
    · rintro rfl
      exact absurd h (by decide)
  · cases unit <;> decide

theorem IsPart.symbol (hpart : IsPart unit part) {b : UInt8} (hb : b ∈ part) : IsPartSymbol b := by
  rcases hpart with rfl | ⟨number, -, hnumber, rfl⟩
  · simp at hb
  · rcases List.mem_append.mp hb with hb | hb
    · exact Or.inl (hnumber b hb)
    · exact Or.inr ⟨unit, List.mem_singleton.mp hb⟩

theorem symbol_of_mem_flatten (hparts : List.Forall₂ IsPart units parts) {b : UInt8}
    (hb : b ∈ parts.flatten) : IsPartSymbol b := by
  induction hparts with
  | nil => simp at hb
  | cons hpart _ ih =>
    rw [List.flatten_cons, List.mem_append] at hb
    exact hb.elim hpart.symbol ih

/-- A text that matches has no end of a string in it, and no exponent. -/
theorem ne_of_mem_text (hm : m.Formed) {b : UInt8} (hb : b ∈ m.text) : b ≠ 0 ∧ b ≠ 0x65 := by
  rw [DurationMatch.text, List.mem_cons, List.mem_append, List.mem_cons] at hb
  rcases hb with rfl | hb | rfl | hb
  · decide
  · exact (symbol_of_mem_flatten hm.date hb).ne
  · decide
  · exact (symbol_of_mem_flatten hm.time hb).ne

/-- The memory behind a text that matches is read as well. -/
theorem cString_text (hm : m.Formed) (behind : List UInt8) :
    cString m.text behind = m.text ++ behind.takeWhile (· ≠ 0) :=
  List.takeWhile_append_of_pos fun b hb => by simpa using (ne_of_mem_text hm hb).1

theorem fromString_eq_ok (hvalue : value ≠ ascii "PT0S") (h : fromString value behind = .ok r) :
    ∃ m, m.Formed ∧ regexMatch (cString value behind) = some m ∧ m.count = .ok r := by
  cases hmatch : regexMatch (cString value behind) with
  | none => simp [fromString, hvalue, hmatch] at h
  | some m =>
    have hm := (regexMatch_eq_some_iff.mp hmatch).1
    exact ⟨m, hm, rfl, fromString_of_match hvalue hm hmatch ▸ h⟩

/-- The text that is not matched stands for what its parts count. -/
theorem count_of_text_eq (hm : m.Formed) (htext : m.text = ascii "PT0S") :
    m.count = .ok (some 0) := by
  have hzero : regexMatch (ascii "PT0S") = some ⟨[[], [], [], []], [[], [], ascii "0S"]⟩ := rfl
  rw [← htext, hm.regexMatch] at hzero
  rw [Option.some.inj hzero]
  decide +kernel

theorem fromString_text (hm : m.Formed) : fromString m.text [] = m.count := by
  by_cases hvalue : m.text = ascii "PT0S"
  · rw [fromString, if_pos hvalue, count_of_text_eq hm hvalue]
  · refine fromString_of_match hvalue hm ?_
    rw [cString_text hm, List.takeWhile_nil, List.append_nil]
    exact hm.regexMatch

theorem DurationMatch.Formed.time_eq (hm : m.Formed) : ∃ hour minute second,
    IsPart hours hour ∧ IsPart minutes minute ∧ IsPart seconds second ∧
      m.time = [hour, minute, second] := by
  obtain ⟨hour, left, hhour, hleft, htime⟩ := List.forall₂_cons_left_iff.mp hm.time
  obtain ⟨minute, left', hminute, hleft', rfl⟩ := List.forall₂_cons_left_iff.mp hleft
  obtain ⟨second, left'', hsecond, hnil, rfl⟩ := List.forall₂_cons_left_iff.mp hleft'
  obtain rfl := List.forall₂_nil_left_iff.mp hnil
  exact ⟨hour, minute, second, hhour, hminute, hsecond, htime⟩

/-- A second behind a text without seconds is read as a part of it. -/
theorem fromString_second (hvalue : m.text ≠ ascii "PT0S") (hm : m.Formed)
    (hseconds : m.time.getLast? = some []) (hcount : m.count = .ok (some x)) :
    fromString m.text (ascii "1S") = .ok (some (x + 1)) := by
  obtain ⟨hour, minute, second, hhour, hminute, -, htime⟩ := hm.time_eq
  obtain rfl : second = [] := by simpa [htime] using hseconds
  have hsecond : IsPart seconds (ascii "1S") :=
    Or.inr ⟨ascii "1", by decide +kernel, by decide +kernel, by decide +kernel⟩
  let m' : DurationMatch := ⟨m.date, [hour, minute, ascii "1S"]⟩
  have hm' : m'.Formed := ⟨hm.date, .cons hhour (.cons hminute (.cons hsecond .nil))⟩
  have htext : cString m.text (ascii "1S") = m'.text := by
    have hbehind : (ascii "1S").takeWhile (· ≠ 0) = ascii "1S" := by decide
    rw [cString_text hm, hbehind, DurationMatch.text, DurationMatch.text, htime]
    simp [m']
  rw [fromString_of_match hvalue hm' (htext ▸ hm'.regexMatch)]
  obtain ⟨x₁, x₂, hdate, htimes, hx⟩ := DurationMatch.count_eq_ok.mp hcount
  rw [htime] at htimes
  obtain ⟨y₁, z₁, hy₁, hz₁, rfl⟩ := countParts_cons_eq_ok.mp htimes
  obtain ⟨y₂, z₂, hy₂, hz₂, rfl⟩ := countParts_cons_eq_ok.mp hz₁
  obtain ⟨y₃, z₃, hy₃, hz₃, rfl⟩ := countParts_cons_eq_ok.mp hz₂
  obtain rfl := Except.ok.inj hy₃
  obtain rfl := Except.ok.inj hz₃
  have hone : count seconds (ascii "1S") = .ok (some 1) := by decide +kernel
  refine DurationMatch.count_eq_ok.mpr ⟨x₁, _, hdate, countParts_cons_eq_ok.mpr ⟨y₁, _, hy₁,
    countParts_cons_eq_ok.mpr ⟨y₂, _, hy₂, countParts_cons_eq_ok.mpr ⟨some 1, some 0, hone, rfl,
      rfl⟩, rfl⟩, rfl⟩, ?_⟩
  rcases x₁ with _ | x₁ <;> rcases y₁ with _ | y₁ <;> rcases y₂ with _ | y₂ <;> simp at hx ⊢
  rw [hx]
  ring

/-- **The views that stand for what they say**, whatever is behind them. -/
theorem means_iff (haccepted : Accepted value) :
    Means value ↔ value = ascii "PT0S" ∨ Exact value := by
  constructor
  · intro hmeans
    by_cases hvalue : value = ascii "PT0S"
    · exact Or.inl hvalue
    right
    obtain ⟨behind, r, hr⟩ := haccepted
    obtain ⟨x, rfl, hmeaning⟩ := hmeans behind r hr
    obtain ⟨m, hmatch, -⟩ := Option.bind_eq_some_iff.mp hmeaning
    obtain ⟨hm, rfl⟩ := regexMatch_eq_some_iff.mp hmatch
    -- the parts of the view are read again where nothing is behind it
    obtain ⟨m', -, hmatch', hcount'⟩ := fromString_eq_ok hvalue hr
    rw [cString_text hm] at hmatch'
    obtain ⟨hdate, htime⟩ := regexMatch_append_some hm hmatch'
    obtain ⟨x₁, x₂, hx₁, hx₂, -⟩ := DurationMatch.count_eq_ok.mp hcount'
    obtain ⟨y₂, hy₂⟩ := countParts_of_taken htime hx₂
    have hcount : m.count = .ok (Option.map₂ (· + ·) x₁ y₂) :=
      DurationMatch.count_eq_ok.mpr ⟨x₁, y₂, hdate ▸ hx₁, hy₂, rfl⟩
    obtain ⟨y, hy, hmeaning'⟩ := hmeans [] _ ((fromString_text hm).trans hcount)
    rw [hy] at hcount
    have hkept := (DurationMatch.count_kept hm hcount hmeaning').mp rfl
    have hseconds : m.time.getLast? ≠ some [] := by
      intro hseconds
      obtain ⟨z, hz, hmeaning''⟩ := hmeans _ _ (fromString_second hvalue hm hseconds hcount)
      have hyz : y = z := Option.some.inj (hmeaning'.symm.trans hmeaning'')
      have hadd : y + 1 = z := Option.some.inj hz
      linarith
    exact ⟨m, hmatch, hseconds, hkept⟩
  · intro h behind r hr
    by_cases hvalue : value = ascii "PT0S"
    · subst hvalue
      obtain rfl := Except.ok.inj hr
      exact ⟨0, rfl, by decide +kernel⟩
    · obtain ⟨m, hmatch, hseconds, hdate, htime⟩ := h.resolve_left hvalue
      obtain ⟨hm, rfl⟩ := regexMatch_eq_some_iff.mp hmatch
      obtain ⟨x₁, hx₁⟩ := exists_sumOfParts hdate
      obtain ⟨x₂, hx₂⟩ := exists_sumOfParts htime
      have hmeaning := (meaning_text hm).mpr ⟨x₁, x₂, hx₁, hx₂, rfl⟩
      obtain ⟨m', -, hmatch', hcount⟩ := fromString_eq_ok hvalue hr
      rw [cString_text hm] at hmatch'
      by_cases hne : behind.takeWhile (· ≠ 0) = []
      · rw [hne, List.append_nil, hmatch] at hmatch'
        obtain rfl := Option.some.inj hmatch'
        exact ⟨_, (DurationMatch.count_kept hm hcount hmeaning).mpr ⟨hdate, htime⟩, hmeaning⟩
      · rw [regexMatch_append_seconds hm hseconds hne] at hmatch'
        contradiction

/-! ## Texts of durations -/

/-- The text of a count, which is missing if there is nothing to count. -/
def unitText (unit : DurationUnit) (n : ℕ) : List UInt8 :=
  if n = 0 then [] else toChars 10 n ++ [unit.designator]

/-- The text of the seconds. -/
def secondsText (x : ℚ) : List UInt8 :=
  if x = 0 then [] else streamText x ++ [seconds.designator]

theorem toChars_natCast (n : ℕ) : toChars 10 n = (toDigits 10 64 n).map digitSymbol := by
  rw [toChars, if_neg (by omega), Int.natAbs_natCast]
  rfl

theorem isNumberSymbol_digitSymbol {d : ℕ} (hd : d < 10) :
    isNumberSymbol (digitSymbol d) = true := by
  interval_cases d <;> decide

theorem isNumberSymbol_of_mem_map {ds : List ℕ} (hds : ∀ d ∈ ds, d < 10) {b : UInt8}
    (hb : b ∈ ds.map digitSymbol) : isNumberSymbol b = true := by
  obtain ⟨d, hd, rfl⟩ := List.mem_map.mp hb
  exact isNumberSymbol_digitSymbol (hds d hd)

theorem isPart_unitText (unit : DurationUnit) (n : ℕ) : IsPart unit (unitText unit n) := by
  rw [unitText]
  split_ifs
  · exact Or.inl rfl
  · refine Or.inr ⟨toChars 10 n, ?_, fun b hb => ?_, rfl⟩
    · simpa [toChars_natCast] using toDigits_ne_nil 63 n
    · rw [toChars_natCast] at hb
      exact isNumberSymbol_of_mem_map (lt_of_mem_toDigits (by norm_num) 64 n) hb

theorem count_unitText (hunit : unit ≠ seconds) {n : ℕ} (hn : n < 2 ^ (unit.bits - 1)) :
    count unit (unitText unit n) = .ok (some (n * unit.length)) := by
  by_cases hzero : n = 0
  · subst hzero
    simp [unitText, count]
  · have hbits : unit.bits - 1 ≤ 64 := by cases unit <;> decide
    have hlt : n < 2 ^ 64 := hn.trans_le (Nat.pow_le_pow_right (by norm_num) hbits)
    have hend : TextReader.NumberEnd [] := by simp [TextReader.NumberEnd]
    obtain ⟨hdigits, hvalue⟩ := TextReader.toDigits_spec (by norm_num : 2 ≤ 10) le_rfl hlt hend
    rw [List.append_nil] at hdigits
    have hpart := isPart_unitText unit n
    rw [unitText, if_neg hzero] at hpart ⊢
    have hne : toChars 10 n ++ [unit.designator] ≠ [] := by simp
    obtain ⟨number, hnumber, hsymbols, heq⟩ := hpart.resolve_left hne
    obtain rfl : toChars 10 n = number := List.append_cancel_right heq
    have hparse := (parseDuration_eq_ok unit (x := n * unit.length) hnumber hsymbols).mpr
    rw [toChars_natCast, hdigits, hvalue] at hparse
    have hok := hparse ⟨toDigits_ne_nil 63 n, hn, rfl⟩
    rw [count, if_neg hne, if_neg hunit, toChars_natCast, hok]
    rfl

/-- A number of nanoseconds. -/
def WholeNanoseconds (x : ℚ) : Prop := ∃ n : ℤ, x * 10 ^ 9 = n

theorem mem_fractionDigits_lt (x : ℚ) :
    ∀ d ∈ fractionDigits 10 9 (Int.fract x), d < 10 :=
  lt_of_mem_fractionDigits (by norm_num) 9 (Int.fract_lt_one x)

theorem isNumberSymbol_decimalText {b : UInt8} (hb : b ∈ decimalText x) (hx : 0 ≤ x) :
    isNumberSymbol b = true := by
  rw [decimalText, List.mem_append, ← Int.toNat_of_nonneg (Int.floor_nonneg.mpr hx),
    toChars_natCast] at hb
  rcases hb with hb | hb
  · exact isNumberSymbol_of_mem_map (lt_of_mem_toDigits (by norm_num) 64 _) hb
  · split_ifs at hb
    · simp at hb
    · rcases List.mem_cons.mp hb with rfl | hb
      · rfl
      · exact isNumberSymbol_of_mem_map (mem_fractionDigits_lt x) hb

theorem fractionValue_of_wholeNanoseconds (h : WholeNanoseconds x) :
    fractionValue 10 (fractionDigits 10 9 (Int.fract x)) = Int.fract x := by
  obtain ⟨n, hn⟩ := h
  have hends : Int.fract x * ((10 : ℕ) : ℚ) ^ 9 = ((n - ⌊x⌋ * 10 ^ 9 : ℤ) : ℚ) := by
    push_cast
    rw [← hn, Int.fract]
    ring
  exact fractionValue_fractionDigits (by norm_num) 9 (Int.fract_nonneg x) (Int.fract_lt_one x)
    hends

/-- The text of a number of nanoseconds stands for it. -/
theorem scanDecimal_decimalText (hx : 0 ≤ x) (hlt : x < 2 ^ 64) (h : WholeNanoseconds x) :
    scanDecimal (decimalText x) = some (x, []) := by
  have hfraction := fractionValue_of_wholeNanoseconds h
  have hdigits := mem_fractionDigits_lt x
  have hnonneg : (⌊x⌋.toNat : ℤ) = ⌊x⌋ := Int.toNat_of_nonneg (Int.floor_nonneg.mpr hx)
  have hsum : ((⌊x⌋.toNat : ℕ) : ℚ) + Int.fract x = x := by
    have hcast : ((⌊x⌋.toNat : ℕ) : ℚ) = (⌊x⌋ : ℤ) := by exact_mod_cast hnonneg
    rw [hcast, Int.floor_add_fract]
  have hfloor : ⌊x⌋.toNat < 2 ^ 64 := by
    have : ⌊x⌋ < 2 ^ 64 := Int.floor_lt.mpr (by exact_mod_cast hlt)
    omega
  have htext : toChars 10 ⌊x⌋ = (toDigits 10 64 ⌊x⌋.toNat).map digitSymbol := by
    rw [← toChars_natCast, hnonneg]
  have hend : TextReader.NumberEnd [] := by simp [TextReader.NumberEnd]
  obtain ⟨hwhole, hvalue⟩ := TextReader.toDigits_spec (by norm_num : 2 ≤ 10) le_rfl hfloor hend
  have hne : toDigits 10 64 ⌊x⌋.toNat ≠ [] := toDigits_ne_nil 63 _
  rw [List.append_nil] at hwhole
  rw [decimalText, htext]
  generalize fractionDigits 10 9 (Int.fract x) = fraction at hfraction hdigits
  generalize toDigits 10 64 ⌊x⌋.toNat = whole at hwhole hvalue hne
  by_cases hempty : fraction = []
  · subst hempty
    have hdrop : (whole.map digitSymbol).drop whole.length = [] := by simp
    simp only [if_true, List.append_nil, scanDecimal, hwhole, hdrop, hvalue]
    rw [if_neg fun h => hne h.1]
    simp only [List.head?_nil, reduceCtorEq, if_false, hfraction, hsum]
  · have hread : leadingDigits 10 (whole.map digitSymbol ++ 0x2E :: fraction.map digitSymbol) =
        whole := by
      rw [leadingDigits_append_cons (by decide), hwhole]
    have hdrop : (whole.map digitSymbol ++ 0x2E :: fraction.map digitSymbol).drop whole.length =
        0x2E :: fraction.map digitSymbol := by
      rw [List.drop_append_of_le_length (by simp)]
      simp
    have htail := leadingDigits_append le_rfl hend fraction hdigits
    rw [List.append_nil] at htail
    have hleft : (fraction.map digitSymbol).drop fraction.length = [] := by simp
    simp only [hempty, if_false, scanDecimal, hread, hdrop, List.head?_cons, if_true,
      List.tail_cons, htail, hleft, hvalue]
    rw [if_neg fun h => hne h.1, hfraction, hsum]

/-! ### The seconds -/

/-- The seconds as they are written. -/
def writtenSeconds (x : ℚ) : ℚ := roundSignificant 10 streamPrecision x

theorem writtenSeconds_zero : writtenSeconds 0 = 0 := by
  have hzero : roundHalfEven 0 = 0 := by simpa using roundHalfEven_intCast 0
  rw [writtenSeconds, roundSignificant, zero_div, hzero, Int.cast_zero, zero_mul]

/-- What is written of less than a minute is no more than a hundred. -/
theorem writtenSeconds_mem (hx : 0 < x) (hlt : x < 60) :
    0 < writtenSeconds x ∧ writtenSeconds x ≤ 100 := by
  obtain ⟨hlow, hhigh⟩ := roundSignificant_mem (by norm_num : 1 < 10)
    (by norm_num [streamPrecision] : 0 < streamPrecision) hx
  have hone : (1 : ℚ) < (10 : ℕ) := by norm_num
  have hlog : Int.log 10 x < 2 := by
    refine (Int.lt_zpow_iff_log_lt (R := ℚ) (by norm_num) hx).mp ?_
    norm_num
    linarith
  refine ⟨(zpow_pos (by norm_num) _).trans_le hlow, hhigh.trans ?_⟩
  calc (((10 : ℕ) : ℚ)) ^ (Int.log 10 x + 1) ≤ ((10 : ℕ) : ℚ) ^ (2 : ℤ) :=
        zpow_le_zpow_right₀ hone.le (by omega)
    _ = 100 := by norm_num

/-- It is a number of nanoseconds unless it is very small. -/
theorem wholeNanoseconds_writtenSeconds (hx : 0 < x) (h : 1 / 10 ^ 4 ≤ writtenSeconds x) :
    WholeNanoseconds (writtenSeconds x) := by
  by_cases hlog : -4 ≤ Int.log 10 x
  · obtain ⟨k, hk⟩ : ∃ k : ℕ, (k : ℤ) = Int.log 10 x + 4 := ⟨(Int.log 10 x + 4).toNat, by omega⟩
    have hplace : lastPlace 10 streamPrecision x * 10 ^ 9 = (10 ^ k : ℤ) := by
      push_cast
      rw [lastPlace, Nat.cast_ofNat, ← zpow_natCast, ← zpow_natCast,
        ← zpow_add₀ (by norm_num : (10 : ℚ) ≠ 0), hk, streamPrecision]
      congr 1
      push_cast
      ring
    refine ⟨roundHalfEven (x / lastPlace 10 streamPrecision x) * 10 ^ k, ?_⟩
    rw [writtenSeconds, roundSignificant, mul_assoc, hplace]
    push_cast
    rfl
  · have hhigh : writtenSeconds x ≤ 1 / 10 ^ 4 := by
      refine (roundSignificant_mem (by norm_num : 1 < 10)
        (by norm_num [streamPrecision] : 0 < streamPrecision) hx).2.trans ?_
      calc (((10 : ℕ) : ℚ)) ^ (Int.log 10 x + 1) ≤ ((10 : ℕ) : ℚ) ^ (-4 : ℤ) :=
            zpow_le_zpow_right₀ (by norm_num) (by omega)
        _ = 1 / 10 ^ 4 := by norm_num [zpow_neg]
    refine ⟨10 ^ 5, ?_⟩
    rw [le_antisymm hhigh h]
    norm_num

theorem streamText_eq_decimalText (hx : 0 < x) (hlt : x < 60)
    (h : 1 / 10 ^ 4 ≤ writtenSeconds x) : streamText x = decimalText (writtenSeconds x) := by
  obtain ⟨hpos, hle⟩ := writtenSeconds_mem hx hlt
  have hlow : -4 ≤ Int.log 10 (writtenSeconds x) := by
    refine (Int.zpow_le_iff_le_log (R := ℚ) (by norm_num) hpos).mp (le_trans ?_ h)
    norm_num [zpow_neg]
  have hhigh : Int.log 10 (writtenSeconds x) < streamPrecision := by
    refine (Int.lt_zpow_iff_log_lt (R := ℚ) (by norm_num) hpos).mp (hle.trans_lt ?_)
    norm_num [streamPrecision]
  exact if_pos ⟨hlow, hhigh⟩

/-- Less than a ten thousandth of a second has an exponent. -/
theorem streamText_eq_exponent (hx : 0 < x) (hlt : x < 60)
    (h : writtenSeconds x < 1 / 10 ^ 4) :
    ∃ mantissa exponent, 0 ≤ mantissa ∧ streamText x = decimalText mantissa ++ 0x65 :: exponent := by
  have hpos := (writtenSeconds_mem hx hlt).1
  have hlog : Int.log 10 (writtenSeconds x) < -4 := by
    refine (Int.lt_zpow_iff_log_lt (R := ℚ) (by norm_num) hpos).mp (h.trans_le ?_)
    norm_num [zpow_neg]
  have hmantissa : 0 ≤ writtenSeconds x / 10 ^ Int.log 10 (writtenSeconds x) :=
    (div_pos hpos (zpow_pos (by norm_num) _)).le
  have htext : streamText x = _ := if_neg fun hin => hin.1.not_gt hlog
  simp only [List.append_assoc] at htext
  exact ⟨_, _, hmantissa, htext⟩

theorem isPart_secondsText (hx : 0 ≤ x) (hlt : x < 60)
    (h : x = 0 ∨ 1 / 10 ^ 4 ≤ writtenSeconds x) : IsPart seconds (secondsText x) := by
  rw [secondsText]
  split_ifs with hzero
  · exact Or.inl rfl
  · have hpos := hx.lt_of_ne' hzero
    have hnonneg := (writtenSeconds_mem hpos hlt).1.le
    rw [streamText_eq_decimalText hpos hlt (h.resolve_left hzero)]
    refine Or.inr ⟨_, ?_, fun b hb => isNumberSymbol_decimalText hb hnonneg, rfl⟩
    rw [decimalText, ← Int.toNat_of_nonneg (Int.floor_nonneg.mpr hnonneg), toChars_natCast]
    simpa using fun h => absurd h (toDigits_ne_nil 63 _)

theorem hundred_lt_stodLimit : 100 < stodLimit := by
  have hpow : (1 : ℚ) ≤ 2 ^ 970 := one_le_pow₀ (by norm_num)
  calc (100 : ℚ) < (2 ^ 54 - 1) * 1 := by norm_num
    _ ≤ (2 ^ 54 - 1) * 2 ^ 970 := mul_le_mul_of_nonneg_left hpow (by norm_num)

theorem castToNanoseconds_eq (hle : x ≤ 100) (h : WholeNanoseconds x) :
    castToNanoseconds x = some x := by
  obtain ⟨n, hn⟩ := h
  have hticks : x * seconds.ticks = n := by
    rw [← hn]
    norm_num [ticks]
  have hrange : n < 2 ^ (seconds.bits - 1) := by
    have hcast : (n : ℚ) ≤ 100 * 10 ^ 9 := by linarith
    have hint : n ≤ 100 * 10 ^ 9 := by exact_mod_cast hcast
    exact hint.trans_lt (by norm_num [bits])
  have hne : (seconds.ticks : ℚ) ≠ 0 := by norm_num [ticks]
  rw [castToNanoseconds, hticks, Int.floor_intCast]
  simp only [hrange.not_ge, if_false, Option.some.injEq]
  rw [← hticks, mul_div_cancel_right₀ _ hne]

/-- The seconds are read as they are written. -/
theorem count_secondsText (hx : 0 ≤ x) (hlt : x < 60)
    (h : x = 0 ∨ 1 / 10 ^ 4 ≤ writtenSeconds x) :
    count seconds (secondsText x) = .ok (some (writtenSeconds x)) := by
  rw [secondsText]
  split_ifs with hzero
  · rw [hzero, writtenSeconds_zero]
    rfl
  · have hpos := hx.lt_of_ne' hzero
    have hsmall := h.resolve_left hzero
    have hwhole := wholeNanoseconds_writtenSeconds hpos hsmall
    obtain ⟨hwritten, hle⟩ := writtenSeconds_mem hpos hlt
    rw [streamText_eq_decimalText hpos hlt hsmall]
    have hscan := scanDecimal_decimalText hwritten.le (hle.trans_lt (by norm_num)) hwhole
    have hall := scanDecimal_append (symbolDigit_designator seconds) (by decide)
      (decimalText (writtenSeconds x)) []
    rw [hscan] at hall
    have hlimit : ¬stodLimit ≤ writtenSeconds x := (hle.trans_lt hundred_lt_stodLimit).not_ge
    have hne : decimalText (writtenSeconds x) ++ [seconds.designator] ≠ [] := by simp
    rw [count, if_neg hne, if_pos rfl, stod, hall]
    simp only [Option.map_some, if_neg hlimit, Except.map]
    exact congrArg Except.ok (castToNanoseconds_eq hle hwhole)

/-- All of the seconds is written, where there are less than sixty. -/
theorem streamed_iff (hx : 0 < x) (hlt : x < 60) :
    Streamed x ↔ 1 / 10 ^ 4 ≤ writtenSeconds x ∧ writtenSeconds x = x := by
  have hdigits := roundSignificant_eq_self_iff (n := streamPrecision) (by norm_num : 1 < 10) hx
    (by norm_num [streamPrecision]; linarith)
  rw [Streamed, writtenSeconds, hdigits]
  simp only [Nat.cast_ofNat]
  constructor
  · rintro ⟨hlow, hshort⟩
    have heq := hdigits.mpr hshort
    exact ⟨heq.symm ▸ hlow, hshort⟩
  · rintro ⟨hlow, hshort⟩
    have heq := hdigits.mpr hshort
    exact ⟨heq ▸ hlow, hshort⟩

/-! ## Durations that are given back -/

variable (unit) in
/-- A unit is counted, and what is left is less than another one. -/
theorem floorToString_eq {s : Written} (hdur : 0 ≤ s.duration)
    (hrange : s.duration < 2 ^ (unit.bits - 1) * unit.length) :
    ∃ n : ℕ, n < 2 ^ (unit.bits - 1) ∧ 0 ≤ s.duration - n * unit.length ∧
      s.duration - n * unit.length < unit.length ∧
      floorToString s unit =
        some ⟨s.text ++ unitText unit n, s.duration - n * unit.length⟩ := by
  have hlength : 0 < unit.length := by cases unit <;> norm_num [length]
  have hnonneg : 0 ≤ ⌊s.duration / unit.length⌋ := Int.floor_nonneg.mpr (by positivity)
  have hlt : ⌊s.duration / unit.length⌋ < 2 ^ (unit.bits - 1) := by
    rw [Int.floor_lt]
    push_cast
    exact (div_lt_iff₀ hlength).mpr hrange
  obtain ⟨n, hn⟩ := Int.eq_ofNat_of_zero_le hnonneg
  rw [hn] at hlt
  have hlow := (Int.floor_eq_iff.mp hn).1
  have hhigh := (Int.floor_eq_iff.mp hn).2
  rw [le_div_iff₀ hlength] at hlow
  rw [div_lt_iff₀ hlength] at hhigh
  push_cast at hlow hhigh
  refine ⟨n, by exact_mod_cast hlt, by linarith, by linarith, ?_⟩
  have hin : ¬(((n : ℕ) : ℤ) < -2 ^ (unit.bits - 1) ∨ 2 ^ (unit.bits - 1) ≤ ((n : ℕ) : ℤ)) := by
    have hpos : (0 : ℤ) < 2 ^ (unit.bits - 1) := by positivity
    omega
  simp only [floorToString, hn, hin, if_false, unitText]
  by_cases hzero : n = 0
  · simp [hzero]
  · simp [hzero, Nat.pos_of_ne_zero hzero]

variable (unit) in
theorem floorToString_eq_none {s : Written}
    (hrange : 2 ^ (unit.bits - 1) * unit.length ≤ s.duration) : floorToString s unit = none := by
  have hlength : 0 < unit.length := by cases unit <;> norm_num [length]
  have hle : 2 ^ (unit.bits - 1) ≤ ⌊s.duration / unit.length⌋ := by
    rw [Int.le_floor]
    push_cast
    exact (le_div_iff₀ hlength).mpr hrange
  simp only [floorToString, hle, or_true, if_true]

/-- The parts of a text that `toString` writes. -/
def written (n h i : ℕ) (x : ℚ) : DurationMatch where
  date := [[], [], [], unitText days n]
  time := [unitText hours h, unitText minutes i, secondsText x]

theorem formed_written {n h i : ℕ} (hx : 0 ≤ x) (hlt : x < 60)
    (hsmall : x = 0 ∨ 1 / 10 ^ 4 ≤ writtenSeconds x) : (written n h i x).Formed where
  date := .cons (Or.inl rfl) (.cons (Or.inl rfl) (.cons (Or.inl rfl)
    (.cons (isPart_unitText days n) .nil)))
  time := .cons (isPart_unitText hours h) (.cons (isPart_unitText minutes i)
    (.cons (isPart_secondsText hx hlt hsmall) .nil))

variable {d : ℚ}

/-- The time is written only if something is left of the days. -/
theorem toString_eq (hd : 0 ≤ d) (hne : d ≠ 0) (hrange : d < 2 ^ 31 * 86400) :
    ∃ n : ℕ, n < 2 ^ 31 ∧
      (d = n * 86400 ∧ toString d = some (0x50 :: unitText days n) ∨
        n * 86400 < d ∧ d < (n + 1) * 86400 ∧
          ∃ h i : ℕ, ∃ x, h < 2 ^ 63 ∧ i < 2 ^ 63 ∧ 0 ≤ x ∧ x < 60 ∧
            d = n * 86400 + h * 3600 + i * 60 + x ∧ toString d = some (written n h i x).text) := by
  obtain ⟨n, hn, hlow, hhigh, hdays⟩ := floorToString_eq days
    (s := { text := ascii "P", duration := d }) hd hrange
  simp only [bits, length] at hn hlow hhigh hdays
  refine ⟨n, hn, ?_⟩
  rw [toString, if_neg hne, hdays, Option.bind_eq_bind, Option.bind_some]
  rcases hlow.eq_or_lt with hzero | hpos
  · left
    refine ⟨by linarith, ?_⟩
    rw [if_neg hzero.not_lt]
    rfl
  · right
    refine ⟨by linarith, by linarith, ?_⟩
    obtain ⟨h, hh, hlow₁, hhigh₁, hhours⟩ := floorToString_eq hours
      (s := ⟨ascii "P" ++ unitText days n ++ ascii "T", d - n * 86400⟩) hlow
      (by norm_num [bits, length]; linarith)
    simp only [bits, length] at hh hlow₁ hhigh₁ hhours
    obtain ⟨i, hi, hlow₂, hhigh₂, hminutes⟩ := floorToString_eq minutes
      (s := ⟨ascii "P" ++ unitText days n ++ ascii "T" ++ unitText hours h,
        d - n * 86400 - h * 3600⟩) hlow₁ (by norm_num [bits, length]; linarith)
    simp only [bits, length] at hi hlow₂ hhigh₂ hminutes
    refine ⟨h, i, d - n * 86400 - h * 3600 - i * 60, hh, hi, hlow₂, by linarith, by ring, ?_⟩
    rw [if_pos hpos, hhours]
    simp only [Option.bind_some, hminutes]
    have htext : (written n h i (d - n * 86400 - h * 3600 - i * 60)).text =
        ascii "P" ++ unitText days n ++ ascii "T" ++ unitText hours h ++ unitText minutes i ++
          secondsText (d - n * 86400 - h * 3600 - i * 60) := by
      have hP : ascii "P" = [0x50] := rfl
      have hT : ascii "T" = [0x54] := rfl
      simp [DurationMatch.text, written, hP, hT]
    rw [htext, secondsText]
    rcases hlow₂.eq_or_lt with hnone | hsome
    · rw [if_neg hnone.not_lt, if_pos hnone.symm, List.append_nil]
      rfl
    · rw [if_pos hsome, if_neg hsome.ne', List.append_assoc]
      rfl

theorem count_written {n h i : ℕ} (hn : n < 2 ^ 31) (hh : h < 2 ^ 63) (hi : i < 2 ^ 63)
    (hx : 0 ≤ x) (hlt : x < 60) (hsmall : x = 0 ∨ 1 / 10 ^ 4 ≤ writtenSeconds x) :
    (written n h i x).count =
      .ok (some (n * 86400 + h * 3600 + i * 60 + writtenSeconds x)) := by
  have hday := count_unitText (by decide : days ≠ seconds) hn
  have hhour := count_unitText (by decide : hours ≠ seconds) hh
  have hminute := count_unitText (by decide : minutes ≠ seconds) hi
  have hsecond := count_secondsText hx hlt hsmall
  have hdate : countParts dateUnits (written n h i x).date =
      .ok (some (0 + (0 + (0 + (n * days.length + 0))))) := by
    simp only [written, dateUnits, countParts, hday]
    rfl
  have htime : countParts timeUnits (written n h i x).time =
      .ok (some (h * hours.length + (i * minutes.length + (writtenSeconds x + 0)))) := by
    simp only [written, timeUnits, countParts, hhour, hminute, hsecond]
    rfl
  refine DurationMatch.count_eq_ok.mpr ⟨_, _, hdate, htime, ?_⟩
  simp only [Option.map₂_some_some, length, Option.some.injEq]
  ring

/-! ## Durations that are refused -/

theorem fromString_of_no_match (hvalue : value ≠ ascii "PT0S")
    (hmatch : regexMatch (cString value behind) = none) : fromString value behind ≠ .ok r := by
  intro h
  obtain ⟨m, -, hm, -⟩ := fromString_eq_ok hvalue h
  rw [hmatch] at hm
  contradiction

/-- A whole number of days has no time designator. -/
theorem fromString_days (n : ℕ) : fromString (0x50 :: unitText days n) [] ≠ .ok r := by
  have hdesignator : 0x54 ∉ 0x50 :: unitText days n := by
    rw [List.mem_cons, not_or]
    refine ⟨by decide, fun hmem => ?_⟩
    rcases isPart_unitText days n with hpart | ⟨number, -, hnumber, hpart⟩
    · simp [hpart] at hmem
    · rw [hpart, List.mem_append, List.mem_singleton] at hmem
      rcases hmem with hmem | hmem
      · exact absurd (hnumber _ hmem) (by decide)
      · exact absurd hmem (by decide)
  refine fromString_of_no_match (fun hvalue => hdesignator ?_) ?_
  · rw [hvalue]
    decide
  · by_contra hmatch
    obtain ⟨m, hm⟩ := Option.ne_none_iff_exists'.mp hmatch
    obtain ⟨-, htext⟩ := regexMatch_eq_some_iff.mp hm
    have hmem : 0x54 ∈ cString (0x50 :: unitText days n) [] := by
      rw [htext, DurationMatch.text]
      simp
    have hmem' := (List.takeWhile_prefix _).subset hmem
    rw [List.append_nil] at hmem'
    exact hdesignator hmem'

/-- Seconds with an exponent are no part. -/
theorem fromString_exponent (n h i : ℕ) (hx : 0 < x) (hlt : x < 60)
    (hsmall : writtenSeconds x < 1 / 10 ^ 4) : fromString (written n h i x).text [] ≠ .ok r := by
  obtain ⟨mantissa, exponent, hmantissa, hstream⟩ := streamText_eq_exponent hx hlt hsmall
  set front := 0x50 :: (unitText days n ++ 0x54 :: (unitText hours h ++ unitText minutes i ++
    decimalText mantissa)) with hfront
  have htext : (written n h i x).text =
      front ++ 0x65 :: (exponent ++ [seconds.designator]) := by
    simp [DurationMatch.text, written, secondsText, hx.ne', hstream, hfront]
  have hne : ∀ b ∈ front, b ≠ 0 := by
    have hunit (unit : DurationUnit) (n : ℕ) : ∀ b ∈ unitText unit n, b ≠ 0 :=
      fun b hb => ((isPart_unitText unit n).symbol hb).ne.1
    intro b hb
    simp only [hfront, List.mem_cons, List.mem_append] at hb
    rcases hb with rfl | hb | rfl | (hb | hb) | hb
    · decide
    · exact hunit days n b hb
    · decide
    · exact hunit hours h b hb
    · exact hunit minutes i b hb
    · exact (IsPartSymbol.ne (Or.inl (isNumberSymbol_decimalText hb hmantissa))).1
  have hmem : 0x65 ∈ cString (written n h i x).text [] := by
    rw [cString, htext, List.append_nil,
      List.takeWhile_append_of_pos fun b hb => by simpa using hne b hb]
    simp
  refine fromString_of_no_match (fun hvalue => ?_) ?_
  · rw [hvalue] at hmem
    exact absurd hmem (by decide)
  · by_contra hmatch
    obtain ⟨m, hm⟩ := Option.ne_none_iff_exists'.mp hmatch
    obtain ⟨hformed, hm⟩ := regexMatch_eq_some_iff.mp hm
    rw [hm] at hmem
    exact (ne_of_mem_text hformed hmem).2 rfl

theorem secondsOf_eq {d : ℚ} {k : ℤ} (hx : 0 ≤ x) (hlt : x < 60) (hd : d = k * 60 + x) :
    secondsOf d = x := by
  have hfloor : ⌊d / 60⌋ = k := by
    rw [Int.floor_eq_iff, hd]
    constructor <;> linarith
  rw [secondsOf, hfloor, hd]
  ring

/-- **The durations that their texts give back.** -/
theorem roundTrips_iff (hd : 0 ≤ d) :
    RoundTrips d ↔ d = 0 ∨ d < 2 ^ 31 * 86400 ∧ (¬∃ n : ℕ, d = n * 86400) ∧
      (secondsOf d = 0 ∨ Streamed (secondsOf d)) := by
  by_cases hne : d = 0
  · subst hne
    exact iff_of_true ⟨ascii "PT0S", rfl, rfl⟩ (Or.inl rfl)
  by_cases hrange : d < 2 ^ 31 * 86400
  · simp only [hne, hrange, false_or, true_and]
    obtain ⟨n, hn, ⟨hdays, htext⟩ | ⟨hlow, hhigh, h, i, x, hh, hi, hx, hlt, hsum, htext⟩⟩ :=
      toString_eq hd hne hrange
    · refine iff_of_false ?_ fun h => h.1 ⟨n, hdays⟩
      rintro ⟨text, htext', hr⟩
      obtain rfl := Option.some.inj (htext.symm.trans htext')
      exact fromString_days n hr
    · have hnot : ¬∃ k : ℕ, d = k * 86400 := by
        rintro ⟨k, rfl⟩
        have hnk : (n : ℚ) < k := by linarith
        have hkn : (k : ℚ) < n + 1 := by linarith
        norm_cast at hnk hkn
        omega
      have hseconds : secondsOf d = x := by
        refine secondsOf_eq (k := n * 1440 + h * 60 + i) hx hlt ?_
        rw [hsum]
        push_cast
        ring
      rw [hseconds]
      simp only [hnot, not_false_eq_true, true_and]
      -- a text that is read stands for the seconds that are written
      have hread (hsmall : x = 0 ∨ 1 / 10 ^ 4 ≤ writtenSeconds x) :
          RoundTrips d ↔ writtenSeconds x = x := by
        have hvalue := (fromString_text (formed_written (n := n) (h := h) (i := i) hx hlt hsmall)).trans
          (count_written hn hh hi hx hlt hsmall)
        constructor
        · rintro ⟨text, htext', hr⟩
          obtain rfl := Option.some.inj (htext.symm.trans htext')
          have heq := Option.some.inj (Except.ok.inj (hvalue.symm.trans hr))
          linarith
        · intro heq
          refine ⟨_, htext, hvalue.trans ?_⟩
          rw [heq, ← hsum]
      rcases hx.eq_or_lt with rfl | hpos
      · exact iff_of_true ((hread (Or.inl rfl)).mpr writtenSeconds_zero) (Or.inl rfl)
      rw [streamed_iff hpos hlt]
      simp only [hpos.ne', false_or]
      by_cases hsmall : 1 / 10 ^ 4 ≤ writtenSeconds x
      · rw [hread (Or.inr hsmall)]
        exact ⟨fun heq => ⟨hsmall, heq⟩, fun h => h.2⟩
      · refine iff_of_false ?_ fun h => hsmall h.1
        rintro ⟨text, htext', hr⟩
        obtain rfl := Option.some.inj (htext.symm.trans htext')
        exact fromString_exponent n h i hpos hlt (not_le.mp hsmall) hr
  · refine iff_of_false ?_ fun h => h.elim hne fun h => hrange h.1
    rintro ⟨text, htext, -⟩
    rw [toString, if_neg hne, floorToString_eq_none days (not_lt.mp hrange)] at htext
    contradiction

/-- **What durations say**: of an accepted view, and of the text of a duration. -/
theorem keeps_iff (value : List UInt8) (haccepted : Accepted value) (d : ℚ) (hd : 0 ≤ d) :
    (Means value ↔ value = ascii "PT0S" ∨ Exact value) ∧
      (RoundTrips d ↔ d = 0 ∨ d < 2 ^ 31 * 86400 ∧ (¬∃ n : ℕ, d = n * 86400) ∧
        (secondsOf d = 0 ∨ Streamed (secondsOf d))) :=
  ⟨means_iff haccepted, roundTrips_iff hd⟩

theorem keeps_iff_days : Means (ascii "P616DT3H19M3.791078880S") ∧
    RoundTrips (33279642125 / 10 ^ 4) := by
  have hkeeps := keeps_iff (ascii "P616DT3H19M3.791078880S")
    ⟨[], some (332714648694243 / 6250000), by decide +kernel⟩ (33279642125 / 10 ^ 4) (by norm_num)
  refine ⟨hkeeps.1.mpr (Or.inr ?_), hkeeps.2.mpr (Or.inr ⟨by norm_num, ?_, Or.inr ?_⟩)⟩
  · refine ⟨⟨[[], [], [], ascii "616D"], [ascii "3H", ascii "19M", ascii "3.791078880S"]⟩,
      rfl, by decide +kernel, ?_, ?_⟩
    · exact .cons ⟨0, by decide, by decide +kernel⟩ (.cons ⟨0, by decide, by decide +kernel⟩
        (.cons ⟨0, by decide, by decide +kernel⟩ (.cons ⟨616, by decide, by decide +kernel⟩ .nil)))
    · exact .cons ⟨3, by decide, by decide +kernel⟩ (.cons ⟨19, by decide, by decide +kernel⟩
        (.cons ⟨3791078880, by decide, by decide +kernel⟩ .nil))
  · rintro ⟨n, hn⟩
    have hodd : (33279642125 : ℚ) = n * 864000000 := by linarith
    have hnat : 33279642125 = n * 864000000 := by exact_mod_cast hodd
    omega
  · have hseconds : secondsOf (33279642125 / 10 ^ 4) = 42125 / 10 ^ 4 := by decide +kernel
    rw [hseconds]
    exact ⟨by norm_num, 42125, 4, by decide, by norm_num⟩

/-- A fraction of an hour is lost, what is behind a view is read, whole days are refused, and of
the seconds six digits are written. -/
theorem not_keeps : (fromString (ascii "PT1.5H") [] = .ok (some 3600) ∧
      meaning (ascii "PT1.5H") = some 5400) ∧
    (fromString (ascii "PT1H") [] = .ok (some 3600) ∧
      fromString (ascii "PT1H") (ascii "30M") = .ok (some 5400)) ∧
    (toString 172800 = some (ascii "P2D") ∧ ∃ e, fromString (ascii "P2D") [] = .error e) ∧
    (toString (1001953125 / 10 ^ 9) = some (ascii "PT1.00195S") ∧
      fromString (ascii "PT1.00195S") [] = .ok (some (100195 / 10 ^ 5))) ∧
    (toString (1 / 10 ^ 5) = some (ascii "PT1e-05S") ∧
      ∃ e, fromString (ascii "PT1e-05S") [] = .error e) ∧
    ¬((∀ value, Accepted value → Means value) ∧ ∀ d : ℚ, 0 ≤ d → RoundTrips d) := by
  have hfraction : fromString (ascii "PT1.5H") [] = .ok (some 3600) := by decide +kernel
  have hmeaning : meaning (ascii "PT1.5H") = some 5400 := by decide +kernel
  refine ⟨⟨hfraction, hmeaning⟩, ⟨by decide +kernel, by decide +kernel⟩,
    ⟨by decide +kernel, _, rfl⟩, ⟨by decide +kernel, by decide +kernel⟩,
    ⟨by decide +kernel, _, rfl⟩, fun h => ?_⟩
  obtain ⟨x, hx, hmeans⟩ := h.1 _ ⟨[], _, hfraction⟩ [] _ hfraction
  rw [hmeaning, ← hx] at hmeans
  exact absurd (Option.some.inj hmeans) (by norm_num)

end Duration

end Dots

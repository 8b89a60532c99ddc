import Mathlib.Algebra.Order.Floor.Ring
import Mathlib.Algebra.Order.Archimedean.Basic
import Mathlib.Algebra.Ring.Int.Parity
import Mathlib.Data.Int.Log
import Mathlib.Data.Rat.Floor
import Mathlib.Tactic.Linarith
import Mathlib.Tactic.Positivity
import Mathlib.Tactic.Ring

/-!
# Digits of numbers

* `fractionValue`: the number that digits after the point stand for.
* `fractionDigits`: the digits of a fraction, until nothing is left of it.
* `fractionValue_fractionDigits`: they give it back if it has an expansion that ends.
* `roundSignificant`: a number with its first digits only, the last of them rounded.
* `roundSignificant_eq_self_iff`: the numbers that have no more digits.
-/

set_option autoImplicit false

variable {base : ℕ}

/-! ## The digits after the point -/

/-- The value of the digits after the point, the first one next to it. -/
def fractionValue (base : ℕ) : List ℕ → ℚ
  | [] => 0
  | d :: ds => (d + fractionValue base ds) / base

theorem fractionValue_nonneg (base : ℕ) : ∀ ds : List ℕ, 0 ≤ fractionValue base ds
  | [] => le_rfl
  | d :: ds => by
    have := fractionValue_nonneg base ds
    rw [fractionValue]
    positivity

/-- The digits after the point do not reach one. -/
theorem fractionValue_lt_one (hbase : 0 < base) :
    ∀ ds : List ℕ, (∀ d ∈ ds, d < base) → fractionValue base ds < 1
  | [], _ => by simp [fractionValue]
  | d :: ds, h => by
    have hrest := fractionValue_lt_one hbase ds fun e he => h e (List.mem_cons_of_mem _ he)
    have hd : (d : ℚ) + 1 ≤ base := by exact_mod_cast h d List.mem_cons_self
    rw [fractionValue, div_lt_one (by exact_mod_cast hbase)]
    linarith

/-- At most `fuel` digits of the fraction `x`. -/
def fractionDigits (base : ℕ) : (fuel : ℕ) → ℚ → List ℕ
  | 0, _ => []
  | fuel + 1, x =>
    if x = 0 then [] else ⌊x * base⌋.toNat :: fractionDigits base fuel (Int.fract (x * base))

theorem floor_mul_lt (hbase : 0 < base) {x : ℚ} (hx : x < 1) : ⌊x * base⌋.toNat < base := by
  have hlt : x * base < base := mul_lt_of_lt_one_left (by exact_mod_cast hbase) hx
  have hfloor : ⌊x * base⌋ < (base : ℤ) := Int.floor_lt.mpr (by exact_mod_cast hlt)
  omega

theorem lt_of_mem_fractionDigits (hbase : 0 < base) :
    ∀ (fuel : ℕ) {x : ℚ}, x < 1 → ∀ d ∈ fractionDigits base fuel x, d < base
  | 0, _, _, d, h => by simp [fractionDigits] at h
  | fuel + 1, x, hx, d, h => by
    rw [fractionDigits] at h
    split_ifs at h with hzero
    · simp at h
    · rcases List.mem_cons.mp h with rfl | h
      · exact floor_mul_lt hbase hx
      · exact lt_of_mem_fractionDigits hbase fuel (Int.fract_lt_one (x * base)) d h

/-- **A fraction is the value of its digits** if its expansion ends within them. -/
theorem fractionValue_fractionDigits (hbase : 0 < base) :
    ∀ (fuel : ℕ) {x : ℚ} {n : ℤ}, 0 ≤ x → x < 1 → x * base ^ fuel = n →
      fractionValue base (fractionDigits base fuel x) = x
  | 0, x, n, hnonneg, hlt, hends => by
    have hx : x = n := by simpa using hends
    have hzero : n = 0 := by
      rw [← Int.floor_intCast (R := ℚ) n, ← hx]
      exact Int.floor_eq_zero_iff.mpr ⟨hnonneg, hlt⟩
    rw [fractionDigits, fractionValue, hx, hzero, Int.cast_zero]
  | fuel + 1, x, n, hnonneg, hlt, hends => by
    rw [fractionDigits]
    split_ifs with hzero
    · exact hzero.symm
    · have hne : (base : ℚ) ≠ 0 := by exact_mod_cast hbase.ne'
      have hfloor : 0 ≤ ⌊x * base⌋ := Int.floor_nonneg.mpr (by positivity)
      have hcast : ((⌊x * base⌋.toNat : ℕ) : ℚ) = (⌊x * base⌋ : ℤ) := by
        exact_mod_cast Int.toNat_of_nonneg hfloor
      -- what is left of the fraction ends one digit sooner
      have hleft : Int.fract (x * base) * base ^ fuel =
          ((n - ⌊x * base⌋ * (base : ℤ) ^ fuel : ℤ) : ℚ) := by
        push_cast
        rw [← hends, Int.fract]
        ring
      rw [fractionValue, fractionValue_fractionDigits hbase fuel (Int.fract_nonneg (x * base))
        (Int.fract_lt_one (x * base)) hleft, hcast, Int.floor_add_fract]
      exact mul_div_cancel_right₀ x hne

/-! ## Significant digits -/

/-- The nearest integer; of two, the even one. -/
def roundHalfEven (x : ℚ) : ℤ :=
  if Int.fract x < 1 / 2 ∨ Int.fract x = 1 / 2 ∧ Even ⌊x⌋ then ⌊x⌋ else ⌊x⌋ + 1

theorem le_roundHalfEven {k : ℤ} {x : ℚ} (h : (k : ℚ) ≤ x) : k ≤ roundHalfEven x := by
  have hfloor : k ≤ ⌊x⌋ := Int.le_floor.mpr h
  rw [roundHalfEven]
  split_ifs
  · exact hfloor
  · omega

theorem roundHalfEven_le {k : ℤ} {x : ℚ} (h : x ≤ k) : roundHalfEven x ≤ k := by
  rcases h.eq_or_lt with rfl | hlt
  · rw [roundHalfEven, Int.fract_intCast, if_pos (.inl (by norm_num)), Int.floor_intCast]
  · have hfloor : ⌊x⌋ < k := Int.floor_lt.mpr hlt
    rw [roundHalfEven]
    split_ifs
    · exact hfloor.le
    · exact hfloor

theorem roundHalfEven_intCast (k : ℤ) : roundHalfEven k = k :=
  le_antisymm (roundHalfEven_le le_rfl) (le_roundHalfEven le_rfl)

/-- The place of the last of the first `n` digits of a number. -/
def lastPlace (base n : ℕ) (x : ℚ) : ℚ := (base : ℚ) ^ (Int.log base x + 1 - n)

/-- A number rounded to its first `n` digits. -/
def roundSignificant (base n : ℕ) (x : ℚ) : ℚ :=
  roundHalfEven (x / lastPlace base n x) * lastPlace base n x

section Significant

variable {n : ℕ} {x : ℚ}

theorem lastPlace_pos (hbase : 0 < base) (n : ℕ) (x : ℚ) : 0 < lastPlace base n x := by
  have : (0 : ℚ) < base := by exact_mod_cast hbase
  exact zpow_pos this _

/-- A number is rounded between the powers of the base around it. -/
theorem roundSignificant_mem (hbase : 1 < base) (hn : 0 < n) (hx : 0 < x) :
    (base : ℚ) ^ Int.log base x ≤ roundSignificant base n x ∧
      roundSignificant base n x ≤ (base : ℚ) ^ (Int.log base x + 1) := by
  have hne : (base : ℚ) ≠ 0 := by exact_mod_cast (by omega : base ≠ 0)
  have hpos := lastPlace_pos (by omega : 0 < base) n x
  -- a power of the base is a whole number of last places
  have hpower (k : ℕ) : ((base ^ k : ℤ) : ℚ) * lastPlace base n x =
      (base : ℚ) ^ (Int.log base x + 1 - n + k) := by
    push_cast
    rw [lastPlace, zpow_add₀ hne _ (k : ℤ), zpow_natCast, mul_comm]
  have hlow := hpower (n - 1)
  have hhigh := hpower n
  rw [show Int.log base x + 1 - n + ((n - 1 : ℕ) : ℤ) = Int.log base x by omega] at hlow
  rw [show Int.log base x + 1 - n + (n : ℤ) = Int.log base x + 1 by omega] at hhigh
  constructor
  · rw [← hlow]
    refine mul_le_mul_of_nonneg_right ?_ hpos.le
    refine Int.cast_le.mpr (le_roundHalfEven ((le_div_iff₀ hpos).mpr ?_))
    exact hlow.trans_le (Int.zpow_log_le_self hbase hx)
  · rw [← hhigh]
    refine mul_le_mul_of_nonneg_right ?_ hpos.le
    refine Int.cast_le.mpr (roundHalfEven_le ((div_le_iff₀ hpos).mpr ?_))
    exact (Int.lt_zpow_succ_log_self hbase x).le.trans_eq hhigh.symm

/-- **A number that is below the `n`-th power of the base** is kept exactly if it has no more than
`n` digits. -/
theorem roundSignificant_eq_self_iff (hbase : 1 < base) (hx : 0 < x) (hlt : x < base ^ n) :
    roundSignificant base n x = x ↔ ∃ m k : ℕ, m < base ^ n ∧ x * base ^ k = m := by
  have hone : (1 : ℚ) < base := by exact_mod_cast hbase
  have hne : (base : ℚ) ≠ 0 := (zero_lt_one.trans hone).ne'
  have hpos := lastPlace_pos (by omega : 0 < base) n x
  have hlow := Int.zpow_log_le_self (R := ℚ) hbase hx
  have hhigh := Int.lt_zpow_succ_log_self (R := ℚ) hbase x
  have hlog : Int.log base x < n := by
    refine (zpow_lt_zpow_iff_right₀ hone).mp (hlow.trans_lt ?_)
    rwa [zpow_natCast]
  constructor
  · intro h
    -- the number of last places, of which there are `k` digits after the point
    obtain ⟨k, hk⟩ : ∃ k : ℕ, (k : ℤ) = n - 1 - Int.log base x :=
      ⟨(n - 1 - Int.log base x).toNat, by omega⟩
    set m := roundHalfEven (x / lastPlace base n x)
    have hm : x * base ^ k = m := by
      have hplace : lastPlace base n x * base ^ k = 1 := by
        rw [lastPlace, ← zpow_natCast, ← zpow_add₀ hne, hk]
        ring_nf
        exact zpow_zero _
      rw [← h, roundSignificant, mul_assoc, hplace, mul_one]
    have hbound : (m : ℚ) < (base ^ n : ℕ) := by
      rw [← hm]
      calc x * base ^ k < (base : ℚ) ^ (Int.log base x + 1) * base ^ k :=
            mul_lt_mul_of_pos_right hhigh (by positivity)
        _ = ((base ^ n : ℕ) : ℚ) := by
            push_cast
            rw [← zpow_natCast, ← zpow_natCast, ← zpow_add₀ hne, hk]
            ring_nf
    have hnonneg : (0 : ℚ) ≤ m := by
      rw [← hm]
      positivity
    have hnat : ((m.toNat : ℕ) : ℤ) = m := Int.toNat_of_nonneg (by exact_mod_cast hnonneg)
    refine ⟨m.toNat, k, ?_, ?_⟩
    · have : m < ((base ^ n : ℕ) : ℤ) := by exact_mod_cast hbound
      omega
    · rw [hm, ← Int.cast_natCast, hnat]
  · rintro ⟨m, k, hm, hk⟩
    have hpower : (base : ℚ) ^ (Int.log base x + k) < (base : ℚ) ^ (n : ℤ) := by
      rw [zpow_add₀ hne, zpow_natCast, zpow_natCast]
      calc (base : ℚ) ^ Int.log base x * base ^ k ≤ x * base ^ k :=
            mul_le_mul_of_nonneg_right hlow (by positivity)
        _ = m := hk
        _ < base ^ n := by exact_mod_cast hm
    have hdigits := (zpow_lt_zpow_iff_right₀ hone).mp hpower
    -- what the number has of digits is a whole number of last places
    obtain ⟨j, hj⟩ : ∃ j : ℕ, (j : ℤ) = n - 1 - Int.log base x - k :=
      ⟨(n - 1 - Int.log base x - k).toNat, by omega⟩
    have hwhole : x = ((m * base ^ j : ℕ) : ℤ) * lastPlace base n x := by
      have hunit : (base : ℚ) ^ j * lastPlace base n x * base ^ k = 1 := by
        rw [lastPlace, ← zpow_natCast, ← zpow_natCast, ← zpow_add₀ hne, ← zpow_add₀ hne, hj]
        ring_nf
        exact zpow_zero _
      refine mul_right_cancel₀ (pow_ne_zero k hne) ?_
      rw [hk]
      push_cast
      rw [mul_assoc (m : ℚ), mul_assoc (m : ℚ), hunit, mul_one]
    have hdiv : x / lastPlace base n x = ((m * base ^ j : ℕ) : ℤ) := by
      rw [div_eq_iff hpos.ne']
      exact hwhole
    rw [roundSignificant, hdiv, roundHalfEven_intCast, ← hwhole]

end Significant

import Mathlib.Order.Basic
import Mathlib.Algebra.Group.Nat.Defs
import Mathlib.Data.Int.Order.Basic

/-!
# Comparing floating-point numbers by their bit patterns

A binary interchange format has a sign, an exponent and a fraction. Below the sign, the patterns
are in the order of the magnitudes, up to the pattern of infinity; behind it are the NaNs.

* `isNan`, `rank`: the two zeros have one rank.
* `equal`, `less`: the comparisons of IEEE 754, which are false for a NaN.
* **`equal_self_iff`**, `equal_iff`: only a NaN differs from itself.
-/

set_option autoImplicit false

namespace FloatingPoint

variable {w : ℕ} (infinity : ℕ)

def magnitude (x : BitVec w) : ℕ := x.toNat % 2 ^ (w - 1)

def isNan (x : BitVec w) : Bool := decide (infinity < magnitude x)

def rank (x : BitVec w) : ℤ := if x.msb then -magnitude x else magnitude x

def equal (x y : BitVec w) : Bool := !isNan infinity x && !isNan infinity y && rank x == rank y

def less (x y : BitVec w) : Bool :=
  !isNan infinity x && !isNan infinity y && decide (rank x < rank y)

theorem equal_iff (x y : BitVec w) : equal infinity x y = true ↔
    isNan infinity x = false ∧ isNan infinity y = false ∧ rank x = rank y := by
  simp [equal, and_assoc]

/-- **Only a NaN differs from itself.** -/
theorem equal_self_iff (x : BitVec w) : equal infinity x x = true ↔ isNan infinity x = false := by
  simp [equal_iff]

end FloatingPoint

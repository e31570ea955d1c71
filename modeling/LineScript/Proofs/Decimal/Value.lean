import Mathlib.Algebra.Order.Field.Rat
import Mathlib.Data.Rat.Cast.Order
import Mathlib.Tactic.Positivity
import LineScript.Decimal.Basic
/-!
# The value of a number

A number stands for a rational number. Comparisons on a common denominator are comparisons of these, so the scale and
the sign of zero, which belong to the number and not to its value, play no part in them.
-/

namespace LineScript.Decimal

def value (a : Decimal) : ℚ :=
  a.coefficient / powerOfTen a.scale

theorem equals_iff (a b : Decimal) : a.equals b = true ↔ a.value = b.value := by
  have hpos (n : Nat) : (powerOfTen n : ℚ) ≠ 0 := Nat.cast_ne_zero.2 (powerOfTen_pos n).ne'
  rw [equals, beq_iff_eq, value, value, div_eq_div_iff (hpos _) (hpos _)]
  exact_mod_cast Iff.rfl

@[simp] theorem cast_powerOfTen (n : ℕ) : (powerOfTen n : ℚ) = 10 ^ n :=
  Nat.cast_pow 10 n

theorem value_eq_div (a : Decimal) : a.value = a.coefficient / 10 ^ a.scale := by
  rw [value, cast_powerOfTen]

theorem abs_value (a : Decimal) : |a.value| = a.mantissa / 10 ^ a.scale := by
  rw [value_eq_div, abs_div, abs_of_pos (by positivity : (0 : ℚ) < 10 ^ a.scale), ← a.natAbs_coefficient,
    Nat.cast_natAbs, Int.cast_abs]

@[simp] theorem value_ofCoefficient {c : ℤ} {scale : ℕ} (hc : c.natAbs < bound) (hscale : scale ≤ maxScale) :
    (ofCoefficient c scale hc hscale).value = c / 10 ^ scale := by
  rw [value_eq_div, coefficient_ofCoefficient]
  rfl

@[simp] theorem value_neg (a : Decimal) : a.neg.value = -a.value := by
  rw [value_eq_div, value_eq_div, coefficient_neg, Int.cast_neg, neg_div]
  rfl

@[simp] theorem value_one : one.value = 1 := by
  norm_num [value_eq_div, coefficient, one, ofNat, bound]

theorem value_ofNat {n : ℕ} (hn : n < bound) : (ofNat n).value = n := by
  simp [value_eq_div, coefficient, ofNat, Nat.min_eq_left (Nat.le_sub_one_of_lt hn)]

theorem value_ofNat_nonneg (n : ℕ) : 0 ≤ (ofNat n).value :=
  div_nonneg (Nat.cast_nonneg _) (Nat.cast_nonneg _)

theorem value_ofNat_le (n : ℕ) : (ofNat n).value ≤ n := by
  have hle : ((min n (bound - 1) : ℕ) : ℚ) ≤ n := Nat.cast_le.2 (min_le_left _ _)
  rw [value_eq_div, show (ofNat n).scale = 0 from rfl, pow_zero, div_one]
  exact hle

theorem isZero_iff {a : Decimal} : a.isZero = true ↔ a.value = 0 := by
  rw [isZero, beq_iff_eq, ← a.natAbs_coefficient, Int.natAbs_eq_zero]
  simp [value_eq_div]

/-- Zero is the only number whose sign its value does not tell. -/
theorem isNegative_iff {a : Decimal} (hzero : a.value ≠ 0) : a.isNegative = true ↔ a.value < 0 := by
  have hpos : (0 : ℚ) < 10 ^ a.scale := by positivity
  have hcoefficient : a.coefficient ≠ 0 := fun h => hzero (by simp [value_eq_div, h])
  rw [value_eq_div, div_lt_iff₀ hpos, zero_mul, Int.cast_lt_zero]
  unfold coefficient at hcoefficient ⊢
  split_ifs at hcoefficient ⊢ with hsign <;> simp only [hsign, Bool.false_eq_true, true_iff, false_iff] <;> omega

theorem isNegative_and_not_isZero_iff {a : Decimal} : (a.isNegative && !a.isZero) = true ↔ a.value < 0 := by
  rw [Bool.and_eq_true, Bool.not_eq_true', ← Bool.not_eq_true, isZero_iff]
  constructor
  · rintro ⟨hsign, hzero⟩
    exact (isNegative_iff hzero).1 hsign
  · intro hlt
    exact ⟨(isNegative_iff hlt.ne).2 hlt, hlt.ne⟩

theorem truncated_neg (a : Decimal) : a.neg.truncated = -a.truncated := by
  rw [truncated, truncated, ← Int.neg_tdiv, coefficient_neg]
  rfl

theorem lt_iff {a b : Decimal} : a.lt b = true ↔ a.value < b.value := by
  have hpos (n : ℕ) : (0 : ℚ) < 10 ^ n := by positivity
  rw [lt, decide_eq_true_iff, value_eq_div, value_eq_div, div_lt_div_iff₀ (hpos _) (hpos _), ← cast_powerOfTen,
    ← cast_powerOfTen]
  exact_mod_cast Iff.rfl

end LineScript.Decimal

import Mathlib.Algebra.Order.Field.Power
import LineScript.Decimal.Division
import LineScript.Proofs.Decimal.Nearest
import LineScript.Proofs.Decimal.Notation
/-!
# Long division

Long division stops where the quotient has come out, where a number has no more places, or where there is no room for
another digit. So the quotient can be rounded there, and none of its digits is lost that a number could keep.
-/

namespace LineScript.Decimal

/-! ### Room behind a quotient -/

theorem roomBehind_le (quotient limit : ℕ) : roomBehind quotient limit ≤ limit := by
  induction limit with
  | zero => rfl
  | succ limit ih =>
      unfold roomBehind
      split
      · exact le_rfl
      · exact Nat.le_succ_of_le ih

/-- Where no digit fits behind a quotient, not even one does. -/
theorem le_of_roomBehind_eq_zero {quotient limit : ℕ} (hzero : roomBehind quotient limit = 0) (hlimit : limit ≠ 0) :
    bound ≤ quotient * 10 := by
  induction limit with
  | zero => exact absurd rfl hlimit
  | succ limit ih =>
      unfold roomBehind at hzero
      split at hzero
      · cases hzero
      · rename_i hfull
        rcases Nat.eq_zero_or_pos limit with rfl | hpos
        · exact Nat.le_of_not_lt hfull
        · exact ih hzero hpos.ne'

/-! ### Where the division ends -/

/-- One step brings down a group of digits. -/
theorem develop {y : ℚ} {divisor quotient rest : ℕ} (hdivisor : 0 < divisor) (hy : y = quotient + rest / divisor)
    (group : ℕ) :
    y * 10 ^ group = ((quotient * powerOfTen group + rest * powerOfTen group / divisor : ℕ) : ℚ) +
      ((rest * powerOfTen group % divisor : ℕ) : ℚ) / divisor := by
  have hpos : (divisor : ℚ) ≠ 0 := Nat.cast_ne_zero.2 hdivisor.ne'
  have hsplit : ((rest * powerOfTen group : ℕ) : ℚ) =
      divisor * ((rest * powerOfTen group / divisor : ℕ) : ℚ) + ((rest * powerOfTen group % divisor : ℕ) : ℚ) := by
    exact_mod_cast (Nat.div_add_mod _ divisor).symm
  have hquotient : (rest : ℚ) / divisor * 10 ^ group =
      ((rest * powerOfTen group / divisor : ℕ) : ℚ) + ((rest * powerOfTen group % divisor : ℕ) : ℚ) / divisor := by
    rw [div_mul_eq_mul_div, div_eq_iff hpos, add_mul, div_mul_cancel₀ _ hpos, mul_comm _ (divisor : ℚ), ← hsplit,
      Nat.cast_mul, cast_powerOfTen]
  rw [hy, add_mul, hquotient, Nat.cast_add, Nat.cast_mul, cast_powerOfTen, add_assoc]

theorem pow_toNat (scale : ℤ) : (10 : ℚ) ^ scale.toNat = 10 ^ scale * 10 ^ (-scale).toNat := by
  rw [← zpow_natCast, ← zpow_natCast, ← zpow_add₀ (by norm_num)]
  congr 1
  omega

section

variable {x : ℚ} {divisor : ℕ}

/-- A quotient that has come out has no digits behind it. -/
theorem roomAt_of_exact {quotient : ℕ} {scale : ℤ} (hx : |x| * 10 ^ scale = quotient) : RoomAt x scale.toNat := by
  refine .inl ?_
  have habs : |x| * 10 ^ scale.toNat = (quotient * 10 ^ (-scale).toNat : ℤ) := by
    rw [pow_toNat, ← mul_assoc, hx]
    push_cast
    rfl
  rcases abs_choice x with hsign | hsign <;> rw [hsign] at habs
  · exact ⟨_, habs⟩
  · exact ⟨-_, by rw [Int.cast_neg, ← habs, neg_mul, neg_neg]⟩

/-- Behind a quotient that fills the coefficient there is no room. -/
theorem roomAt_of_full {quotient : ℕ} {scale : ℤ} (hx : quotient ≤ |x| * 10 ^ scale) (hfull : bound ≤ quotient * 10) :
    RoomAt x scale.toNat := by
  have hquotient : (bound : ℚ) ≤ quotient * 10 := by exact_mod_cast hfull
  have hone : (1 : ℚ) ≤ 10 ^ (-scale).toNat := one_le_pow₀ (by norm_num)
  refine .inr (.inr ?_)
  calc (bound - 1 / 2 : ℚ) ≤ quotient * 10 := by linarith
    _ ≤ |x| * 10 ^ scale * 10 := by linarith
    _ ≤ |x| * 10 ^ scale * 10 ^ (-scale).toNat * 10 := by
        have hnonneg : 0 ≤ |x| * 10 ^ scale := (Nat.cast_nonneg quotient).trans hx
        linarith [mul_le_mul_of_nonneg_left hone hnonneg]
    _ = |x| * 10 ^ (scale.toNat + 1) := by rw [pow_succ, pow_toNat scale, ← mul_assoc, ← mul_assoc]

/-- The steps suffice for all places that a number can have. -/
theorem roomAt_divisionScale (hdivisor : 0 < divisor) {steps quotient rest : ℕ} {scale : ℤ}
    (hx : |x| * 10 ^ scale = quotient + rest / divisor) (hscale : scale ≤ maxScale)
    (hsteps : maxScale ≤ scale + steps) :
    divisionScale divisor steps quotient rest scale ≤ maxScale ∧
      RoomAt x (divisionScale divisor steps quotient rest scale) := by
  induction steps generalizing quotient rest scale with
  | zero =>
      have heq : scale.toNat = maxScale := by omega
      rw [divisionScale, heq]
      exact ⟨le_rfl, .inr (.inl rfl)⟩
  | succ steps ih =>
      rw [divisionScale]
      have hgroup := roomBehind_le quotient (min groupSize (maxScale - scale).toNat)
      have hempty := @le_of_roomBehind_eq_zero quotient (min groupSize (maxScale - scale).toNat)
      generalize roomBehind quotient (min groupSize (maxScale - scale).toNat) = group at hgroup hempty
      split_ifs with hstop
      · refine ⟨by omega, ?_⟩
        rcases hstop with rfl | rfl
        · exact roomAt_of_exact (by simpa using hx)
        rcases eq_or_lt_of_le hscale with rfl | hlt
        · exact .inr (.inl rfl)
        · have hlimit : min groupSize (maxScale - scale).toNat ≠ 0 := by simp only [groupSize]; omega
          have hrest : (0 : ℚ) ≤ rest / divisor := by positivity
          exact roomAt_of_full (by linarith) (hempty rfl hlimit)
      · refine ih ?_ (by omega) (by omega)
        rw [zpow_add₀ (by norm_num), zpow_natCast, ← mul_assoc]
        exact develop hdivisor hx group

end

/-! ### The quotient -/

theorem value_dropBlocks (blocks : ℕ) (a : Decimal) : (dropBlocks blocks a).value = a.value := by
  induction blocks generalizing a with
  | zero => rfl
  | succ blocks ih =>
      rw [dropBlocks]
      split_ifs with hdrop
      · exact (ih _).trans (value_dropZeros hdrop.2.2)
      · rfl

theorem value_trimmed (a : Decimal) : a.trimmed.value = a.value :=
  (value_dropZeros (min_le_right _ _)).trans (value_dropBlocks _ a)

theorem Rounded.map_trimmed {x : ℚ} {r : Option Decimal} (h : Rounded x r) : Rounded x (r.map trimmed) := by
  cases h with
  | some hnearest => exact .some (hnearest.of_value_eq (value_trimmed _))
  | none hlarge => exact .none hlarge

/-- A quotient of numbers as one of integers, with the sign above and the denominator positive. -/
theorem value_div_value (a b : Decimal) :
    a.value / b.value =
      (a.coefficient * b.coefficient.sign * powerOfTen b.scale : ℤ) /
        (b.mantissa * powerOfTen a.scale : ℕ) := by
  rw [← b.natAbs_coefficient]
  push_cast
  rw [value_eq_div, value_eq_div, cast_powerOfTen, cast_powerOfTen, Nat.cast_natAbs]
  rcases lt_trichotomy b.coefficient 0 with hneg | hzero | hpos
  · rw [Int.sign_eq_neg_one_of_neg hneg, abs_of_neg hneg, Int.cast_neg, Int.cast_neg, Int.cast_one]
    field_simp
  · simp [hzero]
  · rw [Int.sign_eq_one_of_pos hpos, abs_of_pos hpos, Int.cast_one]
    field_simp

theorem rounded_div? {a b : Decimal} (hb : b.value ≠ 0) : Rounded (a.value / b.value) (a.div? b) := by
  have hzero : b.isZero ≠ true := fun h => hb (isZero_iff.1 h)
  have hdivisor : 0 < b.mantissa := Nat.pos_of_ne_zero fun h => hzero (beq_iff_eq.2 h)
  have hquotient : |a.value / b.value| * 10 ^ ((a.scale : ℤ) - b.scale) =
      ((a.mantissa / b.mantissa : ℕ) : ℚ) + ((a.mantissa % b.mantissa : ℕ) : ℚ) / b.mantissa := by
    have hsplit : (a.mantissa : ℚ) = b.mantissa * ((a.mantissa / b.mantissa : ℕ) : ℚ) +
        ((a.mantissa % b.mantissa : ℕ) : ℚ) := by
      exact_mod_cast (Nat.div_add_mod _ b.mantissa).symm
    rw [abs_div, abs_value, abs_value, zpow_sub₀ (by norm_num), zpow_natCast, zpow_natCast, hsplit]
    field_simp
  have ha := a.scale_le
  have hb := b.scale_le
  have hsteps : (maxScale : ℤ) ≤ (a.scale : ℤ) - b.scale + (2 * maxScale : ℕ) := by omega
  obtain ⟨hle, hroom⟩ := roomAt_divisionScale hdivisor hquotient (by omega) hsteps
  have hrounded := rounded_nearest? (Nat.mul_pos hdivisor (powerOfTen_pos a.scale)) (value_div_value a b) hle hroom
  rw [div?, if_neg hzero]
  dsimp only
  split_ifs
  · exact hrounded
  · exact hrounded.map_trimmed

end LineScript.Decimal

import Mathlib.Algebra.Order.Field.Basic
import Mathlib.Algebra.Order.Ring.Abs
import Mathlib.Data.Rat.Floor
import Mathlib.Tactic.Linarith
import Mathlib.Tactic.FieldSimp
import Mathlib.Tactic.Ring
import LineScript.Proofs.Decimal.Fraction
import LineScript.Proofs.Decimal.Value
/-!
# Rounding once

The result of an operation is the exact one if there is a number for it. Otherwise it has as many places as there is
room for, and is nearest to the exact result among the numbers with so many. Where there is no room even for the
integer part, there is no result. Nothing is rounded on the way to it.
-/

namespace LineScript

/-! ### The nearest integer -/

/-- No integer is nearer to the number, and this one is even if another is as near. -/
structure IsNearest (x : ℚ) (n : ℤ) : Prop where
  near : |x - n| ≤ 1 / 2
  even : |x - n| = 1 / 2 → Even n

theorem isNearest_intCast (n : ℤ) : IsNearest n n :=
  ⟨by norm_num, by norm_num⟩

theorem IsNearest.neg {x : ℚ} {n : ℤ} (h : IsNearest x n) : IsNearest (-x) (-n) := by
  have hdistance : |-x - ((-n : ℤ) : ℚ)| = |x - n| := by rw [Int.cast_neg, neg_sub_neg, abs_sub_comm]
  exact ⟨hdistance ▸ h.near, fun htie => (h.even (hdistance ▸ htie)).neg⟩

/-- Rounding keeps the order. -/
theorem IsNearest.le {x y : ℚ} {m n : ℤ} (hx : IsNearest x m) (hy : IsNearest y n) (hle : x ≤ y) : m ≤ n := by
  by_contra hlt
  have hsucc : (n : ℚ) + 1 ≤ m := by exact_mod_cast Int.add_one_le_iff.2 (not_le.1 hlt)
  have hbelow := (abs_le.1 hx.near).1
  have habove := (abs_le.1 hy.near).2
  -- Both numbers lie halfway between the two integers, of which only one is even.
  have hm : Even m := hx.even (by rw [abs_of_nonpos] <;> linarith)
  have hn : Even n := hy.even (by rw [abs_of_nonneg] <;> linarith)
  have heq : m = n + 1 := by
    have hcast : (m : ℚ) = n + 1 := by linarith
    exact_mod_cast hcast
  rw [heq, Int.even_add_one] at hm
  exact hm hn

theorem IsNearest.eq {x : ℚ} {m n : ℤ} (hm : IsNearest x m) (hn : IsNearest x n) : m = n :=
  le_antisymm (hm.le hn le_rfl) (hn.le hm le_rfl)

theorem isNearest_div {num n : ℤ} {den : ℕ} (hden : 0 < den) (hnear : 2 * |num - n * den| ≤ den)
    (heven : 2 * |num - n * den| = den → Even n) : IsNearest (num / den) n := by
  have hpos : (0 : ℚ) < den := Nat.cast_pos.2 hden
  have hdistance : |(num : ℚ) / den - n| = (|num - n * den| : ℤ) / den := by
    rw [div_sub' hpos.ne', abs_div, abs_of_pos hpos, mul_comm (den : ℚ)]
    push_cast
    rfl
  constructor
  · rw [hdistance, div_le_div_iff₀ hpos two_pos]
    have hle : |num - n * den| * 2 ≤ 1 * den := by rwa [mul_comm, one_mul]
    exact_mod_cast hle
  · rw [hdistance, div_eq_div_iff hpos.ne' two_ne_zero]
    intro htie
    have heq : |num - n * den| * 2 = 1 * den := by exact_mod_cast htie
    exact heven (by rwa [mul_comm, one_mul] at heq)

theorem isNearest_roundHalfEven (num : ℤ) {den : ℕ} (hden : 0 < den) :
    IsNearest (num / den) (roundHalfEven num den) := by
  have hsplit := Int.mul_ediv_add_emod num den
  have hnonneg := Int.emod_nonneg num (Int.natCast_ne_zero.2 hden.ne')
  have hlt := Int.emod_lt_of_pos num (Int.natCast_pos.2 hden)
  have hbelow : num - num / den * den = num % den := by rw [mul_comm]; omega
  have habove : num - (num / den + 1) * den = num % den - den := by rw [add_mul, mul_comm]; omega
  simp only [roundHalfEven]
  split_ifs
  all_goals
    refine isNearest_div hden ?_ ?_
    all_goals simp only [hbelow, habove, Int.even_iff, abs_of_nonneg hnonneg, abs_of_neg (sub_neg.2 hlt)]
    all_goals omega

/-- Below an even bound, an integer is nearest to a number that stays away from the bound by more than a half. -/
theorem IsNearest.natAbs_lt_iff {x : ℚ} {n : ℤ} {limit : ℕ} (h : IsNearest x n) (hlimit : Even limit) :
    n.natAbs < limit ↔ |x| < limit - 1 / 2 := by
  have hcast : ((n.natAbs : ℕ) : ℚ) = |(n : ℚ)| := by rw [Nat.cast_natAbs, Int.cast_abs]
  have habove : |x| ≤ |(n : ℚ)| + 1 / 2 := by linarith [abs_sub_abs_le_abs_sub x n, h.near]
  have hbelow : |(n : ℚ)| ≤ |x| + 1 / 2 := by linarith [abs_sub_abs_le_abs_sub (n : ℚ) x, abs_sub_comm x n, h.near]
  constructor
  · intro hlt
    have hsucc : |(n : ℚ)| + 1 ≤ limit := by
      rw [← hcast]
      exact_mod_cast hlt
    refine lt_of_le_of_ne (by linarith) fun heq => ?_
    -- Halfway below the bound, the even neighbour is the bound itself.
    have hdistance : |x - n| = 1 / 2 :=
      le_antisymm h.near (by linarith [abs_sub_abs_le_abs_sub x n])
    have hodd : n.natAbs + 1 = limit := by
      have habs : |(n : ℚ)| + 1 = limit := by linarith
      rw [← hcast] at habs
      exact_mod_cast habs
    have heven := Int.natAbs_even.2 (h.even hdistance)
    rw [← hodd, Nat.even_add_one] at hlimit
    exact hlimit heven
  · intro hlt
    have hlt' : |(n : ℚ)| < limit := by linarith
    rw [← hcast] at hlt'
    exact_mod_cast hlt'

/-! ### The nearest number -/

namespace Decimal

theorem even_bound : Even bound := by decide

/-- The number is exactly `x`, or else nearest to it among the numbers with as many places as there is room for. -/
inductive Nearest (a : Decimal) (x : ℚ) : Prop where
  | exact (value : a.value = x)
  | rounded {places : ℕ} {n : ℤ} (value : a.value = n / 10 ^ places) (near : IsNearest (x * 10 ^ places) n)
      (fits : n.natAbs < bound) (le : places ≤ maxScale)
      (room : places = maxScale ∨ bound - 1 / 2 ≤ |x| * 10 ^ (places + 1))

/-- What an operation may answer whose exact result is `x`: the nearest number, or nothing if there is no room for the
integer part. -/
inductive Rounded (x : ℚ) : Option Decimal → Prop where
  | some {a : Decimal} (nearest : a.Nearest x) : Rounded x (some a)
  | none (large : bound - 1 / 2 ≤ |x|) : Rounded x none

theorem Rounded.nearest_of_eq_some {x : ℚ} {r : Option Decimal} (h : Rounded x r) {a : Decimal}
    (hr : r = Option.some a) : a.Nearest x := by
  subst hr
  cases h with | some hnearest => exact hnearest

theorem Rounded.large_of_eq_none {x : ℚ} {r : Option Decimal} (h : Rounded x r) (hr : r = Option.none) :
    bound - 1 / 2 ≤ |x| := by
  subst hr
  cases h with | none hlarge => exact hlarge

theorem eq_of_make? {coefficient : ℤ} {scale : ℕ} {a : Decimal} (ha : make? coefficient scale = some a) :
    a.coefficient = coefficient ∧ a.scale = scale := by
  unfold make? at ha
  split at ha
  · cases ha
    exact ⟨coefficient_ofCoefficient _ _, rfl⟩
  · cases ha

theorem value_of_make? {coefficient : ℤ} {scale : ℕ} {a : Decimal} (ha : make? coefficient scale = some a) :
    a.value = coefficient / 10 ^ scale := by
  obtain ⟨hcoefficient, hscale⟩ := eq_of_make? ha
  rw [value, hcoefficient, hscale, cast_powerOfTen]

/-- Where `x` may be rounded to a number of places: there are no digits behind them, or no room for one more. -/
def RoomAt (x : ℚ) (places : ℕ) : Prop :=
  (∃ n : ℤ, x * 10 ^ places = n) ∨ places = maxScale ∨ bound - 1 / 2 ≤ |x| * 10 ^ (places + 1)

section

variable {x : ℚ} {n : ℤ} {places : ℕ}

theorem nearest_of_make? {a : Decimal} (hmake : make? n places = some a) (hnear : IsNearest (x * 10 ^ places) n)
    (hroom : RoomAt x places) : a.Nearest x := by
  obtain ⟨hcoefficient, hscale⟩ := eq_of_make? hmake
  have hvalue := value_of_make? hmake
  rcases hroom with ⟨m, hm⟩ | hroom
  · have heq : m = n := IsNearest.eq (hm ▸ isNearest_intCast m) hnear
    exact .exact (by rw [hvalue, ← heq, ← hm, mul_div_cancel_right₀ _ (by positivity)])
  · exact .rounded hvalue hnear (hcoefficient ▸ a.coefficient_lt) (hscale ▸ a.scale_le) hroom

theorem large_of_make? (hmake : make? n places = none) (hplaces : places ≤ maxScale)
    (hnear : IsNearest (x * 10 ^ places) n) : bound - 1 / 2 ≤ |x| * 10 ^ places := by
  have hlarge : ¬ n.natAbs < bound := by simpa [make?, hplaces] using hmake
  rw [hnear.natAbs_lt_iff even_bound, not_lt, abs_mul, abs_of_pos (by positivity : (0 : ℚ) < 10 ^ places)] at hlarge
  exact hlarge

/-- The search for the nearest number starts with as many places as can have room. -/
theorem rounded_nearest? {num : ℤ} {den : ℕ} (hden : 0 < den) (hx : x = num / den) (hplaces : places ≤ maxScale)
    (hroom : RoomAt x places) : Rounded x (nearest? num den places) := by
  have hnear (places : ℕ) : IsNearest (x * 10 ^ places) (roundHalfEven (num * powerOfTen places) den) := by
    have h := isNearest_roundHalfEven (num * powerOfTen places) hden
    rwa [Int.cast_mul, Int.cast_natCast, cast_powerOfTen, mul_div_right_comm, ← hx] at h
  induction places with
  | zero =>
      have hnear := hnear 0
      rw [show num * powerOfTen 0 = num from mul_one num] at hnear
      rw [nearest?]
      cases hmake : make? (roundHalfEven num den) 0 with
      | some a => exact .some (nearest_of_make? hmake hnear hroom)
      | none => exact .none (by simpa using large_of_make? hmake hplaces hnear)
  | succ places ih =>
      rw [nearest?]
      cases hmake : make? (roundHalfEven (num * powerOfTen (places + 1)) den) (places + 1) with
      | some a => exact .some (nearest_of_make? hmake (hnear _) hroom)
      | none => exact ih (Nat.le_of_succ_le hplaces) (.inr (.inr (large_of_make? hmake hplaces (hnear _))))

end

theorem rounded_fit? (num : ℤ) (scale : ℕ) : Rounded (num / 10 ^ scale) (fit? num scale) := by
  have hx : (num / 10 ^ scale : ℚ) = num / powerOfTen scale := by rw [cast_powerOfTen]
  rw [fit?]
  cases hmake : make? num scale with
  | some a => exact .some (.exact (value_of_make? hmake))
  | none =>
      refine rounded_nearest? (powerOfTen_pos scale) hx (min_le_right _ _) ?_
      rcases le_or_gt scale maxScale with hle | hgt
      · rw [min_eq_left hle]
        exact .inl ⟨num, div_mul_cancel₀ _ (by positivity)⟩
      · exact .inr (.inl (min_eq_right hgt.le))

/-! ### Arithmetic -/

/-- On a larger scale a number keeps its value. -/
theorem value_coefficientAt {a : Decimal} {scale : ℕ} (hle : a.scale ≤ scale) :
    (a.coefficientAt scale / 10 ^ scale : ℚ) = a.value := by
  unfold coefficientAt
  rw [value_eq_div]
  split_ifs with heq
  · rw [heq]
  · rw [Int.cast_mul, Int.cast_natCast, cast_powerOfTen, div_eq_div_iff (by positivity) (by positivity), mul_assoc,
      ← pow_add, Nat.sub_add_cancel hle]

theorem rounded_add? (a b : Decimal) : Rounded (a.value + b.value) (a.add? b) := by
  unfold add?
  split_ifs with ha hb
  · exact .some (.exact (by rw [isZero_iff.1 ha, zero_add]))
  · exact .some (.exact (by rw [isZero_iff.1 hb, add_zero]))
  · rw [← value_coefficientAt (le_max_left a.scale b.scale), ← value_coefficientAt (le_max_right a.scale b.scale),
      ← add_div, ← Int.cast_add]
    exact rounded_fit? _ _

theorem rounded_sub? (a b : Decimal) : Rounded (a.value - b.value) (a.sub? b) := by
  rw [sub_eq_add_neg, ← value_neg]
  exact rounded_add? a b.neg

theorem rounded_mul? (a b : Decimal) : Rounded (a.value * b.value) (a.mul? b) := by
  have hvalue : a.value * b.value = (a.coefficient * b.coefficient : ℤ) / 10 ^ (a.scale + b.scale) := by
    rw [value, value, cast_powerOfTen, cast_powerOfTen, div_mul_div_comm, ← pow_add, Int.cast_mul]
  rw [hvalue]
  exact rounded_fit? _ _

/-! ### Exact results -/

theorem Nearest.of_value_eq {a b : Decimal} {x : ℚ} (h : a.Nearest x) (heq : b.value = a.value) : b.Nearest x := by
  cases h with
  | exact hvalue => exact .exact (heq.trans hvalue)
  | rounded hvalue hnear hfits hle hroom => exact .rounded (heq.trans hvalue) hnear hfits hle hroom

theorem exists_value_eq_intCast {n : ℤ} (hn : n.natAbs < bound) : ∃ a : Decimal, a.value = n :=
  ⟨ofCoefficient n 0 hn (Nat.zero_le _), by simp⟩

/-- A number has room for all its own digits. -/
theorem abs_value_mul_lt (b : Decimal) {places : ℕ} (hle : places ≤ b.scale) :
    |b.value| * 10 ^ places < bound - 1 / 2 := by
  have hmantissa : (b.mantissa : ℚ) + 1 ≤ bound := by exact_mod_cast b.mantissa_lt
  have hpow : (10 : ℚ) ^ places ≤ 10 ^ b.scale := pow_le_pow_right₀ (by norm_num) hle
  calc |b.value| * 10 ^ places ≤ |b.value| * 10 ^ b.scale := mul_le_mul_of_nonneg_left hpow (abs_nonneg _)
    _ = b.mantissa := by rw [abs_value, div_mul_cancel₀ _ (by positivity)]
    _ < bound - 1 / 2 := by linarith

theorem natAbs_lt_bound {a : Decimal} {n : ℤ} (ha : a.value = n) : n.natAbs < bound := by
  have hlt := a.abs_value_mul_lt (Nat.zero_le _)
  rw [pow_zero, mul_one, ha, ← Int.cast_abs, Int.abs_eq_natAbs, Int.cast_natCast] at hlt
  have hlt' : (n.natAbs : ℚ) < bound := by linarith
  exact_mod_cast hlt'

/-- Where some number is exactly the result, so is the nearest one. -/
theorem Nearest.value_eq {a b : Decimal} {x : ℚ} (h : a.Nearest x) (hb : b.value = x) : a.value = x := by
  rcases h with hvalue | ⟨hvalue, hnear, -, hle, hroom⟩
  · exact hvalue
  rename_i places n
  -- All digits of the exact result are among the places that were kept.
  have hscale : b.scale ≤ places := by
    by_contra hlt
    rcases hroom with hmax | hroom
    · exact hlt (hmax ▸ b.scale_le)
    · exact absurd hroom (not_le.2 (hb ▸ b.abs_value_mul_lt (not_le.1 hlt)))
  have hinteger : x * 10 ^ places = (b.coefficient * 10 ^ (places - b.scale) : ℤ) := by
    rw [← hb, value_eq_div, div_mul_eq_mul_div, div_eq_iff (by positivity)]
    push_cast
    rw [mul_assoc, ← pow_add, Nat.sub_add_cancel hscale]
  have heq := IsNearest.eq (hinteger ▸ isNearest_intCast _) hnear
  rw [hvalue, ← heq, ← hinteger, mul_div_cancel_right₀ _ (by positivity)]

/-- No number that fits has more places than there is room for. -/
theorem places_le {x : ℚ} {m : ℤ} {p q : ℕ} (hm : IsNearest (x * 10 ^ p) m) (hfits : m.natAbs < bound)
    (hp : p ≤ maxScale) (hq : q = maxScale ∨ bound - 1 / 2 ≤ |x| * 10 ^ (q + 1)) : p ≤ q := by
  rcases hq with rfl | hq
  · exact hp
  by_contra hlt
  rw [hm.natAbs_lt_iff even_bound, abs_mul, abs_of_pos (by positivity : (0 : ℚ) < 10 ^ p)] at hfits
  have hpow : (10 : ℚ) ^ (q + 1) ≤ 10 ^ p := pow_le_pow_right₀ (by norm_num) (not_le.1 hlt)
  exact absurd (hq.trans (mul_le_mul_of_nonneg_left hpow (abs_nonneg x))) (not_le.2 hfits)

/-- The nearest numbers have one value. -/
theorem Nearest.unique {a b : Decimal} {x : ℚ} (ha : a.Nearest x) (hb : b.Nearest x) : a.value = b.value := by
  rcases ha with ha | @⟨p, m, hp, hm, hmfits, hple, hproom⟩
  · exact ha.trans (hb.value_eq ha).symm
  rcases hb with hb | @⟨q, n, hq, hn, hnfits, hqle, hqroom⟩
  · exact (value_eq (.rounded hp hm hmfits hple hproom) hb).trans hb.symm
  obtain rfl : p = q := le_antisymm (places_le hm hmfits hple hqroom) (places_le hn hnfits hqle hproom)
  rw [hp, hq, hm.eq hn]

/-- Only results with room for their integer part have a nearest number. -/
theorem Nearest.abs_lt {a : Decimal} {x : ℚ} (h : a.Nearest x) : |x| < bound - 1 / 2 := by
  rcases h with hvalue | @⟨places, n, -, hnear, hfits, -, -⟩
  · have hlt := a.abs_value_mul_lt (Nat.zero_le _)
    rwa [pow_zero, mul_one, hvalue] at hlt
  · rw [hnear.natAbs_lt_iff even_bound, abs_mul, abs_of_pos (by positivity : (0 : ℚ) < 10 ^ places)] at hfits
    exact lt_of_le_of_lt (le_mul_of_one_le_right (abs_nonneg x) (one_le_pow₀ (by norm_num))) hfits

/-- An integer is never rounded. -/
theorem Nearest.value_eq_intCast {a : Decimal} {n : ℤ} (h : a.Nearest n) : a.value = n := by
  have hlt := h.abs_lt
  rw [← Int.cast_abs, Int.abs_eq_natAbs, Int.cast_natCast] at hlt
  have hlt' : (n.natAbs : ℚ) < bound := by linarith
  obtain ⟨b, hb⟩ := exists_value_eq_intCast (Nat.cast_lt.1 hlt')
  exact h.value_eq hb

/-! ### Sign and whole part -/

theorem Nearest.neg {a : Decimal} {x : ℚ} (h : a.Nearest x) : a.neg.Nearest (-x) := by
  rcases h with hvalue | @⟨places, n, hvalue, hnear, hfits, hle, hroom⟩
  · exact .exact (by rw [value_neg, hvalue])
  · refine .rounded (n := -n) ?_ ?_ ?_ hle ?_
    · rw [value_neg, hvalue, Int.cast_neg, neg_div]
    · rw [neg_mul]
      exact hnear.neg
    · rwa [Int.natAbs_neg]
    · rwa [abs_neg]

/-- Rounding does not lead below an integer. -/
theorem Nearest.intCast_le {a : Decimal} {x : ℚ} {m : ℤ} (h : a.Nearest x) (hm : m ≤ x) : m ≤ a.value := by
  rcases h with hvalue | @⟨places, n, hvalue, hnear, -, -, -⟩
  · exact hvalue ▸ hm
  · have hpos : (0 : ℚ) < 10 ^ places := by positivity
    have hinteger := isNearest_intCast (m * 10 ^ places)
    have hle := hinteger.le hnear (by push_cast; exact mul_le_mul_of_nonneg_right hm hpos.le)
    rw [hvalue, le_div_iff₀ hpos]
    exact_mod_cast hle

theorem Nearest.le_intCast {a : Decimal} {x : ℚ} {m : ℤ} (h : a.Nearest x) (hm : x ≤ m) : a.value ≤ m := by
  have hle := h.neg.intCast_le (m := -m) (by push_cast; linarith)
  rw [value_neg] at hle
  push_cast at hle
  linarith

theorem Nearest.nonneg {a : Decimal} {x : ℚ} (h : a.Nearest x) (hx : 0 ≤ x) : 0 ≤ a.value := by
  simpa using h.intCast_le (m := 0) (by simpa using hx)

/-- Rounding does not pass an integer. -/
theorem Nearest.lt_floor_add_one {a : Decimal} {x : ℚ} (h : a.Nearest x) : x < ⌊a.value⌋ + 1 := by
  by_contra hle
  have hnext := h.intCast_le (m := ⌊a.value⌋ + 1) (by push_cast; exact not_lt.1 hle)
  push_cast at hnext
  exact absurd (Int.lt_floor_add_one a.value) (not_lt.2 hnext)

theorem exists_value_mul_eq (a : Decimal) : ∃ m : ℤ, a.value * 10 ^ maxScale = m := by
  refine ⟨a.coefficient * 10 ^ (maxScale - a.scale), ?_⟩
  rw [value_eq_div, div_mul_eq_mul_div, div_eq_iff (by positivity)]
  push_cast
  rw [mul_assoc, ← pow_add, Nat.sub_add_cancel a.scale_le]

/-- A result with no more places than a number can have is rounded to zero only if it is zero. -/
theorem Nearest.eq_zero {a : Decimal} {x : ℚ} {m : ℤ} (h : a.Nearest x) (hx : x * 10 ^ maxScale = m)
    (hzero : a.value = 0) : x = 0 := by
  rcases h with hvalue | @⟨places, n, hvalue, hnear, -, -, hroom⟩
  · exact hvalue ▸ hzero
  have hn : n = 0 := by
    rw [hvalue, div_eq_zero_iff, or_iff_left (by positivity)] at hzero
    exact_mod_cast hzero
  subst hn
  rcases hroom with rfl | hroom
  · have hm : m = 0 := IsNearest.eq (hx ▸ isNearest_intCast m) hnear
    rw [hm, Int.cast_zero, mul_eq_zero] at hx
    exact hx.resolve_right (by positivity)
  · have hnear := hnear.near
    rw [Int.cast_zero, sub_zero, abs_mul, abs_of_pos (by positivity : (0 : ℚ) < 10 ^ places)] at hnear
    rw [pow_succ] at hroom
    norm_num [bound] at hroom
    linarith

theorem coefficient_nonneg {a : Decimal} (ha : 0 ≤ a.value) : 0 ≤ a.coefficient := by
  rw [value_eq_div, le_div_iff₀ (by positivity), zero_mul] at ha
  exact_mod_cast ha

theorem truncated_eq_floor {a : Decimal} (ha : 0 ≤ a.value) : a.truncated = ⌊a.value⌋ := by
  rw [truncated, Int.tdiv_eq_ediv_of_nonneg (coefficient_nonneg ha), value, Rat.floor_intCast_div_natCast]

theorem rounded_eq_floor {a : Decimal} (ha : 0 ≤ a.value) : a.rounded = ⌊a.value + 1 / 2⌋ := by
  have hpos := powerOfTen_pos a.scale
  have hvalue : a.value + 1 / 2 = (2 * a.coefficient + powerOfTen a.scale : ℤ) / (2 * powerOfTen a.scale : ℕ) := by
    have hne : (powerOfTen a.scale : ℚ) ≠ 0 := Nat.cast_ne_zero.2 hpos.ne'
    rw [value, div_add_div _ _ hne two_ne_zero]
    push_cast
    ring
  rw [hvalue, Rat.floor_intCast_div_natCast, rounded, roundHalfAway]
  obtain ⟨n, hn⟩ := Int.eq_ofNat_of_zero_le (coefficient_nonneg ha)
  rw [hn, Int.natAbs_natCast]
  rcases Nat.eq_zero_or_pos n with rfl | hn
  · rw [Int.natCast_zero, Int.sign_zero, zero_mul, mul_zero, zero_add, Int.ediv_eq_zero_of_lt] <;> omega
  · rw [Int.sign_eq_one_of_pos (Int.natCast_pos.2 hn), one_mul]
    push_cast
    rfl

end Decimal

end LineScript

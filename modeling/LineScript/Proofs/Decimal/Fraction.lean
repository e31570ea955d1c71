import LineScript.Decimal.Arithmetic
/-!
# Parts of a length

A number less its whole part always fits, and so does a length times what is left: the product is not larger than the
length, however many of its places have to be rounded away.
-/

namespace LineScript

/-- Rounding does not lead beyond an integer. -/
theorem natAbs_roundHalfEven_le {num : Int} {den n : Nat} (hden : 0 < den) (hnum : num.natAbs ≤ n * den) :
    (roundHalfEven num den).natAbs ≤ n := by
  have hpos : (0 : Int) < den := Int.natCast_pos.2 hden
  have hdiv := Int.mul_ediv_add_emod num den
  have hnonneg := Int.emod_nonneg num (Int.ne_of_gt hpos)
  have hlt := Int.emod_lt_of_pos num hpos
  have hupper : num ≤ n * den := by omega
  have hlower : -n * den ≤ num := by rw [Int.neg_mul]; omega
  -- Only the quotient `n` itself could be rounded up beyond `n`, and it leaves no rest.
  have hbelow : -n ≤ num / den := Int.le_ediv_of_mul_le hpos hlower
  have habove : num / den < n ∨ num / den = n ∧ num % den = 0 := by
    rcases Int.lt_or_le (num / den) n with hbefore | hbehind
    · exact .inl hbefore
    · have hmul := Int.mul_le_mul_of_nonneg_left hbehind (Int.natCast_nonneg den)
      rw [Int.mul_comm (den : Int) n] at hmul
      have hquotient : num / den ≤ n := Int.ediv_le_of_le_mul hpos hupper
      exact .inr ⟨by omega, by omega⟩
  simp only [roundHalfEven]
  omega

namespace Decimal

theorem make?_of_lt {coefficient : Int} {scale : Nat} (hcoefficient : coefficient.natAbs < bound)
    (hscale : scale ≤ maxScale) :
    make? coefficient scale = some (ofCoefficient coefficient scale hcoefficient hscale) :=
  dif_pos ⟨hcoefficient, hscale⟩

/-- A quotient whose integer part fits is found at some number of places. -/
theorem isSome_nearest? {num : Int} {den : Nat} (hfits : (roundHalfEven num den).natAbs < bound) (places : Nat) :
    (nearest? num den places).isSome := by
  induction places with
  | zero => rw [nearest?, make?_of_lt hfits (Nat.zero_le _), Option.isSome_some]
  | succ places ih =>
      rw [nearest?]
      split
      · rfl
      · exact ih

theorem isSome_fit? {num : Int} {scale : Nat} (hfits : (roundHalfEven num (powerOfTen scale)).natAbs < bound) :
    (fit? num scale).isSome := by
  rw [fit?]
  split
  · rfl
  · exact isSome_nearest? hfits _

/-- At the scale of the number, its whole part is a multiple of the power of ten. -/
theorem coefficientAt_neg_whole (a : Decimal) :
    a.whole.neg.coefficientAt a.scale = -(powerOfTen a.scale * a.coefficient.tdiv (powerOfTen a.scale)) := by
  unfold coefficientAt
  split
  · rename_i hplain
    replace hplain : a.scale = 0 := hplain
    simp [truncated, hplain, powerOfTen]
  · rw [coefficient_neg, coefficient_whole, show a.whole.neg.scale = 0 from rfl, truncated, Nat.sub_zero, Int.neg_mul,
      Int.mul_comm]

/-- A number without its whole part is below one. -/
theorem sub?_whole (a : Decimal) :
    ∃ fraction, a.sub? a.whole = some fraction ∧ fraction.mantissa < powerOfTen fraction.scale := by
  have hpower := powerOfTen_pos a.scale
  have hdiv := Int.mul_tdiv_add_tmod a.coefficient (powerOfTen a.scale)
  have hlt : (a.coefficient.tmod (powerOfTen a.scale)).natAbs < powerOfTen a.scale := by
    rw [Int.natAbs_tmod, Int.natAbs_natCast]
    exact Nat.mod_lt _ hpower
  by_cases hzero : a.isZero = true
  · refine ⟨a.whole.neg, by rw [sub?, add?, if_pos hzero], ?_⟩
    have hmantissa : a.mantissa = 0 := beq_iff_eq.1 hzero
    simp [neg, whole, hmantissa, powerOfTen]
  by_cases hwhole : a.whole.neg.isZero = true
  · refine ⟨a, by rw [sub?, add?, if_neg hzero, if_pos hwhole], ?_⟩
    have hquotient : a.mantissa / powerOfTen a.scale = 0 := beq_iff_eq.1 hwhole
    exact (Nat.div_eq_zero_iff_lt hpower).1 hquotient
  · have hscale : max a.scale a.whole.neg.scale = a.scale := Nat.max_zero _
    have hsum : a.coefficientAt a.scale + a.whole.neg.coefficientAt a.scale =
        a.coefficient.tmod (powerOfTen a.scale) := by
      rw [coefficientAt_neg_whole, coefficientAt, if_pos rfl]
      omega
    have hfits : (a.coefficient.tmod (powerOfTen a.scale)).natAbs < bound := by
      rw [Int.natAbs_tmod]
      exact Nat.lt_of_le_of_lt (Nat.mod_le _ _) a.coefficient_lt
    refine ⟨ofCoefficient (a.coefficient.tmod (powerOfTen a.scale)) a.scale hfits a.scale_le, ?_, hlt⟩
    rw [sub?, add?, if_neg hzero, if_neg hwhole]
    simp only [hscale, hsum]
    rw [fit?, make?_of_lt hfits a.scale_le]

/-- A length times a fraction fits, because it is not larger than the length. -/
theorem isSome_ofNat_mul? (length : Nat) {fraction : Decimal}
    (hfraction : fraction.mantissa < powerOfTen fraction.scale) : ((ofNat length).mul? fraction).isSome := by
  have hlength := (ofNat length).coefficient_lt
  rw [mul?, show (ofNat length).scale = 0 from rfl, Nat.zero_add]
  refine isSome_fit? (Nat.lt_of_le_of_lt (natAbs_roundHalfEven_le (powerOfTen_pos _) ?_) hlength)
  rw [Int.natAbs_mul, fraction.natAbs_coefficient]
  exact Nat.mul_le_mul_left _ (Nat.le_of_lt hfraction)

end Decimal

end LineScript

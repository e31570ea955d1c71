import LineScript.Decimal.Printer
import LineScript.Decimal.Reader
import LineScript.Proofs.Decimal.Value
/-!
# Reading a written number

The notation of a number reads as that number, with its scale: while digits are read, the coefficient is the number
that they write, and it never leaves the room that the number itself has. Only a zero with a sign is read as the other
zero. Forgetting trailing zeros, and the sign of zero, does not change the value.
-/

namespace LineScript

/-! ### Digits -/

theorem digitValue?_digitChar (n : Nat) : Decimal.digitValue? (digitChar n) = some (n % 10) := by
  have hdigits : ∀ d < 10, Decimal.digitValue? (Char.ofNat ('0'.toNat + d)) = some d := by decide
  exact hdigits (n % 10) (Nat.mod_lt n (by decide))

theorem digitChar_ne {c : Char} (hc : Decimal.digitValue? c = none) (n : Nat) : digitChar n ≠ c := by
  rintro rfl
  rw [digitValue?_digitChar] at hc
  cases hc

/-- Every digit is a character of the form `digitChar d`. -/
theorem mem_paddedDigits {width n : Nat} {c : Char} (hc : c ∈ paddedDigits width n) : ∃ d, c = digitChar d := by
  induction width generalizing n with
  | zero => cases hc
  | succ width ih =>
      rw [paddedDigits, List.mem_append, List.mem_singleton] at hc
      exact hc.elim ih fun hlast => ⟨n, hlast⟩

/-- Without leading zeros, a number has as many digits as it needs. -/
theorem exists_digits_eq (n : Nat) : ∃ width, 0 < width ∧ n < powerOfTen width ∧ digits n = paddedDigits width n := by
  fun_induction digits n with
  | case1 n hn => exact ⟨1, Nat.one_pos, hn, rfl⟩
  | case2 n hn ih =>
      obtain ⟨width, -, hlt, hdigits⟩ := ih
      have hpower : powerOfTen (width + 1) = 10 * powerOfTen width := Nat.pow_succ'
      exact ⟨width + 1, width.succ_pos, by omega, by rw [paddedDigits, hdigits]⟩

theorem mem_digits {n : Nat} {c : Char} (hc : c ∈ digits n) : ∃ d, c = digitChar d := by
  obtain ⟨width, -, -, hdigits⟩ := exists_digits_eq n
  exact mem_paddedDigits (hdigits ▸ hc)

theorem length_paddedDigits (width n : Nat) : (paddedDigits width n).length = width := by
  induction width generalizing n with
  | zero => rfl
  | succ width ih => rw [paddedDigits, List.length_append, ih, List.length_singleton]

theorem length_digits_le {n width : Nat} (hn : n < powerOfTen (width + 1)) : (digits n).length ≤ width + 1 := by
  fun_induction digits n generalizing width with
  | case1 n hsmall => exact Nat.succ_le_succ (Nat.zero_le width)
  | case2 n hlarge ih =>
      cases width with
      | zero => exact (hlarge hn).elim
      | succ width =>
          have hpower : powerOfTen (width + 1 + 1) = 10 * powerOfTen (width + 1) := Nat.pow_succ'
          have hquotient : (digits (n / 10)).length ≤ width + 1 := ih (by omega)
          rw [List.length_append, List.length_singleton]
          omega

theorem exists_digits_eq_cons (n : Nat) : ∃ d rest, digits n = digitChar d :: rest := by
  fun_induction digits n with
  | case1 n hn => exact ⟨n, [], rfl⟩
  | case2 n hn ih =>
      obtain ⟨d, rest, hdigits⟩ := ih
      exact ⟨d, rest ++ [digitChar n], by rw [hdigits, List.cons_append]⟩

namespace Decimal

/-! ### Reading digits -/

theorem magnitude?_digitChar {started fraction : Bool} {coefficient scale n : Nat} {rest : List Char}
    (hbound : coefficient * 10 + n % 10 < bound) (hscale : fraction = true → scale < maxScale) :
    magnitude? started fraction coefficient scale (digitChar n :: rest) =
      magnitude? true fraction (coefficient * 10 + n % 10) (if fraction then scale + 1 else 0) rest := by
  rw [magnitude?, digitValue?_digitChar]
  exact if_pos ⟨hbound, hscale⟩

/-- Reading digits behind a coefficient appends them to it, and those of a fraction are counted. -/
theorem magnitude?_paddedDigits {started : Bool} (fraction : Bool) {coefficient scale width n : Nat} (rest : List Char)
    (hbound : coefficient * powerOfTen width + n % powerOfTen width < bound)
    (hwhole : fraction = false → scale = 0) (hplaces : fraction = true → scale + width ≤ maxScale) :
    magnitude? started fraction coefficient scale (paddedDigits width n ++ rest) =
      magnitude? (started || decide (0 < width)) fraction (coefficient * powerOfTen width + n % powerOfTen width)
        (if fraction then scale + width else 0) rest := by
  induction width generalizing n rest with
  | zero =>
      have hscale : (if fraction then scale else 0) = scale := by
        cases fraction with
        | true => rfl
        | false => exact (hwhole rfl).symm
      simp [paddedDigits, powerOfTen, Nat.mod_one, hscale]
  | succ width ih =>
      -- The last digit is what the number leaves over by ten, and the digits before it are those of the quotient.
      have hpower : powerOfTen (width + 1) = 10 * powerOfTen width := Nat.pow_succ'
      have hmod : n % powerOfTen (width + 1) = n / 10 % powerOfTen width * 10 + n % 10 := by
        rw [hpower, Nat.mod_mul]
        omega
      have hvalue : coefficient * powerOfTen (width + 1) + n % powerOfTen (width + 1) =
          (coefficient * powerOfTen width + n / 10 % powerOfTen width) * 10 + n % 10 := by
        rw [hmod, hpower, Nat.add_mul, Nat.mul_comm 10, Nat.mul_assoc, Nat.add_assoc]
      rw [hvalue] at hbound ⊢
      rw [paddedDigits, List.append_assoc, List.singleton_append,
        ih _ (by omega) fun hfraction => Nat.le_of_succ_le (hplaces hfraction), magnitude?_digitChar hbound]
      · cases fraction <;> simp [Nat.add_assoc]
      · rintro rfl
        exact hplaces rfl

theorem magnitude?_digits {n : Nat} (rest : List Char) (hn : n < bound) :
    magnitude? false false 0 0 (digits n ++ rest) = magnitude? true false n 0 rest := by
  obtain ⟨width, hwidth, hlt, hdigits⟩ := exists_digits_eq n
  have hmod : n % powerOfTen width = n := Nat.mod_eq_of_lt hlt
  rw [hdigits, magnitude?_paddedDigits false rest (by rw [hmod]; omega) (fun _ => rfl) Bool.noConfusion, hmod]
  simp [hwidth]

theorem magnitude?_magnitudeChars {n scale : Nat} (hn : n < bound) (hscale : scale ≤ maxScale) :
    magnitude? false false 0 0 (magnitudeChars n scale) = some (n, scale) := by
  unfold magnitudeChars
  split
  · rename_i hzero
    have hread := magnitude?_digits [] hn
    rw [List.append_nil] at hread
    rw [hread, hzero]
    rfl
  · have hvalue : n / powerOfTen scale * powerOfTen scale + n % powerOfTen scale % powerOfTen scale = n := by
      rw [Nat.mod_mod, Nat.mul_comm]
      exact Nat.div_add_mod n _
    have hpoint (rest : List Char) : magnitude? true false (n / powerOfTen scale) 0 ('.' :: rest) =
        magnitude? true true (n / powerOfTen scale) 0 rest := rfl
    have hfraction : magnitude? true true (n / powerOfTen scale) 0
        (paddedDigits scale (n % powerOfTen scale) ++ []) = some (n, scale) := by
      rw [magnitude?_paddedDigits true [] (by rw [hvalue]; exact hn) Bool.noConfusion fun _ => by omega, hvalue]
      simp [magnitude?]
    rw [List.append_nil] at hfraction
    rw [magnitude?_digits _ (Nat.lt_of_le_of_lt (Nat.div_le_self _ _) hn), hpoint, hfraction]

/-! ### The notation of a number -/

/-- A magnitude starts with a digit. -/
theorem exists_magnitudeChars_eq (n scale : Nat) : ∃ d rest, magnitudeChars n scale = digitChar d :: rest := by
  unfold magnitudeChars
  split
  · exact exists_digits_eq_cons n
  · obtain ⟨d, rest, hdigits⟩ := exists_digits_eq_cons (n / powerOfTen scale)
    exact ⟨d, _, by rw [hdigits]; rfl⟩

/-- The number without its sign. -/
def magnitude (a : Decimal) : Decimal :=
  { a with isNegative := false }

theorem magnitude_of_not_isNegative {a : Decimal} (hsign : a.isNegative = false) : a.magnitude = a := by
  cases a
  cases hsign
  rfl

theorem neg_magnitude_of_isNegative {a : Decimal} (hsign : a.isNegative = true) : a.magnitude.neg = a := by
  cases a
  cases hsign
  rfl

/-- The number with the same coefficient and scale that is not a zero with a sign. -/
def unsignedZero (a : Decimal) : Decimal :=
  ofCoefficient a.coefficient a.scale a.coefficient_lt a.scale_le

theorem unsignedZero_eq {a : Decimal} (hzero : a.isZero = true → a.isNegative = false) : a.unsignedZero = a := by
  obtain ⟨sign, mantissa, scale, hmantissa, hscale⟩ := a
  simp only [isZero, beq_iff_eq] at hzero
  have hsign : decide ((if sign then -(mantissa : Int) else mantissa) < 0) = sign := by
    cases sign with
    | false => simp
    | true =>
        have hpos : mantissa ≠ 0 := fun h => Bool.noConfusion (hzero h)
        simp only [if_true, decide_eq_true_iff]
        omega
  simp only [unsignedZero, ofCoefficient, coefficient, hsign, Decimal.mk.injEq, true_and, and_true]
  cases sign <;> simp

theorem make?_magnitude (a : Decimal) : make? a.mantissa a.scale = some a.magnitude := by
  rw [make?, dif_pos ⟨a.mantissa_lt, a.scale_le⟩]
  simp [ofCoefficient, magnitude]

/-- The digits of a number are read as the number without its sign. -/
theorem ofChars?_magnitudeChars (a : Decimal) :
    ofChars? (magnitudeChars a.mantissa a.scale) = some a.magnitude := by
  have hplain : plain? (magnitudeChars a.mantissa a.scale) = some a.magnitude := by
    have hread := magnitude?_magnitudeChars a.mantissa_lt a.scale_le
    obtain ⟨d, rest, hchars⟩ := exists_magnitudeChars_eq a.mantissa a.scale
    rw [hchars] at hread ⊢
    unfold plain?
    split
    · rename_i hminus
      exact (digitChar_ne rfl d (List.cons.inj hminus).1).elim
    · rename_i hplus
      exact (digitChar_ne rfl d (List.cons.inj hplus).1).elim
    · rw [hread]
      exact a.make?_magnitude
  rw [ofChars?, hplain, Option.some_or]

/-- A number with its sign is read as it was written, but for the sign of zero. -/
theorem ofChars?_chars (a : Decimal) : ofChars? a.chars = some a.unsignedZero := by
  have hlt := a.coefficient_lt
  unfold chars
  dsimp only
  split
  · rename_i hneg
    have hcoefficient : a.coefficient = -(a.mantissa : Int) := if_pos hneg
    have hplain : plain? ('-' :: magnitudeChars a.mantissa a.scale) = some a.unsignedZero := by
      rw [plain?, magnitude?_magnitudeChars a.mantissa_lt a.scale_le]
      show make? (-(a.mantissa : Int)) a.scale = _
      rw [← hcoefficient]
      exact dif_pos ⟨hlt, a.scale_le⟩
    rw [ofChars?, hplain, Option.some_or]
  · rename_i hsign
    replace hsign : a.isNegative = false := Bool.not_eq_true _ ▸ hsign
    rw [ofChars?_magnitudeChars, magnitude_of_not_isNegative hsign, unsignedZero_eq fun _ => hsign]

/-- A number is written with a sign, a point and digits only. -/
theorem mem_chars {a : Decimal} {c : Char} (hc : c ∈ a.chars) : c = '-' ∨ c = '.' ∨ ∃ d, c = digitChar d := by
  have hmagnitude (hc : c ∈ magnitudeChars a.mantissa a.scale) : c = '.' ∨ ∃ d, c = digitChar d := by
    unfold magnitudeChars at hc
    split at hc
    · exact .inr (mem_digits hc)
    · rcases List.mem_append.1 hc with hc | hc
      · exact .inr (mem_digits hc)
      · exact (List.mem_cons.1 hc).imp_right mem_paddedDigits
  unfold chars at hc
  dsimp only at hc
  split at hc
  · exact (List.mem_cons.1 hc).imp_right hmagnitude
  · exact .inr (hmagnitude hc)

/-- A sign, the digits of the largest number, a point and as many places as there may be. -/
theorem length_chars_le (a : Decimal) : a.chars.length ≤ 59 := by
  have hbound : bound ≤ powerOfTen (28 + 1) := by decide
  have hscale : a.scale ≤ 28 := a.scale_le
  have hlt := a.mantissa_lt
  have hmagnitude : (magnitudeChars a.mantissa a.scale).length ≤ 58 := by
    unfold magnitudeChars
    split
    · have hdigits : (digits a.mantissa).length ≤ 28 + 1 := length_digits_le (by omega)
      omega
    · have hquotient := Nat.div_le_self a.mantissa (powerOfTen a.scale)
      have hdigits : (digits (a.mantissa / powerOfTen a.scale)).length ≤ 28 + 1 := length_digits_le (by omega)
      rw [List.length_append, List.length_cons, length_paddedDigits]
      omega
  unfold chars
  dsimp only
  split
  · exact Nat.succ_le_succ hmagnitude
  · exact Nat.le_succ_of_le hmagnitude

/-! ### Trailing zeros -/

theorem coefficient_dropDigit {a : Decimal} (hzero : a.mantissa % 10 = 0) :
    a.coefficient = 10 * a.dropDigit.coefficient := by
  unfold coefficient dropDigit
  dsimp only
  split <;> omega

theorem value_dropZeros {n : Nat} {a : Decimal} (hn : n ≤ a.scale) : (dropZeros n a).value = a.value := by
  induction n generalizing a with
  | zero => rfl
  | succ n ih =>
      rw [dropZeros]
      split
      · rename_i hzero
        rw [ih (show n ≤ a.scale - 1 by omega)]
        have hscale : powerOfTen a.scale = 10 * powerOfTen (a.scale - 1) := by
          rw [show a.scale = a.scale - 1 + 1 by omega]
          exact Nat.pow_succ'
        rw [value, value, coefficient_dropDigit hzero, hscale]
        push_cast
        exact (mul_div_mul_left _ _ (by norm_num)).symm
      · rfl

theorem value_normalized (a : Decimal) : a.normalized.value = a.value := by
  unfold normalized
  split
  · rename_i hzero
    rw [isZero_iff.1 hzero]
    exact value_ofNat (by decide)
  · exact value_dropZeros (Nat.le_refl _)

/-! ### The fewest digits

Of the numbers with one value, a single one has no zero at the end of its fraction and is not a zero with a sign.
-/

/-- The fraction, if there is one, does not end in a zero, and zero has no sign. -/
structure IsReduced (a : Decimal) : Prop where
  places : a.scale = 0 ∨ a.mantissa % 10 ≠ 0
  unsigned : a.isZero = true → a.isNegative = false

theorem places_dropZeros {n : Nat} {a : Decimal} (hn : a.scale ≤ n) :
    (dropZeros n a).scale = 0 ∨ (dropZeros n a).mantissa % 10 ≠ 0 := by
  induction n generalizing a with
  | zero => exact .inl (Nat.le_zero.1 hn)
  | succ n ih =>
      rw [dropZeros]
      split
      · exact ih (Nat.sub_le_of_le_add hn)
      · rename_i hlast
        exact .inr hlast

theorem isReduced_normalized (a : Decimal) : a.normalized.IsReduced := by
  unfold normalized
  split
  · exact ⟨.inl rfl, fun _ => rfl⟩
  · rename_i hzero
    refine ⟨places_dropZeros (Nat.le_refl _), fun hdropped => (hzero ?_).elim⟩
    rw [isZero_iff, value_dropZeros (Nat.le_refl _)] at hdropped
    exact isZero_iff.2 hdropped

/-- A zero more at the end is what every further place brings. -/
theorem IsReduced.scale_le {a b : Decimal} (hb : b.IsReduced) (hvalue : a.value = b.value) : b.scale ≤ a.scale := by
  refine Nat.le_of_not_lt fun hlt => ?_
  obtain ⟨places, hscale⟩ : ∃ places, b.scale = a.scale + places + 1 := ⟨b.scale - a.scale - 1, by omega⟩
  have hcross : a.coefficient * powerOfTen b.scale = b.coefficient * powerOfTen a.scale :=
    beq_iff_eq.1 ((equals_iff a b).2 hvalue)
  have hpower : powerOfTen b.scale = 10 * powerOfTen places * powerOfTen a.scale := by
    rw [hscale, Nat.add_assoc, Nat.add_comm]
    exact (Nat.pow_add 10 (places + 1) a.scale).trans (congrArg (· * _) Nat.pow_succ')
  have hcoefficient : b.coefficient = 10 * (a.coefficient * powerOfTen places) := by
    refine Int.eq_of_mul_eq_mul_right (Int.natCast_ne_zero.2 (powerOfTen_pos a.scale).ne') ?_
    rw [← hcross, hpower]
    push_cast
    ac_rfl
  rcases hb.places with hzero | hlast
  · omega
  · rw [← b.natAbs_coefficient] at hlast
    omega

theorem IsReduced.eq_of_value_eq {a b : Decimal} (ha : a.IsReduced) (hb : b.IsReduced) (hvalue : a.value = b.value) :
    a = b := by
  have hscale : a.scale = b.scale := Nat.le_antisymm (ha.scale_le hvalue.symm) (hb.scale_le hvalue)
  have hcross : a.coefficient * powerOfTen b.scale = b.coefficient * powerOfTen a.scale :=
    beq_iff_eq.1 ((equals_iff a b).2 hvalue)
  have hcoefficient : a.coefficient = b.coefficient := by
    rw [hscale] at hcross
    exact Int.eq_of_mul_eq_mul_right (Int.natCast_ne_zero.2 (powerOfTen_pos b.scale).ne') hcross
  rw [← unsignedZero_eq ha.unsigned, ← unsignedZero_eq hb.unsigned]
  simp only [unsignedZero, hcoefficient, hscale]

theorem normalized_eq_iff {a b : Decimal} : a.normalized = b.normalized ↔ a.value = b.value := by
  constructor
  · intro heq
    rw [← a.value_normalized, heq, value_normalized]
  · intro hvalue
    refine (isReduced_normalized a).eq_of_value_eq (isReduced_normalized b) ?_
    rw [value_normalized, value_normalized, hvalue]

end Decimal

end LineScript

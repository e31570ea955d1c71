/-!
# Decimal numbers

A number is a sign and a mantissa below `2 ^ 96` over a power of ten up to `10 ^ 28`. The scale belongs to
the number, and so does the sign of zero: `2.50` and `2.5` have the same value and are compared by it, and so are the
two zeros. Only `normalized` forgets the difference.
-/

namespace LineScript

def powerOfTen (n : Nat) : Nat :=
  Nat.pow 10 n

theorem powerOfTen_pos (n : Nat) : 0 < powerOfTen n :=
  Nat.pow_pos (by decide)

namespace Decimal

/-- What a mantissa stays below. -/
def bound : Nat := Nat.pow 2 96

def maxScale : Nat := 28

end Decimal

structure Decimal where
  /-- The sign, which zero has too. -/
  isNegative : Bool
  mantissa : Nat
  scale : Nat
  mantissa_lt : mantissa < Decimal.bound
  scale_le : scale ≤ Decimal.maxScale
deriving DecidableEq

namespace Decimal

/-- The mantissa with its sign. -/
def coefficient (a : Decimal) : Int :=
  if a.isNegative then -a.mantissa else a.mantissa

@[simp] theorem natAbs_coefficient (a : Decimal) : a.coefficient.natAbs = a.mantissa := by
  unfold coefficient
  split <;> simp

theorem coefficient_lt (a : Decimal) : a.coefficient.natAbs < bound :=
  a.natAbs_coefficient ▸ a.mantissa_lt

/-- The number `coefficient / 10 ^ scale`. Of the two zeros it is the one without a sign. -/
def ofCoefficient (coefficient : Int) (scale : Nat) (hcoefficient : coefficient.natAbs < bound)
    (hscale : scale ≤ maxScale) : Decimal :=
  ⟨decide (coefficient < 0), coefficient.natAbs, scale, hcoefficient, hscale⟩

@[simp] theorem coefficient_ofCoefficient {c : Int} {scale : Nat} (hc : c.natAbs < bound) (hscale : scale ≤ maxScale) :
    (ofCoefficient c scale hc hscale).coefficient = c := by
  simp only [ofCoefficient, coefficient, decide_eq_true_iff]
  omega

/-- The number `coefficient / 10 ^ scale`, if the type has room for it. -/
def make? (coefficient : Int) (scale : Nat) : Option Decimal :=
  if h : coefficient.natAbs < bound ∧ scale ≤ maxScale then some (ofCoefficient coefficient scale h.1 h.2) else none

/-- A natural number; all those above the largest number become it. -/
def ofNat (n : Nat) : Decimal :=
  ⟨false, min n (bound - 1), 0, by
    have hbound : 0 < bound := by decide
    omega, by decide⟩

def zero : Decimal := ofNat 0

def one : Decimal := ofNat 1

/-- The number with the other sign, which zero has too. -/
def neg (a : Decimal) : Decimal :=
  { a with isNegative := !a.isNegative }

@[simp] theorem coefficient_neg (a : Decimal) : a.neg.coefficient = -a.coefficient := by
  cases h : a.isNegative <;> simp [neg, coefficient, h]

def isZero (a : Decimal) : Bool :=
  a.mantissa == 0

/-! ### Order

Two numbers are compared on a common denominator, so the scales do not matter.
-/

def equals (a b : Decimal) : Bool :=
  a.coefficient * powerOfTen b.scale == b.coefficient * powerOfTen a.scale

def lt (a b : Decimal) : Bool :=
  a.coefficient * powerOfTen b.scale < b.coefficient * powerOfTen a.scale

/-! ### Whole and fractional part -/

/-- The number without its fraction, as an integer. -/
def truncated (a : Decimal) : Int :=
  a.coefficient.tdiv (powerOfTen a.scale)

def isInteger (a : Decimal) : Bool :=
  a.coefficient.tmod (powerOfTen a.scale) == 0

/-- The whole part as a number of scale zero, with the sign of the number. -/
def whole (a : Decimal) : Decimal :=
  ⟨a.isNegative, a.mantissa / powerOfTen a.scale, 0, Nat.lt_of_le_of_lt (Nat.div_le_self _ _) a.mantissa_lt,
    by decide⟩

@[simp] theorem coefficient_whole (a : Decimal) : a.whole.coefficient = a.truncated := by
  cases h : a.isNegative <;> simp [whole, truncated, coefficient, h]

@[simp] theorem truncated_whole (a : Decimal) : a.whole.truncated = a.truncated := by
  rw [truncated, coefficient_whole, show a.whole.scale = 0 from rfl, powerOfTen]
  simp

/-! ### Trailing zeros -/

/-- The number without its last digit, on a scale with one place less. -/
def dropDigit (a : Decimal) : Decimal :=
  ⟨a.isNegative, a.mantissa / 10, a.scale - 1, Nat.lt_of_le_of_lt (Nat.div_le_self _ _) a.mantissa_lt,
    Nat.le_trans (Nat.sub_le _ _) a.scale_le⟩

/-- Up to `n` trailing zeros of the fraction are dropped. -/
def dropZeros : Nat → Decimal → Decimal
  | 0, a => a
  | n + 1, a => if a.mantissa % 10 = 0 then dropZeros n a.dropDigit else a

/-- The representative of the value with the fewest digits, which for zero has no sign. -/
def normalized (a : Decimal) : Decimal :=
  if a.isZero then zero else dropZeros a.scale a

end Decimal

end LineScript

import LineScript.Decimal.Basic
import LineScript.Decimal.Rounding
/-!
# Arithmetic

Each operation takes the exact result and keeps as many decimal places as there is room for, rounding once
and half to even. It fails only when not even the integer part fits.
-/

namespace LineScript.Decimal

/-- `num / den` with the largest number of places up to `places` for which the coefficient fits. -/
def nearest? (num : Int) (den : Nat) : (places : Nat) → Option Decimal
  | 0 => make? (roundHalfEven num den) 0
  | places + 1 =>
      match make? (roundHalfEven (num * powerOfTen (places + 1)) den) (places + 1) with
      | some a => some a
      | none => nearest? num den places

/-- `num / 10 ^ scale`, as it is if it fits and else rounded. -/
def fit? (num : Int) (scale : Nat) : Option Decimal :=
  match make? num scale with
  | some a => some a
  | none => nearest? num (powerOfTen scale) (min scale maxScale)

/-- The coefficient that the number has on a scale at least its own. -/
def coefficientAt (a : Decimal) (scale : Nat) : Int :=
  if scale = a.scale then a.coefficient else a.coefficient * powerOfTen (scale - a.scale)

/-- Zero, however many places it has, leaves the other number as it is. -/
def add? (a b : Decimal) : Option Decimal :=
  if a.isZero then some b
  else if b.isZero then some a
  else
    let scale := max a.scale b.scale
    fit? (a.coefficientAt scale + b.coefficientAt scale) scale

def sub? (a b : Decimal) : Option Decimal :=
  add? a b.neg

def mul? (a b : Decimal) : Option Decimal :=
  fit? (a.coefficient * b.coefficient) (a.scale + b.scale)

/-- The nearest integer, with a tie going away from zero. -/
def rounded (a : Decimal) : Int :=
  roundHalfAway a.coefficient (powerOfTen a.scale)

end LineScript.Decimal

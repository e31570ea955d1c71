import LineScript.Decimal.Arithmetic
/-!
# Division

A quotient is rounded like every other result, at 28 places or as many as there is room for. How many places a quotient
has that comes out exactly depends on how it is found: long division brings digits down in groups of up to nine and
stops behind the group that leaves no rest, and some of the zeros at the end are then dropped.
-/

namespace LineScript.Decimal

/-- The most digits, up to `limit`, that fit behind a quotient. -/
def roomBehind (quotient : Nat) : (limit : Nat) → Nat
  | 0 => 0
  | limit + 1 => if quotient * powerOfTen (limit + 1) < bound then limit + 1 else roomBehind quotient limit

/-- The digits that long division brings down in one step. -/
def groupSize : Nat := 9

/-- The scale at which the division by `divisor` ends, from a quotient on a scale and the rest that it leaves. A scale
below zero means that the quotient still lacks digits before the point. -/
def divisionScale (divisor : Nat) : (steps quotient rest : Nat) → (scale : Int) → Nat
  | 0, _, _, scale => scale.toNat
  | steps + 1, quotient, rest, scale =>
      let group := roomBehind quotient (min groupSize (maxScale - scale).toNat)
      if rest = 0 ∨ group = 0 then scale.toNat
      else
        let rest := rest * powerOfTen group
        divisionScale divisor steps (quotient * powerOfTen group + rest / divisor) (rest % divisor) (scale + group)

/-- Up to `blocks` times eight zeros are dropped, each time only if the mantissa is a multiple of `2 ^ 32`. -/
def dropBlocks : (blocks : Nat) → Decimal → Decimal
  | 0, a => a
  | blocks + 1, a =>
      if a.mantissa % Nat.pow 2 32 = 0 ∧ a.mantissa % powerOfTen 8 = 0 ∧ 8 ≤ a.scale then
        dropBlocks blocks (dropZeros 8 a)
      else a

/-- A quotient that was developed beyond its integer part, without its zeros: whole blocks of eight, then up to
seven. -/
def trimmed (a : Decimal) : Decimal :=
  let a := dropBlocks (maxScale / 8) a
  dropZeros (min 7 a.scale) a

/-- The quotient; there is none by zero. -/
def div? (a b : Decimal) : Option Decimal :=
  if b.isZero then none
  else
    let divisor := b.mantissa
    let quotient := a.mantissa / divisor
    let rest := a.mantissa % divisor
    let scale := divisionScale divisor (2 * maxScale) quotient rest ((a.scale : Int) - b.scale)
    let num := a.coefficient * b.coefficient.sign * powerOfTen b.scale
    let result := nearest? num (divisor * powerOfTen a.scale) scale
    if rest = 0 then result else result.map trimmed

end LineScript.Decimal

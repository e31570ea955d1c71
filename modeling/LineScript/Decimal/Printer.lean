import LineScript.Decimal.Basic
/-!
# Decimal notation

A number is written as its integer part and, behind a point, exactly as many digits as its scale. Every number that
has the negative sign is written with it.
-/

namespace LineScript

def digitChar (n : Nat) : Char :=
  Char.ofNat ('0'.toNat + n % 10)

/-- The digits of a natural number, without leading zeros. -/
def digits (n : Nat) : List Char :=
  if n < 10 then [digitChar n] else digits (n / 10) ++ [digitChar n]
termination_by n

/-- The last `width` digits of a natural number, with leading zeros. -/
def paddedDigits : (width : Nat) → Nat → List Char
  | 0, _ => []
  | width + 1, n => paddedDigits width (n / 10) ++ [digitChar n]

namespace Decimal

/-- The notation of a magnitude with `scale` places. -/
def magnitudeChars (n scale : Nat) : List Char :=
  if scale = 0 then digits n
  else digits (n / powerOfTen scale) ++ '.' :: paddedDigits scale (n % powerOfTen scale)

def chars (a : Decimal) : List Char :=
  let magnitude := magnitudeChars a.mantissa a.scale
  if a.isNegative then '-' :: magnitude else magnitude

def text (a : Decimal) : String :=
  String.ofList a.chars

end Decimal

end LineScript

/-!
# Rounding a quotient

The two ways in which the number type rounds a fraction to an integer. Both take the nearest integer;
they differ on a tie, which goes to the even neighbour or away from zero.
-/

namespace LineScript

/-- The integer nearest to `num / den`; of two equally near ones, the even one. -/
def roundHalfEven (num : Int) (den : Nat) : Int :=
  let below := num / den
  let rest := num % den
  if 2 * rest < den then below
  else if den < 2 * rest then below + 1
  else if below % 2 = 0 then below
  else below + 1

/-- The integer nearest to `num / den`; of two equally near ones, the one farther from zero. -/
def roundHalfAway (num : Int) (den : Nat) : Int :=
  num.sign * ((2 * num.natAbs + den) / (2 * den) : Nat)

end LineScript

import LineScript.Decimal.Arithmetic
/-!
# Reading a number

A plain number is an optional sign and digits with at most one point among them; underscores may stand
behind the first digit. Digits of the fraction that the type has no room for are cut off, and the first of them
rounds, half up. A number in scientific notation is a plain one, a mark and an exponent.

An underscore right behind the last place that there is room for counts. Behind a narrow coefficient it stands for a
digit zero and ends the number. Behind a wide one it is passed over, and the digit behind it rounds.
-/

namespace LineScript.Decimal

def digitValue? (c : Char) : Option Nat :=
  if '0' ≤ c ∧ c ≤ '9' then some (c.toNat - '0'.toNat) else none

/-- The magnitude when the digits from `digit` on are cut off. The first of them rounds half up, and a coefficient that
grows out of its bound gives up one more place. -/
def cut? (coefficient scale digit : Nat) : Option (Nat × Nat) :=
  if digit < 5 then some (coefficient, scale)
  else if coefficient + 1 < bound then some (coefficient + 1, scale)
  else if scale = 0 then none
  else some ((coefficient + 5) / 10, scale - 1)

/-- What may stand behind the first digit of a fraction. -/
def continuesFraction (c : Char) : Bool :=
  (digitValue? c).isSome || c == '_'

/-- What a coefficient stays below that is read in one word of 64 bits, with room to spare for its next digit. -/
def narrowBound : Nat := (Nat.pow 2 64 - 1) / 10 - 255

/-- Whether a coefficient was too large for one word before its last digit. -/
def isWide (coefficient : Nat) : Bool :=
  narrowBound ≤ coefficient / 10

/-- The magnitude of an unsigned plain number, from the coefficient and the scale read so far. `started` says
that a digit has been read, and `fraction` that the point has. -/
def magnitude? (started fraction : Bool) (coefficient scale : Nat) : List Char → Option (Nat × Nat)
  | [] => if started then some (coefficient, scale) else none
  | c :: rest =>
      match digitValue? c with
      | some digit =>
          if coefficient * 10 + digit < bound ∧ (fraction → scale < maxScale) then
            magnitude? true fraction (coefficient * 10 + digit) (if fraction then scale + 1 else 0) rest
          else if fraction ∧ rest.all continuesFraction then cut? coefficient scale digit
          else none
      | none =>
          if c = '.' ∧ ¬ fraction then magnitude? started true coefficient scale rest
          else if c = '_' ∧ started then
            if scale < maxScale ∨ isWide coefficient then magnitude? started fraction coefficient scale rest
            else if rest.all continuesFraction then cut? coefficient scale 0
            else none
          else none

def ofMagnitude? (negative : Bool) (magnitude : Option (Nat × Nat)) : Option Decimal :=
  magnitude.bind fun (coefficient, scale) =>
    make? (if negative then -(coefficient : Int) else coefficient) scale

def plain? : List Char → Option Decimal
  | '-' :: rest => ofMagnitude? true (magnitude? false false 0 0 rest)
  | '+' :: rest => ofMagnitude? false (magnitude? false false 0 0 rest)
  | text => ofMagnitude? false (magnitude? false false 0 0 text)

/-! ### Scientific notation -/

/-- The value of a nonempty run of digits, below `2 ^ 32`. -/
def unsigned? (value : Nat) : List Char → Option Nat
  | [] => some value
  | c :: rest =>
      (digitValue? c).bind fun digit =>
        if value * 10 + digit < Nat.pow 2 32 then unsigned? (value * 10 + digit) rest else none

/-- An exponent without its minus sign: a plus sign may stand before the digits. -/
def exponent? : List Char → Option Nat
  | [] => none
  | ['+'] => none
  | '+' :: rest => unsigned? 0 rest
  | text => unsigned? 0 text

/-- `a / 10 ^ exponent`. Places beyond the largest scale are rounded away, half away from zero. -/
def shiftDown? (a : Decimal) (exponent : Nat) : Option Decimal :=
  if maxScale < exponent then none
  else if a.scale + exponent ≤ maxScale then make? a.coefficient (a.scale + exponent)
  else make? (roundHalfAway a.coefficient (powerOfTen (a.scale + exponent - maxScale))) maxScale

/-- `a * 10 ^ exponent`. A number that has to grow for it is left with its fewest digits. -/
def shiftUp? (a : Decimal) (exponent : Nat) : Option Decimal :=
  if exponent ≤ a.scale then make? a.coefficient (a.scale - exponent)
  else if maxScale < exponent then none
  else ((make? (powerOfTen exponent) 0).bind a.mul?).map normalized

def isExponentMark (c : Char) : Bool :=
  c == 'e' || c == 'E'

def scientific? (text : List Char) : Option Decimal :=
  (plain? (text.takeWhile (!isExponentMark ·))).bind fun base =>
    match text.dropWhile (!isExponentMark ·) with
    | _ :: '-' :: rest => (exponent? rest).bind base.shiftDown?
    | _ :: rest => (exponent? rest).bind base.shiftUp?
    | [] => none

def ofChars? (text : List Char) : Option Decimal :=
  (plain? text).or (scientific? text)

end LineScript.Decimal

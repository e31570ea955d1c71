import LineScript.Action
import LineScript.Decimal.Division
import LineScript.Heap.Rendering
/-!
# Strings and arrays as sequences

What strings and arrays have in common: a length, a reverse, slices and repetitions. Each operation is the same on the
characters of a string as on the items of an array, and the result of one on an array is a new array.
-/

namespace LineScript

/-- The content of a string or an array. -/
inductive Sequence where
  | text (s : String)
  | items (xs : Array Value)

namespace Sequence

def length : Sequence → Nat
  | text s => s.length
  | items xs => xs.size

def reversed : Sequence → Sequence
  | text s => text (String.ofList s.toList.reverse)
  | items xs => items xs.reverse

/-- The part from place `start` up to, and without, place `stop`. -/
def part (start stop : Nat) : Sequence → Sequence
  | text s => text (String.ofList ((s.toList.drop start).take (stop - start)))
  | items xs => items (xs.extract start stop)

/-- A sequence with nothing in it. -/
def cleared : Sequence → Sequence
  | text _ => text ""
  | items _ => items #[]

end Sequence

/-- `copies` times `s` behind `text`. -/
def appendCopies (s : String) : (copies : Nat) → (text : String) → String
  | 0, text => text
  | copies + 1, text => appendCopies s copies (text ++ s)

/-- `copies` times `xs` behind `items`. -/
def appendItems (xs : Array Value) : (copies : Nat) → (items : Array Value) → Array Value
  | 0, items => items
  | copies + 1, items => appendItems xs copies (items ++ xs)

namespace Sequence

/-- The sequence `copies` times, and its first `tail` places once more. -/
def copied (copies tail : Nat) : Sequence → Sequence
  | text s => text (appendCopies s copies "" ++ String.ofList (s.toList.take tail))
  | items xs => items (appendItems xs copies #[] ++ xs.take tail)

end Sequence

namespace Heap

def sequence? (h : Heap) : Value → Option Sequence
  | .string s => some (.text s)
  | .array id => some (.items (h.items id))
  | _ => none

end Heap

/-- One more than the largest integer of 64 bits. -/
def wordBound : Nat := Nat.pow 2 63

/-- The nearest integer of 64 bits. -/
def saturated (n : Int) : Int :=
  max (-wordBound) (min n (wordBound - 1))

namespace Operation

def makeArray (items : Array Value) : Action Heap Value :=
  modifyGet (·.newArray items)

/-- Makes a value of a sequence; an array is a new one. -/
def ofSequence : Sequence → Action Heap Value
  | .text s => return .string s
  | .items xs => makeArray xs

def checkLength (length : Nat) : Action Heap Unit :=
  if length ≤ maxLength then pure () else raise .lengthLimit

/-! ### Lengths that may not fit a word

A length is a natural number below `2 ^ 64`. What is computed of lengths may be none, and then it is too long.
-/

def sizeBound : Nat := Nat.pow 2 64

/-- An integer as a length. -/
def toSize? (n : Int) : Option Nat :=
  if 0 ≤ n ∧ n < sizeBound then some n.toNat else none

def checkedAdd? (m n : Nat) : Option Nat :=
  if m + n < sizeBound then some (m + n) else none

def checkedMul? (m n : Nat) : Option Nat :=
  if m * n < sizeBound then some (m * n) else none

theorem eq_of_toSize? {n : Int} {k : Nat} (hk : toSize? n = some k) : k = n.toNat := by
  unfold toSize? at hk
  split at hk
  · exact (Option.some.inj hk).symm
  · cases hk

theorem eq_of_checkedAdd? {m n k : Nat} (hk : checkedAdd? m n = some k) : k = m + n := by
  unfold checkedAdd? at hk
  split at hk
  · exact (Option.some.inj hk).symm
  · cases hk

theorem eq_of_checkedMul? {m n k : Nat} (hk : checkedMul? m n = some k) : k = m * n := by
  unfold checkedMul? at hk
  split at hk
  · exact (Option.some.inj hk).symm
  · cases hk

theorem maxLength_lt_sizeBound : maxLength < sizeBound := by
  decide

theorem toSize?_of_fits {n : Int} (hnonneg : 0 ≤ n) (hfits : n.toNat ≤ maxLength) : toSize? n = some n.toNat := by
  have hbound := maxLength_lt_sizeBound
  exact if_pos (by omega)

theorem checkedAdd?_of_fits {m n : Nat} (hfits : m + n ≤ maxLength) : checkedAdd? m n = some (m + n) :=
  if_pos (Nat.lt_of_le_of_lt hfits maxLength_lt_sizeBound)

theorem checkedMul?_of_fits {m n : Nat} (hfits : m * n ≤ maxLength) : checkedMul? m n = some (m * n) :=
  if_pos (Nat.lt_of_le_of_lt hfits maxLength_lt_sizeBound)

/-- A length that could be computed and is within the limit. -/
def checkedLength (length : Option Nat) : Action Heap Nat := do
  let length ← orRaise .lengthLimit length
  checkLength length
  return length

theorem checkedLength_of_fits {n : Nat} (hfits : n ≤ maxLength) : checkedLength (some n) = pure n := by
  rw [checkedLength, orRaise, pure_bind, checkLength, if_pos hfits, pure_bind]

theorem checkedLength_of_long {length : Option Nat} (hlong : ∀ n ∈ length, maxLength < n) :
    checkedLength length = raise .lengthLimit := by
  cases length with
  | none => rfl
  | some n =>
      rw [checkedLength, orRaise, pure_bind, checkLength, if_neg (Nat.not_le.2 (hlong n rfl))]
      rfl

def sequence (v : Value) : Action Heap Sequence := do
  orRaise (.noLength v.tag) ((← get).sequence? v)

def length (v : Value) : Action Heap Value := do
  return .number (.ofNat (← sequence v).length)

def reverse (v : Value) : Action Heap Value := do
  match (← get).sequence? v with
  | some s => ofSequence s.reversed
  | none => raise (.cannotReverse v.tag)

def number (role : NumberRole) : Value → Action Heap Decimal
  | .number n => return n
  | v => raise (.notNumber role v.tag)

/-- A start before the first place counts back from the end. -/
def sliceStart (length start : Int) : Nat :=
  let start := if start < 0 then saturated (length + start) else start
  (max 0 (min start (max (length - 1) 0))).toNat

/-- A negative stop counts back from the place behind the end, so that `-1` is the end. -/
def sliceStop (length stop : Int) : Nat :=
  let stop := if stop < 0 then saturated (saturated (length + stop) + 1) else stop
  (max 0 (min stop length)).toNat

/-- The content of a value that has to be a string or an array. -/
def content (v : Value) : Action Heap Sequence := do
  match (← get).sequence? v with
  | some s => return s
  | none => throw (.fault (.notSequence v.tag))

def slice (v start stop : Value) : Action Heap Value := do
  let length := (← sequence v).length
  let start ← number .sliceStart start
  let stop ← number .sliceEnd stop
  let s ← content v
  ofSequence (s.part (sliceStart length (saturated start.truncated)) (sliceStop length (saturated stop.truncated)))

def unfailing {α : Type} : Option α → Action Heap α
  | some a => pure a
  | none => throw (.fault .arithmeticOverflow)

/-- How many places of a sequence stand for the fraction of a count. -/
def fractionalPlaces (length : Nat) (count : Decimal) : Action Heap Nat := do
  let fraction ← unfailing (count.sub? count.whole)
  let places ← unfailing ((Decimal.ofNat length).mul? fraction)
  return min ((toSize? places.rounded).getD length) length

/-- The length of as many copies and of the places behind them. -/
def copiedLength? (length : Nat) (copies : Option Nat) (tail : Nat) : Option Nat :=
  (copies.bind (checkedMul? length)).bind (checkedAdd? · tail)

theorem eq_of_copiedLength? {length tail n : Nat} {copies : Option Nat}
    (hn : copiedLength? length copies tail = some n) : n = length * copies.getD 0 + tail := by
  obtain ⟨copied, hcopied, hadd⟩ := Option.bind_eq_some_iff.1 hn
  obtain ⟨count, rfl, hmul⟩ := Option.bind_eq_some_iff.1 hcopied
  rw [eq_of_checkedAdd? hadd, eq_of_checkedMul? hmul, Option.getD_some]

/-- A sequence as often as a count says that is not negative. A fraction of the count takes the same fraction of the
sequence's places. -/
def repeatedUpwards (s : Sequence) (count : Decimal) : Action Heap Value :=
  if count.isZero || s.length == 0 then ofSequence s.cleared
  else do
    let tail ← fractionalPlaces s.length count
    let copies := toSize? count.whole.truncated
    let _ ← checkedLength (copiedLength? s.length copies tail)
    ofSequence (s.copied (copies.getD 0) tail)

/-- A negative count repeats the reverse. Zero is not negative, whatever its sign. -/
def repeated (s : Sequence) (count : Decimal) : Action Heap Value :=
  if count.isNegative && !count.isZero then repeatedUpwards s.reversed count.neg
  else repeatedUpwards s count

def repetition (v count : Value) : Action Heap Value := do
  if ((← get).sequence? v).isNone then raise (.cannotRepeat v.tag)
  else
    let count ← number .repeatCount count
    repeated (← content v) count

/-! ### Ranges -/

/-- `count` more numbers at distance `step`, from the one behind `current` on. -/
def steps (step : Decimal) : (count : Nat) → (current : Decimal) → (items : Array Value) → Option (Array Value)
  | 0, _, items => some items
  | count + 1, current, items =>
      (current.add? step).bind fun next => steps step count next (items.push (.number next))

/-- How many numbers a range over a distance has: one more than there are whole steps. -/
def numberCount? (distance step : Decimal) : Option Nat :=
  ((distance.div? step).bind fun quotient => toSize? quotient.whole.truncated).bind (checkedAdd? · 1)

/-- The number of steps from one number to another, without the last that is not whole. -/
def stepCount (distance step : Decimal) : Action Heap Nat := do
  return (← checkedLength (numberCount? distance step)) - 1

/-- The numbers from `first` to `last`, both included, at distance `step`. A step that leads away from `last` leads
nowhere. -/
def rangeBy (first last step : Decimal) : Action Heap Value := do
  if last.equals first then makeArray #[.number first]
  else if step.isZero then raise .zeroStep
  else
    let distance ← orRaise .numberOverflow (last.sub? first)
    if distance.isNegative != step.isNegative then makeArray #[]
    else
      let count ← stepCount distance step
      makeArray (← orRaise .numberOverflow (steps step count first #[.number first]))

/-- Without a step, a range goes by one towards its end. -/
def range (first last : Value) (step : Option Value) : Action Heap Value := do
  let first ← number .rangeStart first
  let last ← number .rangeEnd last
  match step with
  | some step => rangeBy first last (← number .rangeStep step)
  | none => rangeBy first last (if last.lt first then Decimal.one.neg else .one)

end Operation

end LineScript

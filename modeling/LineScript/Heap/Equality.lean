import LineScript.Heap
/-!
# Equality of values

Numbers are equal by value, whatever their scale; arrays when they have equal items; objects and functions when they
are the same one. Arrays may contain themselves: a pair of arrays met again inside its own comparison counts as
equal there, so that the comparison ends, and two cyclic arrays are equal when no difference can be reached.
-/

namespace LineScript

/-- The pairs of arrays whose comparison is in progress, the innermost first. -/
abbrev Comparing := List (ArrayId × ArrayId)

/-- A comparison works on the stack of the pairs in progress. It has no answer if its fuel ends first. -/
abbrev Comparison := StateT Comparing Option

namespace Comparison

/-- The comparison of a pair, which is on the stack for as long as that takes. A pair that is on it already counts
as equal. -/
def visit (pair : ArrayId × ArrayId) (compare : Comparison Bool) : Comparison Bool := do
  if pair ∈ (← get) then return true
  modify (pair :: ·)
  let same ← compare
  modify List.tail
  return same

/-- Pair after pair, up to the first that differs. -/
def all (compare : Value → Value → Comparison Bool) : List (Value × Value) → Comparison Bool
  | [] => return true
  | (x, y) :: rest => do
      if ← compare x y then all compare rest else return false

def sequences (compare : Value → Value → Comparison Bool) (xs ys : Array Value) : Comparison Bool :=
  if xs.size = ys.size then all compare (xs.toList.zip ys.toList) else return false

end Comparison

/-- The equality of two values that are not both arrays. -/
def Value.same : Value → Value → Bool
  | none, none => true
  | bool a, bool b => a == b
  | number a, number b => a.equals b
  | string a, string b => a == b
  | object a, object b => a == b
  | function a, function b => a == b
  | _, _ => false

namespace Heap

def comparison (h : Heap) (fuel : Nat) : Value → Value → Comparison Bool
  | .array a, .array b =>
      if a = b then return true
      else
        match fuel with
        | 0 => failure
        | fuel + 1 => Comparison.visit (a, b) (Comparison.sequences (h.comparison fuel) (h.items a) (h.items b))
  | x, y => return x.same y

/-- What bounds a comparison: the stack holds each pair of arrays at most once. -/
def comparisonFuel (h : Heap) : Nat :=
  h.arrays.size * h.arrays.size + 1

def equal (h : Heap) (x y : Value) : Bool :=
  (h.comparison h.comparisonFuel x y).run' [] == some true

end Heap

end LineScript

import LineScript.Heap.Equality
import LineScript.Operation.Conversion
/-!
# Comparisons

Numbers are ordered by value and strings by their characters. No other two values are before or behind each other,
but equal values are at most and at least each other.
-/

namespace LineScript

namespace Value

def less : Value → Value → Bool
  | number a, number b => a.lt b
  | string a, string b => a < b
  | _, _ => false

def greater : Value → Value → Bool
  | number a, number b => b.lt a
  | string a, string b => b < a
  | _, _ => false

end Value

namespace Operation

def equals (x y : Value) : Action Heap Value :=
  return .bool ((← get).equal x y)

def notEquals (x y : Value) : Action Heap Value :=
  return .bool !((← get).equal x y)

def less (x y : Value) : Action Heap Value :=
  return .bool (x.less y)

def greater (x y : Value) : Action Heap Value :=
  return .bool (x.greater y)

/-- Whether another comparison of two values has answered that it holds, or they are equal. -/
def orEquals (answer x y : Value) : Action Heap Value := do
  return .bool ((← payload answer.asBool) || (← get).equal x y)

def lessEquals (x y : Value) : Action Heap Value := do
  orEquals (← less x y) x y

def greaterEquals (x y : Value) : Action Heap Value := do
  orEquals (← greater x y) x y

end Operation

end LineScript

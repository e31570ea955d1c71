import LineScript.Operation.Sequence
/-!
# Operators

Every operator takes operands that have been evaluated. It reads the heap and at most adds an array to it.
-/

namespace LineScript.Operation

def negate : Value → Action Heap Value
  | .number n => return .number n.neg
  | v => raise (.cannotNegate v.tag)

def not : Value → Action Heap Value
  | .bool b => return .bool !b
  | v => raise (.cannotNot v.tag)

/-- The sum of numbers, one array behind another, or, if either side is a string, the text of both. -/
def add (x y : Value) : Action Heap Value := do
  match x, y with
  | .string _, _ | _, .string _ =>
      let h ← get
      let text := h.display x ++ h.display y
      checkLength text.length
      return .string text
  | .number a, .number b => return .number (← orRaise .numberOverflow (a.add? b))
  | .array a, .array b =>
      let h ← get
      let _ ← checkedLength (checkedAdd? (h.items a).size (h.items b).size)
      makeArray (h.items a ++ h.items b)
  | _, _ => raise (.operandTypes "+" x.tag y.tag)

def subtract : Value → Value → Action Heap Value
  | .number a, .number b => return .number (← orRaise .numberOverflow (a.sub? b))
  | x, y => raise (.operandTypes "-" x.tag y.tag)

/-- The product of numbers, or a string or array repeated. -/
def multiply (x y : Value) : Action Heap Value := do
  match x, y with
  | .number a, .number b => return .number (← orRaise .numberOverflow (a.mul? b))
  | .string _, .number _ | .array _, .number _ => repetition x y
  | _, _ => raise (.operandTypes "*" x.tag y.tag)

def divide : Value → Value → Action Heap Value
  | .number a, .number b => do
      if b.isZero then raise .divisionByZero
      return .number (← orRaise .numberOverflow (a.div? b))
  | x, y => raise (.operandTypes "/" x.tag y.tag)

end LineScript.Operation
